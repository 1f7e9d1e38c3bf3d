import Mathlib.Control.Basic
import Mathlib.Logic.Basic
import Mathlib.Data.Nat.Notation

/-!
# Programs over a signature of operations

A program either returns or performs one operation and goes on with its answer.
Nothing is said about what an operation does, so one program text has several
meanings and all of them are derived from the same definition:

* `Trace` — the program against **any** environment: every sequence of answers;
* `exec` — the program against one `Handler` with a state of its own;
* `execFor` — the same, stopped after a number of operations, as a crash or a
  dropped future stops it.

Programs are well-founded trees, so no run of any of these goes on for ever.

`Meets φ Q` is the specification that goes with `Trace`: every operation the
program can perform satisfies `φ` and every value it can return satisfies `Q`.
It composes along `>>=` (`Meets.bind`) and speaks about every trace
(`Meets.of_trace`).
-/

namespace Effect

/-- The operations a program may perform, with the type of each one's answer. -/
structure Signature where
  /-- The operations. -/
  Op : Type
  /-- What an operation answers. -/
  Res : Op → Type

/-- A program: a value, or an operation and the program that its answer selects. -/
inductive Prog (S : Signature) (α : Type) : Type where
  | ret (a : α) : Prog S α
  | op (o : S.Op) (k : S.Res o → Prog S α) : Prog S α

variable {S : Signature} {α β γ σ : Type}

namespace Prog

/-- Run `p`, then the program its value selects. -/
protected def bind : Prog S α → (α → Prog S β) → Prog S β
  | ret a, f => f a
  | op o k, f => op o fun r => (k r).bind f

instance : Monad (Prog S) where
  pure := ret
  bind := Prog.bind

/-- The value of a program that has come to its end. -/
def value : Prog S α → Option α
  | ret a => some a
  | op _ _ => none

theorem eq_ret_of_value {p : Prog S α} {a : α} (h : p.value = some a) : p = ret a := by
  cases p with
  | ret b => exact congrArg ret (Option.some.inj h)
  | op o k => cases h

/-- A single operation. -/
def call (o : S.Op) : Prog S (S.Res o) := op o ret

@[simp] theorem ret_bind (a : α) (f : α → Prog S β) : (ret a >>= f) = f a := rfl

@[simp] theorem op_bind (o : S.Op) (k : S.Res o → Prog S α) (f : α → Prog S β) :
    (op o k >>= f) = op o fun r => k r >>= f := rfl

theorem bind_ret (p : Prog S α) : (p >>= ret) = p := by
  induction p with
  | ret a => rfl
  | op o k ih => exact congrArg (op o) (funext ih)

theorem bind_assoc (p : Prog S α) (f : α → Prog S β) (g : β → Prog S γ) :
    (p >>= f) >>= g = p >>= fun a => f a >>= g := by
  induction p with
  | ret a => rfl
  | op o k ih => exact congrArg (op o) (funext ih)

instance : LawfulMonad (Prog S) :=
  LawfulMonad.mk' (Prog S) bind_ret (fun _ _ => rfl) bind_assoc

end Prog

/-! ## Any environment -/

/-- An operation together with the answer it got. -/
abbrev Event (S : Signature) := (o : S.Op) × S.Res o

/-- `Trace p es a`: with the answers in `es`, program `p` performs exactly the
operations of `es` and returns `a`. -/
inductive Trace : Prog S α → List (Event S) → α → Prop
  | ret (a : α) : Trace (.ret a) [] a
  | op {o : S.Op} {k : S.Res o → Prog S α} {r : S.Res o} {es : List (Event S)}
      {a : α} (rest : Trace (k r) es a) : Trace (.op o k) (⟨o, r⟩ :: es) a

namespace Trace

@[simp] theorem ret_iff {a b : α} {es : List (Event S)} :
    Trace (.ret a) es b ↔ es = [] ∧ b = a := by
  constructor
  · rintro ⟨⟩
    exact ⟨rfl, rfl⟩
  · rintro ⟨rfl, rfl⟩
    exact .ret b

@[simp] theorem op_iff {o : S.Op} {k : S.Res o → Prog S α} {es : List (Event S)}
    {a : α} :
    Trace (.op o k) es a ↔ ∃ r es', es = ⟨o, r⟩ :: es' ∧ Trace (k r) es' a := by
  constructor
  · rintro (_ | @⟨_, _, r, es', _, h⟩)
    exact ⟨r, es', rfl, h⟩
  · rintro ⟨r, es', rfl, h⟩
    exact .op h

/-- A trace of a sequence is a trace of the first part followed by a trace of
the second. -/
theorem bind_iff {p : Prog S α} {f : α → Prog S β} {es : List (Event S)} {b : β} :
    Trace (p >>= f) es b ↔
      ∃ es₁ a es₂, es = es₁ ++ es₂ ∧ Trace p es₁ a ∧ Trace (f a) es₂ b := by
  induction p generalizing es with
  | ret a =>
      simp only [Prog.ret_bind, ret_iff]
      constructor
      · intro h
        exact ⟨[], a, es, rfl, ⟨rfl, rfl⟩, h⟩
      · rintro ⟨_, _, _, rfl, ⟨rfl, rfl⟩, h⟩
        exact h
  | op o k ih =>
      simp only [Prog.op_bind, op_iff, ih]
      constructor
      · rintro ⟨r, _, rfl, es₁, a, es₂, rfl, h₁, h₂⟩
        exact ⟨⟨o, r⟩ :: es₁, a, es₂, rfl, ⟨r, es₁, rfl, h₁⟩, h₂⟩
      · rintro ⟨_, a, es₂, rfl, ⟨r, es₁, rfl, h₁⟩, h₂⟩
        exact ⟨r, es₁ ++ es₂, rfl, es₁, a, es₂, rfl, h₁, h₂⟩

/-- **Totality.**  Against every environment, even one that answers by looking
at everything that happened before, a program has a trace. -/
theorem exists_of_strategy (answer : List (Event S) → (o : S.Op) → S.Res o)
    (p : Prog S α) (past : List (Event S)) :
    ∃ es a, Trace p es a ∧
      ∀ pre e post, es = pre ++ e :: post → e.2 = answer (past ++ pre) e.1 := by
  induction p generalizing past with
  | ret a =>
      refine ⟨[], a, .ret a, ?_⟩
      intro pre e post h
      simp at h
  | op o k ih =>
      obtain ⟨es, a, htrace, hes⟩ :=
        ih (answer past o) (past ++ [⟨o, answer past o⟩])
      refine ⟨_, a, .op htrace, ?_⟩
      intro pre e post h
      cases pre with
      | nil =>
          obtain ⟨rfl, -⟩ := List.cons.inj h
          simp
      | cons e' pre =>
          obtain ⟨rfl, htail⟩ := List.cons.inj h
          simpa using hes pre e post htail

end Trace

/-- Every operation `p` can perform satisfies `φ`, and every value it can return
satisfies `Q`. -/
def Meets (φ : S.Op → Prop) (Q : α → Prop) : Prog S α → Prop
  | .ret a => Q a
  | .op o k => φ o ∧ ∀ r, Meets φ Q (k r)

namespace Meets

variable {φ ψ : S.Op → Prop} {Q R : α → Prop}

@[simp] theorem ret_iff {a : α} : Meets φ Q (.ret a : Prog S α) ↔ Q a := Iff.rfl

@[simp] theorem op_iff {o : S.Op} {k : S.Res o → Prog S α} :
    Meets φ Q (.op o k) ↔ φ o ∧ ∀ r, Meets φ Q (k r) := Iff.rfl

theorem mono {p : Prog S α} (h : Meets φ Q p) (hφ : ∀ o, φ o → ψ o)
    (hQ : ∀ a, Q a → R a) : Meets ψ R p := by
  induction p with
  | ret a => exact hQ a h
  | op o k ih => exact ⟨hφ o h.1, fun r => ih r (h.2 r)⟩

theorem bind {p : Prog S α} {f : α → Prog S β} {T : β → Prop} (h : Meets φ Q p)
    (hf : ∀ a, Q a → Meets φ T (f a)) : Meets φ T (p >>= f) := by
  induction p with
  | ret a => exact hf a h
  | op o k ih => exact ⟨h.1, fun r => ih r (h.2 r)⟩

/-- What `Meets` says about a trace. -/
theorem of_trace {p : Prog S α} (h : Meets φ Q p) {es : List (Event S)} {a : α}
    (ht : Trace p es a) : (∀ e ∈ es, φ e.1) ∧ Q a := by
  induction ht with
  | ret a => exact ⟨by simp, h⟩
  | op rest ih =>
      obtain ⟨hes, hQ⟩ := ih (h.2 _)
      exact ⟨by simpa using ⟨h.1, hes⟩, hQ⟩

end Meets

/-- On no path does `p` perform more than `n` operations that `c` counts. -/
def AtMost (c : S.Op → Bool) : Prog S α → ℕ → Prop
  | .ret _, _ => True
  | .op o k, n =>
      if c o then ∃ m, n = m + 1 ∧ ∀ r, AtMost c (k r) m else ∀ r, AtMost c (k r) n

namespace AtMost

variable {c : S.Op → Bool}

@[simp] theorem ret_iff {a : α} {n : ℕ} : AtMost c (.ret a : Prog S α) n ↔ True := Iff.rfl

theorem op_counted {o : S.Op} {k : S.Res o → Prog S α} {n : ℕ} (hc : c o = true)
    (hk : ∀ r, AtMost c (k r) n) : AtMost c (.op o k) (n + 1) := by
  unfold AtMost
  rw [if_pos hc]
  exact ⟨n, rfl, hk⟩

theorem op_free {o : S.Op} {k : S.Res o → Prog S α} {n : ℕ} (hc : c o = false)
    (hk : ∀ r, AtMost c (k r) n) : AtMost c (.op o k) n := by
  unfold AtMost
  rw [if_neg (by simp [hc])]
  exact hk

/-- A program whose operations are not counted stays within every bound, and so
does what follows it. -/
theorem free_bind {φ : S.Op → Prop} {Q : α → Prop} {p : Prog S α} {f : α → Prog S β} {n : ℕ}
    (hp : Meets φ Q p) (hφ : ∀ o, φ o → c o = false) (hf : ∀ a, Q a → AtMost c (f a) n) :
    AtMost c (p >>= f) n := by
  induction p with
  | ret a => exact hf a hp
  | op o k ih => exact op_free (hφ o hp.1) fun r => ih r (hp.2 r)

theorem mono {p : Prog S α} {m n : ℕ} (h : AtMost c p m) (hmn : m ≤ n) : AtMost c p n := by
  induction p generalizing m n with
  | ret a => trivial
  | op o k ih =>
      unfold AtMost at h
      cases hc : c o with
      | true =>
          rw [if_pos hc] at h
          obtain ⟨m, rfl, hk⟩ := h
          obtain ⟨n, rfl⟩ : ∃ n', n = n' + 1 := ⟨n - 1, by omega⟩
          exact op_counted hc fun r => ih r (hk r) (by omega)
      | false =>
          rw [if_neg (by simp [hc])] at h
          exact op_free hc fun r => ih r (h r) hmn

/-- The bounds of the two parts of a sequence add up. -/
theorem bind {p : Prog S α} {f : α → Prog S β} {m n : ℕ} (hp : AtMost c p m)
    (hf : ∀ a, AtMost c (f a) n) : AtMost c (p >>= f) (m + n) := by
  induction p generalizing m with
  | ret a => exact mono (hf a) (Nat.le_add_left n m)
  | op o k ih =>
      unfold AtMost at hp
      cases hc : c o with
      | true =>
          rw [if_pos hc] at hp
          obtain ⟨m, rfl, hk⟩ := hp
          rw [Nat.succ_add]
          exact op_counted hc fun r => ih r (hk r)
      | false =>
          rw [if_neg (by simp [hc])] at hp
          exact op_free hc fun r => ih r (hp r)

/-- What `AtMost` says about a trace. -/
theorem of_trace {p : Prog S α} {n : ℕ} (h : AtMost c p n) {es : List (Event S)} {a : α}
    (ht : Trace p es a) : es.countP (fun e => c e.1) ≤ n := by
  induction ht generalizing n with
  | ret a => simp
  | @op o k r es a rest ih =>
      unfold AtMost at h
      cases hc : c o with
      | true =>
          rw [if_pos hc] at h
          obtain ⟨m, rfl, hk⟩ := h
          rw [List.countP_cons_of_pos (by simpa using hc)]
          exact Nat.succ_le_succ (ih (hk r))
      | false =>
          rw [if_neg (by simp [hc])] at h
          rw [List.countP_cons_of_neg (by simp [hc])]
          exact ih (h r)

end AtMost

/-! ## One environment with a state -/

/-- An environment that keeps a state: what each operation answers and leaves. -/
abbrev Handler (S : Signature) (σ : Type) := (o : S.Op) → σ → S.Res o × σ

/-- The program run to its end. -/
def exec (h : Handler S σ) : Prog S α → σ → α × σ
  | .ret a, s => (a, s)
  | .op o k, s => exec h (k (h o s).1) (h o s).2

/-- The state after the first `n` operations of the program, or after all of
them when there are fewer. -/
def execFor (h : Handler S σ) : ℕ → Prog S α → σ → σ
  | 0, _, s => s
  | _ + 1, .ret _, s => s
  | n + 1, .op o k, s => execFor h n (k (h o s).1) (h o s).2

/-- Every operation of the run meets a condition on the state before it. -/
def ExecMeets (h : Handler S σ) (C : (o : S.Op) → σ → Prop) : Prog S α → σ → Prop
  | .ret _, _ => True
  | .op o k, s => C o s ∧ ExecMeets h C (k (h o s).1) (h o s).2

instance decidableExecMeets {h : Handler S σ} {C : (o : S.Op) → σ → Prop}
    [hC : ∀ o s, Decidable (C o s)] : (p : Prog S α) → (s : σ) → Decidable (ExecMeets h C p s)
  | .ret _, _ => inferInstanceAs (Decidable True)
  | .op o k, s => @instDecidableAnd _ _ (hC o s) (decidableExecMeets (k (h o s).1) (h o s).2)

/-- What the program does on its way to its end. -/
def execEvents (h : Handler S σ) : Prog S α → σ → List (Event S)
  | .ret _, _ => []
  | .op o k, s => ⟨o, (h o s).1⟩ :: execEvents h (k (h o s).1) (h o s).2

section Exec

variable (h : Handler S σ)

@[simp] theorem exec_op (o : S.Op) (k : S.Res o → Prog S α) (s : σ) :
    exec h (.op o k) s = exec h (k (h o s).1) (h o s).2 := rfl

theorem exec_bind (p : Prog S α) (f : α → Prog S β) (s : σ) :
    exec h (p >>= f) s = exec h (f (exec h p s).1) (exec h p s).2 := by
  induction p generalizing s with
  | ret a => rfl
  | op o k ih => exact ih _ _

/-- A run to the end is a trace. -/
theorem trace_exec (p : Prog S α) (s : σ) : Trace p (execEvents h p s) (exec h p s).1 := by
  induction p generalizing s with
  | ret a => exact .ret a
  | op o k ih => exact .op (ih _ _)

@[simp] theorem execFor_zero (p : Prog S α) (s : σ) : execFor h 0 p s = s := by
  cases p <;> rfl

@[simp] theorem execFor_succ_op (n : ℕ) (o : S.Op) (k : S.Res o → Prog S α) (s : σ) :
    execFor h (n + 1) (.op o k) s = execFor h n (k (h o s).1) (h o s).2 := rfl

/-- **Frame**: what every operation of a program keeps. -/
theorem exec_keeps {φ : S.Op → Prop} {Q : α → Prop} {I : σ → Prop} {p : Prog S α}
    (hp : Meets φ Q p) (hkeeps : ∀ o s, φ o → I s → I (h o s).2) {s : σ} (hs : I s) :
    I (exec h p s).2 := by
  induction p generalizing s with
  | ret a => exact hs
  | op o k ih => exact ih _ (hp.2 _) (hkeeps o s hp.1 hs)

end Exec

/-! ## Two environments -/

/-- Two programs, each run to its end in its own environment: what they return and
leave satisfies `Q`. -/
def Paired {τ : Type} (h : Handler S σ) (h' : Handler S τ) (Q : α → σ → β → τ → Prop)
    (p : Prog S α) (p' : Prog S β) (s : σ) (t : τ) : Prop :=
  Q (exec h p s).1 (exec h p s).2 (exec h' p' t).1 (exec h' p' t).2

namespace Paired

variable {δ τ : Type} {h : Handler S σ} {h' : Handler S τ} {Q : α → σ → β → τ → Prop}
  {p : Prog S α} {p' : Prog S β} {s : σ} {t : τ}

theorem mono {R : α → σ → β → τ → Prop} (hpair : Paired h h' Q p p' s t)
    (hQ : ∀ a s b t, Q a s b t → R a s b t) : Paired h h' R p p' s t :=
  hQ _ _ _ _ hpair

/-- The rule for an operation that both environments answer alike. -/
theorem op {o : S.Op} {k : S.Res o → Prog S α} {k' : S.Res o → Prog S β}
    (hanswer : (h o s).1 = (h' o t).1)
    (hrest : ∀ r, Paired h h' Q (k r) (k' r) (h o s).2 (h' o t).2) :
    Paired h h' Q (.op o k) (.op o k') s t := by
  unfold Paired
  rw [exec_op, exec_op, ← hanswer]
  exact hrest _

/-- The rule for two sequences. -/
theorem bind {f : α → Prog S γ} {f' : β → Prog S δ} {R : γ → σ → δ → τ → Prop}
    (hpair : Paired h h' Q p p' s t)
    (hf : ∀ a s b t, Q a s b t → Paired h h' R (f a) (f' b) s t) :
    Paired h h' R (p >>= f) (p' >>= f') s t := by
  unfold Paired
  rw [exec_bind, exec_bind]
  exact hf _ _ _ _ hpair

/-- One program in both environments, which answer its operations alike. -/
theorem of_meets {φ : S.Op → Prop} {T : α → Prop} {R : σ → τ → Prop} {p : Prog S α}
    (hp : Meets φ T p)
    (hstep : ∀ o s t, φ o → R s t → (h o s).1 = (h' o t).1 ∧ R (h o s).2 (h' o t).2)
    (hR : R s t) : Paired h h' (fun a s b t => a = b ∧ T a ∧ R s t) p p s t := by
  induction p generalizing s t with
  | ret a => exact ⟨rfl, hp, hR⟩
  | op o k ih =>
      obtain ⟨hanswer, hnext⟩ := hstep o s t hp.1 hR
      unfold Paired
      rw [exec_op, exec_op, ← hanswer]
      exact ih _ (hp.2 _) hnext

end Paired

end Effect
