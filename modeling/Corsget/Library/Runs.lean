import Corsget.Library.Prog
import Mathlib.Logic.Relation

/-!
# Runs of a program on a state

An `Env` says what each operation may answer in a state and which state it may
leave; it need not decide either.  `Steps` are the runs of a program in such an
environment, each of them a prefix of a longer one until the program returns.

`Safe E I Q p s` is the specification of a program started in state `s`: in
**every** state on the way the crash condition `I` holds, and when the program
returns, its value and the state satisfy `Q`.  So one proof about a program
speaks about its end and about every point at which it can be cut off.  The
rules follow the program text (`Safe.op_iff`, `Safe.seq`), and `Safe.of_meets`
covers the parts of which only the operations matter.
-/

namespace Effect

variable {S : Signature} {α β σ τ : Type}

/-- What an operation may answer in a state, and the state it may leave. -/
abbrev Env (S : Signature) (σ : Type) := (o : S.Op) → σ → S.Res o → σ → Prop

/-- One operation of a program. -/
inductive Step (E : Env S σ) : Prog S α × σ → Prog S α × σ → Prop
  | op {o : S.Op} {k : S.Res o → Prog S α} {r : S.Res o} {s s' : σ} (h : E o s r s') :
      Step E (.op o k, s) (k r, s')

/-- Any number of operations of a program. -/
abbrev Steps (E : Env S σ) : Prog S α × σ → Prog S α × σ → Prop :=
  Relation.ReflTransGen (Step E)

namespace Steps

variable {E : Env S σ} {s s' : σ}

/-- A first operation and then more. -/
theorem op {o : S.Op} {k : S.Res o → Prog S α} {r : S.Res o} {s₁ : σ} {q : Prog S α × σ}
    (h : E o s r s₁) (rest : Steps E (k r, s₁) q) : Steps E (.op o k, s) q :=
  .head (.op h) rest

/-- The first part of a sequence runs as it does alone. -/
theorem bind {p p' : Prog S α} (h : Steps E (p, s) (p', s')) (f : α → Prog S β) :
    Steps E (p >>= f, s) (p' >>= f, s') := by
  have hlift : ∀ x y : Prog S α × σ, Step E x y →
      Step E (x.1 >>= f, x.2) (y.1 >>= f, y.2) := by
    intro x y hstep
    obtain ⟨hstep⟩ := hstep
    exact .op hstep
  exact Relation.ReflTransGen.lift (fun x : Prog S α × σ => (x.1 >>= f, x.2)) hlift _ _ h

/-- What an environment with definite answers does is one run. -/
theorem of_exec {h : Handler S σ} (hE : ∀ o s, E o s (h o s).1 (h o s).2) (p : Prog S α)
    (s : σ) : Steps E (p, s) (.ret (exec h p s).1, (exec h p s).2) := by
  induction p generalizing s with
  | ret a => exact .refl
  | op o k ih => exact .op (hE o s) (ih _ _)

/-- So is what it does where its environment is one of those allowed, as long as it meets
the condition for that. -/
theorem of_execMeets {h : Handler S σ} {C : (o : S.Op) → σ → Prop}
    (hE : ∀ o s, C o s → E o s (h o s).1 (h o s).2) {p : Prog S α} {s : σ}
    (hC : ExecMeets h C p s) : Steps E (p, s) (.ret (exec h p s).1, (exec h p s).2) := by
  induction p generalizing s with
  | ret a => exact .refl
  | op o k ih => exact .op (hE o s hC.1) (ih _ hC.2)

/-- So is what it does up to a cut. -/
theorem of_execFor {h : Handler S σ} (hE : ∀ o s, E o s (h o s).1 (h o s).2) (n : ℕ)
    (p : Prog S α) (s : σ) : ∃ p', Steps E (p, s) (p', execFor h n p s) := by
  induction n generalizing p s with
  | zero => exact ⟨p, by rw [execFor_zero]⟩
  | succ n ih =>
      cases p with
      | ret a => exact ⟨.ret a, .refl⟩
      | op o k =>
          obtain ⟨p', hrest⟩ := ih (k (h o s).1) (h o s).2
          exact ⟨p', .op (hE o s) hrest⟩

end Steps

/-- From state `s`, every state of a run of `p` satisfies `I`, and a value it
returns satisfies `Q` in the state it leaves. -/
def Safe (E : Env S σ) (I : σ → Prop) (Q : α → σ → Prop) : Prog S α → σ → Prop
  | .ret a, s => I s ∧ Q a s
  | .op o k, s => I s ∧ ∀ r s', E o s r s' → Safe E I Q (k r) s'

namespace Safe

variable {E : Env S σ} {I J : σ → Prop} {Q R : α → σ → Prop} {s s' : σ}

@[simp] theorem ret_iff {a : α} : Safe E I Q (.ret a) s ↔ I s ∧ Q a s := Iff.rfl

@[simp] theorem op_iff {o : S.Op} {k : S.Res o → Prog S α} :
    Safe E I Q (.op o k) s ↔ I s ∧ ∀ r s', E o s r s' → Safe E I Q (k r) s' := Iff.rfl

/-- The crash condition holds at the start. -/
theorem start {p : Prog S α} (h : Safe E I Q p s) : I s := by
  cases p with
  | ret a => exact h.1
  | op o k => exact h.1

theorem mono {p : Prog S α} (h : Safe E I Q p s) (hI : ∀ s, I s → J s)
    (hQ : ∀ a s, I s → Q a s → R a s) : Safe E J R p s := by
  induction p generalizing s with
  | ret a => exact ⟨hI s h.1, hQ a s h.1 h.2⟩
  | op o k ih => exact ⟨hI s h.1, fun r s' hE => ih r (h.2 r s' hE)⟩

/-- Two specifications of one program hold together. -/
theorem and {p : Prog S α} (h : Safe E I Q p s) (h' : Safe E J R p s) :
    Safe E (fun s => I s ∧ J s) (fun a s => Q a s ∧ R a s) p s := by
  induction p generalizing s with
  | ret a => exact ⟨⟨h.1, h'.1⟩, h.2, h'.2⟩
  | op o k ih =>
      exact ⟨⟨h.1, h'.1⟩, fun r s' hE => ih r (h.2 r s' hE) (h'.2 r s' hE)⟩

theorem weaken {p : Prog S α} (h : Safe E I Q p s) (hI : ∀ s, I s → J s) : Safe E J Q p s :=
  h.mono hI fun _ _ _ hQ => hQ

/-- The rule for a sequence.  The first part may have a stronger crash condition;
the second part starts in a state that satisfies it. -/
theorem seq {p : Prog S α} {f : α → Prog S β} {T : β → σ → Prop} (h : Safe E I Q p s)
    (hI : ∀ s, I s → J s) (hf : ∀ a s', I s' → Q a s' → Safe E J T (f a) s') :
    Safe E J T (p >>= f) s := by
  induction p generalizing s with
  | ret a => exact hf a s h.1 h.2
  | op o k ih => exact ⟨hI s h.1, fun r s' hE => ih r (h.2 r s' hE)⟩

theorem bind {p : Prog S α} {f : α → Prog S β} {T : β → σ → Prop} (h : Safe E I Q p s)
    (hf : ∀ a s', I s' → Q a s' → Safe E I T (f a) s') : Safe E I T (p >>= f) s :=
  h.seq (fun _ hI => hI) hf

/-- An invariant that every operation `p` performs keeps. -/
theorem of_meets {φ : S.Op → Prop} {Q : α → Prop} {p : Prog S α} (hp : Meets φ Q p)
    (hkeeps : ∀ o s r s', φ o → I s → E o s r s' → I s') (hs : I s) :
    Safe E I (fun a _ => Q a) p s := by
  induction p generalizing s with
  | ret a => exact ⟨hs, hp⟩
  | op o k ih => exact ⟨hs, fun r s' hE => ih r (hp.2 r) (hkeeps o s r s' hp.1 hs hE)⟩

/-- A specification about a part of the state holds on the whole state when the
environment of the whole does to the part what the environment of the part may
do. -/
theorem comap {E' : Env S τ} {π : τ → σ} (hE : ∀ o t r t', E' o t r t' → E o (π t) r (π t'))
    {p : Prog S α} {t : τ} (h : Safe E I Q p (π t)) :
    Safe E' (fun t => I (π t)) (fun a t => Q a (π t)) p t := by
  induction p generalizing t with
  | ret a => exact h
  | op o k ih => exact ⟨h.1, fun r t' hstep => ih r (h.2 r (π t') (hE o t r t' hstep))⟩

/-- A specification holds of what is left of a program wherever it is cut. -/
theorem steps {p p' : Prog S α} (h : Safe E I Q p s) (hsteps : Steps E (p, s) (p', s')) :
    Safe E I Q p' s' := by
  have hone : ∀ x y : Prog S α × σ, Step E x y → Safe E I Q x.1 x.2 → Safe E I Q y.1 y.2 := by
    intro x y hstep hx
    obtain ⟨hstep⟩ := hstep
    exact hx.2 _ _ hstep
  exact Relation.ReflTransGen.head_induction_on (motive := fun x _ =>
    Safe E I Q x.1 x.2 → Safe E I Q p' s') hsteps id
    (fun hstep _ ih hx => ih (hone _ _ hstep hx)) h

/-- **Crash safety**: the crash condition holds in every state of a run. -/
theorem crash {p p' : Prog S α} (h : Safe E I Q p s) (hsteps : Steps E (p, s) (p', s')) : I s' :=
  (h.steps hsteps).start

/-- What holds when a run has come to its end. -/
theorem value {p : Prog S α} {a : α} (h : Safe E I Q p s)
    (hsteps : Steps E (p, s) (.ret a, s')) : I s' ∧ Q a s' :=
  h.steps hsteps

end Safe

/-! ## What is left at a cut -/

/-- From state `s`, wherever a run of `p` is cut before its end, what is left of the
program and the state satisfy `P`, and a value it returns satisfies `Q`. -/
def AtCuts (E : Env S σ) (P : Prog S α → σ → Prop) (Q : α → σ → Prop) : Prog S α → σ → Prop
  | .ret a, s => Q a s
  | .op o k, s => P (.op o k) s ∧ ∀ r s', E o s r s' → AtCuts E P Q (k r) s'

namespace AtCuts

variable {E : Env S σ} {I : σ → Prop} {P P' : Prog S α → σ → Prop} {Q R : α → σ → Prop} {s s' : σ}

@[simp] theorem ret_iff {a : α} : AtCuts E P Q (.ret a) s ↔ Q a s := Iff.rfl

@[simp] theorem op_iff {o : S.Op} {k : S.Res o → Prog S α} :
    AtCuts E P Q (.op o k) s ↔ P (.op o k) s ∧ ∀ r s', E o s r s' → AtCuts E P Q (k r) s' :=
  Iff.rfl

theorem mono {p : Prog S α} (h : AtCuts E P Q p s) (hP : ∀ p s, P p s → P' p s)
    (hQ : ∀ a s, Q a s → R a s) : AtCuts E P' R p s := by
  induction p generalizing s with
  | ret a => exact hQ a s h
  | op o k ih => exact ⟨hP _ s h.1, fun r s' hE => ih r (h.2 r s' hE)⟩

/-- The rule for a sequence: what is left of it is what is left of its first part
and then the second. -/
theorem bind {p : Prog S α} {f : α → Prog S β} {P : Prog S β → σ → Prop} {T : β → σ → Prop}
    (h : AtCuts E (fun p s => P (p >>= f) s) Q p s)
    (hf : ∀ a s', Q a s' → AtCuts E P T (f a) s') : AtCuts E P T (p >>= f) s := by
  induction p generalizing s with
  | ret a => exact hf a s h
  | op o k ih => exact ⟨h.1, fun r s' hE => ih r (h.2 r s' hE)⟩

/-- What is left of a program performs the operations of the program. -/
theorem of_safe {φ : S.Op → Prop} {T : α → Prop} {p : Prog S α} (hp : Meets φ T p)
    (hs : Safe E I Q p s) (hP : ∀ p s, Meets φ T p → I s → P p s) : AtCuts E P Q p s := by
  induction p generalizing s with
  | ret a => exact hs.2
  | op o k ih => exact ⟨hP _ s hp hs.1, fun r s' hE => ih r (hp.2 r) (hs.2 r s' hE)⟩

/-- **What holds at every cut holds of every run.** -/
theorem steps {p p' : Prog S α} (h : AtCuts E P Q p s) (hQ : ∀ a s, Q a s → P (.ret a) s)
    (hsteps : Steps E (p, s) (p', s')) : P p' s' := by
  have hend : AtCuts E P Q p' s' := by
    refine Relation.ReflTransGen.head_induction_on (motive := fun x _ =>
      AtCuts E P Q x.1 x.2 → AtCuts E P Q p' s') hsteps id ?_ h
    rintro x y ⟨hE⟩ - ih hx
    exact ih (hx.2 _ _ hE)
  cases p' with
  | ret a => exact hQ a s' hend
  | op o k => exact hend.1

end AtCuts

/-! ## Events in an environment -/

/-- The events happen one after the other, and lead from one state to another. -/
inductive Happens (E : Env S σ) : σ → List (Event S) → σ → Prop
  | nil (s : σ) : Happens E s [] s
  | cons {o : S.Op} {r : S.Res o} {s s₁ s' : σ} {es : List (Event S)} (h : E o s r s₁)
      (rest : Happens E s₁ es s') : Happens E s (⟨o, r⟩ :: es) s'

namespace Happens

variable {E : Env S σ} {s s' : σ} {es es' : List (Event S)}

theorem cons_iff {o : S.Op} {r : S.Res o} :
    Happens E s (⟨o, r⟩ :: es) s' ↔ ∃ s₁, E o s r s₁ ∧ Happens E s₁ es s' := by
  constructor
  · rintro (_ | ⟨h, rest⟩)
    exact ⟨_, h, rest⟩
  · rintro ⟨s₁, h, rest⟩
    exact .cons h rest

/-- Between two stretches of events there is a state. -/
theorem append_iff :
    Happens E s (es ++ es') s' ↔ ∃ s₁, Happens E s es s₁ ∧ Happens E s₁ es' s' := by
  induction es generalizing s with
  | nil =>
      constructor
      · intro h
        exact ⟨s, .nil s, h⟩
      · rintro ⟨s₁, ⟨⟩, h⟩
        exact h
  | cons e es ih =>
      obtain ⟨o, r⟩ := e
      simp only [List.cons_append, cons_iff, ih]
      constructor
      · rintro ⟨s₁, h, s₂, hes, hes'⟩
        exact ⟨s₂, ⟨s₁, h, hes⟩, hes'⟩
      · rintro ⟨s₂, ⟨s₁, h, hes⟩, hes'⟩
        exact ⟨s₁, h, s₂, hes, hes'⟩

/-- What an environment with definite answers does happens. -/
theorem of_exec {h : Handler S σ} (hE : ∀ o s, E o s (h o s).1 (h o s).2) (p : Prog S α) (s : σ) :
    Happens E s (execEvents h p s) (exec h p s).2 := by
  induction p generalizing s with
  | ret a => exact .nil s
  | op o k ih => exact .cons (hE o s) (ih _ _)

end Happens

end Effect
