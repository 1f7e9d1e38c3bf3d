import Corsget.Library.Runs
import Mathlib.Logic.Function.Basic

/-!
# Programs interleaved on one state

Any number of programs run on one state, one operation at a time and in any
order.  `Interleave E C` is one such operation; `C` is a condition on the
operations that are considered, so a run in `Interleave E C` is a run all of
whose steps meet `C`.

`Upholds` is the specification of one of the programs among the others: an
invariant of the state and, for every program, a relation `Rely` that says what
the others may do to the state.  A program upholds it when each of its
operations keeps the invariant and does to the others only what they rely on.
If all programs uphold it, then it holds of every run
(`Upholds.interleaved`).
-/

namespace Effect

open Relation

variable {S : Signature} {ι α β σ : Type}

/-- One operation of one of the programs. -/
inductive Interleave [DecidableEq ι] (E : ι → Env S σ)
    (C : ι → σ → (o : S.Op) → S.Res o → Prop) :
    (ι → Prog S α) × σ → (ι → Prog S α) × σ → Prop
  | step {pool : ι → Prog S α} {s s' : σ} (i : ι) {o : S.Op} {k : S.Res o → Prog S α}
      {r : S.Res o} (hprog : pool i = .op o k) (hE : E i o s r s') (hC : C i s o r) :
      Interleave E C (pool, s) (Function.update pool i (k r), s')

/-! ## Rely and guarantee -/

/-- What the programs agree on: an invariant of the state, and what each of them
relies on about the steps of the others. -/
structure Agreement (ι σ : Type) where
  Inv : σ → Prop
  Rely : ι → σ → σ → Prop

variable {E : ι → Env S σ} {C : ι → σ → (o : S.Op) → S.Res o → Prop} {A : Agreement ι σ}
  {i : ι} {Q R : α → σ → Prop} {s s' : σ}

/-- A step of program `i` that keeps the agreement. -/
def Agreement.Keeps (A : Agreement ι σ) (i : ι) (s s' : σ) : Prop :=
  A.Inv s' ∧ ∀ j, j ≠ i → A.Rely j s s'

/-- Program `i` upholds the agreement from state `s` on, whatever the others do in
between, and a value it returns satisfies `Q` from then on. -/
def Upholds (E : ι → Env S σ) (C : ι → σ → (o : S.Op) → S.Res o → Prop) (A : Agreement ι σ)
    (i : ι) (Q : α → σ → Prop) : Prog S α → σ → Prop
  | .ret a, s => ∀ s₁, ReflTransGen (A.Rely i) s s₁ → Q a s₁
  | .op o k, s => ∀ s₁, ReflTransGen (A.Rely i) s s₁ → A.Inv s₁ → ∀ r s₂, E i o s₁ r s₂ →
      C i s₁ o r → A.Keeps i s₁ s₂ ∧ Upholds E C A i Q (k r) s₂

namespace Upholds

/-- What holds of a program still holds after steps of the others. -/
theorem stable {p : Prog S α} (h : Upholds E C A i Q p s) (hs : ReflTransGen (A.Rely i) s s') :
    Upholds E C A i Q p s' := by
  cases p with
  | ret a => exact fun s₁ hs₁ => h s₁ (hs.trans hs₁)
  | op o k => exact fun s₁ hs₁ => h s₁ (hs.trans hs₁)

theorem mono {p : Prog S α} (h : Upholds E C A i Q p s) (hQ : ∀ a s, Q a s → R a s) :
    Upholds E C A i R p s := by
  induction p generalizing s with
  | ret a => exact fun s₁ hs₁ => hQ a s₁ (h s₁ hs₁)
  | op o k ih =>
      intro s₁ hs₁ hinv r s₂ hE hC
      obtain ⟨hkeeps, hrest⟩ := h s₁ hs₁ hinv r s₂ hE hC
      exact ⟨hkeeps, ih r hrest⟩

/-- A value that satisfies something the others do not undo. -/
theorem ret {a : α} (hQ : ∀ s s', Q a s → A.Rely i s s' → Q a s') (h : Q a s) :
    Upholds E C A i Q (.ret a) s := by
  intro s₁ hs₁
  induction hs₁ with
  | refl => exact h
  | tail _ hrely ih => exact hQ _ _ ih hrely

/-- An operation from a state with a property that the others do not undo. -/
theorem op {o : S.Op} {k : S.Res o → Prog S α} (P : σ → Prop) (hP : P s)
    (hstable : ∀ s s', P s → A.Rely i s s' → P s')
    (hstep : ∀ s₁, P s₁ → A.Inv s₁ → ∀ r s₂, E i o s₁ r s₂ → C i s₁ o r →
      A.Keeps i s₁ s₂ ∧ Upholds E C A i Q (k r) s₂) :
    Upholds E C A i Q (.op o k) s := by
  intro s₁ hs₁ hinv
  have hP₁ : P s₁ := by
    clear hinv
    induction hs₁ with
    | refl => exact hP
    | tail _ hrely ih => exact hstable _ _ ih hrely
  exact hstep s₁ hP₁ hinv

theorem bind {p : Prog S α} {f : α → Prog S β} {T : β → σ → Prop} (h : Upholds E C A i Q p s)
    (hf : ∀ a s', Q a s' → Upholds E C A i T (f a) s') : Upholds E C A i T (p >>= f) s := by
  induction p generalizing s with
  | ret a => exact hf a s (h s .refl)
  | op o k ih =>
      intro s₁ hs₁ hinv r s₂ hE hC
      obtain ⟨hkeeps, hrest⟩ := h s₁ hs₁ hinv r s₂ hE hC
      exact ⟨hkeeps, ih r hrest⟩

/-- A program all of whose operations keep the agreement on their own. -/
theorem of_meets {φ : S.Op → Prop} {Q : α → Prop} {p : Prog S α} (hp : Meets φ Q p)
    (hstep : ∀ o s r s', φ o → A.Inv s → E i o s r s' → A.Keeps i s s') :
    Upholds E C A i (fun a _ => Q a) p s := by
  induction p generalizing s with
  | ret a => exact fun _ _ => hp
  | op o k ih =>
      intro s₁ _ hinv r s₂ hE _
      exact ⟨hstep o s₁ r s₂ hp.1 hinv hE, ih r (hp.2 r)⟩

/-- What holds of a value once it has been returned. -/
theorem returned {a : α} (h : Upholds E C A i Q (.ret a) s) : Q a s :=
  h s .refl

variable [DecidableEq ι] {Q : ι → α → σ → Prop}

/-- One step of a pool whose programs all uphold the agreement. -/
theorem interleave {x y : (ι → Prog S α) × σ} (hstep : Interleave E C x y) (hinv : A.Inv x.2)
    (h : ∀ i, Upholds E C A i (Q i) (x.1 i) x.2) :
    A.Inv y.2 ∧ ∀ i, Upholds E C A i (Q i) (y.1 i) y.2 := by
  obtain ⟨i, hprog, hE, hC⟩ := hstep
  have hi := h i
  dsimp only at hi hinv h ⊢
  rw [hprog] at hi
  obtain ⟨⟨hinv', hothers⟩, hrest⟩ := hi _ .refl hinv _ _ hE hC
  refine ⟨hinv', fun j => ?_⟩
  by_cases hj : j = i
  · subst hj
    rw [Function.update_self]
    exact hrest
  · rw [Function.update_of_ne hj]
    exact (h j).stable (.single (hothers j hj))

/-- **Soundness**: in every run of a pool whose programs all uphold the agreement,
the invariant holds and each program still upholds it. -/
theorem interleaved {x y : (ι → Prog S α) × σ} (hrun : ReflTransGen (Interleave E C) x y)
    (hinv : A.Inv x.2) (h : ∀ i, Upholds E C A i (Q i) (x.1 i) x.2) :
    A.Inv y.2 ∧ ∀ i, Upholds E C A i (Q i) (y.1 i) y.2 := by
  induction hrun with
  | refl => exact ⟨hinv, h⟩
  | tail _ hstep ih => exact interleave hstep ih.1 ih.2

end Upholds

/-! ## A definite schedule -/

section Schedule

variable [DecidableEq ι]

/-- The next operation of program `i`, if it has one. -/
def advance (h : ι → Handler S σ) (x : (ι → Prog S α) × σ) (i : ι) : (ι → Prog S α) × σ :=
  match x.1 i with
  | .ret _ => x
  | .op o k => (Function.update x.1 i (k (h i o x.2).1), (h i o x.2).2)

/-- The programs run in the order of a schedule. -/
def schedule (h : ι → Handler S σ) (order : List ι) (x : (ι → Prog S α) × σ) :
    (ι → Prog S α) × σ :=
  order.foldl (advance h) x

/-- The next operation of program `i` meets the condition `C`. -/
def MeetsNext (h : ι → Handler S σ) (C : ι → σ → (o : S.Op) → S.Res o → Prop)
    (x : (ι → Prog S α) × σ) (i : ι) : Prop :=
  match x.1 i with
  | .ret _ => True
  | .op o _ => C i x.2 o (h i o x.2).1

/-- Every operation of a schedule meets the condition `C`. -/
def Along (h : ι → Handler S σ) (C : ι → σ → (o : S.Op) → S.Res o → Prop) :
    List ι → (ι → Prog S α) × σ → Prop
  | [], _ => True
  | i :: order, x => MeetsNext h C x i ∧ Along h C order (advance h x i)

section Decidable

variable {h : ι → Handler S σ} {C : ι → σ → (o : S.Op) → S.Res o → Prop}
  [∀ i s o r, Decidable (C i s o r)]

instance decidableMeetsNext (x : (ι → Prog S α) × σ) (i : ι) : Decidable (MeetsNext h C x i) := by
  unfold MeetsNext
  split <;> infer_instance

instance decidableAlong :
    (order : List ι) → (x : (ι → Prog S α) × σ) → Decidable (Along h C order x)
  | [], _ => inferInstanceAs (Decidable True)
  | i :: order, x =>
      have := decidableAlong order (advance h x i)
      inferInstanceAs (Decidable (MeetsNext h C x i ∧ Along h C order (advance h x i)))

end Decidable

/-- One program run to its end, while the others wait, is one of the possible
runs. -/
theorem exec_interleaved {h : ι → Handler S σ}
    (hE : ∀ i o s, E i o s (h i o s).1 (h i o s).2) (i : ι) (pool : ι → Prog S α) (s : σ) :
    ReflTransGen (Interleave E fun _ _ _ _ => True) (pool, s)
      (Function.update pool i (.ret (exec (h i) (pool i) s).1), (exec (h i) (pool i) s).2) := by
  generalize hprog : pool i = p
  induction p generalizing pool s with
  | ret a =>
      show ReflTransGen _ (pool, s) (Function.update pool i (.ret a), s)
      rw [← hprog, Function.update_eq_self]
  | op o k ih =>
      refine ReflTransGen.head (.step i hprog (hE i o s) trivial) ?_
      have hrest := ih (h i o s).1 (Function.update pool i (k (h i o s).1)) (h i o s).2
        (Function.update_self _ _ _)
      rw [Function.update_idem] at hrest
      exact hrest

/-- A schedule is one of the possible runs. -/
theorem schedule_interleaved {h : ι → Handler S σ} {C : ι → σ → (o : S.Op) → S.Res o → Prop}
    (hE : ∀ i o s, E i o s (h i o s).1 (h i o s).2) {order : List ι} {x : (ι → Prog S α) × σ}
    (hC : Along h C order x) : ReflTransGen (Interleave E C) x (schedule h order x) := by
  induction order generalizing x with
  | nil => exact .refl
  | cons i order ih =>
      obtain ⟨hstep, hrest⟩ := hC
      refine ReflTransGen.trans ?_ (ih hrest)
      unfold MeetsNext at hstep
      unfold advance
      split
      · exact .refl
      · next o k hprog =>
        rw [hprog] at hstep
        exact .single (.step i hprog (hE i o x.2) hstep)

end Schedule

end Effect
