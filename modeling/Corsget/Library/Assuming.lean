import Corsget.Library.Interleaving

/-!
# Programs under assumptions about the answers

`Meets` speaks about programs whatever they are answered.  `Assuming A φ Q p` speaks about them
as long as the answers satisfy `A`: up to the first answer that does not, every operation of `p`
satisfies `φ`, and a value that is returned without one satisfies `Q`.

The specification composes along `>>=` (`Assuming.bind`) and says what it should about every
trace, up to its first bad answer (`Assuming.of_trace`).  For programs that share a state the
assumption is discharged by an invariant: when the states of the invariant give answers in `A`
and operations in `φ` keep it, then no run of the programs, in whatever order, leaves it
(`Assuming.interleaved`).
-/

namespace Effect

open Relation

variable {S : Signature} {ι α β σ : Type}

/-- As long as the answers satisfy `A`, every operation of `p` satisfies `φ` and every value it
returns satisfies `Q`. -/
def Assuming (A : Event S → Prop) (φ : S.Op → Prop) (Q : α → Prop) : Prog S α → Prop
  | .ret a => Q a
  | .op o k => φ o ∧ ∀ r, A ⟨o, r⟩ → Assuming A φ Q (k r)

namespace Assuming

variable {A : Event S → Prop} {φ ψ : S.Op → Prop} {Q R : α → Prop} {p : Prog S α}

@[simp] theorem ret_iff {a : α} : Assuming A φ Q (.ret a : Prog S α) ↔ Q a := Iff.rfl

@[simp] theorem op_iff {o : S.Op} {k : S.Res o → Prog S α} :
    Assuming A φ Q (.op o k) ↔ φ o ∧ ∀ r, A ⟨o, r⟩ → Assuming A φ Q (k r) := Iff.rfl

/-- The rule for an operation. -/
theorem op {o : S.Op} {k : S.Res o → Prog S α} (ho : φ o)
    (hk : ∀ r, A ⟨o, r⟩ → Assuming A φ Q (k r)) : Assuming A φ Q (.op o k) := ⟨ho, hk⟩

theorem mono (h : Assuming A φ Q p) (hφ : ∀ o, φ o → ψ o) (hQ : ∀ a, Q a → R a) :
    Assuming A ψ R p := by
  induction p with
  | ret a => exact hQ a h
  | op o k ih => exact ⟨hφ o h.1, fun r hr => ih r (h.2 r hr)⟩

/-- What holds whatever is answered. -/
theorem of_meets (h : Meets φ Q p) : Assuming A φ Q p := by
  induction p with
  | ret a => exact h
  | op o k ih => exact ⟨h.1, fun r _ => ih r (h.2 r)⟩

/-- The rule for a sequence. -/
theorem bind {f : α → Prog S β} {T : β → Prop} (h : Assuming A φ Q p)
    (hf : ∀ a, Q a → Assuming A φ T (f a)) : Assuming A φ T (p >>= f) := by
  induction p with
  | ret a => exact hf a h
  | op o k ih => exact ⟨h.1, fun r hr => ih r (h.2 r hr)⟩

/-- **What it says about a trace.**  An operation before which every answer was good satisfies
`φ`, and so does the value when every answer was. -/
theorem of_trace (h : Assuming A φ Q p) {es : List (Event S)} {a : α} (htrace : Trace p es a) :
    (∀ before e after, es = before ++ e :: after → (∀ e' ∈ before, A e') → φ e.1) ∧
      ((∀ e ∈ es, A e) → Q a) := by
  induction htrace with
  | ret a => exact ⟨by simp, fun _ => h⟩
  | @op o k r es a _ ih =>
      constructor
      · intro before e after hsplit hbefore
        rcases before with _ | ⟨e', before⟩
        · obtain ⟨rfl, -⟩ := List.cons.inj hsplit
          exact h.1
        · obtain ⟨rfl, htail⟩ := List.cons.inj hsplit
          obtain ⟨hfirst, hrest⟩ := List.forall_mem_cons.mp hbefore
          exact (ih (h.2 r hfirst)).1 before e after htail hrest
      · intro hall
        obtain ⟨hfirst, hrest⟩ := List.forall_mem_cons.mp hall
        exact (ih (h.2 r hfirst)).2 hrest

variable [DecidableEq ι] {E : ι → Env S σ} {C : ι → σ → (o : S.Op) → S.Res o → Prop}
  {I : σ → Prop} {Q : ι → α → Prop}

/-- One step of a pool that works under the assumption, in a state of the invariant. -/
theorem interleave
    (hstep : ∀ i o s r s', I s → φ o → E i o s r s' → C i s o r → A ⟨o, r⟩ ∧ I s')
    {x y : (ι → Prog S α) × σ} (hxy : Interleave E C x y) (hI : I x.2)
    (h : ∀ i, Assuming A φ (Q i) (x.1 i)) : I y.2 ∧ ∀ i, Assuming A φ (Q i) (y.1 i) := by
  obtain ⟨i, hprog, hE, hC⟩ := hxy
  rename_i pool s s' o k r
  have hi : Assuming A φ (Q i) (.op o k) := hprog ▸ h i
  obtain ⟨hanswer, hI'⟩ := hstep i o s r s' hI hi.1 hE hC
  refine ⟨hI', fun j => ?_⟩
  by_cases hj : j = i
  · subst hj
    show Assuming A φ (Q j) (Function.update pool j (k r) j)
    rw [Function.update_self]
    exact hi.2 r hanswer
  · show Assuming A φ (Q j) (Function.update pool i (k r) j)
    rw [Function.update_of_ne hj]
    exact h j

/-- **Programs that share a state.**  If the states of an invariant give good answers and good
operations keep it, then no run of programs that work under the assumption leaves it. -/
theorem interleaved
    (hstep : ∀ i o s r s', I s → φ o → E i o s r s' → C i s o r → A ⟨o, r⟩ ∧ I s')
    {x y : (ι → Prog S α) × σ} (hrun : ReflTransGen (Interleave E C) x y) (hI : I x.2)
    (h : ∀ i, Assuming A φ (Q i) (x.1 i)) : I y.2 ∧ ∀ i, Assuming A φ (Q i) (y.1 i) := by
  induction hrun with
  | refl => exact ⟨hI, h⟩
  | tail _ hxy ih => exact interleave hstep hxy ih.1 ih.2

end Assuming

end Effect
