import Corsget.Library.Prog

/-!
# What a program reports about its run

Some programs return an account of what they did.  `Audited Q p` says that in every environment
the events of a run of `p` and the value that it returns satisfy `Q`.  The rules follow the
program text: an operation is the first event (`Audited.op_iff`), and the events of a sequence are
those of its parts (`Audited.bind`).
-/

namespace Effect

variable {S : Signature} {α β : Type}

/-- The events and the value of every run satisfy `Q`. -/
def Audited (Q : List (Event S) → α → Prop) (p : Prog S α) : Prop :=
  ∀ es a, Trace p es a → Q es a

namespace Audited

variable {Q R : List (Event S) → α → Prop}

@[simp] theorem ret_iff {a : α} : Audited Q (.ret a : Prog S α) ↔ Q [] a := by
  constructor
  · intro h
    exact h [] a (.ret a)
  · rintro h es b htrace
    obtain ⟨rfl, rfl⟩ := Trace.ret_iff.mp htrace
    exact h

@[simp] theorem op_iff {o : S.Op} {k : S.Res o → Prog S α} :
    Audited Q (.op o k) ↔ ∀ r, Audited (fun es => Q (⟨o, r⟩ :: es)) (k r) := by
  constructor
  · intro h r es a htrace
    exact h _ a (.op htrace)
  · intro h es a htrace
    obtain ⟨r, rest, rfl, hrest⟩ := Trace.op_iff.mp htrace
    exact h r rest a hrest

theorem mono {p : Prog S α} (h : Audited Q p) (hQ : ∀ es a, Q es a → R es a) : Audited R p :=
  fun es a htrace => hQ es a (h es a htrace)

/-- **The rule for a sequence**: the account of the second part is added to that of the first. -/
theorem bind {p : Prog S α} {f : α → Prog S β} {T : List (Event S) → β → Prop} (h : Audited Q p)
    (hf : ∀ es a, Q es a → Audited (fun es' => T (es ++ es')) (f a)) : Audited T (p >>= f) := by
  intro es b htrace
  obtain ⟨es₁, a, es₂, rfl, hp, hrest⟩ := Trace.bind_iff.mp htrace
  exact hf es₁ a (h es₁ a hp) es₂ b hrest

end Audited

end Effect
