import Corsget.Library.Prog

/-!
# Protocols of operations

A `Protocol` is an automaton over operations: in each phase it says which operations are in
order, and the phase to which the answer of such an operation leads.

`Follows P Q p φ` is the specification of a program started in phase `φ`: every operation it
performs is in order when it performs it, whatever was answered before, and a value it returns
satisfies `Q` in the phase it has reached.  It composes along `>>=` (`Follows.bind`); a part of
a program of which only the operations matter is covered by `Follows.of_meets`.

What a program did is then a word of the automaton (`Follows.run_of_trace`), and so is every
beginning of it, as a cut leaves it (`Follows.run_of_cut`).  Statements about the order of the
events come from the automaton alone, by induction on the word (`Protocol.history`).
-/

namespace Effect

variable {S : Signature} {Φ α β : Type}

/-- The operations that are in order in a phase, and where their answers lead. -/
abbrev Protocol (S : Signature) (Φ : Type) := Φ → (o : S.Op) → Option (S.Res o → Φ)

namespace Protocol

/-- The phase after some events, if all of them were in order. -/
def run (P : Protocol S Φ) : Φ → List (Event S) → Option Φ
  | φ, [] => some φ
  | φ, e :: es => (P φ e.1).bind fun next => run P (next e.2) es

variable {P : Protocol S Φ} {φ ψ : Φ} {es es' : List (Event S)}

@[simp] theorem run_nil : P.run φ [] = some φ := rfl

theorem run_cons_eq_some {e : Event S} :
    P.run φ (e :: es) = some ψ ↔ ∃ next, P φ e.1 = some next ∧ P.run (next e.2) es = some ψ :=
  Option.bind_eq_some_iff

/-- Between two stretches of events there is a phase. -/
theorem run_append_eq_some :
    P.run φ (es ++ es') = some ψ ↔ ∃ χ, P.run φ es = some χ ∧ P.run χ es' = some ψ := by
  induction es generalizing φ with
  | nil => simp
  | cons e es ih =>
      simp only [List.cons_append, run_cons_eq_some, ih]
      constructor
      · rintro ⟨next, hnext, χ, hχ, hψ⟩
        exact ⟨χ, ⟨next, hnext, hχ⟩, hψ⟩
      · rintro ⟨χ, ⟨next, hnext, hχ⟩, hψ⟩
        exact ⟨next, hnext, χ, hχ, hψ⟩

/-- **Induction on the past.**  What holds of the events so far and the phase they have led
to holds at every later point, if one operation in order keeps it. -/
theorem history {R : List (Event S) → Φ → Prop}
    (hstep : ∀ es φ o next r, R es φ → P φ o = some next → R (es ++ [⟨o, r⟩]) (next r))
    {past : List (Event S)} (hR : R past φ) (hrun : P.run φ es = some ψ) : R (past ++ es) ψ := by
  induction es generalizing φ past with
  | nil =>
      obtain rfl := Option.some.inj hrun
      rwa [List.append_nil]
  | cons e es ih =>
      obtain ⟨o, r⟩ := e
      obtain ⟨next, hnext, hrest⟩ := run_cons_eq_some.mp hrun
      have h := ih (hstep past φ o next r hR hnext) hrest
      rwa [List.append_assoc] at h

/-- A class of phases that no operation leaves, and what is said of the operations in it. -/
theorem forall_of_closed {I : Φ → Prop} {C : S.Op → Prop}
    (hstep : ∀ φ o next r, I φ → P φ o = some next → C o ∧ I (next r))
    (hI : I φ) (hrun : P.run φ es = some ψ) : (∀ e ∈ es, C e.1) ∧ I ψ := by
  induction es generalizing φ with
  | nil =>
      obtain rfl := Option.some.inj hrun
      exact ⟨fun e he => absurd he List.not_mem_nil, hI⟩
  | cons e es ih =>
      obtain ⟨next, hnext, hrest⟩ := run_cons_eq_some.mp hrun
      obtain ⟨hC, hnextI⟩ := hstep φ e.1 next e.2 hI hnext
      obtain ⟨hall, hψ⟩ := ih hnextI hrest
      exact ⟨List.forall_mem_cons.mpr ⟨hC, hall⟩, hψ⟩

end Protocol

/-- From phase `φ`, every operation of `p` is in order, and a value it returns satisfies `Q`
in the phase that is reached. -/
def Follows (P : Protocol S Φ) (Q : α → Φ → Prop) : Prog S α → Φ → Prop
  | .ret a, φ => Q a φ
  | .op o k, φ => ∃ next, P φ o = some next ∧ ∀ r, Follows P Q (k r) (next r)

namespace Follows

variable {P : Protocol S Φ} {Q R : α → Φ → Prop} {φ : Φ}

@[simp] theorem ret_iff {a : α} : Follows P Q (.ret a) φ ↔ Q a φ := Iff.rfl

/-- The rule for an operation. -/
theorem op {o : S.Op} {k : S.Res o → Prog S α} {next : S.Res o → Φ} (h : P φ o = some next)
    (hk : ∀ r, Follows P Q (k r) (next r)) : Follows P Q (.op o k) φ :=
  ⟨next, h, hk⟩

theorem mono {p : Prog S α} (h : Follows P Q p φ) (hQ : ∀ a φ, Q a φ → R a φ) :
    Follows P R p φ := by
  induction p generalizing φ with
  | ret a => exact hQ a φ h
  | op o k ih =>
      obtain ⟨next, hnext, hk⟩ := h
      exact ⟨next, hnext, fun r => ih r (hk r)⟩

/-- The rule for a sequence. -/
theorem bind {p : Prog S α} {f : α → Prog S β} {T : β → Φ → Prop} (h : Follows P Q p φ)
    (hf : ∀ a φ, Q a φ → Follows P T (f a) φ) : Follows P T (p >>= f) φ := by
  induction p generalizing φ with
  | ret a => exact hf a φ h
  | op o k ih =>
      obtain ⟨next, hnext, hk⟩ := h
      exact ⟨next, hnext, fun r => ih r (hk r)⟩

/-- A part of a program whose operations are in order in a class of phases and stay in it. -/
theorem of_meets {C : S.Op → Prop} {T : α → Prop} {I : Φ → Prop} {p : Prog S α}
    (hp : Meets C T p)
    (hkeeps : ∀ φ o, I φ → C o → ∃ next, P φ o = some next ∧ ∀ r, I (next r)) (hI : I φ) :
    Follows P (fun a φ => T a ∧ I φ) p φ := by
  induction p generalizing φ with
  | ret a => exact ⟨hp, hI⟩
  | op o k ih =>
      obtain ⟨next, hnext, hnextI⟩ := hkeeps φ o hI hp.1
      exact ⟨next, hnext, fun r => ih r (hp.2 r) (hnextI r)⟩

/-- **What a program did is a word of the protocol.** -/
theorem run_of_trace {p : Prog S α} (h : Follows P Q p φ) {es : List (Event S)} {a : α}
    (htrace : Trace p es a) : ∃ ψ, P.run φ es = some ψ ∧ Q a ψ := by
  induction htrace generalizing φ with
  | ret a => exact ⟨φ, rfl, h⟩
  | @op o k r es a _ ih =>
      obtain ⟨next, hnext, hk⟩ := h
      obtain ⟨ψ, hrun, hQ⟩ := ih (hk r)
      exact ⟨ψ, Protocol.run_cons_eq_some.mpr ⟨next, hnext, hrun⟩, hQ⟩

/-- So is what it did before it was cut off. -/
theorem run_of_cut {p : Prog S α} (h : Follows P Q p φ) {es cut : List (Event S)} {a : α}
    (htrace : Trace p es a) (hcut : cut <+: es) : ∃ ψ, P.run φ cut = some ψ := by
  obtain ⟨ψ, hrun, -⟩ := h.run_of_trace htrace
  obtain ⟨rest, rfl⟩ := hcut
  obtain ⟨χ, hχ, -⟩ := Protocol.run_append_eq_some.mp hrun
  exact ⟨χ, hχ⟩

end Follows

end Effect
