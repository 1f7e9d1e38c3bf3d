import Mathlib.Data.List.Forall2

/-!
# Checks one after the other

A program that reads its settings checks them one after the other and stops at the first
that fails: `Except.bind` for two checks, `List.mapM` for a list of them.  Such a chain
succeeds exactly when every check in it does, with the results of the checks
(`bind_eq_ok_iff`, `mapM_eq_ok_iff`), so that one bad setting refuses the whole
(`exists_mapM_eq_error`).
-/

namespace Validation

variable {ε ε' α β γ : Type*}

theorem bind_eq_ok_iff {x : Except ε α} {f : α → Except ε β} {b : β} :
    x.bind f = .ok b ↔ ∃ a, x = .ok a ∧ f a = .ok b := by
  cases x with
  | error e =>
      constructor
      · intro h
        cases h
      · rintro ⟨a, ha, -⟩
        cases ha
  | ok a =>
      constructor
      · intro h
        exact ⟨a, rfl, h⟩
      · rintro ⟨a', ha', h⟩
        cases ha'
        exact h

theorem map_eq_ok_iff {x : Except ε α} {f : α → β} {b : β} :
    x.map f = .ok b ↔ ∃ a, x = .ok a ∧ f a = b := by
  cases x with
  | error e =>
      constructor
      · intro h
        cases h
      · rintro ⟨a, ha, -⟩
        cases ha
  | ok a =>
      constructor
      · intro h
        exact ⟨a, rfl, Except.ok.inj h⟩
      · rintro ⟨a', ha', rfl⟩
        cases ha'
        rfl

theorem toOption_eq_some_iff {x : Except ε α} {a : α} : x.toOption = some a ↔ x = .ok a := by
  cases x with
  | error e =>
      constructor
      · intro h
        cases h
      · intro h
        cases h
  | ok a' =>
      constructor
      · intro h
        exact congrArg _ (Option.some.inj h)
      · intro h
        exact congrArg _ (Except.ok.inj h)

theorem mapError_eq_ok_iff {x : Except ε α} {f : ε → ε'} {a : α} :
    x.mapError f = .ok a ↔ x = .ok a := by
  cases x with
  | error e =>
      constructor
      · intro h
        cases h
      · intro h
        cases h
  | ok a' =>
      constructor
      · intro h
        exact congrArg _ (Except.ok.inj h)
      · intro h
        exact congrArg _ (Except.ok.inj h)

/-- **A list of checks** succeeds with the results of all of them. -/
theorem mapM_eq_ok_iff {f : α → Except ε β} {xs : List α} {ys : List β} :
    xs.mapM f = .ok ys ↔ List.Forall₂ (fun x y => f x = .ok y) xs ys := by
  induction xs generalizing ys with
  | nil =>
      rw [List.forall₂_nil_left_iff]
      constructor
      · intro h
        exact (Except.ok.inj h).symm
      · rintro rfl
        rfl
  | cons x xs ih =>
      rw [List.mapM_cons, List.forall₂_cons_left_iff]
      change (f x).bind (fun y => (xs.mapM f).bind fun ys => .ok (y :: ys)) = .ok ys ↔ _
      rw [bind_eq_ok_iff]
      constructor
      · rintro ⟨y, hy, h⟩
        obtain ⟨rest, hrest, hcons⟩ := bind_eq_ok_iff.mp h
        exact ⟨y, rest, hy, ih.mp hrest, (Except.ok.inj hcons).symm⟩
      · rintro ⟨y, rest, hy, hrest, rfl⟩
        exact ⟨y, hy, bind_eq_ok_iff.mpr ⟨rest, ih.mpr hrest, rfl⟩⟩

/-- Every result of a list of checks comes from one of them. -/
theorem exists_of_mem_of_mapM {f : α → Except ε β} {xs : List α} {ys : List β}
    (h : xs.mapM f = .ok ys) {y : β} (hy : y ∈ ys) : ∃ x ∈ xs, f x = .ok y := by
  have hall := mapM_eq_ok_iff.mp h
  clear h
  induction hall with
  | nil => cases hy
  | cons hhead _ ih =>
      rcases List.mem_cons.mp hy with rfl | hy
      · exact ⟨_, List.mem_cons_self, hhead⟩
      · obtain ⟨x, hx, hfx⟩ := ih hy
        exact ⟨x, List.mem_cons_of_mem _ hx, hfx⟩

/-- Every check of a list that succeeds has a result. -/
theorem exists_result_of_mapM {f : α → Except ε β} {xs : List α} {ys : List β}
    (h : xs.mapM f = .ok ys) {x : α} (hx : x ∈ xs) : ∃ y ∈ ys, f x = .ok y := by
  have hall := mapM_eq_ok_iff.mp h
  clear h
  induction hall with
  | nil => cases hx
  | cons hhead _ ih =>
      rcases List.mem_cons.mp hx with rfl | hx
      · exact ⟨_, List.mem_cons_self, hhead⟩
      · obtain ⟨y, hy, hfx⟩ := ih hx
        exact ⟨y, List.mem_cons_of_mem _ hy, hfx⟩

/-- When every check succeeds, so does the list. -/
theorem exists_mapM_eq_ok {f : α → Except ε β} {xs : List α}
    (h : ∀ x ∈ xs, ∃ y, f x = .ok y) : ∃ ys, xs.mapM f = .ok ys := by
  induction xs with
  | nil => exact ⟨[], rfl⟩
  | cons x xs ih =>
      obtain ⟨y, hy⟩ := h x List.mem_cons_self
      obtain ⟨ys, hys⟩ := ih fun x' hx' => h x' (List.mem_cons_of_mem x hx')
      exact ⟨y :: ys, mapM_eq_ok_iff.mpr ((mapM_eq_ok_iff.mp hys).cons hy)⟩

/-- A list of checks without results succeeds when every check does. -/
theorem forM_eq_ok_iff {f : α → Except ε PUnit} {xs : List α} :
    xs.forM f = .ok ⟨⟩ ↔ ∀ x ∈ xs, f x = .ok ⟨⟩ := by
  induction xs with
  | nil => exact iff_of_true rfl fun x hx => (by cases hx)
  | cons x xs ih =>
      show (f x).bind (fun _ => xs.forM f) = .ok ⟨⟩ ↔ _
      rw [bind_eq_ok_iff, List.forall_mem_cons]
      constructor
      · rintro ⟨⟨⟩, hx, hxs⟩
        exact ⟨hx, ih.mp hxs⟩
      · rintro ⟨hx, hxs⟩
        exact ⟨⟨⟩, hx, ih.mpr hxs⟩

/-- **One check that fails** refuses the list. -/
theorem exists_mapM_eq_error {f : α → Except ε β} {xs : List α} {x : α} (hx : x ∈ xs)
    (hfail : ∀ y, f x ≠ .ok y) : ∃ e, xs.mapM f = .error e := by
  cases h : xs.mapM f with
  | error e => exact ⟨e, rfl⟩
  | ok ys =>
      obtain ⟨y, -, hy⟩ := exists_result_of_mapM h hx
      exact absurd hy (hfail y)

end Validation
