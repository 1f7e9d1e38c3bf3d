import Mathlib.Algebra.BigOperators.Group.List.Basic
import Mathlib.Algebra.GroupWithZero.Nat
import Mathlib.Data.Nat.Notation

/-!
# Least recently used entries

A store with a limit on its size gives up the entries that were used least
recently, in order, until what is left fits.  `victims` are the entries that go
from a list that is already in order; the running total is an argument, so that
a program with a total of its own (one that saturates, say) can use it too.

Whatever the order is, none goes while the total fits (`victims_of_fits`), and the
victims are the first entries, as few as it takes for what stays to fit
(`cut_victims`).
-/

namespace Lru

variable {κ : Type*}

/-- The last access, the key and the size of an entry. -/
abbrev Usage (κ : Type*) := ℕ × κ × ℕ

/-- The keys of some entries. -/
def keys (entries : List (Usage κ)) : List κ := entries.map fun e => e.2.1

/-- The size of some entries together. -/
def size (entries : List (Usage κ)) : ℕ := (entries.map fun e => e.2.2).sum

/-- The entries that go, in order, until the total is within the limit. -/
def victims (limit : ℕ) : List (Usage κ) → ℕ → List (Usage κ)
  | [], _ => []
  | e :: rest, total =>
      if total ≤ limit then [] else e :: victims limit rest (total - e.2.2)

section Lemmas

variable {limit total : ℕ} {entries entries' : List (Usage κ)}

theorem victims_of_fits (h : total ≤ limit) : victims limit entries total = [] := by
  cases entries with
  | nil => rfl
  | cons e rest => exact if_pos h

theorem size_cons (e : Usage κ) : size (e :: entries) = e.2.2 + size entries := rfl

theorem size_perm (h : entries.Perm entries') : size entries = size entries' :=
  (h.map _).sum_eq

/-- **A least cut** of some entries: what goes is at the front, what stays fits, and it would
not if the last one that goes stayed too. -/
structure Cut (limit : ℕ) (entries gone stay : List (Usage κ)) : Prop where
  split : entries = gone ++ stay
  fits : size stay ≤ limit
  least : ∀ front last, gone = front ++ [last] → limit < size (last :: stay)

/-- **The victims are a least cut.** -/
theorem cut_victims (limit : ℕ) (entries : List (Usage κ)) :
    ∃ stay, Cut limit entries (victims limit entries (size entries)) stay := by
  induction entries with
  | nil => exact ⟨[], rfl, Nat.zero_le _, fun front last h => by simp [victims] at h⟩
  | cons e rest ih =>
      unfold victims
      split
      · next hfits => exact ⟨e :: rest, rfl, hfits, fun front last h => by simp at h⟩
      · next hover =>
        obtain ⟨stay, hsplit, hfits, hleast⟩ := ih
        rw [size_cons, Nat.add_sub_cancel_left]
        refine ⟨stay, congrArg (e :: ·) hsplit, hfits, fun front last h => ?_⟩
        cases front with
        | nil =>
            -- Only the first one goes, and everything that it is in front of stays.
            obtain ⟨rfl, hnone⟩ := List.cons.inj h
            rw [hnone, List.nil_append] at hsplit
            rw [← hsplit]
            exact Nat.lt_of_not_le hover
        | cons e' front => exact hleast front last (List.cons.inj h).2

/-- What goes was used no later than what stays, when the entries are in order. -/
theorem Cut.le {gone stay : List (Usage κ)} (h : Cut limit entries gone stay)
    (hsorted : entries.Pairwise fun a b => a.1 ≤ b.1) : ∀ a ∈ gone, ∀ b ∈ stay, a.1 ≤ b.1 :=
  (List.pairwise_append.mp (h.split ▸ hsorted)).2.2

end Lemmas

end Lru
