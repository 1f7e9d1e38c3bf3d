import Mathlib.Algebra.GroupWithZero.Nat
import Mathlib.Algebra.Order.BigOperators.Group.List
import Mathlib.Algebra.Order.Monoid.Canonical.Basic
import Mathlib.Algebra.Order.Ring.Nat
import Mathlib.Data.Nat.Notation

/-!
# Fixed windows

Amounts are granted at instants, each within a window that opened not long before.
Whoever keeps the sum of every window within a limit, and lets a window open only when a
period has passed since the last one opened, grants at most twice the limit in any
interval that is shorter than the period: such an interval meets at most two windows
(`Orderly.interval_le`).  `Current` is the invariant of a counter that does so; it is kept
by a grant in the current window (`Current.grant`) and by opening a new one
(`Current.reopen`).
-/

namespace FixedWindow

/-- An amount granted at an instant, within the window that opened at `opened`. -/
structure Grant where
  opened : ℕ
  instant : ℕ
  amount : ℕ

/-- The sum of some grants. -/
def total (grants : List Grant) : ℕ := (grants.map Grant.amount).sum

/-- The grants of the window that opened at an instant. -/
def ofWindow (opened : ℕ) (grants : List Grant) : List Grant :=
  grants.filter fun g => g.opened = opened

/-- The grants from one instant to another. -/
def between (first last : ℕ) (grants : List Grant) : List Grant :=
  grants.filter fun g => first ≤ g.instant ∧ g.instant ≤ last

/-- The grants from an instant on. -/
def since (first : ℕ) (grants : List Grant) : List Grant :=
  grants.filter fun g => first ≤ g.instant

/-- **Orderly grants**: each lies in its window, windows open at least a period apart, and
none grants more than the limit. -/
structure Orderly (period limit : ℕ) (grants : List Grant) : Prop where
  inside : ∀ g ∈ grants, g.opened ≤ g.instant ∧ g.instant < g.opened + period
  apart : grants.Pairwise fun g h => g.opened = h.opened ∨ g.opened + period ≤ h.opened
  limited : ∀ opened, total (ofWindow opened grants) ≤ limit

variable {period limit : ℕ} {grants : List Grant}

theorem total_append (grants more : List Grant) :
    total (grants ++ more) = total grants + total more := by
  unfold total
  rw [List.map_append, List.sum_append]

/-- Fewer grants are no more. -/
theorem total_sublist {grants more : List Grant} (h : grants.Sublist more) :
    total grants ≤ total more :=
  (h.map Grant.amount).sum_le_sum fun _ _ => Nat.zero_le _

/-- The grants of two kinds, apart. -/
theorem total_filter_add (p : Grant → Bool) (grants : List Grant) :
    total (grants.filter p) + total (grants.filter fun g => !p g) = total grants := by
  have hperm := List.filter_append_perm p grants
  rw [← total_append]
  exact (hperm.map Grant.amount).sum_eq

/-- In a short interval the grants that are not of the window of the first are all of one
window. -/
theorem Orderly.others_le (h : Orderly period limit grants) {g : Grant} {rest : List Grant}
    (hsub : (g :: rest).Sublist grants) {first last : ℕ}
    (hinterval : ∀ k ∈ g :: rest, first ≤ k.instant ∧ k.instant ≤ last)
    (hshort : last < first + period) :
    total ((g :: rest).filter fun k => !decide (k.opened = g.opened)) ≤ limit := by
  have hpairs := List.pairwise_cons.mp (h.apart.sublist hsub)
  -- Such a window opens a period after the first, so not another period before the end.
  have hlate : ∀ k ∈ (g :: rest).filter fun k => !decide (k.opened = g.opened),
      g.opened + period ≤ k.opened ∧ k.opened < g.opened + 2 * period := by
    intro k hk
    obtain ⟨hmem, hne⟩ := List.mem_filter.mp hk
    have hne : k.opened ≠ g.opened := by simpa using hne
    have hinside := h.inside k (hsub.subset hmem)
    have hginside := h.inside g (hsub.subset List.mem_cons_self)
    have hk := hinterval k hmem
    have hg := hinterval g List.mem_cons_self
    rcases List.mem_cons.mp hmem with rfl | hrest
    · exact absurd rfl hne
    · rcases hpairs.1 k hrest with heq | hlater
      · exact absurd heq.symm hne
      · exact ⟨hlater, by omega⟩
  have hothers : ((g :: rest).filter fun k => !decide (k.opened = g.opened)).Sublist grants :=
    List.filter_sublist.trans hsub
  cases hlist : (g :: rest).filter fun k => !decide (k.opened = g.opened) with
  | nil => exact Nat.zero_le _
  | cons k more =>
      rw [hlist] at hlate hothers
      have hmore := List.pairwise_cons.mp (h.apart.sublist hothers)
      have hsame : ∀ m ∈ k :: more, decide (m.opened = k.opened) = true := by
        intro m hm
        rcases List.mem_cons.mp hm with rfl | hm'
        · exact decide_eq_true rfl
        · have hkl := hlate k List.mem_cons_self
          have hml := hlate m hm
          refine decide_eq_true ?_
          rcases hmore.1 m hm' with heq | hlater
          · exact heq.symm
          · omega
      have hwindow := hothers.filter fun m => decide (m.opened = k.opened)
      rw [List.filter_eq_self.mpr hsame] at hwindow
      exact (total_sublist hwindow).trans (h.limited k.opened)

/-- **At most two windows in a short interval.** -/
theorem Orderly.interval_le (h : Orderly period limit grants) {first last : ℕ}
    (hshort : last < first + period) : total (between first last grants) ≤ 2 * limit := by
  have hsub : (between first last grants).Sublist grants := List.filter_sublist
  have hinterval : ∀ g ∈ between first last grants, first ≤ g.instant ∧ g.instant ≤ last := by
    intro g hg
    simpa using (List.mem_filter.mp hg).2
  cases hgrants : between first last grants with
  | nil => exact Nat.zero_le _
  | cons g rest =>
      rw [hgrants] at hsub hinterval
      -- Those of the window of the first, and the others.
      rw [← total_filter_add (fun k => k.opened = g.opened) (g :: rest)]
      have hfirst : total ((g :: rest).filter fun k => k.opened = g.opened) ≤ limit :=
        (total_sublist (hsub.filter _)).trans (h.limited g.opened)
      have hothers :
          total ((g :: rest).filter fun k => !decide (k.opened = g.opened)) ≤ limit :=
        h.others_le hsub hinterval hshort
      omega

/-! ## A counter that grants -/

/-- **A counter with a current window**, that opened at `opened`: what it has used in it is
what was granted in it, and all other windows are over. -/
structure Current (period limit : ℕ) (grants : List Grant) (opened used : ℕ) : Prop where
  orderly : Orderly period limit grants
  used_eq : used = total (ofWindow opened grants)
  used_le : used ≤ limit
  earlier : ∀ g ∈ grants, g.opened = opened ∨ g.opened + period ≤ opened

namespace Current

variable {opened used : ℕ}

/-- A counter that has granted nothing. -/
theorem empty (period limit opened : ℕ) : Current period limit [] opened 0 where
  orderly := {
    inside := fun _ hg => nomatch hg
    apart := .nil
    limited := fun _ => Nat.zero_le _ }
  used_eq := rfl
  used_le := Nat.zero_le _
  earlier := fun _ hg => nomatch hg

/-- **Another grant in the window**, within the limit. -/
theorem grant (h : Current period limit grants opened used) {now n : ℕ} (hopened : opened ≤ now)
    (hnow : now < opened + period) (hfits : used + n ≤ limit) :
    Current period limit (grants ++ [⟨opened, now, n⟩]) opened (used + n) := by
  have hself : total (ofWindow opened (grants ++ [⟨opened, now, n⟩])) = used + n := by
    unfold ofWindow
    rw [List.filter_append, total_append, h.used_eq]
    simp [total, ofWindow]
  refine ⟨⟨?_, ?_, fun other => ?_⟩, hself.symm, hfits, ?_⟩
  · intro g hg
    rcases List.mem_append.mp hg with hg | hg
    · exact h.orderly.inside g hg
    · obtain rfl := List.mem_singleton.mp hg
      exact ⟨hopened, hnow⟩
  · refine List.pairwise_append.mpr ⟨h.orderly.apart, List.pairwise_singleton _ _, ?_⟩
    intro g hg k hk
    obtain rfl := List.mem_singleton.mp hk
    exact h.earlier g hg
  · by_cases hother : other = opened
    · subst hother
      exact hself.le.trans hfits
    · have hsame : ofWindow other (grants ++ [⟨opened, now, n⟩]) = ofWindow other grants := by
        unfold ofWindow
        rw [List.filter_append, List.filter_singleton]
        simp [Ne.symm hother]
      rw [hsame]
      exact h.orderly.limited other
  · intro g hg
    rcases List.mem_append.mp hg with hg | hg
    · exact h.earlier g hg
    · obtain rfl := List.mem_singleton.mp hg
      exact .inl rfl

/-- **A new window**, when the period is over. -/
theorem reopen (h : Current period limit grants opened used) (hperiod : 0 < period) {now : ℕ}
    (hnow : opened + period ≤ now) : Current period limit grants now 0 := by
  have hover : ∀ g ∈ grants, g.opened + period ≤ now := by
    intro g hg
    rcases h.earlier g hg with heq | hearlier
    · omega
    · omega
  have hnone : ofWindow now grants = [] := by
    refine List.filter_eq_nil_iff.mpr fun g hg heq => ?_
    have hbefore := hover g hg
    have hsame : g.opened = now := by simpa using heq
    omega
  refine ⟨h.orderly, ?_, Nat.zero_le _, fun g hg => .inr (hover g hg)⟩
  rw [hnone]
  rfl

/-- What is used is what was granted since the window opened. -/
theorem used_eq_since (h : Current period limit grants opened used) :
    used = total (since opened grants) := by
  have hsame : since opened grants = ofWindow opened grants := by
    refine List.filter_congr fun g hg => decide_eq_decide.mpr ?_
    have hinside := h.orderly.inside g hg
    rcases h.earlier g hg with heq | hearlier
    · exact iff_of_true (by omega) heq
    · exact iff_of_false (by omega) (by omega)
  rw [hsame]
  exact h.used_eq

end Current

end FixedWindow
