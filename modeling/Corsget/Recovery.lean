import Corsget.Counters

/-!
# A bucket that was left alone

A tier that has refused a subject refuses it for the rest of the window, and no longer.
When a bucket has not been charged for the length of every window, the limiter answers it
from then on as if it had never been charged before (`idle_bucket_recovers`): nothing that a
subject did, and nothing that the others do meanwhile, is held against it for longer than
that.
-/

namespace Corsget

open Text Keyed

/-- What a charge does depends on the window that it finds. -/
theorem WindowState.charge_congr {s s' : WindowState} {window : Window} {now : ℕ}
    (h : s.rolled window now = s'.rolled window now) (n : ℕ) :
    s.charge n window now = s'.charge n window now := by
  rw [charge_eq, charge_eq, h]

/-- A window that opens now is a new one, whatever its length. -/
theorem WindowState.rolled_new (window : Window) (now : ℕ) :
    (WindowState.new now).rolled window now = ⟨0, now⟩ := by
  unfold rolled
  split
  · rfl
  · rfl

/-- A new window opens when the last one has elapsed. -/
theorem WindowState.rolled_elapsed {s : WindowState} {window : Window} {now : ℕ}
    (h : s.windowStart + window.period ≤ now) : s.rolled window now = ⟨0, now⟩ := by
  have helapsed : window.period ≤ now - s.windowStart := by omega
  unfold rolled
  exact if_pos helapsed

/-- **A counter forgets** what was charged a period ago. -/
theorem counter_feed_elapsed {window : Window} {earlier : List Charge} {charge : Charge}
    (h : ∀ past ∈ earlier, past.now + window.period ≤ charge.now) :
    (counter window).feed ((counter window).after earlier) charge =
      (counter window).feed none charge := by
  cases hafter : (counter window).after earlier with
  | none => rfl
  | some usage =>
      obtain ⟨past, hpast, hstart⟩ := List.mem_map.mp (windowStart_mem hafter)
      have helapsed : usage.windowStart + window.period ≤ charge.now := hstart ▸ h past hpast
      rw [counter_feed, counter_feed]
      refine WindowState.charge_congr ?_ charge.n
      rw [Option.getD_some, Option.getD_none, WindowState.rolled_elapsed helapsed,
        WindowState.rolled_new]

/-- A counter that was never charged accepts what fits. -/
theorem counter_feed_none {tier : LimitTier} {charge : Charge} (hn : charge.n < 2 ^ 64) :
    ((counter (.ofTier tier)).feed none charge).1 = .ok () ↔ charge.n ≤ tier.max := by
  have hsum : saturatingAdd 0 charge.n = charge.n := by
    unfold saturatingAdd
    omega
  rw [counter_feed, Option.getD_none, WindowState.charge_eq, WindowState.rolled_new, hsum]
  rcases lt_or_ge (Window.ofTier tier).max charge.n with hover | hfits
  · rw [if_pos hover]
    exact iff_of_false (fun h => by cases h) hover.not_ge
  · rw [if_neg hfits.not_gt]
    exact iff_of_true rfl hfits

namespace BandwidthLimiter

/-- What the limiter answers, by the lone counters of the bucket. -/
theorem charge_after (tiers : List LimitTier) (calls : List (Str × Charge)) (bucket : Str)
    (charge : Charge) :
    ((after tiers calls).charge bucket charge.n charge.now).1 =
      firstError (tiers.map fun tier => ((counter (.ofTier tier)).feed
        ((counter (.ofTier tier)).after (inputsAt bucket calls)) charge).1) := by
  rw [charge_fst, chargeTiers_eq, tiers_after]
  dsimp only
  rw [List.map_map]
  refine congrArg firstError (List.map_congr_left fun tier _ => ?_)
  rw [Function.comp_apply, answer_eq]

end BandwidthLimiter

/-- **A bucket recovers**: when none of its charges is as recent as the longest window, all
its later charges are answered as by a limiter that has seen the later ones only, and the
first of them is accepted if it fits every tier. -/
theorem idle_bucket_recovers {tiers : List LimitTier} {earlier later : List (Str × Charge)}
    {bucket : Str} {resume : ℕ}
    (hquiet : ∀ past ∈ inputsAt bucket earlier, ∀ tier ∈ tiers,
      past.now + (Window.ofTier tier).period ≤ resume)
    {charge : Charge} (hlater : ∀ next ∈ inputsAt bucket later ++ [charge], resume ≤ next.now) :
    let answer := ((BandwidthLimiter.after tiers (earlier ++ later)).charge bucket
      charge.n charge.now).1
    answer = ((BandwidthLimiter.after tiers later).charge bucket charge.n charge.now).1 ∧
      (inputsAt bucket later = [] → charge.n < 2 ^ 64 →
        (answer = .ok () ↔ ∀ tier ∈ tiers, charge.n ≤ tier.max)) := by
  intro answer
  have hanswer : answer =
      ((BandwidthLimiter.after tiers later).charge bucket charge.n charge.now).1 := by
    unfold answer
    rw [BandwidthLimiter.charge_after, BandwidthLimiter.charge_after, inputsAt_append]
    refine congrArg firstError (List.map_congr_left fun tier htier => congrArg Prod.fst ?_)
    refine Machine.feed_append_of_unseen _ fun first hfirst => ?_
    refine counter_feed_elapsed fun past hpast => (hquiet past hpast tier htier).trans ?_
    exact hlater first (List.mem_of_mem_head? hfirst)
  refine ⟨hanswer, fun hnone hn => ?_⟩
  rw [hanswer, BandwidthLimiter.charge_after, hnone, firstError_eq_ok, List.forall_mem_map]
  exact forall₂_congr fun tier _ => counter_feed_none hn

/-- The theorem for a bucket that has used up its window, and waits for a minute while
another bucket is charged. -/
theorem idle_bucket_recovers_minute :
    ((BandwidthLimiter.after [⟨60, 3⟩] ([("bucket".toList, ⟨3, 0⟩), ("bucket".toList, ⟨1, 5⟩)] ++
      [("other".toList, ⟨3, 7⟩)])).charge "bucket".toList 3 (60 * 10 ^ 9 + 5)).1 = .ok () :=
  ((@idle_bucket_recovers [⟨60, 3⟩] [("bucket".toList, ⟨3, 0⟩), ("bucket".toList, ⟨1, 5⟩)]
    [("other".toList, ⟨3, 7⟩)] "bucket".toList (60 * 10 ^ 9 + 5) (by decide)
    ⟨3, 60 * 10 ^ 9 + 5⟩ (by decide)).2 (by decide) (by decide)).mpr (by decide)

end Corsget
