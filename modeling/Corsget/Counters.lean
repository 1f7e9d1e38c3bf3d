import Corsget.Library.FixedWindow
import Corsget.Library.Keyed
import Corsget.Limit

/-!
# The counters of the bandwidth limiter

A `WindowState` on its own is a machine that is charged at instants (`counter`), and the
limiter is a product of such machines, one for each tier and bucket (`limiter_is_product`).
So what is shown of one counter holds of the limiter.

A counter keeps what it accepts within the bound of fixed windows
(`accepted_within_bound`).
-/

namespace Corsget

open Text Keyed FixedWindow

/-! ## A counter on its own -/

/-- A number of bytes charged at an instant. -/
structure Charge where
  n : ℕ
  now : ℕ

/-- A lone `WindowState`, which its first charge creates. -/
def counter (window : Window) : Machine Charge WindowState (Except BandwidthError Unit) where
  create charge := .new charge.now
  step state charge := state.charge charge.n window charge.now

/-- The state that a charge at an instant finds: a new window, when the last one has
elapsed. -/
def WindowState.rolled (s : WindowState) (window : Window) (now : ℕ) : WindowState :=
  if window.period ≤ now - s.windowStart then ⟨0, now⟩ else s

/-- A charge is made in the window that it finds. -/
theorem WindowState.charge_eq (s : WindowState) (n : ℕ) (window : Window) (now : ℕ) :
    s.charge n window now =
      if window.max < saturatingAdd (s.rolled window now).used n then
        (.error (.connectionExceeded window.max (window.period / 10 ^ 9)), s.rolled window now)
      else (.ok (), { s.rolled window now with
        used := saturatingAdd (s.rolled window now).used n }) := rfl

theorem WindowState.windowStart_charge (s : WindowState) (n : ℕ) (window : Window) (now : ℕ) :
    (s.charge n window now).2.windowStart = (s.rolled window now).windowStart := by
  rw [charge_eq]
  split
  · rfl
  · rfl

/-- A window stays, or a new one opens at once. -/
theorem WindowState.windowStart_rolled (s : WindowState) (window : Window) (now : ℕ) :
    (s.rolled window now).windowStart = s.windowStart ∨
      (s.rolled window now).windowStart = now ∧ window.period ≤ now - s.windowStart := by
  unfold rolled
  split
  · next helapsed => exact .inr ⟨rfl, helapsed⟩
  · exact .inl rfl

/-! ## The limiter is a product -/

/-- The first error of some verdicts. -/
def firstError {ε : Type} : List (Except ε Unit) → Except ε Unit
  | [] => .ok ()
  | .error e :: _ => .error e
  | .ok () :: rest => firstError rest

theorem firstError_eq_ok {ε : Type} {verdicts : List (Except ε Unit)} :
    firstError verdicts = .ok () ↔ ∀ verdict ∈ verdicts, verdict = .ok () := by
  induction verdicts with
  | nil => exact iff_of_true rfl nofun
  | cons verdict rest ih =>
      cases verdict with
      | error e => simp [firstError]
      | ok u => simpa [firstError] using ih

theorem firstError_eq_error {ε : Type} {verdicts : List (Except ε Unit)} {e : ε} :
    firstError verdicts = .error e ↔ ∃ before after, verdicts = before ++ .error e :: after ∧
      ∀ verdict ∈ before, verdict = .ok () := by
  induction verdicts with
  | nil =>
      constructor
      · intro h
        cases h
      · rintro ⟨before, after, h, -⟩
        simp at h
  | cons verdict rest ih =>
      cases verdict with
      | error e' =>
          constructor
          · intro h
            obtain rfl : e' = e := Except.error.inj h
            exact ⟨[], rest, rfl, fun _ hmem => nomatch hmem⟩
          · rintro ⟨before, after, h, hbefore⟩
            cases before with
            | nil => exact congrArg Except.error (Except.error.inj (List.cons.inj h).1)
            | cons verdict before =>
                obtain ⟨rfl, -⟩ := List.cons.inj h
                exact absurd (hbefore _ List.mem_cons_self) (by simp)
      | ok u =>
          show firstError rest = .error e ↔ _
          rw [ih]
          constructor
          · rintro ⟨before, after, rfl, hbefore⟩
            exact ⟨.ok u :: before, after, rfl, List.forall_mem_cons.mpr ⟨rfl, hbefore⟩⟩
          · rintro ⟨before, after, h, hbefore⟩
            cases before with
            | nil => simp at h
            | cons verdict before =>
                obtain ⟨-, rfl⟩ := List.cons.inj h
                exact ⟨before, after, rfl, fun v hv => hbefore v (List.mem_cons_of_mem _ hv)⟩

namespace BandwidthLimiter

/-- **Every tier is charged**, whatever the others answer, and the first error is the
answer. -/
theorem chargeTiers_eq (bucket : Str) (charge : Charge) (tiers : List (Window × WindowStates)) :
    chargeTiers bucket charge.n charge.now tiers =
      (firstError (tiers.map fun t => (feedAt (counter t.1) t.2 bucket charge).1),
        tiers.map fun t => (t.1, (feedAt (counter t.1) t.2 bucket charge).2)) := by
  induction tiers with
  | nil => rfl
  | cons tier rest ih =>
      obtain ⟨window, states⟩ := tier
      unfold chargeTiers
      rw [ih]
      refine Prod.ext ?_ rfl
      rw [List.map_cons]
      cases hverdict : (feedAt (counter window) states bucket charge).1 with
      | error e =>
          dsimp only
          split
          · next e' herror => exact herror.symm.trans hverdict
          · next hok => cases hok.symm.trans hverdict
      | ok u =>
          dsimp only
          split
          · next e' herror => cases herror.symm.trans hverdict
          · rfl

theorem charge_fst (limiter : BandwidthLimiter) (bucket : Str) (n now : ℕ) :
    (limiter.charge bucket n now).1 = (chargeTiers bucket n now limiter.tiers).1 := rfl

theorem charge_tiers (limiter : BandwidthLimiter) (bucket : Str) (n now : ℕ) :
    (limiter.charge bucket n now).2.tiers = (chargeTiers bucket n now limiter.tiers).2 := rfl

/-- The limiter after some calls. -/
def after (tiers : List LimitTier) (calls : List (Str × Charge)) : BandwidthLimiter :=
  calls.foldl (fun limiter call => (limiter.charge call.1 call.2.n call.2.now).2) (.new tiers)

/-- The limiter holds, for each tier, the counters of all buckets. -/
theorem tiers_after (tiers : List LimitTier) (calls : List (Str × Charge)) :
    (after tiers calls).tiers = tiers.map fun tier =>
      (Window.ofTier tier, Keyed.after (counter (.ofTier tier)) calls) := by
  induction calls using List.reverseRecOn with
  | nil => rfl
  | append_singleton calls call ih =>
      obtain ⟨bucket, charge⟩ := call
      have hsnoc : after tiers (calls ++ [(bucket, charge)]) =
          ((after tiers calls).charge bucket charge.n charge.now).2 := by
        unfold after
        rw [List.foldl_append, List.foldl_cons, List.foldl_nil]
      rw [hsnoc, charge_tiers, chargeTiers_eq, ih]
      dsimp only
      rw [List.map_map]
      refine List.map_congr_left fun tier _ => ?_
      rw [Keyed.after_snoc, Function.comp_apply]

/-- What the limiter holds for a tier and a bucket. -/
def usage (limiter : BandwidthLimiter) (i : ℕ) (bucket : Str) : Option WindowState :=
  limiter.tiers[i]?.bind fun tier => tier.2.lookup bucket

/-- That is the state of a lone counter. -/
theorem usage_after {tiers : List LimitTier} {i : ℕ} {tier : LimitTier}
    (htier : tiers[i]? = some tier) (bucket : Str) (calls : List (Str × Charge)) :
    (after tiers calls).usage i bucket =
      (counter (.ofTier tier)).after (inputsAt bucket calls) := by
  unfold usage
  rw [tiers_after, List.getElem?_map, htier]
  exact lookup_after _ bucket calls

end BandwidthLimiter

/-- **The limiter is a product of independent counters**: for each tier and bucket it holds
the state of a lone counter that was charged by the calls of that bucket, and the answer to
a call is the first error of the lone counters. -/
theorem limiter_is_product (tiers : List LimitTier) (calls : List (Str × Charge)) (bucket : Str) :
    (∀ i tier, tiers[i]? = some tier → (BandwidthLimiter.after tiers calls).usage i bucket =
      (counter (.ofTier tier)).after (inputsAt bucket calls)) ∧
    ∀ charge : Charge,
      let verdict := fun tier : LimitTier =>
        ((counter (.ofTier tier)).feed
          ((counter (.ofTier tier)).after (inputsAt bucket calls)) charge).1
      let answer := ((BandwidthLimiter.after tiers calls).charge bucket charge.n charge.now).1
      (answer = .ok () ↔ ∀ tier ∈ tiers, verdict tier = .ok ()) ∧
        ∀ e, answer = .error e ↔ ∃ before tier later, tiers = before ++ tier :: later ∧
          (∀ t ∈ before, verdict t = .ok ()) ∧ verdict tier = .error e := by
  refine ⟨fun i tier htier => BandwidthLimiter.usage_after htier bucket calls, fun charge => ?_⟩
  intro verdict answer
  have hanswer : answer = firstError (tiers.map verdict) := by
    unfold answer verdict
    rw [BandwidthLimiter.charge_fst, BandwidthLimiter.chargeTiers_eq, BandwidthLimiter.tiers_after]
    dsimp only
    rw [List.map_map]
    refine congrArg firstError (List.map_congr_left fun tier _ => ?_)
    rw [Function.comp_apply, answer_eq]
  rw [hanswer]
  refine ⟨by rw [firstError_eq_ok, List.forall_mem_map], fun e => ?_⟩
  rw [firstError_eq_error]
  constructor
  · rintro ⟨before, after, hsplit, hbefore⟩
    obtain ⟨front, back, rfl, rfl, hback⟩ := List.map_eq_append_iff.mp hsplit
    obtain ⟨tier, later, rfl, htier, -⟩ := List.map_eq_cons_iff.mp hback
    exact ⟨front, tier, later, rfl, List.forall_mem_map.mp hbefore, htier⟩
  · rintro ⟨before, tier, later, rfl, hbefore, htier⟩
    refine ⟨before.map verdict, later.map verdict, ?_, List.forall_mem_map.mpr hbefore⟩
    rw [List.map_append, List.map_cons, htier]

/-! ## The bound of fixed windows -/

/-- A charge that was accepted. -/
def acceptedTurn (turn : Turn Charge WindowState (Except BandwidthError Unit)) : Bool :=
  turn.answer.isOk

/-- The charges that a counter has accepted, among those made. -/
def accepted (window : Window) (charges : List Charge) : List Charge :=
  (((counter window).transcript charges).filter acceptedTurn).map Turn.input

/-- The same, each with the window in which it was accepted. -/
def grants (window : Window) (charges : List Charge) : List Grant :=
  (((counter window).transcript charges).filter acceptedTurn).map fun turn =>
    ⟨turn.after.windowStart, turn.input.now, turn.input.n⟩

/-- The bytes of the charges at instants that satisfy `p`. -/
def bytesWhere (p : ℕ → Bool) (charges : List Charge) : ℕ :=
  ((charges.filter fun charge => p charge.now).map Charge.n).sum

/-- The accepted bytes are those granted. -/
theorem bytesWhere_accepted (p : ℕ → Bool) (window : Window) (charges : List Charge) :
    bytesWhere p (accepted window charges) =
      FixedWindow.total ((grants window charges).filter fun g => p g.instant) := by
  unfold bytesWhere accepted grants FixedWindow.total
  rw [List.filter_map, List.filter_map, List.map_map, List.map_map]
  rfl

/-- **One charge more.** -/
theorem grants_snoc (window : Window) (charges : List Charge) (charge : Charge) :
    grants window (charges ++ [charge]) = grants window charges ++
      if ((counter window).feed ((counter window).after charges) charge).1.isOk then
        [⟨((counter window).feed ((counter window).after charges) charge).2.windowStart,
          charge.now, charge.n⟩]
      else [] := by
  unfold grants
  rw [Machine.transcript_snoc, List.filter_append, List.map_append, List.filter_singleton]
  refine congrArg _ ?_
  unfold acceptedTurn
  dsimp only
  cases ((counter window).feed ((counter window).after charges) charge).1.isOk with
  | true => rfl
  | false => rfl

/-- For a maximum that the saturating sum can exceed, a charge is accepted when it fits. -/
theorem saturatingAdd_gt_iff {max used n : ℕ} (hmax : max < 2 ^ 64 - 1) :
    max < saturatingAdd used n ↔ max < used + n := by
  unfold saturatingAdd
  omega

theorem counter_feed (window : Window) (state : Option WindowState) (charge : Charge) :
    (counter window).feed state charge =
      (state.getD (.new charge.now)).charge charge.n window charge.now := rfl

/-- The window that a charge finds is the current one, and it is not over. -/
theorem WindowState.rolled_current {window : Window} (hperiod : 0 < window.period)
    {granted : List Grant} {s : WindowState} {now : ℕ} (hnow : s.windowStart ≤ now)
    (h : Current window.period window.max granted s.windowStart s.used) :
    Current window.period window.max granted (s.rolled window now).windowStart
        (s.rolled window now).used ∧
      (s.rolled window now).windowStart ≤ now ∧
        now < (s.rolled window now).windowStart + window.period := by
  unfold rolled
  split
  · next helapsed =>
    have hover : s.windowStart + window.period ≤ now := by omega
    exact ⟨h.reopen hperiod hover, le_refl now, Nat.lt_add_of_pos_right hperiod⟩
  · next hrunning => exact ⟨h, hnow, by omega⟩

/-- A window opens at a charge. -/
theorem windowStart_mem {window : Window} {charges : List Charge} {usage : WindowState}
    (husage : (counter window).after charges = some usage) :
    usage.windowStart ∈ charges.map Charge.now := by
  induction charges using List.reverseRecOn generalizing usage with
  | nil => cases husage
  | append_singleton charges charge ih =>
      rw [Machine.after_snoc, counter_feed] at husage
      obtain rfl := Option.some.inj husage
      have hlast : charge.now ∈ (charges ++ [charge]).map Charge.now := by simp
      rw [WindowState.windowStart_charge]
      rcases WindowState.windowStart_rolled _ window charge.now with hstays | ⟨hopens, -⟩
      · rw [hstays]
        cases hafter : (counter window).after charges with
        | none => exact hlast
        | some past =>
            rw [List.map_append]
            exact List.mem_append_left _ (ih hafter)
      · rw [hopens]
        exact hlast

/-- So it is no later than what comes after the charges. -/
theorem windowStart_le {window : Window} {charges later : List Charge} {usage : WindowState}
    (hsorted : ((charges ++ later).map Charge.now).Pairwise (· ≤ ·))
    (husage : (counter window).after charges = some usage) :
    ∀ charge ∈ later, usage.windowStart ≤ charge.now := by
  intro charge hcharge
  rw [List.map_append, List.pairwise_append] at hsorted
  exact hsorted.2.2 _ (windowStart_mem husage) _ (List.mem_map_of_mem hcharge)

/-- **The invariant of a counter**: its window is the current one for what it has
accepted. -/
theorem counter_current {window : Window} (hperiod : 0 < window.period)
    (hmax : window.max < 2 ^ 64 - 1) {charges : List Charge} {usage : WindowState}
    (hsorted : (charges.map Charge.now).Pairwise (· ≤ ·))
    (husage : (counter window).after charges = some usage) :
    Current window.period window.max (grants window charges) usage.windowStart usage.used := by
  induction charges using List.reverseRecOn generalizing usage with
  | nil => cases husage
  | append_singleton charges charge ih =>
      have hpast : (charges.map Charge.now).Pairwise (· ≤ ·) :=
        hsorted.sublist ((List.sublist_append_left charges [charge]).map Charge.now)
      -- The state that the charge finds, if need be a new one.
      have hfinds : Current window.period window.max (grants window charges)
          (((counter window).after charges).getD (.new charge.now)).windowStart
          (((counter window).after charges).getD (.new charge.now)).used ∧
          (((counter window).after charges).getD (.new charge.now)).windowStart ≤ charge.now := by
        cases hafter : (counter window).after charges with
        | none =>
            obtain rfl := (Machine.after_eq_none_iff _).mp hafter
            exact ⟨.empty _ _ _, le_refl _⟩
        | some past =>
            have hstart := windowStart_le hsorted hafter charge (List.mem_singleton_self _)
            exact ⟨ih hpast hafter, hstart⟩
      rw [Machine.after_snoc, counter_feed] at husage
      obtain rfl := Option.some.inj husage
      rw [grants_snoc, counter_feed]
      generalize ((counter window).after charges).getD (.new charge.now) = s at hfinds ⊢
      obtain ⟨hcurrent, hopened, hopen⟩ := s.rolled_current hperiod hfinds.2 hfinds.1
      rw [WindowState.charge_eq]
      split
      · simpa [Except.isOk, Except.toBool] using hcurrent
      · next hfits =>
        rw [saturatingAdd_gt_iff hmax, not_lt] at hfits
        have hexact : saturatingAdd (s.rolled window charge.now).used charge.n =
            (s.rolled window charge.now).used + charge.n := by
          unfold saturatingAdd
          omega
        dsimp only
        rw [hexact]
        exact hcurrent.grant hopened hopen hfits

/-- What was granted is orderly, whether there is a state or not. -/
theorem orderly_grants {window : Window} (hperiod : 0 < window.period)
    (hmax : window.max < 2 ^ 64 - 1) {charges : List Charge}
    (hsorted : (charges.map Charge.now).Pairwise (· ≤ ·)) :
    Orderly window.period window.max (grants window charges) := by
  cases hafter : (counter window).after charges with
  | none =>
      obtain rfl := (Machine.after_eq_none_iff _).mp hafter
      exact (Current.empty window.period window.max 0).orderly
  | some usage => exact (counter_current hperiod hmax hsorted hafter).orderly

/-- **Successive windows open a period apart.** -/
theorem windowStart_apart {window : Window} {past later : List Charge} {usage usage' : WindowState}
    (hsorted : ((past ++ later).map Charge.now).Pairwise (· ≤ ·))
    (husage : (counter window).after past = some usage)
    (husage' : (counter window).after (past ++ later) = some usage') :
    usage'.windowStart = usage.windowStart ∨
      usage.windowStart + window.period ≤ usage'.windowStart := by
  induction later using List.reverseRecOn generalizing usage' with
  | nil =>
      rw [List.append_nil, husage] at husage'
      exact .inl (congrArg WindowState.windowStart (Option.some.inj husage').symm)
  | append_singleton later charge ih =>
      rw [← List.append_assoc] at hsorted husage'
      rw [Machine.after_snoc, counter_feed] at husage'
      obtain rfl := Option.some.inj husage'
      have hsorted' : ((past ++ later).map Charge.now).Pairwise (· ≤ ·) :=
        hsorted.sublist ((List.sublist_append_left _ [charge]).map Charge.now)
      obtain ⟨between, hbetween⟩ :
          ∃ between, (counter window).after (past ++ later) = some between := by
        cases hafter : (counter window).after (past ++ later) with
        | none =>
            have hnil := (Machine.after_eq_none_iff _).mp hafter
            obtain ⟨rfl, -⟩ := List.append_eq_nil_iff.mp hnil
            cases husage
        | some between => exact ⟨between, rfl⟩
      have hstart := ih hsorted' hbetween
      have hle := windowStart_le hsorted hbetween charge (List.mem_singleton_self _)
      rw [hbetween, Option.getD_some, WindowState.windowStart_charge]
      rcases between.windowStart_rolled window charge.now with hstays | ⟨hopens, helapsed⟩
      · rwa [hstays]
      · rw [hopens]
        omega

/-- The charges of a bucket come in the order of the calls. -/
theorem sorted_inputsAt (bucket : Str) {calls : List (Str × Charge)}
    (hsorted : (calls.map fun call => call.2.now).Pairwise (· ≤ ·)) :
    ((inputsAt bucket calls).map Charge.now).Pairwise (· ≤ ·) := by
  unfold inputsAt
  rw [List.map_map]
  exact hsorted.sublist (List.filter_sublist.map _)

/-- **Accepted bytes obey the bound of fixed windows**, for every tier and bucket of the
limiter. -/
theorem accepted_within_bound {tiers : List LimitTier} {i : ℕ} {tier : LimitTier}
    (htier : tiers[i]? = some tier) (hwindow : 0 < tier.window) (hmax : tier.max < 2 ^ 64 - 1)
    (bucket : Str) {calls : List (Str × Charge)}
    (hsorted : (calls.map fun call => call.2.now).Pairwise (· ≤ ·)) :
    -- The use recorded is what was accepted since the window started.
    (∀ usage, (BandwidthLimiter.after tiers calls).usage i bucket = some usage →
      usage.used ≤ tier.max ∧ usage.used = bytesWhere (fun now => usage.windowStart ≤ now)
        (accepted (.ofTier tier) (inputsAt bucket calls))) ∧
    -- Successive windows start at least one period apart.
    (∀ past later usage usage', calls = past ++ later →
      (BandwidthLimiter.after tiers past).usage i bucket = some usage →
      (BandwidthLimiter.after tiers calls).usage i bucket = some usage' →
        usage'.windowStart = usage.windowStart ∨
          usage.windowStart + (Window.ofTier tier).period ≤ usage'.windowStart) ∧
    -- A short interval has seen at most twice the maximum.
    ∀ first last, last < first + (Window.ofTier tier).period →
      bytesWhere (fun now => first ≤ now ∧ now ≤ last)
        (accepted (.ofTier tier) (inputsAt bucket calls)) ≤ 2 * tier.max := by
  have hperiod : 0 < (Window.ofTier tier).period := Nat.mul_pos hwindow (by decide)
  have hcharges := sorted_inputsAt bucket hsorted
  refine ⟨fun usage husage => ?_, ?_, fun first last hshort => ?_⟩
  · rw [BandwidthLimiter.usage_after htier] at husage
    have hcurrent := counter_current hperiod hmax hcharges husage
    refine ⟨hcurrent.used_le, ?_⟩
    rw [bytesWhere_accepted]
    exact hcurrent.used_eq_since
  · rintro past later usage usage' rfl husage husage'
    rw [BandwidthLimiter.usage_after htier] at husage husage'
    rw [inputsAt_append] at husage' hcharges
    exact windowStart_apart hcharges husage husage'
  · rw [bytesWhere_accepted]
    exact (orderly_grants hperiod hmax hcharges).interval_le hshort

/-- The theorem for charges of which the second is refused and the third opens a window. -/
theorem accepted_within_bound_refused :
    bytesWhere (fun now => 5 ≤ now ∧ now ≤ 60 * 10 ^ 9)
        (accepted (.ofTier ⟨60, 3⟩) (inputsAt "bucket".toList
          [("bucket".toList, ⟨2, 0⟩), ("bucket".toList, ⟨2, 5⟩),
            ("bucket".toList, ⟨3, 60 * 10 ^ 9⟩)])) ≤ 2 * 3 :=
  (@accepted_within_bound [⟨60, 3⟩] 0 ⟨60, 3⟩ rfl (by decide) (by decide) "bucket".toList _
    (by decide)).2.2 5 (60 * 10 ^ 9) (by decide)

end Corsget
