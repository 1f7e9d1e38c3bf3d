import Corsget.Counters
import Corsget.MeteredStream

/-!
# Counting what is delivered

Metered streams on one limiter, any number of them and polled in any order.  A poll goes
on until the next item is yielded: it charges a chunk at an instant and yields it, with
nothing in between (`Poll`).

A tier that has no room for a chunk does not add it to its use, and the chunk is yielded
all the same.  From then on the recorded use is behind what was delivered, so the two
agree in a run exactly as long as every chunk finds room in every tier
(`delivered_counted_iff`).
-/

namespace Corsget

open Text Effect Keyed

/-! ## The account -/

/-- A chunk that was yielded: to which bucket, when, and how many bytes. -/
structure Yielded where
  bucket : Str
  instant : ℕ
  length : ℕ

/-- The bytes yielded to a bucket since an instant. -/
def bytesSince (yielded : List Yielded) (bucket : Str) (first : ℕ) : ℕ :=
  ((yielded.filter fun y => y.bucket = bucket ∧ first ≤ y.instant).map Yielded.length).sum

/-- The limiter at an instant, and what was yielded so far. -/
structure Account where
  limiter : BandwidthLimiter
  now : ℕ
  yielded : List Yielded

/-- What a tier records is what was yielded since its window started. -/
def CountedIn (tier : Window × WindowStates) (yielded : List Yielded) : Prop :=
  ∀ bucket usage, tier.2.lookup bucket = some usage →
    usage.used = min (bytesSince yielded bucket usage.windowStart) (2 ^ 64 - 1)

/-- **Every delivered byte is counted**, in every tier and for every bucket. -/
def Account.Counted (a : Account) : Prop :=
  ∀ tier ∈ a.limiter.tiers, CountedIn tier a.yielded

/-- The window in which a tier charges a bucket at an instant. -/
def windowAt (tier : Window × WindowStates) (bucket : Str) (now : ℕ) : WindowState :=
  ((tier.2.lookup bucket).getD (.new now)).rolled tier.1 now

/-- A tier has room for a chunk: with what it records for the bucket in its current
window, if that has not elapsed, the chunk is within the maximum. -/
def HasRoom (tier : Window × WindowStates) (bucket : Str) (n now : ℕ) : Prop :=
  saturatingAdd (windowAt tier bucket now).used n ≤ tier.1.max

/-- Every tier has room for a chunk. -/
def Account.HasRoom (a : Account) (bucket : Str) (n now : ℕ) : Prop :=
  ∀ tier ∈ a.limiter.tiers, Corsget.HasRoom tier bucket n now

namespace Account

/-- Nothing has been yielded yet. -/
def start (tiers : List LimitTier) (now : ℕ) : Account := ⟨.new tiers, now, []⟩

/-- A chunk is charged, and yielded. -/
def yield (a : Account) (bucket : Str) (n now : ℕ) (chunk : Bytes) : Account where
  limiter := (a.limiter.charge bucket n now).2
  now := now
  yielded := ⟨bucket, now, chunk.length⟩ :: a.yielded

end Account

/-! ## Polls -/

/-- Streams, by number. -/
abbrev Streams := ℕ → Prog Io (List (Except MeteredError Bytes))

/-- **One poll of one stream**, up to the item that it yields.  `C` is a condition on the
charges that are considered. -/
inductive Poll (C : Account → Str → ℕ → ℕ → Prop) : Streams × Account → Streams × Account → Prop
  /-- A chunk is charged at an instant, and yielded. -/
  | chunk {streams : Streams} {a : Account} (i : ℕ) {bucket : Str} {n now : ℕ} {chunk : Bytes}
      {k : Except BandwidthError Unit → Prog Io (List (Except MeteredError Bytes))}
      {k' : Unit → Prog Io (List (Except MeteredError Bytes))}
      (hcharge : streams i = @Prog.op Io _ (.charge bucket n) k) (hnow : a.now ≤ now)
      (hyield : k (a.limiter.charge bucket n now).1 = @Prog.op Io _ (.yield (.ok chunk)) k')
      (hC : C a bucket n now) :
      Poll C (streams, a) (Function.update streams i (k' ()), a.yield bucket n now chunk)
  /-- The last item is an error. -/
  | error {streams : Streams} {a : Account} (i : ℕ) {text : Str}
      {k : Unit → Prog Io (List (Except MeteredError Bytes))}
      (hyield : streams i = @Prog.op Io _ (.yield (.error text)) k) :
      Poll C (streams, a) (Function.update streams i (k ()), a)

/-- An upstream body to be metered. -/
structure Upstream where
  bucket : Str
  max : ℕ
  items : List (Except Str Bytes)

/-- The metered streams of some upstream bodies. -/
def metered (upstreams : ℕ → Upstream) : Streams := fun i =>
  meteredStream (upstreams i).bucket collect (.new (upstreams i).max) (upstreams i).items []

/-- What is left of a metered stream. -/
def IsMetered (p : Prog Io (List (Except MeteredError Bytes))) : Prop :=
  ∃ bucket items seen, p = handOver bucket collect items seen

theorem metered_isMetered (upstreams : ℕ → Upstream) (i : ℕ) : IsMetered (metered upstreams i) :=
  ⟨_, _, _, meteredStream_eq_handOver _ _ _ _ _⟩

/-- A metered stream yields the chunk that it has charged, and stays a metered stream. -/
theorem IsMetered.chunk {p : Prog Io (List (Except MeteredError Bytes))} {bucket : Str} {n : ℕ}
    {chunk : Bytes} {k : Except BandwidthError Unit → Prog Io (List (Except MeteredError Bytes))}
    {k' : Unit → Prog Io (List (Except MeteredError Bytes))} {verdict : Except BandwidthError Unit}
    (h : IsMetered p) (hcharge : p = @Prog.op Io _ (.charge bucket n) k)
    (hyield : k verdict = @Prog.op Io _ (.yield (.ok chunk)) k') :
    chunk.length = n ∧ IsMetered (k' ()) := by
  obtain ⟨bucket', items, seen, rfl⟩ := h
  cases items with
  | nil => cases hcharge
  | cons item rest =>
      cases item with
      | error e => cases hcharge
      | ok chunk' =>
          cases hcharge
          cases hyield
          exact ⟨rfl, bucket, rest, seen ++ [.ok chunk], rfl⟩

theorem IsMetered.error {p : Prog Io (List (Except MeteredError Bytes))} {text : Str}
    {k : Unit → Prog Io (List (Except MeteredError Bytes))} (h : IsMetered p)
    (hyield : p = @Prog.op Io _ (.yield (.error text)) k) : IsMetered (k ()) := by
  obtain ⟨bucket, items, seen, rfl⟩ := h
  cases items with
  | nil => cases hyield
  | cons item rest =>
      cases item with
      | ok chunk => cases hyield
      | error e =>
          cases hyield
          exact ⟨bucket, rest, seen ++ [.error e], rfl⟩

/-! ## What every tier keeps -/

/-- What a tier keeps, whether it has room or not: no chunk has been yielded after the end
of the window in which it was charged. -/
structure Contained (tier : Window × WindowStates) (now : ℕ) (yielded : List Yielded) : Prop where
  period_pos : 0 < tier.1.period
  known : ∀ y ∈ yielded, (tier.2.lookup y.bucket).isSome
  opened : ∀ bucket usage, tier.2.lookup bucket = some usage → usage.windowStart ≤ now
  used_le : ∀ bucket usage, tier.2.lookup bucket = some usage → usage.used ≤ tier.1.max
  inside : ∀ y ∈ yielded, ∀ usage, tier.2.lookup y.bucket = some usage →
    y.instant < usage.windowStart + tier.1.period

/-- A tier after a charge. -/
def chargedTier (tier : Window × WindowStates) (bucket : Str) (n now : ℕ) :
    Window × WindowStates :=
  (tier.1, (feedAt (counter tier.1) tier.2 bucket ⟨n, now⟩).2)

theorem tiers_yield (a : Account) (bucket : Str) (n now : ℕ) (chunk : Bytes) :
    (a.yield bucket n now chunk).limiter.tiers =
      a.limiter.tiers.map fun tier => chargedTier tier bucket n now := by
  show (a.limiter.charge bucket n now).2.tiers = _
  rw [BandwidthLimiter.charge_tiers, BandwidthLimiter.chargeTiers_eq bucket ⟨n, now⟩]
  rfl

section Tier

variable {tier : Window × WindowStates} {bucket : Str} {now later : ℕ} {yielded : List Yielded}

theorem bytesSince_cons (y : Yielded) (yielded : List Yielded) (bucket : Str) (first : ℕ) :
    bytesSince (y :: yielded) bucket first =
      (if y.bucket = bucket ∧ first ≤ y.instant then y.length else 0) +
        bytesSince yielded bucket first := by
  unfold bytesSince
  by_cases h : y.bucket = bucket ∧ first ≤ y.instant
  · rw [List.filter_cons_of_pos (by simpa using h), if_pos h, List.map_cons, List.sum_cons]
  · rw [List.filter_cons_of_neg (by simpa using h), if_neg h, Nat.zero_add]

theorem bytesSince_eq_zero {first : ℕ}
    (h : ∀ y ∈ yielded, y.bucket = bucket → y.instant < first) :
    bytesSince yielded bucket first = 0 := by
  unfold bytesSince
  rw [List.filter_eq_nil_iff.mpr]
  · rfl
  · intro y hy hsince
    obtain ⟨hbucket, hfirst⟩ := of_decide_eq_true hsince
    exact absurd hfirst (Nat.not_le_of_lt (h y hy hbucket))

/-- **The window of a charge** is a new one, which opens after everything that was yielded
to the bucket, or it is still running. -/
theorem Contained.windowAt_cases (h : Contained tier now yielded) (later : ℕ) (bucket : Str) :
    (windowAt tier bucket later = .new later ∧
        ∀ y ∈ yielded, y.bucket = bucket → y.instant < later) ∨
      ∃ usage, tier.2.lookup bucket = some usage ∧ windowAt tier bucket later = usage ∧
        later < usage.windowStart + tier.1.period := by
  have hperiod := h.period_pos
  unfold windowAt
  cases hlookup : tier.2.lookup bucket with
  | none =>
      left
      constructor
      · rw [Option.getD_none]
        unfold WindowState.rolled WindowState.new
        split
        · rfl
        · rfl
      -- Nothing was yielded to a bucket without a state.
      · rintro y hy rfl
        have hknown := h.known y hy
        rw [hlookup] at hknown
        cases hknown
  | some usage =>
      rw [Option.getD_some]
      unfold WindowState.rolled
      split
      · next helapsed =>
        left
        refine ⟨rfl, ?_⟩
        rintro y hy rfl
        have hinside := h.inside y hy usage hlookup
        omega
      · next hrunning => exact .inr ⟨usage, rfl, rfl, by omega⟩

/-- **The window of a charge**: it is running, it is within the maximum, nothing was
yielded after its end, and it counts what was yielded since it started. -/
theorem Contained.windowAt (h : Contained tier now yielded) (hnow : now ≤ later)
    (bucket : Str) :
    (windowAt tier bucket later).windowStart ≤ later ∧
      later < (windowAt tier bucket later).windowStart + tier.1.period ∧
      (windowAt tier bucket later).used ≤ tier.1.max ∧
      (∀ y ∈ yielded, y.bucket = bucket →
        y.instant < (windowAt tier bucket later).windowStart + tier.1.period) ∧
      (CountedIn tier yielded → (windowAt tier bucket later).used =
        min (bytesSince yielded bucket (windowAt tier bucket later).windowStart) (2 ^ 64 - 1)) := by
  rcases h.windowAt_cases later bucket with ⟨hnew, hbefore⟩ | ⟨usage, hlookup, hsame, hrunning⟩
  · have hopen : later < later + tier.1.period := Nat.lt_add_of_pos_right h.period_pos
    rw [hnew]
    refine ⟨le_refl _, hopen, Nat.zero_le _, fun y hy hbucket => ?_, fun _ => ?_⟩
    · exact (hbefore y hy hbucket).trans hopen
    · show 0 = min (bytesSince yielded bucket later) _
      rw [bytesSince_eq_zero hbefore, Nat.zero_min]
  · rw [hsame]
    refine ⟨(h.opened bucket usage hlookup).trans hnow, hrunning, h.used_le bucket usage hlookup,
      ?_, fun hcounted => hcounted bucket usage hlookup⟩
    rintro y hy rfl
    exact h.inside y hy usage hlookup

theorem lookup_chargedTier_ne {other : Str} (hne : other ≠ bucket) (n now : ℕ) :
    (chargedTier tier bucket n now).2.lookup other = tier.2.lookup other :=
  AList.lookup_insert_ne hne

/-- A charge that finds room is added to the use of its window; one that does not is
dropped. -/
theorem lookup_chargedTier (tier : Window × WindowStates) (bucket : Str) (n now : ℕ) :
    HasRoom tier bucket n now ∧ (chargedTier tier bucket n now).2.lookup bucket =
        some { windowAt tier bucket now with
          used := saturatingAdd (windowAt tier bucket now).used n } ∨
      ¬HasRoom tier bucket n now ∧
        (chargedTier tier bucket n now).2.lookup bucket = some (windowAt tier bucket now) := by
  have hlookup : (chargedTier tier bucket n now).2.lookup bucket =
      some (((tier.2.lookup bucket).getD (.new now)).charge n tier.1 now).2 :=
    AList.lookup_insert _
  have hwindow : ((tier.2.lookup bucket).getD (.new now)).rolled tier.1 now =
      windowAt tier bucket now := rfl
  rw [hlookup, WindowState.charge_eq, hwindow]
  by_cases hroom : HasRoom tier bucket n now
  · exact .inl ⟨hroom, by rw [if_neg (Nat.not_lt.mpr hroom)]⟩
  · exact .inr ⟨hroom, by rw [if_pos (Nat.lt_of_not_le hroom)]⟩

/-- A state after a charge is that of its bucket, or it was there before. -/
theorem lookup_chargedTier_cases {n : ℕ} {state usage : WindowState} {other : Str}
    (hstate : (chargedTier tier bucket n now).2.lookup bucket = some state)
    (husage : (chargedTier tier bucket n now).2.lookup other = some usage) :
    other = bucket ∧ usage = state ∨ other ≠ bucket ∧ tier.2.lookup other = some usage := by
  by_cases hbucket : other = bucket
  · rw [hbucket, hstate] at husage
    exact .inl ⟨hbucket, (Option.some.inj husage).symm⟩
  · rw [lookup_chargedTier_ne hbucket] at husage
    exact .inr ⟨hbucket, husage⟩

/-- **What a tier keeps is kept** when a chunk is charged and yielded. -/
theorem Contained.yield (h : Contained tier now yielded) (hnow : now ≤ later) (n length : ℕ) :
    Contained (chargedTier tier bucket n later) later (⟨bucket, later, length⟩ :: yielded) := by
  obtain ⟨hopened, hrunning, hused, hinside, -⟩ := h.windowAt hnow bucket
  -- The state of the bucket is the window of the charge, whatever the verdict.
  have hstate : ∃ used, used ≤ tier.1.max ∧ (chargedTier tier bucket n later).2.lookup bucket =
      some { Corsget.windowAt tier bucket later with used := used } := by
    rcases lookup_chargedTier tier bucket n later with ⟨hroom, hlookup⟩ | ⟨-, hlookup⟩
    · exact ⟨_, hroom, hlookup⟩
    · exact ⟨_, hused, hlookup⟩
  obtain ⟨used, hle, hlookup⟩ := hstate
  refine ⟨h.period_pos, ?_, ?_, ?_, ?_⟩
  · intro y hy
    by_cases hbucket : y.bucket = bucket
    · rw [hbucket, hlookup]
      rfl
    · rw [lookup_chargedTier_ne hbucket]
      rcases List.mem_cons.mp hy with rfl | hy
      · exact absurd rfl hbucket
      · exact h.known y hy
  · intro other usage husage
    rcases lookup_chargedTier_cases hlookup husage with ⟨-, rfl⟩ | ⟨-, hbefore⟩
    · exact hopened
    · exact (h.opened other usage hbefore).trans hnow
  · intro other usage husage
    rcases lookup_chargedTier_cases hlookup husage with ⟨-, rfl⟩ | ⟨-, hbefore⟩
    · exact hle
    · exact h.used_le other usage hbefore
  · intro y hy usage husage
    rcases lookup_chargedTier_cases hlookup husage with ⟨hbucket, rfl⟩ | ⟨hother, hbefore⟩
    · rcases List.mem_cons.mp hy with rfl | hy
      · exact hrunning
      · exact hinside y hy hbucket
    · rcases List.mem_cons.mp hy with rfl | hy
      · exact absurd rfl hother
      · exact h.inside y hy usage hbefore

/-- **A chunk stays counted exactly when there is room for it.** -/
theorem countedIn_yield_iff (h : Contained tier now yielded) (hnow : now ≤ later)
    (hcounted : CountedIn tier yielded) (n : ℕ) :
    CountedIn (chargedTier tier bucket n later) (⟨bucket, later, n⟩ :: yielded) ↔
      HasRoom tier bucket n later := by
  obtain ⟨hopened, -, hused, -, hcount⟩ := h.windowAt hnow bucket
  have hcount := hcount hcounted
  have hmore : bytesSince (⟨bucket, later, n⟩ :: yielded) bucket
      (windowAt tier bucket later).windowStart =
        n + bytesSince yielded bucket (windowAt tier bucket later).windowStart := by
    rw [bytesSince_cons, if_pos ⟨rfl, hopened⟩]
  rcases lookup_chargedTier tier bucket n later with ⟨hroom, hlookup⟩ | ⟨hroom, hlookup⟩
  · refine iff_of_true (fun other usage husage => ?_) hroom
    by_cases hbucket : other = bucket
    · rw [hbucket, hlookup] at husage
      cases husage
      rw [hbucket]
      dsimp only
      rw [hmore, hcount]
      unfold saturatingAdd
      omega
    · rw [lookup_chargedTier_ne hbucket] at husage
      rw [bytesSince_cons, if_neg fun hand => hbucket hand.1.symm, Nat.zero_add]
      exact hcounted other usage husage
  · refine iff_of_false (fun hafter => ?_) hroom
    have hsame := hafter bucket _ hlookup
    rw [hmore] at hsame
    unfold HasRoom saturatingAdd at hroom
    omega

end Tier

/-! ## Runs -/

/-- What holds at every moment of a run. -/
structure Ordered (s : Streams × Account) : Prop where
  streams : ∀ i, IsMetered (s.1 i)
  tiers : ∀ tier ∈ s.2.limiter.tiers, Contained tier s.2.now s.2.yielded

theorem ordered_start {tiers : List LimitTier} (hwindow : ∀ tier ∈ tiers, 0 < tier.window)
    (upstreams : ℕ → Upstream) (now : ℕ) : Ordered (metered upstreams, .start tiers now) where
  streams := metered_isMetered upstreams
  tiers := by
    intro tier htier
    obtain ⟨config, hconfig, rfl⟩ := List.mem_map.mp htier
    have hnone : ∀ bucket usage,
        (∅ : WindowStates).lookup bucket = some usage → False := by
      intro bucket usage husage
      rw [AList.lookup_empty] at husage
      cases husage
    exact ⟨Nat.mul_pos (hwindow config hconfig) (by decide), fun y hy => absurd hy List.not_mem_nil,
      fun bucket usage h => (hnone bucket usage h).elim,
      fun bucket usage h => (hnone bucket usage h).elim,
      fun y hy => absurd hy List.not_mem_nil⟩

/-- A stream that was polled stays a metered stream, as the others do. -/
theorem isMetered_update {streams : Streams} (h : ∀ i, IsMetered (streams i)) (i : ℕ)
    {p : Prog Io (List (Except MeteredError Bytes))} (hp : IsMetered p) :
    ∀ j, IsMetered (Function.update streams i p j) := by
  intro j
  by_cases hj : j = i
  · rw [hj, Function.update_self]
    exact hp
  · rw [Function.update_of_ne hj]
    exact h j

/-- **A chunk that is yielded stays counted in every tier exactly when every tier has room
for it.** -/
theorem Account.counted_yield_iff {a : Account} {now : ℕ}
    (hcontained : ∀ tier ∈ a.limiter.tiers, Contained tier a.now a.yielded) (hnow : a.now ≤ now)
    (hcounted : a.Counted) (bucket : Str) (chunk : Bytes) :
    (a.yield bucket chunk.length now chunk).Counted ↔ a.HasRoom bucket chunk.length now := by
  unfold Account.Counted Account.HasRoom
  rw [tiers_yield, List.forall_mem_map]
  exact forall₂_congr fun tier htier =>
    countedIn_yield_iff (hcontained tier htier) hnow (hcounted tier htier) chunk.length

/-- **One poll** preserves what holds at every moment. -/
theorem Poll.ordered {C : Account → Str → ℕ → ℕ → Prop} {s s' : Streams × Account}
    (h : Poll C s s') (hordered : Ordered s) : Ordered s' := by
  obtain ⟨hstreams, htiers⟩ := hordered
  cases h with
  | @chunk streams a i bucket n now chunk k k' hcharge hnow hyield hC =>
      obtain ⟨-, hrest⟩ := (hstreams i).chunk hcharge hyield
      refine ⟨isMetered_update hstreams i hrest, ?_⟩
      dsimp only
      rw [tiers_yield, List.forall_mem_map]
      exact fun tier htier => (htiers tier htier).yield hnow n chunk.length
  | @error streams a i text k hyield =>
      have hrest := (hstreams i).error hyield
      exact ⟨isMetered_update hstreams i hrest, htiers⟩

/-- Everything stays counted in a poll exactly when it finds room. -/
theorem Poll.counted_iff {s s' : Streams × Account} (h : Poll (fun _ _ _ _ => True) s s')
    (hordered : Ordered s) (hcounted : s.2.Counted) : s'.2.Counted ↔ Poll Account.HasRoom s s' := by
  obtain ⟨hstreams, htiers⟩ := hordered
  constructor
  · intro hafter
    cases h with
    | @chunk streams a i bucket n now chunk k k' hcharge hnow hyield hC =>
        obtain ⟨rfl, -⟩ := (hstreams i).chunk hcharge hyield
        have hroom := (a.counted_yield_iff htiers hnow hcounted bucket chunk).mp hafter
        exact .chunk i hcharge hnow hyield hroom
    | error i hyield => exact .error i hyield
  · intro hroomy
    cases hroomy with
    | @chunk streams a i bucket n now chunk k k' hcharge hnow hyield hroom =>
        obtain ⟨rfl, -⟩ := (hstreams i).chunk hcharge hyield
        exact (a.counted_yield_iff htiers hnow hcounted bucket chunk).mpr hroom
    | error i hyield => exact hcounted

/-- **A run from a moment at which everything is counted.** -/
theorem counted_run_iff {run : List (Streams × Account)} :
    ∀ {s}, Ordered s → s.2.Counted → List.IsChain (Poll fun _ _ _ _ => True) (s :: run) →
      ((∀ x ∈ s :: run, x.2.Counted) ↔ List.IsChain (Poll Account.HasRoom) (s :: run)) := by
  induction run with
  | nil =>
      intro s _ hcounted _
      exact iff_of_true (List.forall_mem_singleton.mpr hcounted) (List.IsChain.singleton s)
  | cons s' run ih =>
      intro s hordered hcounted hrun
      obtain ⟨hpoll, hrest⟩ := List.isChain_cons_cons.mp hrun
      rw [List.isChain_cons_cons, ← hpoll.counted_iff hordered hcounted]
      constructor
      · intro hall
        have hafter : ∀ x ∈ s' :: run, x.2.Counted := fun x hx => hall x (List.mem_cons_of_mem s hx)
        have hcounted' := hafter s' List.mem_cons_self
        exact ⟨hcounted', (ih (hpoll.ordered hordered) hcounted' hrest).mp hafter⟩
      · rintro ⟨hcounted', hroomy⟩
        have hafter := (ih (hpoll.ordered hordered) hcounted' hrest).mpr hroomy
        exact List.forall_mem_cons.mpr ⟨hcounted, hafter⟩

/-- **Delivered bytes are counted exactly as long as every chunk finds room.** -/
theorem delivered_counted_iff {tiers : List LimitTier} (hwindow : ∀ tier ∈ tiers, 0 < tier.window)
    (upstreams : ℕ → Upstream) (now : ℕ) {run : List (Streams × Account)}
    (hrun : List.IsChain (Poll fun _ _ _ _ => True)
      ((metered upstreams, .start tiers now) :: run)) :
    (∀ s ∈ (metered upstreams, Account.start tiers now) :: run, s.2.Counted) ↔
      List.IsChain (Poll Account.HasRoom) ((metered upstreams, .start tiers now) :: run) := by
  have hcounted : (Account.start tiers now).Counted := by
    intro tier htier bucket usage husage
    obtain ⟨config, -, rfl⟩ := List.mem_map.mp htier
    rw [AList.lookup_empty] at husage
    cases husage
  exact counted_run_iff (ordered_start hwindow upstreams now) hcounted hrun

/-! ## A chunk that is not counted -/

/-- Streams of two chunks of three bytes. -/
def twoChunks : ℕ → Upstream := fun _ => ⟨"bucket".toList, 0, [.ok [1, 2, 3], .ok [4, 5, 6]]⟩

/-- One of them has yielded its first chunk, under a tier of five bytes a minute. -/
def twoChunksFirst : Streams × Account :=
  (Function.update (metered twoChunks) 0
      (handOver "bucket".toList collect [.ok [4, 5, 6]] [.ok [1, 2, 3]]),
    (Account.start [⟨60, 5⟩] 0).yield "bucket".toList 3 0 [1, 2, 3])

/-- And its second, at the same instant. -/
def twoChunksSecond : Streams × Account :=
  (Function.update twoChunksFirst.1 0 (.ret [.ok [1, 2, 3], .ok [4, 5, 6]]),
    twoChunksFirst.2.yield "bucket".toList 3 0 [4, 5, 6])

/-- These are polls of that stream. -/
theorem twoChunks_isChain : List.IsChain (Poll fun _ _ _ _ => True)
    [(metered twoChunks, .start [⟨60, 5⟩] 0), twoChunksFirst, twoChunksSecond] := by
  have hstream : metered twoChunks 0 =
      handOver "bucket".toList collect [.ok [1, 2, 3], .ok [4, 5, 6]] [] :=
    meteredStream_eq_handOver _ _ _ _ _
  have hfirst : Poll (fun _ _ _ _ => True) (metered twoChunks, .start [⟨60, 5⟩] 0)
      twoChunksFirst :=
    .chunk 0 hstream (le_refl 0) rfl trivial
  have hrest : twoChunksFirst.1 0 =
      handOver "bucket".toList collect [.ok [4, 5, 6]] [.ok [1, 2, 3]] := rfl
  have hsecond : Poll (fun _ _ _ _ => True) twoChunksFirst twoChunksSecond :=
    .chunk 0 hrest (le_refl 0) rfl trivial
  exact .cons_cons hfirst (.cons_cons hsecond (.singleton _))

/-- The theorem at these polls. -/
theorem delivered_counted_iff_twoChunks :
    (∀ s ∈ [(metered twoChunks, Account.start [⟨60, 5⟩] 0), twoChunksFirst, twoChunksSecond],
      s.2.Counted) ↔
    List.IsChain (Poll Account.HasRoom)
      [(metered twoChunks, .start [⟨60, 5⟩] 0), twoChunksFirst, twoChunksSecond] :=
  delivered_counted_iff (by decide) twoChunks 0 twoChunks_isChain

/-- Six bytes were yielded, and three are counted. -/
theorem twoChunks_not_counted : ¬∀ (tiers : List LimitTier) (upstreams : ℕ → Upstream) (now : ℕ)
    (run : List (Streams × Account)), (∀ tier ∈ tiers, 0 < tier.window) →
      List.IsChain (Poll fun _ _ _ _ => True) ((metered upstreams, .start tiers now) :: run) →
        ∀ s ∈ (metered upstreams, Account.start tiers now) :: run, s.2.Counted := by
  intro hall
  have hcounted : twoChunksSecond.2.Counted :=
    hall [⟨60, 5⟩] twoChunks 0 [twoChunksFirst, twoChunksSecond] (by decide) twoChunks_isChain _
      (by simp)
  have husage : ∃ tier ∈ twoChunksSecond.2.limiter.tiers,
      tier.2.lookup "bucket".toList = some ⟨3, 0⟩ := by
    decide +kernel
  obtain ⟨tier, htier, hlookup⟩ := husage
  have hused := hcounted tier htier "bucket".toList _ hlookup
  have hyielded : bytesSince twoChunksSecond.2.yielded "bucket".toList 0 = 6 := by decide +kernel
  rw [hyielded] at hused
  revert hused
  decide

end Corsget
