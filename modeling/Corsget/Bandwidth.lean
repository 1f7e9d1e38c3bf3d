import Corsget.CacheIdentity
import Corsget.Library.Interleaving
import Corsget.Supersede
import Mathlib.Algebra.GroupWithZero.Nat

/-!
# Connection bandwidth

The requests of one bucket, any number of them and interleaved step by step, on
one bandwidth limiter.  A `Meter` is the limiter and the clock, with a record of
the chunks that were streamed and of how things stood whenever the body of a
response began to be streamed.

The stream charges every chunk and goes on whatever the verdict is, and nothing
looks at the limiter before a request is admitted.  So a tier is enforced on a
bucket only when nothing can be streamed to it at all
(`bandwidth_enforced_iff`).
-/

namespace Corsget

open Text Effect Relation

/-! ## The meter -/

/-- The limiter at an instant, with the chunks streamed so far: when and how many
bytes. -/
structure Metering where
  limiter : BandwidthLimiter
  now : ℕ
  chunks : List (ℕ × ℕ)

/-- The bytes streamed from an instant on. -/
def Metering.streamedSince (m : Metering) (start : ℕ) : ℕ :=
  ((m.chunks.filter fun chunk => start ≤ chunk.1).map Prod.snd).sum

/-- **A tier is exhausted**: its current window has not elapsed, and the bytes
streamed in it have reached the maximum. -/
def Metering.Exhausted (m : Metering) (tier : LimitTier) (bucket : Str) : Prop :=
  ∃ states usage, (Window.ofTier tier, states) ∈ m.limiter.tiers ∧
    states.lookup bucket = some usage ∧
    m.now - usage.windowStart < (Window.ofTier tier).period ∧
    tier.max ≤ m.streamedSince usage.windowStart

/-- The metering, the requests whose bodies are being streamed, and the metering
at the moment each of these bodies began. -/
structure Meter where
  metering : Metering
  begun : List ℕ
  starts : List Metering

namespace Meter

/-- Nothing has been streamed yet. -/
def start (tiers : List LimitTier) (now : ℕ) : Meter where
  metering := ⟨.new tiers, now, []⟩
  begun := []
  starts := []

/-- Request `i` streams a chunk of `n` bytes at instant `now`. -/
def stream (m : Meter) (i : ℕ) (bucket : Str) (n now : ℕ) : Meter where
  metering := {
    limiter := (m.metering.limiter.charge bucket n now).2
    now := now
    chunks := (now, n) :: m.metering.chunks }
  begun := i :: m.begun
  starts := if i ∈ m.begun then m.starts else { m.metering with now := now } :: m.starts

end Meter

/-- What may happen at an operation of request `i`.  Time passes, a chunk is
charged when it is streamed, and everything else is unconstrained. -/
def meterEnv (i : ℕ) : Env Io Meter
  | .charge bucket n, m, r, m' => ∃ now, m.metering.now ≤ now ∧
      r = (m.metering.limiter.charge bucket n now).1 ∧ m' = m.stream i bucket n now
  | _, m, _, m' => m' = m

section Enforcement

variable [Crates]

/-- **A tier is enforced on a bucket**: in every run of requests of the bucket, no
body begins to be streamed while the tier is exhausted. -/
def Enforced (state : AppState) (tiers : List LimitTier) (key : RateLimitKey) (tier : LimitTier) :
    Prop :=
  ∀ (requests : ℕ → Request) (now : ℕ) (y : (ℕ → Prog Io (Except AppError Response)) × Meter),
    (∀ i, (requests i).limitKey = key) →
    ReflTransGen (Interleave meterEnv fun _ _ _ _ => True)
      (fun i => serve state (requests i).uri (requests i).limitKey (requests i).headers,
        Meter.start tiers now) y →
    ∀ begun ∈ y.2.starts, ¬ begun.Exhausted tier key.bucket

/-! ## A request that streams one byte -/

/-- An answer of one byte. -/
def byteAnswer : UpstreamResponse where
  status := 200
  headers := []
  contentLength := none
  body := [.ok [0]]

/-- One environment: time stands still, no file can be used, every tier of the
request limits allows and the upstream answers one byte. -/
def byteWorld (i : ℕ) : Handler Io Meter
  | .fs _, m => (.error notFound, m)
  | .tempCounter, m => ((0 : ℕ), m)
  | .systemTime, m => ((0 : ℕ), m)
  | .checkLimit _ _, m => ((.ok ⟨true, []⟩ : Except Str Snapshot), m)
  | .send _, m => ((.ok byteAnswer : Except ClientError UpstreamResponse), m)
  | .charge bucket n, m =>
      ((m.metering.limiter.charge bucket n m.metering.now).1, m.stream i bucket n m.metering.now)
  | .yield _, m => (((), m) : Unit × Meter)

omit [Crates] in
theorem meterEnv_byteWorld (i : ℕ) (o : IoOp) (m : Meter) :
    meterEnv i o m (byteWorld i o m).1 (byteWorld i o m).2 := by
  cases o with
  | charge bucket n => exact ⟨m.metering.now, le_refl _, rfl, rfl⟩
  | _ => exact rfl

omit [Crates] in
/-- The store is not metered. -/
theorem exec_storeOnly {α : Type} {p : Prog Io α} (hp : StoreOnly p) (i : ℕ) (m : Meter) :
    (exec (byteWorld i) p m).2 = m := by
  induction p with
  | ret a => rfl
  | op o k ih =>
      have hstep : (byteWorld i o m).2 = m := by
        cases o with
        | charge bucket n => exact hp.1.elim
        | _ => rfl
      rw [exec_op, hstep]
      exact ih _ (hp.2 _)

variable {state : AppState} {key : RateLimitKey} {requestHeaders : HeaderMap} {target : Url}

omit [Crates] in
theorem exec_checkTiers (i : ℕ) (m : Meter) (tiers : List LimitTier) :
    exec (byteWorld i) (checkTiers key tiers) m = (.ok none, m) := by
  induction tiers with
  | nil => rfl
  | cons tier rest ih => exact ih

theorem exec_lookupPlanned (i : ℕ) (m : Meter) (plan : Option CachePlan) :
    exec (byteWorld i) (lookupPlanned state plan) m = (none, m) := by
  unfold lookupPlanned
  split
  · rfl
  · rfl

theorem exec_followRedirects (i : ℕ) (m : Meter) (origin : Origin) (bucket : Str)
    (plan : Option CachePlan) (left : ℕ) (url : Url) :
    exec (byteWorld i) (followRedirects state origin requestHeaders bucket target plan none left
      url) m = (.ok (.final byteAnswer url), m) := by
  cases left with
  | zero =>
      unfold followRedirects redirectTurn
      simp only [Io.send_bind, exec_op]
      rfl
  | succ left =>
      unfold followRedirects redirectTurn
      simp only [Io.send_bind, exec_op]
      rfl

theorem exec_liveResponse (i : ℕ) (m : Meter) (bucket : Str) (finalUrl : Url)
    (plan : Option CachePlan) (revalidated : Bool) :
    ∃ status headers cache writer,
      exec (byteWorld i) (liveResponse state requestHeaders bucket target finalUrl plan revalidated
        byteAnswer) m =
      (.ok ⟨status, headers, .live [.ok [0]] bucket (.new state.resultMax) cache writer⟩, m) := by
  have hstore : StoreOnly (beginWritePlanned state plan byteAnswer requestHeaders) := by
    unfold beginWritePlanned
    split
    · exact beginWrite_storeOnly _ _ _ _
    · trivial
  unfold liveResponse
  dsimp only
  rw [show byteAnswer.contentLength.filter (ResultSizeGuard.new state.resultMax).wouldExceed = none
    from rfl]
  dsimp only
  rw [exec_bind, exec_storeOnly hstore]
  exact ⟨_, _, _, _, rfl⟩

omit [Crates] in
/-- One byte is within every cap. -/
theorem charge_one (resultMax : ℕ) :
    ((ResultSizeGuard.new resultMax).charge 1).1 = .ok () := by
  unfold ResultSizeGuard.new ResultSizeGuard.charge saturatingAdd
  dsimp only
  by_cases h : resultMax = 0
  · rw [if_pos h]
  · rw [if_neg h, if_neg (by omega)]

/-- Streaming the byte charges it, once. -/
theorem exec_stream (i : ℕ) (m : Meter) (bucket : Str) (cache : Option Cache)
    (writer : Option CacheWriter) :
    (exec (byteWorld i) (Body.live [.ok [0]] bucket (.new state.resultMax) cache writer).stream
      m).2 = m.stream i bucket 1 m.metering.now := by
  have htee : ∀ (writer : Option CacheWriter) (m : Meter),
      (exec (byteWorld i) (teeItem writer (.ok [0])) m).2 = m := by
    intro writer m
    cases writer with
    | none => rfl
    | some w => rfl
  have hmetered : ∀ (writer : Option CacheWriter),
      (exec (byteWorld i) (meteredStream bucket teeItem (.new state.resultMax) [.ok [0]] writer)
        m).2 = m.stream i bucket 1 m.metering.now := by
    intro writer
    unfold meteredStream
    have hcharge : ((ResultSizeGuard.new state.resultMax).charge ([0] : Bytes).length).1 = .ok () :=
      charge_one state.resultMax
    generalize (ResultSizeGuard.new state.resultMax).charge ([0] : Bytes).length = charged
      at hcharge ⊢
    obtain ⟨verdict, guard⟩ := charged
    obtain rfl : verdict = .ok () := hcharge
    simp only [Io.charge_bind, exec_op]
    rw [exec_bind]
    exact htee writer _
  unfold Body.stream
  dsimp only
  rw [exec_bind]
  -- What comes after the stream is the end of the writer, in the store only.
  refine (exec_storeOnly ?_ i _).trans (hmetered writer)
  split
  · exact (CacheWriter.finish_storeOnly _ _).bind fun _ _ => trivial
  · trivial

/-- **A request for a permitted target streams one byte.** -/
theorem exec_serve {uri : OriginalUri} (htarget : parseTargetUrl uri = .ok target)
    (hpermitted : Permitted state key.origin target) (i : ℕ) (m : Meter) :
    (exec (byteWorld i) (serve state uri key requestHeaders) m).2 =
      m.stream i key.bucket 1 m.metering.now := by
  rw [serve_of_permitted htarget hpermitted, exec_bind, exec_checkTiers]
  unfold afterTiers answerAdmitted
  dsimp only
  rw [exec_bind, exec_bind, exec_lookupPlanned]
  have hfetch : ∀ plan force, ∃ status headers cache writer,
      exec (byteWorld i) (fetchUpstream state key requestHeaders target plan none force) m =
        (.ok ⟨status, headers, .live [.ok [0]] key.bucket (.new state.resultMax) cache writer⟩,
          m) := by
    intro plan force
    unfold fetchUpstream
    rw [exec_bind, exec_followRedirects]
    exact exec_liveResponse i m key.bucket target plan _
  dsimp only
  split
  · next heq _ => cases heq
  · obtain ⟨status, headers, cache, writer, hresult⟩ := hfetch
      (state.cache.bind fun cache => cache.plan target requestHeaders)
      (requestRequiresRevalidation requestHeaders)
    rw [hresult]
    unfold deliver
    dsimp only
    rw [exec_bind]
    exact exec_stream i m key.bucket cache writer

/-! ## Enough requests -/

/-- The windows of a bucket that have begun began at instant zero. -/
def BeginAtZero (bucket : Str) (tiers : List (Window × WindowStates)) : Prop :=
  ∀ tier ∈ tiers, ∀ usage, tier.2.lookup bucket = some usage → usage.windowStart = 0

omit [Crates] in
/-- Charged at instant zero, a window begins there or stays. -/
theorem windowStart_charge {usage : WindowState} (h : usage.windowStart = 0) (n : ℕ)
    (window : Window) : (usage.charge n window 0).2.windowStart = 0 := by
  unfold WindowState.charge
  dsimp only
  split
  · split
    · rfl
    · rfl
  · split
    · exact h
    · exact h

omit [Crates] in
/-- After a charge at instant zero every tier has a window of the bucket that began
there. -/
theorem chargeTiers_atZero {bucket : Str} (n : ℕ) (tiers : List (Window × WindowStates))
    (h : BeginAtZero bucket tiers) :
    (BandwidthLimiter.chargeTiers bucket n 0 tiers).2.map Prod.fst = tiers.map Prod.fst ∧
      ∀ tier ∈ (BandwidthLimiter.chargeTiers bucket n 0 tiers).2,
        ∃ usage, tier.2.lookup bucket = some usage ∧ usage.windowStart = 0 := by
  induction tiers with
  | nil => exact ⟨rfl, fun _ hmem => nomatch hmem⟩
  | cons tier rest ih =>
      obtain ⟨window, states⟩ := tier
      obtain ⟨hwindows, hrest⟩ := ih fun tier hmem => h tier (List.mem_cons_of_mem _ hmem)
      refine ⟨congrArg (window :: ·) hwindows, fun tier hmem => ?_⟩
      rcases List.mem_cons.mp hmem with rfl | hmem
      · refine ⟨_, AList.lookup_insert _, windowStart_charge ?_ n window⟩
        cases hlookup : states.lookup bucket with
        | none => rfl
        | some usage => exact h _ List.mem_cons_self usage hlookup
      · exact hrest tier hmem

/-- The meter after `n` requests have streamed a byte each at instant zero. -/
structure Streamed (tiers : List LimitTier) (bucket : Str) (n : ℕ) (m : Meter) : Prop where
  now : m.metering.now = 0
  bytes : m.metering.streamedSince 0 = n
  begun : ∀ i ∈ m.begun, i < n
  windows : m.metering.limiter.tiers.map Prod.fst = tiers.map Window.ofTier
  zero : BeginAtZero bucket m.metering.limiter.tiers
  used : 0 < n → ∀ tier ∈ m.metering.limiter.tiers, ∃ usage, tier.2.lookup bucket = some usage

omit [Crates] in
theorem Streamed.start (tiers : List LimitTier) (bucket : Str) :
    Streamed tiers bucket 0 (.start tiers 0) where
  now := rfl
  bytes := rfl
  begun := fun _ h => nomatch h
  windows := by
    show (tiers.map fun tier => (Window.ofTier tier, (∅ : WindowStates))).map Prod.fst = _
    rw [List.map_map]
    rfl
  zero := by
    intro tier hmem usage hlookup
    obtain ⟨_, -, rfl⟩ := List.mem_map.mp hmem
    cases hlookup
  used := fun h => absurd h (lt_irrefl 0)

omit [Crates] in
/-- One more request. -/
theorem Streamed.stream {tiers : List LimitTier} {bucket : Str} {n : ℕ} {m : Meter}
    (h : Streamed tiers bucket n m) :
    Streamed tiers bucket (n + 1) (m.stream n bucket 1 m.metering.now) := by
  have hcharged := chargeTiers_atZero 1 m.metering.limiter.tiers h.zero
  rw [h.now]
  refine ⟨rfl, ?_, ?_, hcharged.1.trans h.windows, ?_, fun _ tier hmem => ?_⟩
  · show 1 + m.metering.streamedSince 0 = n + 1
    rw [h.bytes, Nat.add_comm]
  · intro i hi
    rcases List.mem_cons.mp hi with rfl | hi
    · exact Nat.lt_succ_self i
    · exact Nat.lt_succ_of_lt (h.begun i hi)
  · intro tier hmem usage hlookup
    obtain ⟨usage', hlookup', hzero⟩ := hcharged.2 tier hmem
    obtain rfl := Option.some.inj (hlookup.symm.trans hlookup')
    exact hzero
  · obtain ⟨usage, hlookup, -⟩ := hcharged.2 tier hmem
    exact ⟨usage, hlookup⟩

omit [Crates] in
/-- **Enough bytes exhaust a tier.** -/
theorem Streamed.exhausted {tiers : List LimitTier} {bucket : Str} {n : ℕ} {m : Meter}
    (h : Streamed tiers bucket n m) {tier : LimitTier} (htier : tier ∈ tiers)
    (hwindow : 0 < tier.window) (hn : 0 < n) (hmax : tier.max ≤ n) :
    m.metering.Exhausted tier bucket := by
  have hmem : Window.ofTier tier ∈ m.metering.limiter.tiers.map Prod.fst := by
    rw [h.windows]
    exact List.mem_map_of_mem htier
  obtain ⟨⟨window, states⟩, hmem, rfl⟩ := List.mem_map.mp hmem
  obtain ⟨usage, hlookup⟩ := h.used hn _ hmem
  have hzero := h.zero _ hmem usage hlookup
  refine ⟨states, usage, hmem, hlookup, ?_, ?_⟩
  · rw [h.now, Nat.zero_sub]
    show 0 < tier.window * 10 ^ 9
    omega
  · rw [hzero, h.bytes]
    exact hmax

/-- Any number of requests for a permitted target, one after the other. -/
theorem exists_streamed {uri : OriginalUri} (htarget : parseTargetUrl uri = .ok target)
    (hpermitted : Permitted state key.origin target) (tiers : List LimitTier) (n : ℕ) :
    ∃ pool m, ReflTransGen (Interleave meterEnv fun _ _ _ _ => True)
        (fun _ => serve state uri key [], Meter.start tiers 0) (pool, m) ∧
      (∀ i, n ≤ i → pool i = serve state uri key []) ∧ Streamed tiers key.bucket n m := by
  induction n with
  | zero => exact ⟨_, _, .refl, fun _ _ => rfl, .start tiers key.bucket⟩
  | succ n ih =>
      obtain ⟨pool, m, hrun, hpool, hm⟩ := ih
      have hnext := exec_interleaved meterEnv_byteWorld n pool m
      refine ⟨_, _, hrun.trans hnext, fun i hi => ?_, ?_⟩
      · rw [Function.update_of_ne (by omega)]
        exact hpool i (by omega)
      · rw [hpool n (le_refl n), exec_serve htarget hpermitted]
        exact hm.stream

/-- **No tier is enforced on a bucket that has a permitted target**: requests are
admitted whatever was streamed before. -/
theorem not_enforced_of_permitted {uri : OriginalUri} (htarget : parseTargetUrl uri = .ok target)
    (hpermitted : Permitted state key.origin target) {tiers : List LimitTier} {tier : LimitTier}
    (htier : tier ∈ tiers) (hwindow : 0 < tier.window) : ¬ Enforced state tiers key tier := by
  intro henforced
  -- The last of `tier.max + 2` requests begins to stream when the tier is exhausted.
  obtain ⟨pool, m, hrun, hpool, hm⟩ := exists_streamed htarget hpermitted tiers (tier.max + 1)
  have hlast := exec_interleaved meterEnv_byteWorld (tier.max + 1) pool m
  rw [hpool _ (le_refl _), exec_serve htarget hpermitted] at hlast
  refine henforced (fun _ => ⟨uri, key, []⟩) 0 _ (fun _ => rfl) (hrun.trans hlast)
    { m.metering with now := m.metering.now } ?_ ?_
  · show _ ∈ (if _ ∈ m.begun then _ else _)
    rw [if_neg fun hmem => absurd (hm.begun _ hmem) (lt_irrefl _)]
    exact List.mem_cons_self
  · exact hm.exhausted htier hwindow (by omega) (by omega)

/-- **When a connection tier is enforced**: exactly when the policy permits the
bucket no target at all, so that nothing is streamed to it. -/
theorem bandwidth_enforced_iff {tiers : List LimitTier} {tier : LimitTier} (htier : tier ∈ tiers)
    (hwindow : 0 < tier.window) :
    Enforced state tiers key tier ↔
      ∀ uri target, parseTargetUrl uri = .ok target → ¬ Permitted state key.origin target := by
  constructor
  · intro henforced uri target htarget hpermitted
    exact not_enforced_of_permitted htarget hpermitted htier hwindow henforced
  · intro hrefused requests now y hkey hrun
    -- Every request is over before its first operation.
    have hover : ∀ i, ∃ result, serve state (requests i).uri (requests i).limitKey
        (requests i).headers = .ret result := by
      intro i
      rw [hkey i]
      obtain ⟨e, he⟩ := proxyHandler_of_not_permitted fun target htarget =>
        hrefused (requests i).uri target htarget
      exact ⟨.error e, by unfold serve; rw [he]; rfl⟩
    rcases ReflTransGen.cases_head hrun with heq | ⟨x, hstep, -⟩
    · rw [← heq]
      exact fun _ h => nomatch h
    · obtain ⟨i, hprog, -, -⟩ := hstep
      obtain ⟨result, hresult⟩ := hover i
      cases hresult.symm.trans hprog

end Enforcement

/-! ## One tier -/

/-- A tier of three bytes a minute. -/
def minuteTier : LimitTier := ⟨60, 3⟩

/-- `exampleState` with a blacklist of everything. -/
def closedState : AppState :=
  { exampleState with
    matchPolicy := { target := ⟨[.wildcard fun _ => true], []⟩, origin := ⟨[], []⟩ } }

/-- The theorem where nothing is permitted. -/
theorem bandwidth_enforced_closedState :
    @Enforced reference closedState [minuteTier] exampleKey minuteTier := by
  refine (@bandwidth_enforced_iff reference closedState exampleKey [minuteTier] minuteTier
    List.mem_cons_self (by decide)).mpr ?_
  rintro uri target - ⟨-, ⟨host, -, hallowed⟩, -⟩
  have hdenied : closedState.matchPolicy.target.isAllowed host = false := rfl
  exact absurd (hdenied.symm.trans hallowed) (by decide)

/-- **Requests are admitted beyond the maximum.** -/
theorem exhausted_tier_admits :
    ¬ @Enforced reference exampleState [minuteTier] exampleKey minuteTier :=
  @not_enforced_of_permitted reference exampleState exampleKey exampleUrl plainRequest.uri
    (by rfl) ⟨.inr rfl, ⟨"example.com".toList, rfl, rfl⟩, rfl⟩ [minuteTier] minuteTier
    List.mem_cons_self (by decide)

end Corsget
