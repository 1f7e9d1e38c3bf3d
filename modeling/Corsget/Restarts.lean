import Corsget.Refreshing
import Corsget.RequestRuns
import Corsget.Supersede

/-!
# Restarts with another configuration

The cache directory outlives the process, and the next process may be configured
with other ages.  An entry keeps the `ttl` it was stamped with, when it was stored
or last revalidated, and `is_fresh` compares its age with that `ttl`, not with the
one of the plan in force.

A `Lifetime` is any sequence of requests and restarts on one directory, starting
with an empty one.  Every entry in it was stamped by one of the requests, within
the TTL of that request's plan (`Stamped`); `age_below_configured` says for which
requests this keeps a hit below the TTL in force.
-/

namespace Corsget

open Text Effect

/-! ## Requests and restarts -/

/-- What a request finds and a restart keeps: the directory and the last reading of
the clock; and whether the upstream has been asked for the current request. -/
structure Shelf where
  dir : Dir
  clock : ℕ
  asked : Bool

/-- The whole seconds of the last reading of the clock. -/
def Shelf.seconds (s : Shelf) : ℕ := s.clock / 10 ^ 9

/-- What may happen at an operation: the clock does not go back. -/
def shelfEnv : Env Io Shelf
  | .fs o, s, r, s' => storeEnv (.fs o) s.dir r s'.dir ∧ s'.clock = s.clock ∧ s'.asked = s.asked
  | .systemTime, s, now, s' => s.clock ≤ now ∧ s' = { s with clock := now }
  | .send _, s, _, s' => s' = { s with asked := true }
  | _, s, _, s' => s' = s

section Lifetimes

variable [Crates]

/-- A request as it was served: the configuration in force, the shelf it came to,
the handler's answer with the shelf at that time, unless the request was cut off
before, and the shelf when it was over. -/
structure Served where
  state : AppState
  request : Request
  before : Shelf
  answer : Option (Except AppError Response × Shelf)
  after : Shelf

/-- The handler of a request. -/
def Served.handler (x : Served) : Prog Io (Except AppError Response) :=
  proxyHandler x.state x.request.uri x.request.limitKey x.request.headers

/-- The request may go this way: cut off in the handler, or answered and then cut
off at some point of the delivery or served to its end. -/
def Served.Runs (x : Served) : Prop :=
  match x.answer with
  | none => ∃ rest, Steps shelfEnv (x.handler, x.before) (rest, x.after)
  | some (result, s) => Steps shelfEnv (x.handler, x.before) (.ret result, s) ∧
      ∃ rest, Steps shelfEnv (deliver result, s) (rest, x.after)

/-- Requests and restarts, one after the other.  A restart may change all of the
configuration; a process with a cache first cleans the directory up. -/
inductive Lifetime : AppState → List Served → Shelf → Prop
  | start (state : AppState) (s : Shelf) (hempty : s.dir = ∅) : Lifetime state [] s
  | request {state : AppState} {xs : List Served} {s : Shelf} (earlier : Lifetime state xs s)
      (x : Served) (hstate : x.state = state) (arrives : x.before = { s with asked := false })
      (runs : x.Runs) : Lifetime state (xs ++ [x]) x.after
  | restart {state : AppState} {xs : List Served} {s : Shelf} (earlier : Lifetime state xs s)
      (state' : AppState) (cache : Cache) (hcache : state'.cache = some cache) (s' : Shelf)
      (cleans : ∃ rest, Steps shelfEnv (cleanupStartup cache, s) (rest, s')) :
      Lifetime state' xs s'
  | restartUncached {state : AppState} {xs : List Served} {s : Shelf}
      (earlier : Lifetime state xs s) (state' : AppState) (hcache : state'.cache = none) :
      Lifetime state' xs s

/-- **A hit**, and the shelf when its freshness was decided: a cached body, without
asking the upstream. -/
def Served.HitAt (x : Served) (s : Shelf) : Prop :=
  ∃ response path bucket guard, x.answer = some (.ok response, s) ∧
    response.body = .cached path bucket guard ∧ s.asked = false

/-- **The entry of the hit is younger than the TTL in force.** -/
def Served.YoungAt (x : Served) (s : Shelf) : Prop :=
  ∃ plan entry file, x.request.plan x.state = some plan ∧
    (x.before.dir.view plan.key).Admits entry file ∧ s.seconds - entry.createdAt < plan.ttl

/-- Every hit is served an entry that is younger than the TTL in force. -/
def AgesBelowConfigured (xs : List Served) : Prop :=
  ∀ x ∈ xs, ∀ s, x.HitAt s → x.YoungAt s

/-- The earlier request `y` has left no entry that is fresh by its own `ttl` and too
old for `x`: `x` allows the entries of its key to grow as old, or comes before its
own TTL has passed since `y` began, or after that of `y` since `y` ended. -/
def Served.Spares (y x : Served) : Prop :=
  ∀ s, x.HitAt s → ∀ plan plan', x.request.plan x.state = some plan →
    y.request.plan y.state = some plan' → plan'.key = plan.key →
      plan'.ttl ≤ plan.ttl ∨ s.seconds - y.before.seconds < plan.ttl ∨
        plan'.ttl ≤ s.seconds - y.after.seconds

end Lifetimes

/-! ## The shelf -/

section Shelves

variable {s s' : Shelf}

theorem storeEnv_of_shelfEnv (o : IoOp) (s : Shelf) (r : Io.Res o) (s' : Shelf)
    (h : shelfEnv o s r s') : storeEnv o s.dir r s'.dir := by
  cases o with
  | fs o => exact h.1
  | systemTime =>
      obtain ⟨-, rfl⟩ := h
      exact rfl
  | send request =>
      obtain rfl : s' = { s with asked := true } := h
      exact rfl
  | _ => exact congrArg Shelf.dir h

/-- What a step keeps of the clock and of having asked. -/
structure Later (s s' : Shelf) : Prop where
  clock : s.clock ≤ s'.clock
  asked : s.asked = true → s'.asked = true

theorem Later.refl (s : Shelf) : Later s s := ⟨le_refl _, id⟩

theorem Later.trans {s'' : Shelf} (h : Later s s') (h' : Later s' s'') : Later s s'' :=
  ⟨h.clock.trans h'.clock, h'.asked ∘ h.asked⟩

theorem Later.seconds (h : Later s s') : s.seconds ≤ s'.seconds := Nat.div_le_div_right h.clock

theorem shelfEnv_later (o : IoOp) (s : Shelf) (r : Io.Res o) (s' : Shelf)
    (h : shelfEnv o s r s') : Later s s' := by
  cases o with
  | fs o => exact ⟨h.2.1.ge, fun hasked => h.2.2.trans hasked⟩
  | systemTime =>
      obtain ⟨hclock, rfl⟩ := h
      exact ⟨hclock, id⟩
  | send request =>
      obtain rfl : s' = { s with asked := true } := h
      exact ⟨le_refl _, fun _ => rfl⟩
  | _ =>
      obtain rfl : s' = s := h
      exact .refl s'

end Shelves

/-! ## Stamps -/

/-- What the stamps of a request are measured against: the stamps from before it,
its plan and the seconds at which it began. -/
structure Stamping where
  past : ℕ → ℕ → Prop
  key : Str
  plan : Option CachePlan
  began : ℕ

namespace Stamping

variable {g : Stamping} {s s' : Shelf}

/-- An entry created at `created` with this `ttl` may be recorded: it is an old one,
or stamped by the current request. -/
def Allows (g : Stamping) (s : Shelf) (created ttl : ℕ) : Prop :=
  g.past created ttl ∨
    (∃ plan, g.plan = some plan ∧ plan.key = g.key ∧ ttl ≤ plan.ttl) ∧ g.began ≤ created ∧
      created ≤ s.seconds

/-- All entries recorded under the key are allowed, and the request has begun. -/
structure Holds (g : Stamping) (s : Shelf) : Prop where
  began : g.began ≤ s.seconds
  record : ∀ entry, (s.dir.view g.key).record.bind FileData.fromSlice = some entry →
    g.Allows s entry.createdAt entry.ttl

/-- An entry may be recorded under its key. -/
def Dated (g : Stamping) (s : Shelf) (entry : CacheEntry) : Prop :=
  entry.key = g.key → g.Allows s entry.createdAt entry.ttl

theorem Allows.later {created ttl : ℕ} (h : g.Allows s created ttl) (hs : Later s s') :
    g.Allows s' created ttl :=
  h.imp_right fun ⟨hplan, hbegan, hcreated⟩ => ⟨hplan, hbegan, hcreated.trans hs.seconds⟩

theorem Dated.later {entry : CacheEntry} (h : g.Dated s entry) (hs : Later s s') :
    g.Dated s' entry :=
  fun hkey => (h hkey).later hs

/-- What is recorded later was recorded before. -/
theorem Holds.later (h : g.Holds s) (hs : Later s s')
    (hrecord : (s'.dir.view g.key).record = (s.dir.view g.key).record ∨
      (s'.dir.view g.key).record = none) : g.Holds s' := by
  refine ⟨h.began.trans hs.seconds, fun entry hentry => ?_⟩
  rcases hrecord with hsame | hnone
  · exact (h.record entry (hsame ▸ hentry)).later hs
  · rw [hnone] at hentry
    cases hentry

end Stamping

/-- What is known of a program of the cache holds on the shelf, where the clock stands
still. -/
theorem safe_shelf {α : Type} {I : Dir → Prop} {Q : α → Dir → Prop} {T : α → Prop}
    {p : Prog Io α} {s : Shelf} (hp : Meets IsCacheOp T p) (h : Safe storeEnv I Q p s.dir) :
    Safe shelfEnv (fun s' => I s'.dir ∧ s'.clock = s.clock ∧ s'.asked = s.asked)
      (fun a s' => Q a s'.dir) p s := by
  have hdir : Safe shelfEnv (fun s' => I s'.dir) (fun a s' => Q a s'.dir) p s :=
    Safe.comap storeEnv_of_shelfEnv h
  have hframe : Safe shelfEnv (fun s' => s'.clock = s.clock ∧ s'.asked = s.asked) (fun a _ => T a)
      p s := by
    refine Safe.of_meets hp ?_ ⟨rfl, rfl⟩
    intro o s₁ r s₂ ho hs hstep
    cases o with
    | fs o => exact ⟨hstep.2.1.trans hs.1, hstep.2.2.trans hs.2⟩
    | tempCounter =>
        obtain rfl : s₂ = s₁ := hstep
        exact hs
    | _ => exact ho.elim
  exact (hdir.and hframe).mono (fun _ hs => hs) fun _ _ _ hQ => hQ.1

section Store

variable [Crates] {g : Stamping} {s : Shelf}

/-- The crash condition of every part of a request: the stamps hold, and the shelf is a
later one. -/
def Stamping.Keeps (g : Stamping) (s s' : Shelf) : Prop := g.Holds s' ∧ Later s s'

omit [Crates] in
theorem Stamping.Keeps.refl (h : g.Holds s) : g.Keeps s s := ⟨h, .refl s⟩

omit [Crates] in
/-- Removals keep the stamps. -/
theorem removesOnly_shelf {α : Type} {T : α → Prop} {p : Prog Io α} (hp : Meets RemovesOnly T p)
    (h : g.Holds s) : Safe shelfEnv (g.Keeps s) (fun _ _ => True) p s := by
  have hview : Safe storeEnv (fun d => (s.dir.view g.key).Shrinks (d.view g.key)) (fun a _ => T a)
      p s.dir :=
    Safe.of_meets hp (RemovesOnly.keeps fun _ _ hv hs => hs.trans hv) (.refl _)
  refine (safe_shelf (hp.mono (fun _ ho => ho.isCacheOp) fun _ ha => ha) hview).mono ?_
    fun _ _ _ _ => trivial
  rintro s' ⟨hshrinks, hclock, hasked⟩
  have hlater : Later s s' := ⟨hclock.ge, hasked.trans⟩
  exact ⟨h.later hlater hshrinks.record, hlater⟩

/-- Writing the metadata of a dated entry. -/
theorem writeMetadata_shelf {entry : CacheEntry} (hentry : g.Dated s entry) (h : g.Holds s) :
    Safe shelfEnv (g.Keeps s) (fun _ _ => True) (writeMetadata entry) s := by
  have hkeeps := (writeMetadata_keepsBodies entry).mono (fun _ ho => ho.isCacheOp) fun _ ha => ha
  refine (safe_shelf hkeeps (writeMetadata_safe entry g.key s.dir)).mono ?_ fun _ _ _ _ => trivial
  rintro s' ⟨hview, hclock, hasked⟩
  have hlater : Later s s' := ⟨hclock.ge, hasked.trans⟩
  rcases hview with hsame | ⟨hkey, hnew⟩
  · exact ⟨h.later hlater (.inl (congrArg View.record hsame)), hlater⟩
  · refine ⟨⟨h.began.trans hlater.seconds, fun found hfound => ?_⟩, hlater⟩
    rw [hnew] at hfound
    obtain rfl := Option.some.inj hfound
    exact (hentry hkey).later hlater

/-- A lookup keeps the stamps and returns a complete entry, touched. -/
theorem lookup_shelf (plan : CachePlan) (now : ℕ) (h : g.Holds s) :
    Safe shelfEnv (g.Keeps s)
      (fun result s' => s'.asked = s.asked ∧ ∀ found, result = some found →
        ∃ entry file, (s.dir.view plan.key).Admits entry file ∧ found = entry.touched plan.key now)
      (lookup plan now) s := by
  have hkeeps := (lookup_keepsBodies plan now).mono (fun _ ho => ho.isCacheOp) fun _ ha => ha
  refine (safe_shelf hkeeps (lookup_safe plan now g.key s.dir)).mono ?_ ?_
  · rintro s' ⟨hlooked, hclock, hasked⟩
    have hlater : Later s s' := ⟨hclock.ge, hasked.trans⟩
    rcases hlooked.record with hsame | hnone | ⟨-, entry, file, hadmits, hnew⟩
    · exact ⟨h.later hlater (.inl hsame), hlater⟩
    · exact ⟨h.later hlater (.inr hnone), hlater⟩
    · refine ⟨⟨h.began.trans hlater.seconds, fun found hfound => ?_⟩, hlater⟩
      rw [hnew] at hfound
      obtain rfl := Option.some.inj hfound
      exact (h.record entry hadmits.record).later hlater
  · rintro result s' ⟨-, -, hasked⟩ hfound
    exact ⟨hasked, hfound⟩

/-- The upstream's headers only shorten a lifetime. -/
theorem effectiveTtl_le (configured : ℕ) (headers : HeaderMap) (now : ℕ) :
    effectiveTtl configured headers now ≤ configured := by
  by_contra h
  exact lt_irrefl _ (lt_effectiveTtl_iff.mp (not_le.mp h)).1

omit [Crates] in
/-- The clock is read. -/
theorem Stamping.Keeps.of_clock (h : g.Holds s) {now : ℕ} (hnow : s.clock ≤ now) :
    g.Keeps s { s with clock := now } := by
  have hlater : Later s { s with clock := now } := ⟨hnow, id⟩
  exact ⟨h.later hlater (.inl rfl), hlater⟩

omit [Crates] in
theorem Stamping.Keeps.trans {s' s'' : Shelf} (h : g.Keeps s s') (h' : g.Keeps s' s'') :
    g.Keeps s s'' :=
  ⟨h'.1, h.2.trans h'.2⟩

omit [Crates] in
/-- The stamp of a plan in force. -/
theorem Stamping.dated_of_plan {plan : CachePlan} {entry : CacheEntry} (hplan : g.plan = some plan)
    (hkey : entry.key = plan.key) (httl : entry.ttl ≤ plan.ttl) (hbegan : g.began ≤ entry.createdAt)
    (hnow : entry.createdAt ≤ s.seconds) : g.Dated s entry :=
  fun hsame => .inr ⟨⟨plan, hplan, hkey.symm.trans hsame, httl⟩, hbegan, hnow⟩

/-- A refresh stamps the entry within the TTL of the plan. -/
theorem refresh_shelf {plan : CachePlan} {entry : CacheEntry} (hplan : g.plan = some plan)
    (hkey : entry.key = plan.key) (h : g.Holds s) (confirmed : HeaderMap) :
    Safe shelfEnv (g.Keeps s) (fun _ _ => True) (refresh entry confirmed plan.ttl) s := by
  unfold refresh
  simp only [Io.nowSeconds_bind, Io.systemTime_bind]
  refine ⟨.refl h, fun created s₁ hs₁ => ?_⟩
  obtain ⟨hcreated, rfl⟩ := hs₁
  have hkeeps₁ := Stamping.Keeps.of_clock h hcreated
  refine ⟨hkeeps₁, fun now s₂ hs₂ => ?_⟩
  obtain ⟨hnow, rfl⟩ := hs₂
  have hkeeps₂ := hkeeps₁.trans (.of_clock hkeeps₁.1 hnow)
  have hdated : g.Dated { s with clock := now }
      (entry.refreshed confirmed plan.ttl (created / 10 ^ 9) now) :=
    Stamping.dated_of_plan hplan hkey (effectiveTtl_le _ _ _)
      (h.began.trans hkeeps₁.2.seconds) (Nat.div_le_div_right hnow)
  refine Safe.bind ((writeMetadata_shelf hdated hkeeps₂.1).weaken fun _ hs => hkeeps₂.trans hs) ?_
  intro written s' hs' _
  exact ⟨hs', trivial⟩

/-- A writer whose entry may be recorded, and whose file is a temporary one. -/
structure Stamping.Draft (g : Stamping) (s : Shelf) (wr : CacheWriter) : Prop where
  name : ∃ tempId, IsTemporary wr.tempBody tempId
  dated : g.Dated s wr.entry

omit [Crates] in
theorem Stamping.Draft.later {wr : CacheWriter} {s' : Shelf} (h : g.Draft s wr)
    (hs : Later s s') : g.Draft s' wr :=
  ⟨h.name, h.dated.later hs⟩

omit [Crates] in
/-- A file that is not metadata of the key appears, changes or goes. -/
theorem Stamping.Keeps.of_fs {o : FsOp} {r : o.Res} {s' : Shelf} (h : g.Holds s)
    (hstep : shelfEnv (.fs o) s r s')
    (hrecord : (s'.dir.view g.key).record = (s.dir.view g.key).record) : g.Keeps s s' := by
  have hlater := shelfEnv_later _ _ _ _ hstep
  exact ⟨h.later hlater (.inl hrecord), hlater⟩

omit [Crates] in
/-- A step on a temporary body leaves the metadata of every key. -/
theorem record_of_temporary {d d' : Dir} {o : FsOp} {r : o.Res} {path key : Str} {tempId : ℕ}
    (hpath : IsTemporary path tempId) (hstep : storeEnv (.fs o) d r d')
    (ho : o = .create path ∨ o = .flush path ∨ (∃ bytes, o = .writeAll path bytes) ∨
      ∃ key, o = .rename path (bodyPath key)) :
    (d'.view key).record = (d.view key).record := by
  have hne : metaPath key ≠ path := (hpath.ne_metaPath key).symm
  have htouched : metaPath key ∉ o.touched ∧ o ≠ .readDir := by
    rcases ho with rfl | rfl | ⟨bytes, rfl⟩ | ⟨key', rfl⟩
    · simpa [FsOp.touched] using hne
    · simp [FsOp.touched]
    · simpa [FsOp.touched] using hne
    · simpa [FsOp.touched] using ⟨hne, metaPath_ne_bodyPath key key'⟩
  exact storeEnv_lookup htouched.2 htouched.1 hstep

/-- The writer of a new entry is stamped within the TTL of the plan. -/
theorem beginWrite_shelf {plan : CachePlan} (hplan : g.plan = some plan) (h : g.Holds s)
    (status : ℕ) (headers requestHeaders : HeaderMap) :
    Safe shelfEnv (g.Keeps s) (fun writer s' => ∀ wr, writer = some wr → g.Draft s' wr)
      (beginWrite plan status headers requestHeaders) s := by
  have hrefuse : ∀ s', g.Keeps s s' → Safe shelfEnv (g.Keeps s)
      (fun writer s' => ∀ wr, writer = some wr → g.Draft s' wr) (.ret none) s' :=
    fun s' hs' => ⟨hs', fun wr hwr => nomatch hwr⟩
  rcases beginWrite_cases plan status headers requestHeaders with
    ⟨hnone, -⟩ | ⟨vary, hopens, -⟩
  · rw [hnone]
    exact hrefuse s (.refl h)
  · rw [hopens]
    refine ⟨.refl h, fun created s₁ hs₁ => ?_⟩
    obtain ⟨hcreated, rfl⟩ := hs₁
    have hkeeps₁ := Stamping.Keeps.of_clock h hcreated
    refine ⟨hkeeps₁, fun accessed s₂ hs₂ => ?_⟩
    obtain ⟨haccessed, rfl⟩ := hs₂
    have hkeeps₂ := hkeeps₁.trans (.of_clock hkeeps₁.1 haccessed)
    refine ⟨hkeeps₂, fun now s₃ hs₃ => ?_⟩
    obtain ⟨hnow, rfl⟩ := hs₃
    have hkeeps₃ := hkeeps₂.trans (.of_clock hkeeps₂.1 hnow)
    dsimp only
    split
    · exact hrefuse _ hkeeps₃
    · refine ⟨hkeeps₃, fun tempId s₄ hs₄ => ?_⟩
      obtain rfl : s₄ = { s with clock := now } := hs₄
      refine ⟨hkeeps₃, fun r s₅ hs₅ => ?_⟩
      have htemp := tempBodyPath_isTemporary plan.key tempId
      have hcreate : g.Keeps { s with clock := now } s₅ :=
        .of_fs hkeeps₃.1 hs₅ (record_of_temporary htemp hs₅.1 (.inl rfl))
      cases r with
      | error e => exact hrefuse s₅ (hkeeps₃.trans hcreate)
      | ok _ =>
          refine ⟨hkeeps₃.trans hcreate, fun wr hwr => ?_⟩
          obtain rfl := Option.some.inj hwr
          refine ⟨⟨tempId, htemp⟩, Stamping.Dated.later ?_ hcreate.2⟩
          exact Stamping.dated_of_plan hplan rfl (effectiveTtl_le _ _ _)
            (h.began.trans hkeeps₁.2.seconds)
            (Nat.div_le_div_right (haccessed.trans hnow))

/-! ## Streaming -/

omit [Crates] in
/-- A chunk for the cache. -/
theorem teeWrite_shelf {writer : Option CacheWriter}
    (hwriter : ∀ wr, writer = some wr → g.Draft s wr) (h : g.Holds s) (bytes : Bytes) :
    Safe shelfEnv (g.Keeps s) (fun writer s' => ∀ wr, writer = some wr → g.Draft s' wr)
      (teeWrite bytes writer) s := by
  cases writer with
  | none => exact ⟨.refl h, fun wr hwr => nomatch hwr⟩
  | some wr =>
      obtain ⟨⟨tempId, htemp⟩, hdated⟩ := hwriter wr rfl
      unfold teeWrite CacheWriter.write
      simp only [Io.writeAll_bind, Prog.op_bind]
      refine ⟨.refl h, fun r s₁ hs₁ => ?_⟩
      have hkeeps : g.Keeps s s₁ :=
        .of_fs h hs₁ (record_of_temporary htemp hs₁.1 (.inr (.inr (.inl ⟨bytes, rfl⟩))))
      cases r with
      | error e =>
          show Safe shelfEnv _ _ (wr.discard >>= fun _ => .ret none) s₁
          refine Safe.bind ((removesOnly_shelf (discard_removesOnly wr) hkeeps.1).weaken
            fun _ hs => hkeeps.trans hs) ?_
          exact fun _ s₂ hs₂ _ => ⟨hs₂, fun wr hwr => nomatch hwr⟩
      | ok _ =>
          refine ⟨hkeeps, fun wr' hwr' => ?_⟩
          obtain rfl := Option.some.inj hwr'
          exact ⟨⟨tempId, htemp⟩, hdated.later hkeeps.2⟩

omit [Crates] in
/-- One item of a live body. -/
theorem teeItem_shelf {writer : Option CacheWriter}
    (hwriter : ∀ wr, writer = some wr → g.Draft s wr) (h : g.Holds s)
    (item : Except MeteredError Bytes) :
    Safe shelfEnv (g.Keeps s) (fun writer s' => ∀ wr, writer = some wr → g.Draft s' wr)
      (teeItem writer item) s := by
  cases item with
  | ok bytes =>
      refine Safe.bind (teeWrite_shelf hwriter h bytes) fun writer s₁ hs₁ hwriter₁ => ?_
      refine ⟨hs₁, fun _ s₂ hs₂ => ?_⟩
      obtain rfl : s₂ = s₁ := hs₂
      exact ⟨hs₁, hwriter₁⟩
  | error e =>
      have hdiscard : Meets RemovesOnly (fun _ => True) (teeDiscard writer) := by
        cases writer with
        | none => trivial
        | some wr => exact discard_removesOnly wr
      refine Safe.bind (removesOnly_shelf hdiscard h) fun _ s₁ hs₁ _ => ?_
      refine ⟨hs₁, fun _ s₂ hs₂ => ?_⟩
      obtain rfl : s₂ = s₁ := hs₂
      exact ⟨hs₁, fun wr hwr => nomatch hwr⟩

omit [Crates] in
theorem meteredStream_shelf {bucket : Str} (items : List (Except Str Bytes)) :
    ∀ {guard : ResultSizeGuard} {writer : Option CacheWriter} {s : Shelf},
      (∀ wr, writer = some wr → g.Draft s wr) → g.Holds s →
        Safe shelfEnv (g.Keeps s) (fun writer s' => ∀ wr, writer = some wr → g.Draft s' wr)
          (meteredStream bucket teeItem guard items writer) s := by
  induction items with
  | nil =>
      intro guard writer s hwriter h
      exact ⟨.refl h, hwriter⟩
  | cons item rest ih =>
      intro guard writer s hwriter h
      cases item with
      | error e => exact teeItem_shelf hwriter h _
      | ok chunk =>
          unfold meteredStream
          split
          · exact teeItem_shelf hwriter h _
          · simp only [Io.charge_bind]
            refine ⟨.refl h, fun _ s₁ hs₁ => ?_⟩
            obtain rfl : s₁ = s := hs₁
            refine Safe.bind (teeItem_shelf hwriter h _) fun writer s₂ hs₂ hwriter₂ => ?_
            exact (ih hwriter₂ hs₂.1).weaken fun _ hs => hs₂.trans hs

/-- The commit of a draft. -/
theorem finish_shelf {wr : CacheWriter} (cache : Cache) (hwr : g.Draft s wr) (h : g.Holds s) :
    Safe shelfEnv (g.Keeps s) (fun _ _ => True) (wr.finish cache) s := by
  obtain ⟨⟨tempId, htemp⟩, hdated⟩ := hwr
  unfold CacheWriter.finish commit
  simp only [Io.flush_bind, Io.rename_bind]
  refine ⟨.refl h, fun r s₁ hs₁ => ?_⟩
  have hkeeps₁ : g.Keeps s s₁ := .of_fs h hs₁ (record_of_temporary htemp hs₁.1 (.inr (.inl rfl)))
  cases r with
  | error e => exact ⟨hkeeps₁, trivial⟩
  | ok _ =>
      refine ⟨hkeeps₁, fun r s₂ hs₂ => ?_⟩
      have hkeeps₂ : g.Keeps s s₂ := hkeeps₁.trans
        (.of_fs hkeeps₁.1 hs₂ (record_of_temporary htemp hs₂.1 (.inr (.inr (.inr ⟨_, rfl⟩)))))
      cases r with
      | error e => exact ⟨hkeeps₂, trivial⟩
      | ok _ =>
          have hentry : g.Dated s₂ { wr.entry with
              bodyLen := wr.bodyLen, bodyPath := bodyPath wr.entry.key } :=
            hdated.later hkeeps₂.2
          refine Safe.bind ((writeMetadata_shelf hentry hkeeps₂.1).weaken
            fun _ hs => hkeeps₂.trans hs) fun written s₃ hs₃ _ => ?_
          cases written with
          | error e => exact ⟨hs₃, trivial⟩
          | ok _ =>
              refine Safe.bind ((removesOnly_shelf (evict_removesOnly cache) hs₃.1).weaken
                fun _ hs => hs₃.trans hs) fun _ s₄ hs₄ _ => ?_
              exact ⟨hs₄, trivial⟩

/-- A body that may be streamed: the entry of a live one may be recorded. -/
def Stamping.Prepared (g : Stamping) (s : Shelf) : Body → Prop
  | .live _ _ _ _ writer => ∀ wr, writer = some wr → g.Draft s wr
  | _ => True

/-- The operations of a stream that leaves the cache as it is. -/
def ReadsBody : IoOp → Prop
  | .fs (.openFile _) | .charge _ _ | .yield _ => True
  | _ => False

/-- Streaming a prepared body keeps the stamps. -/
theorem stream_shelf {body : Body} (hbody : g.Prepared s body) (h : g.Holds s) :
    Safe shelfEnv (g.Keeps s) (fun _ _ => True) body.stream s := by
  have hreads : ∀ p : Prog Io Unit, Meets ReadsBody (fun _ => True) p →
      Safe shelfEnv (g.Keeps s) (fun _ _ => True) p s := by
    refine fun p hp => Safe.of_meets hp (fun o s₁ r s₂ ho hs hstep => ?_) (.refl h)
    refine hs.trans ⟨?_, shelfEnv_later _ _ _ _ hstep⟩
    have hdir : s₂.dir = s₁.dir := by
      cases o with
      | fs o =>
          cases o with
          | openFile path =>
              obtain ⟨fault, hperform⟩ := hstep.1
              cases fault with
              | some f => exact (Prod.mk.inj hperform).2.symm
              | none => exact (Prod.mk.inj hperform).2.symm
          | _ => exact ho.elim
      | charge bucket n => exact congrArg Shelf.dir hstep
      | yield item => exact congrArg Shelf.dir hstep
      | _ => exact ho.elim
    exact hs.1.later (shelfEnv_later _ _ _ _ hstep) (.inl (by rw [hdir]))
  cases body with
  | full bytes => exact hreads _ ⟨trivial, fun _ => trivial⟩
  | cached path bucket guard =>
      have hitems : ∀ items, Meets ReadsBody (fun _ => True) (meteredStream bucket
          (fun _ item => Io.yield (item.mapError MeteredError.toText)) guard items ()) :=
        fun items => meteredStream_meets (fun _ => trivial)
          (fun _ item _ => by exact ⟨trivial, fun _ => trivial⟩) items trivial
      refine hreads _ ?_
      unfold Body.stream fileStream
      simp only [Io.openFile_bind, Prog.op_bind]
      refine ⟨trivial, fun r => ?_⟩
      cases r with
      | error e => exact hitems _
      | ok bytes => exact hitems _
  | live items bucket guard cache writer =>
      refine Safe.bind (meteredStream_shelf items hbody h) fun writer s₁ hs₁ hwriter => ?_
      split
      · next cache wr =>
        refine Safe.bind ((finish_shelf cache (hwriter wr rfl) hs₁.1).weaken
          fun _ hs => hs₁.trans hs) fun _ s₂ hs₂ _ => ?_
        exact ⟨hs₂, trivial⟩
      · exact ⟨hs₁, trivial⟩

theorem deliver_shelf {result : Except AppError Response}
    (hresult : ∀ response, result = .ok response → g.Prepared s response.body) (h : g.Holds s) :
    Safe shelfEnv (g.Keeps s) (fun _ _ => True) (deliver result) s := by
  cases result with
  | error e => exact ⟨.refl h, trivial⟩
  | ok response =>
      refine Safe.bind (stream_shelf (hresult response rfl) h) fun _ s₁ hs₁ _ => ?_
      exact ⟨hs₁, trivial⟩

/-! ## The handler -/

variable {state : AppState} {limitKey : RateLimitKey} {requestHeaders : HeaderMap} {target : Url}

/-- An entry that the lookup has found for the plan of the request. -/
def OfPlan (plan : Option CachePlan) (cachedEntry : Option CacheEntry) : Prop :=
  ∀ p entry, plan = some p → cachedEntry = some entry → entry.key = p.key

/-- How the redirect loop ends: the upstream has been asked, and a confirmed entry is
answered with its file. -/
structure Asked (result : Except AppError Fetched) (s : Shelf) : Prop where
  asked : s.asked = true
  cached : ∀ response, result = .ok (.confirmed response) →
    ∃ path bucket guard, response.body = .cached path bucket guard

omit [Crates] in
theorem Asked.error {e : AppError} (h : s.asked = true) : Asked (.error e) s :=
  ⟨h, fun _ hresponse => nomatch hresponse⟩

/-- One turn of the redirect loop. -/
theorem redirectTurn_shelf {cachedEntry : Option CacheEntry} {bucket : Str} {url : Url}
    {onward : UpstreamResponse → Prog Io (Except AppError Fetched)}
    (hcached : OfPlan g.plan cachedEntry) (h : g.Holds s)
    (honward : ∀ resp s', g.Holds s' → s'.asked = true →
      Safe shelfEnv (g.Keeps s') Asked (onward resp) s') :
    Safe shelfEnv (g.Keeps s) Asked
      (redirectTurn state requestHeaders bucket target g.plan cachedEntry url onward) s := by
  unfold redirectTurn
  simp only [Io.send_bind]
  refine ⟨.refl h, fun r s₁ hs₁ => ?_⟩
  obtain rfl : s₁ = { s with asked := true } := hs₁
  have hlater : Later s { s with asked := true } := ⟨le_refl _, fun _ => rfl⟩
  have hkeeps : g.Keeps s { s with asked := true } := ⟨h.later hlater (.inl rfl), hlater⟩
  cases r with
  | error e => exact ⟨hkeeps, .error rfl⟩
  | ok resp =>
      dsimp only
      split
      · next cache plan entry _ _ hplan =>
        unfold confirmEntry
        refine (refresh_shelf hplan (hcached plan entry hplan rfl) hkeeps.1 resp.headers).seq
          (fun _ hs => hkeeps.trans hs) ?_
        rintro ⟨entry', written⟩ s₂ hs₂ -
        have hasked : s₂.asked = true := hs₂.2.asked rfl
        cases written with
        | error e => exact ⟨hkeeps.trans hs₂, .error hasked⟩
        | ok _ =>
            refine ⟨hkeeps.trans hs₂, hasked, fun response hresponse => ?_⟩
            cases hresult : cachedResponse state entry' bucket state.resultMax cacheRevalidated
                target with
            | error e =>
                rw [hresult] at hresponse
                cases hresponse
            | ok response' =>
                rw [hresult] at hresponse
                obtain rfl := Fetched.confirmed.inj (Except.ok.inj hresponse)
                exact ⟨_, _, _, cachedResponse_body hresult⟩
      · split
        · exact ⟨hkeeps, rfl, fun response hresponse => nomatch hresponse⟩
        · split
          · exact ⟨hkeeps, .error rfl⟩
          · exact (honward resp _ hkeeps.1 rfl).weaken fun _ hs => hkeeps.trans hs

theorem followRedirects_shelf {cachedEntry : Option CacheEntry} {origin : Origin} {bucket : Str}
    (hcached : OfPlan g.plan cachedEntry) (left : ℕ) :
    ∀ {url : Url} {s : Shelf}, g.Holds s →
      Safe shelfEnv (g.Keeps s) Asked
        (followRedirects state origin requestHeaders bucket target g.plan cachedEntry left url)
        s := by
  induction left with
  | zero =>
      intro url s h
      exact redirectTurn_shelf hcached h fun resp s' h' hasked => ⟨.refl h', .error hasked⟩
  | succ left ih =>
      intro url s h
      refine redirectTurn_shelf hcached h fun resp s' h' hasked => ?_
      split
      · exact ⟨.refl h', .error hasked⟩
      · exact ih h'

/-- The response to the last answer of the upstream. -/
theorem liveResponse_shelf {bucket : Str} {finalUrl : Url} {revalidated : Bool}
    {upstreamResponse : UpstreamResponse} (h : g.Holds s) :
    Safe shelfEnv (g.Keeps s)
      (fun result s' => ∀ response, result = .ok response → g.Prepared s' response.body)
      (liveResponse state requestHeaders bucket target finalUrl g.plan revalidated
        upstreamResponse) s := by
  have hwriter : Safe shelfEnv (g.Keeps s) (fun writer s' => ∀ wr, writer = some wr → g.Draft s' wr)
      (beginWritePlanned state g.plan upstreamResponse requestHeaders) s := by
    unfold beginWritePlanned
    split
    · next hplan => exact beginWrite_shelf hplan h _ _ _
    · exact ⟨.refl h, fun wr hwr => nomatch hwr⟩
  unfold liveResponse
  dsimp only
  split
  · exact ⟨.refl h, fun response hresponse => nomatch hresponse⟩
  · refine Safe.bind hwriter fun writer s₁ hs₁ hdraft => ⟨hs₁, fun response hresponse => ?_⟩
    obtain rfl := Except.ok.inj hresponse
    exact hdraft

/-- **What the handler answers**: a body that may be streamed; and a hit has found, in
the directory `d` of before, an entry that is fresh by its own `ttl`. -/
structure Stamping.Answers (g : Stamping) (d : Dir) (result : Except AppError Response)
    (s : Shelf) : Prop where
  prepared : ∀ response, result = .ok response → g.Prepared s response.body
  hit : ∀ response path bucket guard, result = .ok response →
    response.body = .cached path bucket guard → s.asked = false →
      ∃ plan entry file, g.plan = some plan ∧ (d.view plan.key).Admits entry file ∧
        isFresh entry s.seconds = true

omit [Crates] in
theorem Stamping.Answers.error {d : Dir} {e : AppError} : g.Answers d (.error e) s :=
  ⟨fun _ hresponse => (nomatch hresponse), fun _ _ _ _ hresponse => nomatch hresponse⟩

/-- Everything after the cache. -/
theorem fetchUpstream_shelf {cachedEntry : Option CacheEntry} {force : Bool} {d : Dir}
    (hcached : OfPlan g.plan cachedEntry) (h : g.Holds s) :
    Safe shelfEnv (g.Keeps s) (g.Answers d)
      (fetchUpstream state limitKey requestHeaders target g.plan cachedEntry force) s := by
  have hasked : ∀ {result : Except AppError Response} {s : Shelf}, s.asked = true →
      (∀ response, result = .ok response → g.Prepared s response.body) → g.Answers d result s := by
    intro result s hasked hprepared
    refine ⟨hprepared, fun response path bucket guard _ _ hunasked => ?_⟩
    rw [hasked] at hunasked
    cases hunasked
  unfold fetchUpstream
  refine Safe.bind (followRedirects_shelf hcached state.maxRedirects h) ?_
  rintro result s₁ hs₁ ⟨hasked₁, hconfirmed⟩
  cases result with
  | error e => exact ⟨hs₁, .error⟩
  | ok fetched =>
      cases fetched with
      | confirmed response =>
          refine ⟨hs₁, hasked hasked₁ fun response' hresponse => ?_⟩
          obtain rfl := Except.ok.inj hresponse
          obtain ⟨path, bucket, guard, hbody⟩ := hconfirmed response rfl
          rw [hbody]
          trivial
      | final upstreamResponse finalUrl =>
          refine (liveResponse_shelf hs₁.1).mono (fun _ hs => hs₁.trans hs) ?_
          intro result s₂ hs₂ hprepared
          exact hasked (hs₂.2.asked hasked₁) hprepared

/-- The handler from the lookup on. -/
theorem answerAdmitted_shelf
    (hplan : g.plan = state.cache.bind fun cache => cache.plan target requestHeaders)
    (h : g.Holds s) :
    Safe shelfEnv (g.Keeps s) (g.Answers s.dir)
      (answerAdmitted state limitKey requestHeaders target) s := by
  -- The lookup finds what is complete in the directory that the request came to.
  have hlookup : Safe shelfEnv (g.Keeps s)
      (fun result _ => ∀ found, result = some found → ∃ plan entry file now, g.plan = some plan ∧
        (s.dir.view plan.key).Admits entry file ∧ found = entry.touched plan.key now)
      (lookupPlanned state g.plan) s := by
    unfold lookupPlanned
    split
    · next plan _ hplan =>
      simp only [Io.nowSeconds_bind]
      refine ⟨.refl h, fun now s₁ hs₁ => ?_⟩
      obtain ⟨hnow, rfl⟩ := hs₁
      have hkeeps := Stamping.Keeps.of_clock h hnow
      refine (lookup_shelf plan _ hkeeps.1).mono (fun _ hs => hkeeps.trans hs) ?_
      rintro result s₂ - ⟨-, hresult⟩ found hfound
      obtain ⟨entry, file, hadmits, htouched⟩ := hresult found hfound
      exact ⟨plan, entry, file, _, hplan, hadmits, htouched⟩
    · exact ⟨.refl h, fun found hfound => nomatch hfound⟩
  unfold answerAdmitted
  rw [← hplan]
  refine Safe.bind hlookup fun cachedEntry s₁ hs₁ hfound => ?_
  have hcached : OfPlan g.plan cachedEntry := by
    intro plan entry hplan' hentry
    obtain ⟨plan', previous, file, now, hplan'', -, rfl⟩ := hfound entry hentry
    obtain rfl := Option.some.inj (hplan'.symm.trans hplan'')
    rfl
  have hfetch : ∀ s₂, g.Keeps s s₂ → Safe shelfEnv (g.Keeps s) (g.Answers s.dir)
      (fetchUpstream state limitKey requestHeaders target g.plan cachedEntry
        (requestRequiresRevalidation requestHeaders)) s₂ :=
    fun s₂ hs₂ => (fetchUpstream_shelf hcached hs₂.1).weaken fun _ hs => hs₂.trans hs
  dsimp only
  split
  · next entry _ _ =>
    simp only [Io.nowSeconds_bind]
    refine ⟨hs₁, fun now s₂ hs₂ => ?_⟩
    obtain ⟨hnow, rfl⟩ := hs₂
    have hkeeps := hs₁.trans (.of_clock hs₁.1 hnow)
    dsimp only
    split
    · next hfresh =>
      refine ⟨hkeeps, fun response hresponse => ?_, fun response _ _ _ _ _ _ => ?_⟩
      · rw [cachedResponse_body hresponse]
        trivial
      · obtain ⟨plan, previous, file, at', hplan', hadmits, rfl⟩ := hfound entry rfl
        exact ⟨plan, previous, file, hplan', hadmits, hfresh⟩
    · exact hfetch _ hkeeps
  · exact hfetch s₁ hs₁

omit [Crates] in
/-- The tiers leave the shelf as it is and answer with a text. -/
theorem checkTiers_shelf (s : Shelf) (tiers : List LimitTier) :
    Safe shelfEnv (fun s' => s' = s)
      (fun result _ => ∀ response, result = .ok (some response) →
        ∃ bytes, response.body = .full bytes)
      (checkTiers limitKey tiers) s := by
  induction tiers with
  | nil => exact ⟨rfl, fun response hresponse => nomatch hresponse⟩
  | cons tier rest ih =>
      unfold checkTiers
      simp only [Io.checkLimit_bind]
      refine ⟨rfl, fun r s₁ hs₁ => ?_⟩
      obtain rfl : s₁ = s := hs₁
      cases r with
      | error e => exact ⟨rfl, fun response hresponse => nomatch hresponse⟩
      | ok snapshot =>
          dsimp only
          split
          · exact ih
          · refine ⟨rfl, fun response hresponse => ?_⟩
            cases hresponse
            exact ⟨_, rfl⟩

/-- **The handler** keeps the stamps, and a hit has found a fresh entry. -/
theorem proxyHandler_shelf {request : Request} (hplan : g.plan = request.plan state)
    (h : g.Holds s) :
    Safe shelfEnv (g.Keeps s) (g.Answers s.dir)
      (proxyHandler state request.uri request.limitKey request.headers) s := by
  unfold proxyHandler
  unfold Request.plan at hplan
  cases htarget : parseTargetUrl request.uri with
  | error e => exact ⟨.refl h, .error⟩
  | ok target =>
      rw [htarget] at hplan
      dsimp only
      split
      · exact ⟨.refl h, .error⟩
      · split
        · exact ⟨.refl h, .error⟩
        · refine (checkTiers_shelf s state.rateLimit).seq ?_ ?_
          · rintro s' rfl
            exact .refl h
          rintro admitted s₁ hs₁ hfull
          subst hs₁
          cases admitted with
          | error e => exact ⟨.refl h, .error⟩
          | ok limited =>
              cases limited with
              | none => exact answerAdmitted_shelf hplan h
              | some response =>
                  obtain ⟨bytes, hbody⟩ := hfull response rfl
                  refine ⟨.refl h, fun response' hresponse => ?_, ?_⟩
                  · obtain rfl := Except.ok.inj hresponse
                    rw [hbody]
                    trivial
                  · intro response' path bucket guard hresponse hcached
                    obtain rfl := Except.ok.inj hresponse
                    rw [hbody] at hcached
                    cases hcached

end Store

/-! ## Lifetimes -/

section Lifetimes

variable [Crates] {state : AppState} {key : Str} {xs : List Served} {x : Served} {s : Shelf}

/-- Request `y` may have stamped an entry of the key like this. -/
structure Served.MayStamp (y : Served) (key : Str) (created ttl : ℕ) : Prop where
  plan : ∃ plan, y.request.plan y.state = some plan ∧ plan.key = key ∧ ttl ≤ plan.ttl
  began : y.before.seconds ≤ created
  ended : created ≤ y.after.seconds

/-- Every entry recorded under the key was stamped by one of the requests. -/
def Stamped (key : Str) (xs : List Served) (s : Shelf) : Prop :=
  ∀ entry, (s.dir.view key).record.bind FileData.fromSlice = some entry →
    ∃ y ∈ xs, y.MayStamp key entry.createdAt entry.ttl

/-- The stamps of request `x` after the requests `xs`. -/
def Served.stamping (x : Served) (key : Str) (xs : List Served) : Stamping where
  past created ttl := ∃ y ∈ xs, y.MayStamp key created ttl
  key := key
  plan := x.request.plan x.state
  began := x.before.seconds

/-- **One request**: its stamps hold when it is over, and a hit of it has found an entry
that is fresh by its own `ttl`. -/
theorem Served.Runs.spec (h : x.Runs) (hbefore : Stamped key xs x.before) :
    (x.stamping key xs).Holds x.after ∧ ∀ s, x.HitAt s →
      ∃ plan entry file, x.request.plan x.state = some plan ∧
        (x.before.dir.view plan.key).Admits entry file ∧ isFresh entry s.seconds = true := by
  have hstart : (x.stamping key xs).Holds x.before :=
    ⟨le_refl _, fun entry hentry => .inl (hbefore entry hentry)⟩
  have hhandler := @proxyHandler_shelf _ (x.stamping key xs) x.before x.state x.request rfl hstart
  unfold Served.Runs at h
  cases hanswer : x.answer with
  | none =>
      rw [hanswer] at h
      obtain ⟨rest, hrun⟩ := h
      refine ⟨(hhandler.crash hrun).1, ?_⟩
      rintro s ⟨response, path, bucket, guard, hsome, -, -⟩
      rw [hanswer] at hsome
      cases hsome
  | some answered =>
      obtain ⟨result, s₁⟩ := answered
      rw [hanswer] at h
      obtain ⟨hrun, rest, hdelivery⟩ := h
      obtain ⟨hkeeps, hanswers⟩ := hhandler.value hrun
      refine ⟨((deliver_shelf hanswers.prepared hkeeps.1).crash hdelivery).1, ?_⟩
      rintro s ⟨response, path, bucket, guard, hsome, hbody, hasked⟩
      rw [hanswer] at hsome
      obtain ⟨rfl, rfl⟩ := Prod.mk.inj (Option.some.inj hsome)
      exact hanswers.hit response path bucket guard rfl hbody hasked

/-- **Every entry was stamped by a request of the lifetime.** -/
theorem Lifetime.stamped (h : Lifetime state xs s) (key : Str) : Stamped key xs s := by
  induction h with
  | start state s hempty =>
      intro entry hentry
      rw [hempty] at hentry
      cases hentry
  | @request state xs s earlier x hstate arrives runs ih =>
      have hbefore : Stamped key xs x.before := by
        rw [arrives]
        exact ih
      intro entry hentry
      rcases (runs.spec hbefore).1.record entry hentry with
        ⟨y, hy, hstamp⟩ | ⟨hplan, hbegan, hended⟩
      · exact ⟨y, List.mem_append_left _ hy, hstamp⟩
      · exact ⟨x, List.mem_append_right _ (List.mem_singleton_self x), hplan, hbegan, hended⟩
  | @restart state xs s earlier state' cache hcache s' cleans ih =>
      obtain ⟨rest, hrun⟩ := cleans
      have hshrinks : Safe shelfEnv (fun s' => (s.dir.view key).Shrinks (s'.dir.view key))
          (fun _ _ => True) (cleanupStartup cache) s := by
        refine Safe.of_meets (cleanupStartup_removesOnly cache) ?_ (.refl _)
        rintro o s₁ r s₂ (rfl | ho) hs hstep
        · obtain ⟨-, rfl⟩ := hstep
          exact hs
        · exact RemovesOnly.keeps (fun _ _ hv hs => View.Shrinks.trans hs hv) o s₁.dir r s₂.dir
            ho hs (storeEnv_of_shelfEnv o s₁ r s₂ hstep)
      intro entry hentry
      rcases (hshrinks.crash hrun).record with hsame | hnone
      · exact ih entry (hsame ▸ hentry)
      · rw [hnone] at hentry
        cases hentry
  | restartUncached earlier state' hcache ih => exact ih

/-- A hit whose entry was stamped by a request that spares it. -/
theorem Served.youngAt (hspec : ∃ plan entry file, x.request.plan x.state = some plan ∧
      (x.before.dir.view plan.key).Admits entry file ∧ isFresh entry s.seconds = true)
    (hhit : x.HitAt s) (hstamped : ∀ key, Stamped key xs x.before)
    (hspares : ∀ y ∈ xs, y.Spares x) : x.YoungAt s := by
  obtain ⟨plan, entry, file, hplan, hadmits, hfresh⟩ := hspec
  obtain ⟨y, hy, ⟨plan', hplan', hkey, httl⟩, hbegan, hended⟩ :=
    hstamped plan.key entry hadmits.record
  unfold isFresh at hfresh
  simp only [Bool.and_eq_true, Bool.not_eq_true', decide_eq_true_eq] at hfresh
  refine ⟨plan, entry, file, hplan, hadmits, ?_⟩
  -- The age is below the entry's own `ttl`, which the stamping request bounds.
  rcases hspares y hy s hhit plan plan' hplan hplan' hkey with hle | hbefore | hafter
  · omega
  · omega
  · omega

/-- **The configured age bounds every hit** in the lifetimes whose requests spare the
later ones: every hit is served an entry that is younger than the TTL in force. -/
theorem age_below_configured (h : Lifetime state xs s) (hspares : xs.Pairwise Served.Spares) :
    AgesBelowConfigured xs := by
  induction h with
  | start state s hempty => exact fun x hx => nomatch hx
  | @request state xs s earlier x hstate arrives runs ih =>
      obtain ⟨hpast, -, hnew⟩ := List.pairwise_append.mp hspares
      have hbefore : ∀ key, Stamped key xs x.before := fun key => by
        rw [arrives]
        exact earlier.stamped key
      intro y hy s hhit
      rcases List.mem_append.mp hy with hold | hlast
      · exact ih hpast y hold s hhit
      · obtain rfl := List.mem_singleton.mp hlast
        exact Served.youngAt ((runs.spec (hbefore [])).2 s hhit) hhit hbefore
          fun z hz => hnew z hz y (List.mem_singleton_self y)
  | restart earlier state' cache hcache s' cleans ih => exact ih hspares
  | restartUncached earlier state' hcache ih => exact ih hspares

/-! ## A lowered age -/

/-- One environment: nothing fails, the upstream gives one answer, and it is `now`
unless it was later already. -/
def Shelf.calm (answer : UpstreamResponse) (now : ℕ) : Handler Io Shelf
  | .fs o, s =>
      ((Corsget.calm (.fs o) s.dir).1, { s with dir := (Corsget.calm (.fs o) s.dir).2 })
  | .tempCounter, s => ((0 : ℕ), s)
  | .systemTime, s => ((max s.clock now : ℕ), { s with clock := max s.clock now })
  | .checkLimit _ _, s => ((.ok ⟨true, []⟩ : Except Str Snapshot), s)
  | .send _, s => ((.ok answer : Except ClientError UpstreamResponse), { s with asked := true })
  | .charge _ _, s => ((.ok () : Except BandwidthError Unit), s)
  | .yield _, s => (((), s) : Unit × Shelf)

omit [Crates] in
theorem shelfEnv_calm (answer : UpstreamResponse) (now : ℕ) (o : IoOp) (s : Shelf) :
    shelfEnv o s (Shelf.calm answer now o s).1 (Shelf.calm answer now o s).2 := by
  cases o with
  | fs o => exact ⟨storeEnv_calm (.fs o) s.dir, rfl, rfl⟩
  | systemTime => exact ⟨le_max_left _ _, rfl⟩
  | _ => exact rfl

/-- A plain request served there. -/
def Served.calm (state : AppState) (answer : UpstreamResponse) (now : ℕ) (s : Shelf) : Served :=
  let answered := exec (Shelf.calm answer now)
    (proxyHandler state plainRequest.uri plainRequest.limitKey plainRequest.headers)
    { s with asked := false }
  { state := state
    request := plainRequest
    before := { s with asked := false }
    answer := some answered
    after := (exec (Shelf.calm answer now) (deliver answered.1) answered.2).2 }

/-- It may come next in a lifetime. -/
theorem Lifetime.calm (h : Lifetime state xs s) (answer : UpstreamResponse) (now : ℕ) :
    Lifetime state (xs ++ [Served.calm state answer now s])
      (Served.calm state answer now s).after :=
  h.request (Served.calm state answer now s) rfl rfl
    ⟨Steps.of_exec (shelfEnv_calm answer now) _ _, _, Steps.of_exec (shelfEnv_calm answer now) _ _⟩

/-- A restart may come next as well. -/
theorem Lifetime.calmRestart (h : Lifetime state xs s) {state' : AppState} {cache : Cache}
    (hcache : state'.cache = some cache) (now : ℕ) :
    Lifetime state' xs (exec (Shelf.calm firstAnswer now) (cleanupStartup cache) s).2 :=
  h.restart state' cache hcache _ ⟨_, Steps.of_exec (shelfEnv_calm firstAnswer now) _ _⟩

/-- Whether a request was answered with a hit. -/
def Served.isHit (x : Served) : Bool :=
  match x.answer with
  | some (.ok ⟨_, _, .cached _ _ _⟩, s) => !s.asked
  | _ => false

omit [Crates] in
theorem Served.hitAt_of_isHit (h : x.isHit = true) {result : Except AppError Response}
    (hanswer : x.answer = some (result, s)) : x.HitAt s := by
  unfold isHit at h
  rw [hanswer] at h
  split at h
  · next heq =>
    obtain ⟨rfl, rfl⟩ := Prod.mk.inj (Option.some.inj heq)
    exact ⟨_, _, _, _, hanswer, rfl, by simpa using h⟩
  · cases h

end Lifetimes

/-- `exampleCache` with a rule of fifteen minutes, and a global `max_age`. -/
def ageCache (maxAge : ℕ) : Cache :=
  { exampleCache with
    defaultMaxAge := maxAge
    rules := [{ pattern := .exact "example.com".toList "/x".toList, maxAge := 900 }] }

/-- Its state. -/
def ageState (maxAge : ℕ) : AppState := { exampleState with cache := some (ageCache maxAge) }

/-- A new shelf. -/
def emptyShelf : Shelf := ⟨∅, 0, false⟩

/-- The response is stored at the epoch, for fifteen minutes. -/
def storingRequest : Served := @Served.calm reference (ageState 900) firstAnswer 0 emptyShelf

/-- A request ten seconds later. -/
def soonRequest : Served :=
  @Served.calm reference (ageState 900) firstAnswer (10 * 10 ^ 9) storingRequest.after

/-- The shelf after a restart at 100 seconds, with a global age of a minute. -/
def restartedShelf : Shelf :=
  (exec (Shelf.calm firstAnswer (100 * 10 ^ 9)) (cleanupStartup (ageCache 60))
    storingRequest.after).2

/-- A request after the restart. -/
def lateRequest : Served :=
  @Served.calm reference (ageState 60) firstAnswer (100 * 10 ^ 9) restartedShelf

/-- The theorem without a restart: the second request is a hit, ten seconds old. -/
theorem age_below_configured_unchanged :
    @AgesBelowConfigured reference [storingRequest, soonRequest] := by
  have hlifetime : @Lifetime reference (ageState 900) [storingRequest, soonRequest]
      soonRequest.after :=
    @Lifetime.calm reference _ _ _ (@Lifetime.calm reference _ _ _
      (@Lifetime.start reference (ageState 900) emptyShelf rfl) firstAnswer 0) firstAnswer
      (10 * 10 ^ 9)
  refine @age_below_configured reference _ _ _ hlifetime (List.pairwise_pair.mpr ?_)
  intro s _ plan plan' hplan hplan' _
  have hsame : some plan' = some plan := hplan'.symm.trans hplan
  exact .inl (le_of_eq (congrArg CachePlan.ttl (Option.some.inj hsame)))

/-- **A lowered age is not in force**: after the restart the entry is a hit, a hundred
seconds old, under a plan of sixty. -/
theorem lowered_age_is_not_in_force :
    @Lifetime reference (ageState 60) [storingRequest, lateRequest] lateRequest.after ∧
      (lateRequest.answer.bind fun answered =>
        answered.1.toOption.bind fun r => r.headers.get cacheDiagnosticHeader) = some cacheHit ∧
      ¬ @AgesBelowConfigured reference [storingRequest, lateRequest] := by
  refine ⟨?_, by decide +kernel, ?_⟩
  · have hstored := @Lifetime.calm reference _ _ _
      (@Lifetime.start reference (ageState 900) emptyShelf rfl) firstAnswer 0
    exact @Lifetime.calm reference _ _ _ (@Lifetime.calmRestart reference _ _ _ hstored
      (ageState 60) (ageCache 60) rfl (100 * 10 ^ 9)) firstAnswer (100 * 10 ^ 9)
  · intro h
    obtain ⟨answered, hanswer⟩ : ∃ answered, lateRequest.answer = some answered := ⟨_, rfl⟩
    have hhit : lateRequest.HitAt answered.2 :=
      Served.hitAt_of_isHit (by decide +kernel) hanswer
    obtain ⟨plan, entry, file, hplan, hadmits, hyoung⟩ := h lateRequest (by simp) answered.2 hhit
    -- The plan is of a minute, the entry of the epoch, and it is a hundred seconds later.
    have hminute :
        @Request.plan reference (ageState 60) plainRequest = some ⟨exampleDigest, 60⟩ := by
      decide +kernel
    obtain rfl : plan = ⟨exampleDigest, 60⟩ := Option.some.inj (hplan.symm.trans hminute)
    have hcreated : ((lateRequest.before.dir.view exampleDigest).record.bind
        FileData.fromSlice).map CacheEntry.createdAt = some 0 := by
      decide +kernel
    rw [hadmits.record] at hcreated
    have hseconds : lateRequest.answer.map (fun answered => answered.2.seconds) = some 100 := by
      decide +kernel
    rw [hanswer] at hseconds
    have hlate : answered.2.seconds = 100 := Option.some.inj hseconds
    rw [Option.some.inj hcreated, hlate] at hyoung
    exact absurd hyoung (by decide)

end Corsget
