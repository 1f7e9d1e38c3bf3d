import Corsget.Library.Assuming
import Corsget.Footprint

/-!
# From the store to the request

Many properties of a request are properties of what it does to the cache directory: which files
it touches, what it puts into them, what it takes from them.  A `Discipline` with a
`BodyDiscipline` is such a property, stated of each program of the store: which operations are
allowed (`φ`), what may be assumed of the answers (`A`), and what is known of the entries that a
lookup finds (`Held`) and of the writers that are opened (`Writes`).

`serve_assuming` is the rule: a discipline of the store programs is one of the whole request,
with all its hops, its body and its commit.
-/

namespace Corsget

open Text Effect

/-- The operations of a handler outside the store are allowed. -/
structure AllowsHandler (φ : IoOp → Prop) : Prop where
  clock : φ .systemTime
  check : ∀ key quota, φ (.checkLimit key quota)
  send : ∀ request, φ (.send request)

/-- And so are those of a body that goes out. -/
structure AllowsRest (φ : IoOp → Prop) : Prop extends AllowsHandler φ where
  charge : ∀ bucket n, φ (.charge bucket n)
  yield : ∀ item, φ (.yield item)

section Disciplines

variable [Crates]

/-- **A property of the store programs while a body goes out.** -/
structure BodyDiscipline (A : Event Io → Prop) (φ : IoOp → Prop) (Held : CacheEntry → Prop)
    (Writes : CacheWriter → Prop) : Prop where
  openFile : ∀ entry, Held entry → φ (.fs (.openFile entry.bodyPath))
  write : ∀ w bytes, Writes w → Assuming A φ (fun written => Writes written.1) (w.write bytes)
  discard : ∀ w, Writes w → φ (.fs (.removeFile w.tempBody))
  finish : ∀ cache w, Writes w → Assuming A φ (fun _ => True) (w.finish cache)

/-- **A property of the store programs of one plan**, before that. -/
structure Discipline (A : Event Io → Prop) (φ : IoOp → Prop) (plan : CachePlan)
    (Held : CacheEntry → Prop) (Writes : CacheWriter → Prop) : Prop where
  lookup : ∀ now, Assuming A φ (fun found => ∀ entry, found = some entry → Held entry)
    (lookup plan now)
  refresh : ∀ entry headers, Held entry →
    Assuming A φ (fun refreshed => Held refreshed.1) (refresh entry headers plan.ttl)
  beginWrite : ∀ status headers requestHeaders,
    Assuming A φ (fun opened => ∀ w, opened = some w → Writes w)
      (beginWrite plan status headers requestHeaders)

variable {A : Event Io → Prop} {φ : IoOp → Prop} {Held : CacheEntry → Prop}
  {Writes : CacheWriter → Prop} {Good : ℕ → Prop} {state : AppState} {key : RateLimitKey}
  {requestHeaders : HeaderMap}

/-- What is known of the body of a response. -/
def Body.Obeys (Held : CacheEntry → Prop) (Writes : CacheWriter → Prop) : Body → Prop
  | .full _ => True
  | .cached path _ _ => ∃ entry, Held entry ∧ path = entry.bodyPath
  | .live _ _ _ _ writer => ∀ w, writer = some w → Writes w

/-- What is known of the outcome of a handler: the status of a response is good, and its body
obeys the discipline. -/
def Obeys (Held : CacheEntry → Prop) (Writes : CacheWriter → Prop) (Good : ℕ → Prop)
    (result : Except AppError Response) : Prop :=
  ∀ response, result = .ok response → Good response.status ∧ response.body.Obeys Held Writes

omit [Crates] in
theorem Obeys.error {e : AppError} : Obeys Held Writes Good (.error e) := by
  intro response h
  cases h

omit [Crates] in
theorem cachedResponse_obeys {entry : CacheEntry} {bucket : Str} {resultMax : ℕ}
    {cacheStatus : HeaderValue} {url : Url} (hentry : Held entry) (hgood : Good entry.status) :
    Obeys Held Writes Good
      (cachedResponse state entry bucket resultMax cacheStatus url) := by
  intro response h
  refine ⟨?_, ?_⟩
  · unfold cachedResponse at h
    split at h
    · cases h
    · dsimp only at h
      split at h
      · cases h
      · obtain rfl := Except.ok.inj h
        exact hgood
  · rw [cachedResponse_body h]
    exact ⟨entry, hentry, rfl⟩

/-- What is known when the redirect loop has ended. -/
def FetchedObeys (Held : CacheEntry → Prop) (Writes : CacheWriter → Prop) (Good : ℕ → Prop) :
    Except AppError Fetched → Prop
  | .error _ => True
  | .ok (.confirmed response) => Good response.status ∧ response.body.Obeys Held Writes
  | .ok (.final resp _) => isFollowableRedirect resp.status = false

theorem confirmEntry_assuming {bucket : Str} {target : Url} {plan : CachePlan} {entry : CacheEntry}
    {confirmed : HeaderMap} (h : Discipline A φ plan Held Writes) (hentry : Held entry)
    (hheld : ∀ entry, Held entry → Good entry.status) :
    Assuming A φ (FetchedObeys Held Writes Good)
      (confirmEntry state bucket target plan entry confirmed) := by
  unfold confirmEntry
  refine (h.refresh entry confirmed hentry).bind ?_
  rintro ⟨entry, written⟩ hentry
  rcases written with e | ⟨⟩
  · trivial
  · dsimp only [Assuming, pure]
    cases hresponse : cachedResponse state entry bucket state.resultMax cacheRevalidated target with
    | error e => trivial
    | ok response => exact cachedResponse_obeys hentry (hheld entry hentry) response hresponse

/-- One turn of the redirect loop. -/
theorem redirectTurn_assuming {bucket : Str} {target url : Url} {plan : Option CachePlan}
    {cachedEntry : Option CacheEntry}
    {onward : UpstreamResponse → Prog Io (Except AppError Fetched)} (hrest : AllowsHandler φ)
    (h : ∀ p, plan = some p → Discipline A φ p Held Writes)
    (hentry : ∀ entry, cachedEntry = some entry → Held entry)
    (hheld : ∀ entry, Held entry → Good entry.status)
    (honward : ∀ resp, Assuming A φ (FetchedObeys Held Writes Good) (onward resp)) :
    Assuming A φ (FetchedObeys Held Writes Good)
      (redirectTurn state requestHeaders bucket target plan cachedEntry url onward) := by
  unfold redirectTurn
  simp only [Io.send_bind]
  refine Assuming.op (hrest.send _) fun answer _ => ?_
  rcases answer with e | resp
  · trivial
  · dsimp only
    split
    · exact confirmEntry_assuming (h _ rfl) (hentry _ rfl) hheld
    · split
      · next hfinal => exact hfinal
      · split
        · trivial
        · exact honward resp

theorem followRedirects_assuming {origin : Origin} {bucket : Str} {target : Url}
    {plan : Option CachePlan} {cachedEntry : Option CacheEntry} (hrest : AllowsHandler φ)
    (h : ∀ p, plan = some p → Discipline A φ p Held Writes)
    (hentry : ∀ entry, cachedEntry = some entry → Held entry)
    (hheld : ∀ entry, Held entry → Good entry.status) (left : ℕ) :
    ∀ url, Assuming A φ (FetchedObeys Held Writes Good)
      (followRedirects state origin requestHeaders bucket target plan cachedEntry left url) := by
  induction left with
  | zero => exact fun url => redirectTurn_assuming hrest h hentry hheld fun resp => trivial
  | succ left ih =>
      intro url
      refine redirectTurn_assuming hrest h hentry hheld fun resp => ?_
      split
      · trivial
      · exact ih _

theorem liveResponse_assuming {bucket : Str} {target finalUrl : Url} {plan : Option CachePlan}
    {revalidated : Bool} {upstreamResponse : UpstreamResponse}
    (h : ∀ p, plan = some p → Discipline A φ p Held Writes)
    (hgood : Good upstreamResponse.status) :
    Assuming A φ (Obeys Held Writes Good)
      (liveResponse state requestHeaders bucket target finalUrl plan revalidated
        upstreamResponse) := by
  have hwriter : Assuming A φ (fun opened => ∀ w, opened = some w → Writes w)
      (beginWritePlanned state plan upstreamResponse requestHeaders) := by
    unfold beginWritePlanned
    split
    · exact (h _ rfl).beginWrite _ _ _
    · intro w hw
      cases hw
  unfold liveResponse
  dsimp only
  split
  · exact Obeys.error
  · refine hwriter.bind fun writer hwriter => ?_
    intro response hresponse
    obtain rfl := Except.ok.inj hresponse
    exact ⟨hgood, hwriter⟩

theorem fetchUpstream_assuming {target : Url} {plan : Option CachePlan}
    {cachedEntry : Option CacheEntry} {force : Bool} (hrest : AllowsHandler φ)
    (h : ∀ p, plan = some p → Discipline A φ p Held Writes)
    (hentry : ∀ entry, cachedEntry = some entry → Held entry)
    (hheld : ∀ entry, Held entry → Good entry.status)
    (hfinal : ∀ status, isFollowableRedirect status = false → Good status) :
    Assuming A φ (Obeys Held Writes Good)
      (fetchUpstream state key requestHeaders target plan cachedEntry force) := by
  unfold fetchUpstream
  refine (followRedirects_assuming hrest h hentry hheld _ _).bind fun fetched hfetched => ?_
  rcases fetched with e | ⟨response⟩ | ⟨resp, finalUrl⟩
  · exact Obeys.error
  · intro response' hresponse
    obtain rfl := Except.ok.inj hresponse
    exact hfetched
  · exact liveResponse_assuming h (hfinal _ hfetched)

theorem answerAdmitted_assuming {target : Url} (hrest : AllowsHandler φ)
    (h : ∀ p, (state.cache.bind fun cache => cache.plan target requestHeaders) = some p →
      Discipline A φ p Held Writes)
    (hheld : ∀ entry, Held entry → Good entry.status)
    (hfinal : ∀ status, isFollowableRedirect status = false → Good status) :
    Assuming A φ (Obeys Held Writes Good) (answerAdmitted state key requestHeaders target) := by
  unfold answerAdmitted
  dsimp only
  generalize (state.cache.bind fun cache => cache.plan target requestHeaders) = plan at h ⊢
  have hlookup : Assuming A φ (fun found => ∀ entry, found = some entry → Held entry)
      (lookupPlanned state plan) := by
    unfold lookupPlanned
    split
    · exact Assuming.op hrest.clock fun now _ => (h _ rfl).lookup _
    · intro entry hentry
      cases hentry
  refine hlookup.bind fun found hfound => ?_
  split
  · next cache entry _ _ =>
    refine Assuming.op hrest.clock fun (now : ℕ) _ => ?_
    show Assuming _ _ _ (if isFresh entry (now / 10 ^ 9) = true then _ else _)
    split
    · exact cachedResponse_obeys (hfound entry rfl) (hheld entry (hfound entry rfl))
    · exact fetchUpstream_assuming hrest h hfound hheld hfinal
  · exact fetchUpstream_assuming hrest h hfound hheld hfinal

omit [Crates] in
theorem checkTiers_assuming (hrest : AllowsHandler φ) (tiers : List LimitTier) :
    Assuming A φ (fun asked => ∀ response, asked = .ok (some response) →
      ∃ snapshot, response = rateLimited snapshot) (checkTiers key tiers) := by
  induction tiers with
  | nil =>
      intro response h
      cases h
  | cons tier rest ih =>
      unfold checkTiers
      simp only [Io.checkLimit_bind]
      refine Assuming.op (hrest.check _ _) fun answer _ => ?_
      rcases answer with e | snapshot
      · intro response h
        cases h
      · dsimp only
        split
        · exact ih
        · intro response h
          exact ⟨snapshot, (Option.some.inj (Except.ok.inj h)).symm⟩

theorem proxyHandler_assuming {uri : OriginalUri} (hrest : AllowsHandler φ)
    (h : ∀ target, parseTargetUrl uri = .ok target → ∀ p,
      (state.cache.bind fun cache => cache.plan target requestHeaders) = some p →
        Discipline A φ p Held Writes)
    (hheld : ∀ entry, Held entry → Good entry.status)
    (hfinal : ∀ status, isFollowableRedirect status = false → Good status) :
    Assuming A φ (Obeys Held Writes Good) (proxyHandler state uri key requestHeaders) := by
  unfold proxyHandler
  split
  · exact Obeys.error
  · next target htarget =>
    split
    · exact Obeys.error
    · split
      · exact Obeys.error
      · refine (checkTiers_assuming hrest state.rateLimit).bind fun asked hasked => ?_
        rcases asked with e | _ | response
        · exact Obeys.error
        · exact answerAdmitted_assuming hrest (h target htarget) hheld hfinal
        · intro response' hresponse
          obtain rfl := Except.ok.inj hresponse
          obtain ⟨snapshot, rfl⟩ := hasked _ rfl
          exact ⟨hfinal 429 rfl, trivial⟩

/-! ## The body -/

omit [Crates] in
theorem meteredStream_assuming {σ : Type} {R : σ → Prop} {bucket : Str}
    {onItem : σ → Except MeteredError Bytes → Prog Io σ} (hrest : AllowsRest φ)
    (hitem : ∀ s item, R s → Assuming A φ R (onItem s item)) (items : List (Except Str Bytes)) :
    ∀ {guard s}, R s → Assuming A φ R (meteredStream bucket onItem guard items s) := by
  induction items with
  | nil => exact fun hs => hs
  | cons item rest ih =>
      intro guard s hs
      rcases item with e | chunk
      · exact hitem s _ hs
      · unfold meteredStream
        rcases guard.charge chunk.length with ⟨verdict, next⟩
        rcases verdict with e | ⟨⟩
        · exact hitem s _ hs
        · simp only [Io.charge_bind]
          refine Assuming.op (hrest.charge _ _) fun charged _ => ?_
          exact (hitem s (.ok chunk) hs).bind fun s hs => ih hs

theorem teeItem_assuming (hrest : AllowsRest φ) (h : BodyDiscipline A φ Held Writes)
    (writer : Option CacheWriter) (item : Except MeteredError Bytes)
    (hwriter : ∀ w, writer = some w → Writes w) :
    Assuming A φ (fun writer => ∀ w, writer = some w → Writes w) (teeItem writer item) := by
  have hnone : ∀ w : CacheWriter, none = some w → Writes w := by
    intro w hw
    cases hw
  rcases item with e | chunk
  · unfold teeItem
    refine Assuming.bind (Q := fun _ => True) ?_ fun _ _ =>
      Assuming.op (hrest.yield _) fun _ _ => hnone
    rcases writer with _ | w
    · trivial
    · exact Assuming.op (h.discard w (hwriter w rfl)) fun _ _ => trivial
  · unfold teeItem
    refine Assuming.bind (Q := fun writer => ∀ w, writer = some w → Writes w) ?_
      fun writer hwriter => Assuming.op (hrest.yield _) fun _ _ => hwriter
    rcases writer with _ | w
    · exact hnone
    · refine (h.write w chunk (hwriter w rfl)).bind ?_
      rintro ⟨w', written⟩ hw'
      rcases written with e | ⟨⟩
      · exact Assuming.op (h.discard w' hw') fun _ _ => hnone
      · intro w hw
        exact Option.some.inj hw ▸ hw'

theorem stream_assuming {body : Body} (hrest : AllowsRest φ) (h : BodyDiscipline A φ Held Writes)
    (hbody : body.Obeys Held Writes) : Assuming A φ (fun _ => True) body.stream := by
  rcases body with bytes | ⟨path, bucket, guard⟩ | ⟨items, bucket, guard, cache, writer⟩
  · exact Assuming.op (hrest.yield _) fun _ _ => trivial
  · obtain ⟨entry, hentry, rfl⟩ := hbody
    show Assuming A φ _ (fileStream entry.bodyPath >>= _)
    unfold fileStream
    simp only [Io.openFile_bind]
    refine Assuming.op (h.openFile entry hentry) fun answer _ => ?_
    have hitem : ∀ (_ : Unit) (item : Except MeteredError Bytes), True →
        Assuming A φ (fun _ : Unit => True) (Io.yield (item.mapError MeteredError.toText)) :=
      fun _ _ _ => ⟨hrest.yield _, fun _ _ => trivial⟩
    have hitems : ∀ items : List (Except Str Bytes), Assuming A φ (fun _ => True)
        (meteredStream bucket (fun _ item => Io.yield (item.mapError MeteredError.toText))
          guard items ()) :=
      fun items => meteredStream_assuming hrest hitem items trivial
    rcases answer with e | bytes
    · exact hitems _
    · exact hitems _
  · show Assuming A φ _ (meteredStream bucket teeItem guard items writer >>= _)
    refine (meteredStream_assuming hrest (teeItem_assuming hrest h) items hbody).bind
      fun writer hwriter => ?_
    split
    · exact (h.finish _ _ (hwriter _ rfl)).bind fun _ _ => trivial
    · trivial

/-- **A discipline of the store is one of the whole request.** -/
theorem serve_assuming {uri : OriginalUri} (hrest : AllowsRest φ)
    (hbody : BodyDiscipline A φ Held Writes)
    (h : ∀ target, parseTargetUrl uri = .ok target → ∀ p,
      (state.cache.bind fun cache => cache.plan target requestHeaders) = some p →
        Discipline A φ p Held Writes)
    (hheld : ∀ entry, Held entry → Good entry.status)
    (hfinal : ∀ status, isFollowableRedirect status = false → Good status) :
    Assuming A φ (Obeys Held Writes Good) (serve state uri key requestHeaders) := by
  unfold serve
  refine (proxyHandler_assuming hrest.toAllowsHandler h hheld hfinal).bind fun result hresult => ?_
  rcases result with e | response
  · exact Obeys.error
  · exact (stream_assuming hrest hbody (hresult response rfl).2).bind fun _ _ => hresult

end Disciplines

end Corsget
