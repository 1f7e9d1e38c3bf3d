import Corsget.Footprint
import Corsget.Forwarding
import Corsget.Refreshing

/-!
# What a 304 confirms

Once an entry has been looked up, the handler takes **every** `304 Not Modified`
of the redirect loop as confirming that entry.  That is right when the upstream
was asked about the entry and nothing else: the conditional headers of the
request are the stored validators.

`addValidators` overwrites the consumer's `If-None-Match` when the entry has an
`ETag`, and its `If-Modified-Since` when the entry has a `Last-Modified`; a
consumer's header that is not overwritten is forwarded.
`confirms_only_own_iff` is the exact condition.
-/

namespace Corsget

open Text Effect

/-- **A request that asks about the entry**: its conditional headers are the stored
validators, and there is one. -/
def AsksAbout (request : UpstreamRequest) (entry : CacheEntry) : Prop :=
  (request.headers.getAll .ifNoneMatch).map HeaderValue.bytes =
      (entry.etag.map utf8).toList ∧
    (request.headers.getAll .ifModifiedSince).map HeaderValue.bytes =
      (entry.lastModified.map utf8).toList ∧
    (entry.etag.isSome = true ∨ entry.lastModified.isSome = true)

/-- The upstream would see the consumer's own lines of a name. -/
def IsPassedOn (requestHeaders : HeaderMap) (name : HeaderName) : Prop :=
  requestHeaders.containsKey name = true ∧ isForwarded requestHeaders name = true

/-- **A validator decides its header**: it is a valid header value, or there is none
and the consumer's own header is not passed on. -/
def Decides (validator : Option Str) (requestHeaders : HeaderMap) (name : HeaderName) : Prop :=
  match validator with
  | some text => (HeaderValue.fromStr text).isSome = true
  | none => ¬ IsPassedOn requestHeaders name

theorem getAll_forwardHeaders_eq_nil_iff {requestHeaders : HeaderMap} (url : Url)
    {name : HeaderName} (hname : name ≠ .host) :
    (forwardHeaders requestHeaders url).getAll name = [] ↔ ¬ IsPassedOn requestHeaders name := by
  unfold IsPassedOn
  rw [getAll_forwardHeaders requestHeaders url hname, MultiMap.containsKey_iff]
  cases isForwarded requestHeaders name with
  | false => simp
  | true => simp

/-- The value of a text has its bytes. -/
theorem bytes_of_fromStr {text : Str} {value : HeaderValue}
    (h : HeaderValue.fromStr text = some value) : value.bytes = utf8 text := by
  unfold HeaderValue.fromStr at h
  split at h
  · cases h
    rfl
  · cases h

/-- No value has the bytes of a text that is not a valid one. -/
theorem bytes_ne_of_fromStr_eq_none {text : Str} (h : HeaderValue.fromStr text = none)
    (value : HeaderValue) : value.bytes ≠ utf8 text := by
  intro hbytes
  unfold HeaderValue.fromStr at h
  rw [dif_pos (hbytes ▸ value.valid)] at h
  cases h

/-- **One conditional header**: overwritten by the validator or left to the
consumer, its lines are the validator exactly when that decides it. -/
theorem lines_eq_validator_iff {validator : Option Str} {requestHeaders : HeaderMap} {url : Url}
    {name : HeaderName} (hname : name ≠ .host) :
    (validatorOr validator ((forwardHeaders requestHeaders url).getAll name)).map
        HeaderValue.bytes = (validator.map utf8).toList ↔
      Decides validator requestHeaders name := by
  unfold Decides validatorOr
  cases validator with
  | none =>
      rw [← getAll_forwardHeaders_eq_nil_iff url hname]
      simp
  | some text =>
      simp only [Option.bind_some, Option.map_some, Option.toList_some]
      cases hvalue : HeaderValue.fromStr text with
      | none =>
          simp only [Option.isSome_none, Bool.false_eq_true, iff_false]
          intro h
          obtain ⟨value, -, hbytes⟩ :=
            List.mem_map.mp (h.symm ▸ List.mem_singleton_self (utf8 text))
          exact bytes_ne_of_fromStr_eq_none hvalue value hbytes
      | some value => simp [bytes_of_fromStr hvalue]

/-- A request of the redirect loop asks about the entry exactly when both
validators decide their headers and there is one. -/
theorem asksAbout_iff {requestHeaders : HeaderMap} {entry : CacheEntry} (url : Url) :
    AsksAbout { url := url, headers := upstreamHeaders requestHeaders (some entry) url } entry ↔
      Decides entry.etag requestHeaders .ifNoneMatch ∧
        Decides entry.lastModified requestHeaders .ifModifiedSince ∧
        (entry.etag.isSome = true ∨ entry.lastModified.isSome = true) := by
  unfold AsksAbout upstreamHeaders
  dsimp only
  rw [getAll_addValidators_ifNoneMatch, getAll_addValidators_ifModifiedSince,
    lines_eq_validator_iff (by decide), lines_eq_validator_iff (by decide)]

section Confirming

variable [Crates]

/-- **A 304 confirms only the entry it was asked about**: in every run of the redirect
loop that ends by confirming the entry, the request that got the 304 asks about
it. -/
def ConfirmsOnlyOwn (state : AppState) (origin : Origin) (requestHeaders : HeaderMap)
    (bucket : Str) (target : Url) (plan : CachePlan) (entry : CacheEntry) : Prop :=
  ∀ es response,
    Trace (followRedirects state origin requestHeaders bucket target (some plan) (some entry)
      state.maxRedirects target) es (.ok (.confirmed response)) →
    ∀ (request : UpstreamRequest) (resp : UpstreamResponse),
      (⟨.send request, (.ok resp : Except ClientError UpstreamResponse)⟩ : Event Io) ∈ es →
        resp.status = 304 → AsksAbout request entry

/-- Whether the entry can be served at all: its status is one, and its body fits the
size cap. -/
def Servable (state : AppState) (entry : CacheEntry) : Prop :=
  (100 ≤ entry.status ∧ entry.status < 1000) ∧
    (ResultSizeGuard.new state.resultMax).wouldExceed entry.bodyLen = false

omit [Crates] in
theorem exists_cachedResponse {state : AppState} {entry : CacheEntry} (h : Servable state entry)
    (bucket : Str) (cacheStatus : HeaderValue) (url : Url) :
    ∃ response,
      cachedResponse state entry bucket state.resultMax cacheStatus url = .ok response := by
  unfold cachedResponse
  rw [if_neg (not_not.mpr h.1)]
  dsimp only
  rw [h.2]
  exact ⟨_, rfl⟩

omit [Crates] in
theorem servable_of_cachedResponse {state : AppState} {entry : CacheEntry} {bucket : Str}
    {cacheStatus : HeaderValue} {url : Url} {response : Response}
    (h : cachedResponse state entry bucket state.resultMax cacheStatus url = .ok response) :
    Servable state entry := by
  unfold cachedResponse at h
  split at h
  · cases h
  · next hstatus =>
    dsimp only at h
    split at h
    · cases h
    · next hfits => exact ⟨not_not.mp hstatus, Bool.not_eq_true _ ▸ hfits⟩

/-- Every request of the loop carries the headers of `upstreamHeaders` for the
entry. -/
theorem headers_of_send {state : AppState} {origin : Origin} {requestHeaders : HeaderMap}
    {bucket : Str} {target url : Url} {plan : Option CachePlan} {entry : Option CacheEntry}
    {left : ℕ} {es : List (Event Io)} {result : Except AppError Fetched}
    (htrace : Trace (followRedirects state origin requestHeaders bucket target plan entry left url)
      es result) {request : UpstreamRequest} {answer : Except ClientError UpstreamResponse}
    (hsend : (⟨.send request, answer⟩ : Event Io) ∈ es) :
    request.headers = upstreamHeaders requestHeaders entry request.url := by
  let sends (request : UpstreamRequest) : Prop :=
    request.headers = upstreamHeaders requestHeaders entry request.url
  have hconfined : (∀ e ∈ es, Confined ⟨sends, True, True⟩ e.1) ∧ FetchedWithin True result :=
    (followRedirects_confined (P := fun _ => True) (fun _ => trivial) (fun _ _ => rfl)
      (fun _ => trivial) left trivial).of_trace htrace
  exact hconfined.1 _ hsend

/-- A `304 Not Modified` without headers. -/
def notModified : UpstreamResponse where
  status := 304
  headers := []
  contentLength := none
  body := []

/-- An entry that can be served is confirmed when nothing fails. -/
theorem confirmEntry_run {state : AppState} {entry : CacheEntry} (hservable : Servable state entry)
    (bucket : Str) (target : Url) (plan : CachePlan) (confirmed : HeaderMap) :
    ∃ es response,
      Trace (confirmEntry state bucket target plan entry confirmed) es
        (.ok (.confirmed response)) := by
  obtain ⟨response, hresponse⟩ := exists_cachedResponse
    (show Servable state (entry.refreshed confirmed plan.ttl 0 0) from hservable) bucket
    cacheRevalidated target
  have hrefresh := refresh_run entry confirmed plan.ttl 0 0 0
  refine ⟨_, response, Trace.bind_iff.mpr ⟨_, _, [], (List.append_nil _).symm, hrefresh, ?_⟩⟩
  -- What is confirmed is the refreshed entry, which has the status and the length of
  -- the stored one.
  show Trace (.ret (Except.map Fetched.confirmed
    (cachedResponse state (entry.refreshed confirmed plan.ttl 0 0) bucket state.resultMax
      cacheRevalidated target))) [] _
  rw [hresponse]
  exact .ret _

/-- A confirming turn of the loop: the 304 arrives, and nothing fails. -/
theorem redirectTurn_confirmed {state : AppState} {cache : Cache}
    (hcache : state.cache = some cache) {entry : CacheEntry} (hservable : Servable state entry)
    (requestHeaders : HeaderMap) (bucket : Str) (target url : Url) (plan : CachePlan)
    (onward : UpstreamResponse → Prog Io (Except AppError Fetched)) :
    ∃ es response,
      Trace (redirectTurn state requestHeaders bucket target (some plan) (some entry) url onward)
        (⟨.send { url := url, headers := upstreamHeaders requestHeaders (some entry) url },
          (.ok notModified : Except ClientError UpstreamResponse)⟩ :: es)
        (.ok (.confirmed response)) := by
  obtain ⟨es, response, htrace⟩ := confirmEntry_run hservable bucket target plan []
  refine ⟨es, response, Trace.op ?_⟩
  dsimp only
  rw [hcache]
  exact htrace

/-- Only an entry that can be served is confirmed. -/
theorem confirmEntry_servable {state : AppState} {bucket : Str} {target : Url} {plan : CachePlan}
    {entry : CacheEntry} {confirmed : HeaderMap} :
    Meets (fun _ => True)
      (fun r : Except AppError Fetched => ∀ response, r = .ok (.confirmed response) →
        Servable state entry)
      (confirmEntry state bucket target plan entry confirmed) := by
  unfold confirmEntry
  refine (refresh_meets entry confirmed plan.ttl).bind ?_
  rintro ⟨entry', written⟩ ⟨created, now, rfl⟩
  cases written with
  | error e =>
      intro response h
      cases h
  | ok _ =>
      intro response h
      cases hcached : cachedResponse state (entry.refreshed confirmed plan.ttl created now) bucket
          state.resultMax cacheRevalidated target with
      | error e =>
          simp only [hcached] at h
          cases h
      | ok answer => exact servable_of_cachedResponse hcached

/-- The redirect loop confirms only an entry that can be served, of a configured
cache. -/
theorem followRedirects_servable {state : AppState} {origin : Origin}
    {requestHeaders : HeaderMap} {bucket : Str} {target url : Url} {plan : CachePlan}
    {entry : CacheEntry} (left : ℕ) :
    Meets (fun _ => True)
      (fun r : Except AppError Fetched => ∀ response, r = .ok (.confirmed response) →
        state.cache ≠ none ∧ Servable state entry)
      (followRedirects state origin requestHeaders bucket target (some plan) (some entry) left
        url) := by
  refine followRedirects_meets (P := fun _ => True) (fun _ => trivial) (fun _ _ => trivial)
    ?_ ?_ ?_ left trivial
  · intro e response h
    cases h
  · rintro plan' entry' confirmed hcache - hentry
    cases hentry
    refine confirmEntry_servable.mono (fun _ h => h) fun r hservable response h => ?_
    exact ⟨hcache, hservable response h⟩
  · intro resp url response h
    cases h

/-- Where an entry can be confirmed, the first request of the loop can be the one
that confirms it, so it has to ask about it. -/
theorem ConfirmsOnlyOwn.asksAbout {state : AppState} {origin : Origin}
    {requestHeaders : HeaderMap} {bucket : Str} {target : Url} {plan : CachePlan}
    {entry : CacheEntry} {cache : Cache}
    (h : ConfirmsOnlyOwn state origin requestHeaders bucket target plan entry)
    (hcache : state.cache = some cache) (hservable : Servable state entry) :
    AsksAbout { url := target, headers := upstreamHeaders requestHeaders (some entry) target }
      entry := by
  obtain ⟨es, response, htrace⟩ : ∃ es response,
      Trace (followRedirects state origin requestHeaders bucket target (some plan)
        (some entry) state.maxRedirects target)
        (⟨.send { url := target,
                  headers := upstreamHeaders requestHeaders (some entry) target },
          (.ok notModified : Except ClientError UpstreamResponse)⟩ :: es)
        (.ok (.confirmed response)) := by
    -- The first turn is the same whether or not redirects are allowed.
    cases state.maxRedirects with
    | zero => exact redirectTurn_confirmed hcache hservable _ _ _ _ _ _
    | succ left => exact redirectTurn_confirmed hcache hservable _ _ _ _ _ _
  exact h _ response htrace _ notModified List.mem_cons_self rfl

/-- **When a 304 confirms only the entry it was asked about.**  Unless the entry
cannot be served anyway, this is so exactly when both stored validators decide
their conditional headers and there is at least one. -/
theorem confirms_only_own_iff (state : AppState) (origin : Origin) (requestHeaders : HeaderMap)
    (bucket : Str) (target : Url) (plan : CachePlan) (entry : CacheEntry) :
    ConfirmsOnlyOwn state origin requestHeaders bucket target plan entry ↔
      state.cache = none ∨ ¬ Servable state entry ∨
        (Decides entry.etag requestHeaders .ifNoneMatch ∧
          Decides entry.lastModified requestHeaders .ifModifiedSince ∧
          (entry.etag.isSome = true ∨ entry.lastModified.isSome = true)) := by
  constructor
  · intro h
    by_cases hservable : Servable state entry
    · cases hcache : state.cache with
      | none => exact .inl rfl
      | some cache => exact .inr (.inr ((asksAbout_iff _).mp (h.asksAbout hcache hservable)))
    · exact .inr (.inl hservable)
  · intro h es response htrace request resp hsend _
    obtain ⟨hcache, hservable⟩ :=
      ((followRedirects_servable state.maxRedirects).of_trace htrace).2 response rfl
    -- A run that confirms rules the first two out.
    rcases h with hnone | hnot | hdecides
    · exact absurd hnone hcache
    · exact absurd hservable hnot
    · have hheaders := headers_of_send htrace hsend
      have hasks := (asksAbout_iff request.url).mpr hdecides
      unfold AsksAbout at hasks ⊢
      rw [hheaders]
      exact hasks

end Confirming

/-- A consumer's own conditional request. -/
def conditionalRequest : HeaderMap := [(.ifNoneMatch, .fromStatic "\"v1\"".toList)]

/-- **A consumer's `If-None-Match` gets an entry confirmed** that has no validator. -/
theorem consumer_validator_confirms :
    ¬ @ConfirmsOnlyOwn reference exampleState ⟨none⟩ conditionalRequest [] exampleUrl
      ⟨minuteEntry.key, 60⟩ minuteEntry := by
  intro h
  have hasks := @ConfirmsOnlyOwn.asksAbout reference _ _ _ _ _ _ _ _ h rfl
    ⟨⟨by decide, by decide⟩, by decide⟩
  exact absurd hasks.1 (by decide)

end Corsget
