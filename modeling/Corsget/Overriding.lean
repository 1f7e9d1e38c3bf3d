import Corsget.AccessPolicy
import Corsget.Supersede

/-!
# The overrides of a stored response and of its hits

A rule of the override policy applies to a response when its site matches the
requested URL or the URL the response came from.  `appliedRules` are the rules
that do, in order, and applying the policy is applying them
(`HeaderOverridePolicy.apply_eq`).

`proxyHandler_outcome` says which two URLs those are.  A response from upstream
takes the target and the URL of the last upstream request.  A cached response
takes the target twice, also when the entry came from elsewhere; so a rule that
matches only where a redirect has led is applied once and never again
(`redirected_rule_is_lost`).  `same_rules_iff` says when the rules are the same.

On the way the runs of the handler are taken apart by their exits, from the inside
out: `redirectTurn_cases`, `followRedirects_rule`, `fetchUpstream_cases`,
`answerAdmitted_cases` and `proxyHandler_cases`.
-/

namespace Corsget

open Text Effect

/-! ## The rules that apply -/

/-- The rules of a policy that match one of two URLs, in order. -/
def HeaderOverridePolicy.appliedRules (policy : HeaderOverridePolicy) (requested finalUrl : Url) :
    List HeaderOverrideRule :=
  policy.rules.filter fun rule => rule.applies requested finalUrl

/-- Rules applied one after the other. -/
def applyRules (rules : List HeaderOverrideRule) (headers : HeaderMap) : HeaderMap :=
  rules.foldl (fun headers rule => rule.apply headers) headers

/-- Applying a policy is applying the rules that match. -/
theorem HeaderOverridePolicy.apply_eq (policy : HeaderOverridePolicy) (headers : HeaderMap)
    (requested finalUrl : Url) :
    policy.apply headers requested finalUrl =
      applyRules (policy.appliedRules requested finalUrl) headers :=
  List.foldl_filter.symm

/-- Two tests leave the same of a list when they agree on its elements. -/
theorem filter_eq_filter_iff {α : Type} {p q : α → Bool} {l : List α} :
    l.filter p = l.filter q ↔ ∀ x ∈ l, (p x = true ↔ q x = true) := by
  constructor
  · intro h x hx
    have hmem : x ∈ l.filter p ↔ x ∈ l.filter q := by rw [h]
    rw [List.mem_filter, List.mem_filter, and_iff_right hx, and_iff_right hx] at hmem
    exact hmem
  · exact fun h => List.filter_congr fun x hx => Bool.eq_iff_iff.mpr (h x hx)

/-- The headers of a live response before the overrides. -/
def AppState.withoutOverrides (state : AppState) : AppState :=
  { state with headerOverrides := ⟨[]⟩ }

/-! ## What the handler answers -/

/-- The URL that an operation asks the upstream for. -/
def IoOp.sentUrl : IoOp → Option Url
  | .send request => some request.url
  | _ => none

/-- The URLs of the upstream requests, in order. -/
def sentUrls (es : List (Event Io)) : List Url := es.filterMap fun e => e.1.sentUrl

/-- The rules of an override policy are behind a response of the handler for
`target`. -/
inductive Outcome (state : AppState) (target : Url) (es : List (Event Io)) (response : Response) :
    Prop
  /-- A text of the proxy's own. -/
  | full (bytes : Bytes) (hbody : response.body = .full bytes)
  /-- A cached entry. -/
  | cached (entry : CacheEntry) (bucket : Str) (cacheStatus : HeaderValue)
      (hstatus : cacheStatus = cacheHit ∨ cacheStatus = cacheRevalidated)
      (hcached : cachedResponse state entry bucket state.resultMax cacheStatus target =
        .ok response)
  /-- A response from upstream, from the last URL that was asked. -/
  | live (finalUrl : Url) (plan : Option CachePlan) (revalidated : Bool)
      (upstream : UpstreamResponse) (bucket : Str) (writer : Option CacheWriter)
      (hfinal : (sentUrls es).getLast? = some finalUrl)
      (hlive : response = {
        status := upstream.status
        headers := liveResponseHeaders state target finalUrl plan revalidated upstream.headers
        body := .live upstream.body bucket (ResultSizeGuard.new state.resultMax) state.cache
          writer })

theorem sentUrls_append (es es' : List (Event Io)) :
    sentUrls (es ++ es') = sentUrls es ++ sentUrls es' := List.filterMap_append

/-- A quiet stretch asks the upstream for nothing. -/
theorem sentUrls_eq_nil_of_quiet {es : List (Event Io)} (hquiet : ∀ e ∈ es, Quiet e.1) :
    sentUrls es = [] := by
  refine List.filterMap_eq_nil_iff.mpr fun e he => ?_
  have hone := hquiet e he
  obtain ⟨o, r⟩ := e
  cases o with
  | send request => exact hone.elim
  | _ => rfl

/-- The last request stays the last when the rest sends none. -/
theorem getLast?_sentUrls_append_left {es es' : List (Event Io)} {url : Url}
    (hquiet : ∀ e ∈ es', Quiet e.1) (h : (sentUrls es).getLast? = some url) :
    (sentUrls (es ++ es')).getLast? = some url := by
  rw [sentUrls_append, sentUrls_eq_nil_of_quiet hquiet, List.append_nil]
  exact h

/-- A last request is the last whatever came before. -/
theorem getLast?_sentUrls_append_right {es es' : List (Event Io)} {url : Url}
    (h : (sentUrls es').getLast? = some url) : (sentUrls (es ++ es')).getLast? = some url := by
  rw [sentUrls_append, List.getLast?_append, h]
  rfl

/-- What came before does not change the outcome. -/
theorem Outcome.prepend {state : AppState} {target : Url} {es : List (Event Io)}
    {response : Response} (h : Outcome state target es response) (before : List (Event Io)) :
    Outcome state target (before ++ es) response := by
  cases h with
  | full bytes hbody => exact .full bytes hbody
  | cached entry bucket cacheStatus hstatus hcached =>
      exact .cached entry bucket cacheStatus hstatus hcached
  | live finalUrl plan revalidated upstream bucket writer hfinal hlive =>
      exact .live finalUrl plan revalidated upstream bucket writer
        (getLast?_sentUrls_append_right hfinal) hlive

/-- What sends nothing afterwards does not change it either. -/
theorem Outcome.append {state : AppState} {target : Url} {es after : List (Event Io)}
    {response : Response} (h : Outcome state target es response)
    (hquiet : ∀ e ∈ after, Quiet e.1) : Outcome state target (es ++ after) response := by
  cases h with
  | full bytes hbody => exact .full bytes hbody
  | cached entry bucket cacheStatus hstatus hcached =>
      exact .cached entry bucket cacheStatus hstatus hcached
  | live finalUrl plan revalidated upstream bucket writer hfinal hlive =>
      exact .live finalUrl plan revalidated upstream bucket writer
        (getLast?_sentUrls_append_left hquiet hfinal) hlive

section Handler

variable [Crates] {state : AppState} {requestHeaders : HeaderMap}

/-- Confirming an entry that does not fail serves the refreshed entry. -/
theorem confirmEntry_cases {bucket : Str} {target : Url} {plan : CachePlan} {entry : CacheEntry}
    {confirmed : HeaderMap} {es : List (Event Io)} {fetched : Fetched}
    (h : Trace (confirmEntry state bucket target plan entry confirmed) es (.ok fetched)) :
    (∀ e ∈ es, Quiet e.1) ∧ ∃ refreshed response,
      cachedResponse state refreshed bucket state.resultMax cacheRevalidated target =
        .ok response ∧ fetched = .confirmed response := by
  refine ⟨quiet_of_trace (confirmEntry_confined trivial) h, ?_⟩
  unfold confirmEntry at h
  obtain ⟨es₁, ⟨refreshed, written⟩, es₂, rfl, -, hend⟩ := Trace.bind_iff.mp h
  cases written with
  | error e => cases (Trace.ret_iff.mp hend).2
  | ok _ =>
      obtain ⟨-, hresult⟩ := Trace.ret_iff.mp hend
      cases hcached : cachedResponse state refreshed bucket state.resultMax cacheRevalidated
          target with
      | error e =>
          rw [hcached] at hresult
          cases hresult
      | ok response =>
          rw [hcached] at hresult
          exact ⟨refreshed, response, hcached, Except.ok.inj hresult⟩

/-- **A turn of the redirect loop, by its exits**: a 304 that confirms the entry, a
final response, or the rest of the loop. -/
theorem redirectTurn_cases {bucket : Str} {target url : Url} {plan : Option CachePlan}
    {cachedEntry : Option CacheEntry}
    {onward : UpstreamResponse → Prog Io (Except AppError Fetched)} {es : List (Event Io)}
    {fetched : Fetched}
    (h : Trace (redirectTurn state requestHeaders bucket target plan cachedEntry url onward) es
      (.ok fetched)) :
    ∃ (resp : UpstreamResponse) (rest : List (Event Io)),
      es = ⟨.send { url := url, headers := upstreamHeaders requestHeaders cachedEntry url },
        (.ok resp : Except ClientError UpstreamResponse)⟩ :: rest ∧
      ((∃ entry response, resp.status = 304 ∧ cachedEntry.isSome = true ∧
          (∀ e ∈ rest, Quiet e.1) ∧
          cachedResponse state entry bucket state.resultMax cacheRevalidated target =
            .ok response ∧ fetched = .confirmed response) ∨
        (¬ (resp.status = 304 ∧ state.cache.isSome = true ∧ plan.isSome = true ∧
            cachedEntry.isSome = true) ∧ rest = [] ∧ fetched = .final resp url) ∨
        Trace (onward resp) rest (.ok fetched)) := by
  unfold redirectTurn at h
  simp only [Io.send_bind] at h
  obtain ⟨answer, rest, rfl, htail⟩ := Trace.op_iff.mp h
  cases answer with
  | error e => cases (Trace.ret_iff.mp htail).2
  | ok resp =>
      refine ⟨resp, rest, rfl, ?_⟩
      dsimp only at htail
      split at htail
      · next cache plan' entry hstatus _ =>
        obtain ⟨hquiet, refreshed, response, hcached, hfetched⟩ := confirmEntry_cases htail
        exact .inl ⟨refreshed, response, beq_iff_eq.mp hstatus, rfl, hquiet, hcached, hfetched⟩
      · next hother =>
        split at htail
        · obtain ⟨rfl, hresult⟩ := Trace.ret_iff.mp htail
          refine .inr (.inl ⟨?_, rfl, Except.ok.inj hresult⟩)
          -- The first branch would have taken a 304 for a planned request with an entry.
          rintro ⟨hstatus, hcache, hplan, hentry⟩
          obtain ⟨cache, hcache⟩ := Option.isSome_iff_exists.mp hcache
          obtain ⟨plan, rfl⟩ := Option.isSome_iff_exists.mp hplan
          obtain ⟨entry, rfl⟩ := Option.isSome_iff_exists.mp hentry
          exact hother cache plan entry (beq_iff_eq.mpr hstatus) hcache rfl rfl
        · split at htail
          · cases (Trace.ret_iff.mp htail).2
          · exact .inr (.inr htail)

/-- How the redirect loop ends when it does not fail: with a response for the
confirmed entry, or with a response of the URL asked last. -/
def FetchedFrom (state : AppState) (target : Url) (es : List (Event Io)) : Fetched → Prop
  | .confirmed response => Outcome state target es response
  | .final _ finalUrl => (sentUrls es).getLast? = some finalUrl

/-- One turn: the request, and what follows it. -/
theorem redirectTurn_trace {bucket : Str} {target url : Url} {plan : Option CachePlan}
    {cachedEntry : Option CacheEntry}
    {onward : UpstreamResponse → Prog Io (Except AppError Fetched)} {es : List (Event Io)}
    {fetched : Fetched}
    (h : Trace (redirectTurn state requestHeaders bucket target plan cachedEntry url onward) es
      (.ok fetched))
    (honward : ∀ {resp es}, Trace (onward resp) es (.ok fetched) →
      FetchedFrom state target es fetched) : FetchedFrom state target es fetched := by
  obtain ⟨resp, rest, rfl, ⟨entry, response, -, -, -, hcached, rfl⟩ | ⟨-, rfl, rfl⟩ | hrest⟩ :=
    redirectTurn_cases h
  · exact .cached entry bucket cacheRevalidated (.inr rfl) hcached
  · rfl
  · have hlater := honward hrest
    rw [← List.singleton_append]
    cases fetched with
    | confirmed response => exact Outcome.prepend hlater _
    | final resp finalUrl => exact getLast?_sentUrls_append_right hlater

/-- **The rule of the redirect loop for runs that do not fail**: what a turn takes over
from the rest of the loop holds of the whole loop. -/
theorem followRedirects_rule {R : List (Event Io) → Prop} {origin : Origin} {bucket : Str}
    {target : Url} {plan : Option CachePlan} {cachedEntry : Option CacheEntry} {fetched : Fetched}
    (hturn : ∀ {url : Url} {onward : UpstreamResponse → Prog Io (Except AppError Fetched)}
      {es : List (Event Io)},
      Trace (redirectTurn state requestHeaders bucket target plan cachedEntry url onward) es
        (.ok fetched) →
      (∀ {resp es}, Trace (onward resp) es (.ok fetched) → R es) → R es) (left : ℕ) :
    ∀ {url es}, Trace (followRedirects state origin requestHeaders bucket target plan cachedEntry
      left url) es (.ok fetched) → R es := by
  induction left with
  | zero =>
      intro url es h
      refine hturn h fun h => ?_
      cases (Trace.ret_iff.mp h).2
  | succ left ih =>
      intro url es h
      refine hturn h fun {resp es} h => ?_
      cases hnext : nextHop state origin url resp.headers with
      | error e =>
          rw [hnext] at h
          cases (Trace.ret_iff.mp h).2
      | ok nextUrl =>
          rw [hnext] at h
          exact ih h

/-- **The upstream part of a request, by its exits**: the redirect loop, which has answered
or leaves a final response to be passed on. -/
theorem fetchUpstream_cases {key : RateLimitKey} {target : Url} {plan : Option CachePlan}
    {cachedEntry : Option CacheEntry} {force : Bool} {es : List (Event Io)} {response : Response}
    (h : Trace (fetchUpstream state key requestHeaders target plan cachedEntry force) es
      (.ok response)) :
    ∃ loop fetched rest, es = loop ++ rest ∧
      Trace (followRedirects state key.origin requestHeaders key.bucket target plan cachedEntry
        state.maxRedirects target) loop (.ok fetched) ∧ (∀ e ∈ rest, Quiet e.1) ∧
      (fetched = .confirmed response ∨ ∃ upstream finalUrl writer,
        fetched = .final upstream finalUrl ∧ response = {
          status := upstream.status
          headers := liveResponseHeaders state target finalUrl plan (cachedEntry.isSome && force)
            upstream.headers
          body := .live upstream.body key.bucket (ResultSizeGuard.new state.resultMax) state.cache
            writer }) := by
  unfold fetchUpstream at h
  obtain ⟨loop, result, rest, rfl, hloop, hrest⟩ := Trace.bind_iff.mp h
  cases result with
  | error e => cases (Trace.ret_iff.mp hrest).2
  | ok fetched =>
      refine ⟨loop, fetched, rest, rfl, hloop, ?_⟩
      cases fetched with
      | confirmed confirmed =>
          obtain ⟨rfl, hresult⟩ := Trace.ret_iff.mp hrest
          obtain rfl := Except.ok.inj hresult
          refine ⟨fun e he => ?_, .inl rfl⟩
          cases he
      | final upstream finalUrl =>
          have hquiet := quiet_of_trace (liveResponse_confined fun _ => trivial) hrest
          obtain ⟨-, writer, -, hlive⟩ := liveResponse_trace_iff.mp hrest
          exact ⟨hquiet, .inr ⟨upstream, finalUrl, writer, rfl, hlive⟩⟩

theorem fetchUpstream_trace {key : RateLimitKey} {target : Url} {plan : Option CachePlan}
    {cachedEntry : Option CacheEntry} {force : Bool} {es : List (Event Io)} {response : Response}
    (h : Trace (fetchUpstream state key requestHeaders target plan cachedEntry force) es
      (.ok response)) : Outcome state target es response := by
  obtain ⟨loop, fetched, rest, rfl, hloop, hquiet, hexit⟩ := fetchUpstream_cases h
  have hfetched : FetchedFrom state target loop fetched :=
    followRedirects_rule redirectTurn_trace state.maxRedirects hloop
  rcases hexit with rfl | ⟨upstream, finalUrl, writer, rfl, hlive⟩
  · exact Outcome.append hfetched hquiet
  · exact .live finalUrl plan _ upstream key.bucket writer
      (getLast?_sentUrls_append_left hquiet hfetched) hlive

/-- The cache plan of a request; there is none without a cache. -/
def planOf (state : AppState) (target : Url) (requestHeaders : HeaderMap) : Option CachePlan :=
  state.cache.bind fun cache => cache.plan target requestHeaders

/-- **An admitted request, by its exits**: the lookup, and then a hit on what it found
or the upstream.  Apart from the lookup only the clock is read before. -/
theorem answerAdmitted_cases {key : RateLimitKey} {target : Url} {es : List (Event Io)}
    {result : Except AppError Response}
    (h : Trace (answerAdmitted state key requestHeaders target) es result) :
    ∃ lookup cachedEntry rest, es = lookup ++ rest ∧
      Trace (lookupPlanned state (planOf state target requestHeaders)) lookup cachedEntry ∧
      ((∃ (entry : CacheEntry) (now : ℕ), cachedEntry = some entry ∧
          rest = [⟨.systemTime, now⟩] ∧ isFresh entry (now / 10 ^ 9) = true ∧
          cachedResponse state entry key.bucket state.resultMax cacheHit target = result) ∨
        ∃ clock fetch, rest = clock ++ fetch ∧ (∀ e ∈ clock, e.1 = .systemTime) ∧
          Trace (fetchUpstream state key requestHeaders target (planOf state target requestHeaders)
            cachedEntry (requestRequiresRevalidation requestHeaders)) fetch result) := by
  unfold answerAdmitted at h
  dsimp only at h
  obtain ⟨lookup, cachedEntry, rest, rfl, hlookup, hrest⟩ := Trace.bind_iff.mp h
  refine ⟨lookup, cachedEntry, rest, rfl, hlookup, ?_⟩
  split at hrest
  · next cache entry _ hforce =>
    simp only [Io.nowSeconds_bind] at hrest
    obtain ⟨now, later, rfl, hend⟩ := Trace.op_iff.mp hrest
    split at hend
    · next hfresh =>
      obtain ⟨rfl, hresult⟩ := Trace.ret_iff.mp hend
      exact .inl ⟨entry, now, rfl, rfl, hfresh, hresult.symm⟩
    · refine .inr ⟨[⟨.systemTime, now⟩], later, rfl, ?_, hforce ▸ hend⟩
      intro e he
      rw [List.mem_singleton.mp he]
  · refine .inr ⟨[], rest, rfl, ?_, hrest⟩
    intro e he
    cases he

theorem answerAdmitted_trace {key : RateLimitKey} {target : Url} {es : List (Event Io)}
    {response : Response}
    (h : Trace (answerAdmitted state key requestHeaders target) es (.ok response)) :
    Outcome state target es response := by
  obtain ⟨lookup, cachedEntry, rest, rfl, -, ⟨entry, now, -, -, -, hcached⟩ |
    ⟨clock, fetch, rfl, -, hfetch⟩⟩ := answerAdmitted_cases h
  · exact .cached entry key.bucket cacheHit (.inl rfl) hcached
  · exact ((fetchUpstream_trace hfetch).prepend clock).prepend lookup

omit [Crates] in
/-- The tiers answer with a text of the proxy's own. -/
theorem checkTiers_full {key : RateLimitKey} (tiers : List LimitTier) :
    ∀ {es response}, Trace (checkTiers key tiers) es (.ok (some response)) →
      ∃ bytes, response.body = .full bytes := by
  induction tiers with
  | nil =>
      intro es response h
      cases (Trace.ret_iff.mp h).2
  | cons tier rest ih =>
      intro es response h
      unfold checkTiers at h
      simp only [Io.checkLimit_bind] at h
      obtain ⟨answer, rest, rfl, htail⟩ := Trace.op_iff.mp h
      cases answer with
      | error e => cases (Trace.ret_iff.mp htail).2
      | ok snapshot =>
          dsimp only at htail
          split at htail
          · exact ih htail
          · obtain ⟨-, hresult⟩ := Trace.ret_iff.mp htail
            obtain rfl := Option.some.inj (Except.ok.inj hresult)
            exact ⟨_, rfl⟩

/-- **A run of the handler, by its exits**: it ends before the cache, without asking
the upstream, and an answer is then a text of the proxy's own; or the tiers admit
the request. -/
theorem proxyHandler_cases {uri : OriginalUri} {key : RateLimitKey} {es : List (Event Io)}
    {result : Except AppError Response}
    (h : Trace (proxyHandler state uri key requestHeaders) es result) :
    ((∀ e ∈ es, Quiet e.1) ∧
        ∀ response, result = .ok response → ∃ bytes, response.body = .full bytes) ∨
      ∃ target tiers rest, parseTargetUrl uri = .ok target ∧ Permitted state key.origin target ∧
        es = tiers ++ rest ∧ Trace (checkTiers key state.rateLimit) tiers (.ok none) ∧
          Trace (answerAdmitted state key requestHeaders target) rest result := by
  have hfailed : ∀ {e : AppError}, Trace (.ret (.error e) : Prog Io (Except AppError Response)) es
      result → (∀ e ∈ es, Quiet e.1) ∧
        ∀ response, result = .ok response → ∃ bytes, response.body = .full bytes := by
    intro e hret
    obtain ⟨rfl, rfl⟩ := Trace.ret_iff.mp hret
    refine ⟨fun e he => ?_, fun response hresponse => ?_⟩
    · cases he
    · cases hresponse
  unfold proxyHandler at h
  split at h
  · exact .inl (hfailed h)
  · next target htarget =>
    split at h
    · exact .inl (hfailed h)
    · split at h
      · exact .inl (hfailed h)
      · next hpolicy =>
        obtain ⟨tiers, limited, rest, rfl, htiers, hrest⟩ := Trace.bind_iff.mp h
        have hquiet := quiet_of_trace (checkTiers_confined trivial state.rateLimit) htiers
        cases limited with
        | error e =>
            obtain ⟨rfl, rfl⟩ := Trace.ret_iff.mp hrest
            refine .inl ⟨by simpa using hquiet, fun response hresponse => ?_⟩
            cases hresponse
        | ok limited =>
            cases limited with
            | some limited =>
                obtain ⟨rfl, rfl⟩ := Trace.ret_iff.mp hrest
                refine .inl ⟨by simpa using hquiet, fun response hresponse => ?_⟩
                obtain rfl := Except.ok.inj hresponse
                exact checkTiers_full state.rateLimit htiers
            | none =>
                exact .inr ⟨target, tiers, rest, htarget, validateTargetPolicy_eq_ok.mp hpolicy,
                  rfl, htiers, hrest⟩

/-- **What the handler answers**, for every behaviour of the environment. -/
theorem proxyHandler_outcome {uri : OriginalUri} {key : RateLimitKey} {target : Url}
    (htarget : parseTargetUrl uri = .ok target) {es : List (Event Io)} {response : Response}
    (h : Trace (proxyHandler state uri key requestHeaders) es (.ok response)) :
    Outcome state target es response := by
  rcases proxyHandler_cases h with
    ⟨-, hanswer⟩ | ⟨target', tiers, rest, htarget', -, rfl, -, hrest⟩
  · obtain ⟨bytes, hbody⟩ := hanswer response rfl
    exact .full bytes hbody
  · obtain rfl : target' = target := Except.ok.inj (htarget'.symm.trans htarget)
    exact (answerAdmitted_trace hrest).prepend tiers

/-! ## Storing and serving -/

/-- A request for `target` that fetches a response from `finalUrl` and stores it. -/
structure StoresFrom (state : AppState) (uri : OriginalUri) (key : RateLimitKey)
    (requestHeaders : HeaderMap) (target finalUrl : Url) (es : List (Event Io))
    (response : Response) : Prop where
  run : Trace (proxyHandler state uri key requestHeaders) es (.ok response)
  target : parseTargetUrl uri = .ok target
  final : (sentUrls es).getLast? = some finalUrl
  stored : ∃ items bucket guard cache writer, response.body = .live items bucket guard cache
    (some writer)

/-- A request for `target` that is served a cached entry, fresh or confirmed. -/
structure ServesCached (state : AppState) (uri : OriginalUri) (key : RateLimitKey)
    (requestHeaders : HeaderMap) (target : Url) (es : List (Event Io)) (response : Response) :
    Prop where
  run : Trace (proxyHandler state uri key requestHeaders) es (.ok response)
  target : parseTargetUrl uri = .ok target
  cached : ∃ path bucket guard, response.body = .cached path bucket guard

variable {uri : OriginalUri} {key : RateLimitKey} {target finalUrl : Url} {es : List (Event Io)}
  {response : Response}

/-- The rules behind a response that is stored. -/
theorem StoresFrom.headers
    (h : StoresFrom state uri key requestHeaders target finalUrl es response) :
    ∃ plan revalidated source, response.headers =
      applyRules (state.headerOverrides.appliedRules target finalUrl)
        (liveResponseHeaders state.withoutOverrides target finalUrl plan revalidated source) := by
  obtain ⟨items, bucket', guard, cache, writer, hstored⟩ := h.stored
  cases proxyHandler_outcome h.target h.run with
  | full bytes hbody =>
      rw [hbody] at hstored
      cases hstored
  | cached entry bucket cacheStatus hstatus hcached =>
      rw [cachedResponse_body hcached] at hstored
      cases hstored
  | live lastUrl plan revalidated upstream bucket writer hfinal hlive =>
      obtain rfl : lastUrl = finalUrl := Option.some.inj (hfinal.symm.trans h.final)
      refine ⟨plan, revalidated, upstream.headers, ?_⟩
      rw [hlive]
      show liveResponseHeaders state target lastUrl plan revalidated upstream.headers = _
      unfold liveResponseHeaders
      exact state.headerOverrides.apply_eq _ target lastUrl

/-- The rules behind a response that is served from the cache. -/
theorem ServesCached.headers (h : ServesCached state uri key requestHeaders target es response) :
    ∃ entry cacheStatus, (cacheStatus = cacheHit ∨ cacheStatus = cacheRevalidated) ∧
      response.headers = applyRules (state.headerOverrides.appliedRules target target)
        (cachedResponseHeaders entry state.resultMax cacheStatus) := by
  obtain ⟨path, bucket', guard, hserved⟩ := h.cached
  cases proxyHandler_outcome h.target h.run with
  | full bytes hbody =>
      rw [hbody] at hserved
      cases hserved
  | cached entry bucket cacheStatus hstatus hcached =>
      refine ⟨entry, cacheStatus, hstatus, ?_⟩
      rw [← state.headerOverrides.apply_eq]
      unfold cachedResponse at hcached
      split at hcached
      · cases hcached
      · dsimp only at hcached
        split at hcached
        · cases hcached
        · rw [← Except.ok.inj hcached]
  | live lastUrl plan revalidated upstream bucket writer hfinal hlive =>
      rw [hlive] at hserved
      cases hserved

/-- The rules that a request applies to the response it stores, and those that a
request applies when it serves a cached one. -/
def SameRules (policy : HeaderOverridePolicy) (target finalUrl served : Url) : Prop :=
  policy.appliedRules target finalUrl = policy.appliedRules served served

/-- **When a hit has the overrides of the response that was stored.**  For every
request that stores a response and every request that serves a cached one, the
headers come from the rules for target and final URL in the first case and from
those for the target alone in the second; and these are the same rules exactly
when each rule of the policy that matches the first target or the final URL
matches the second target, and the other way round. -/
theorem same_rules_iff {uri' : OriginalUri} {key' : RateLimitKey} {requestHeaders' : HeaderMap}
    {served : Url} {es' : List (Event Io)} {response' : Response}
    (hstores : StoresFrom state uri key requestHeaders target finalUrl es response)
    (hserves : ServesCached state uri' key' requestHeaders' served es' response') :
    (∃ plan revalidated source, response.headers =
      applyRules (state.headerOverrides.appliedRules target finalUrl)
        (liveResponseHeaders state.withoutOverrides target finalUrl plan revalidated source)) ∧
    (∃ entry cacheStatus, (cacheStatus = cacheHit ∨ cacheStatus = cacheRevalidated) ∧
      response'.headers = applyRules (state.headerOverrides.appliedRules served served)
        (cachedResponseHeaders entry state.resultMax cacheStatus)) ∧
    (SameRules state.headerOverrides target finalUrl served ↔
      ∀ rule ∈ state.headerOverrides.rules,
        (rule.site.isMatch target.asStr = true ∨ rule.site.isMatch finalUrl.asStr = true ↔
          rule.site.isMatch served.asStr = true)) := by
  refine ⟨hstores.headers, hserves.headers, filter_eq_filter_iff.trans ?_⟩
  refine forall₂_congr fun rule _ => ?_
  unfold HeaderOverrideRule.applies
  rw [Bool.or_eq_true, Bool.or_self]

end Handler

/-! ## A redirect -/

/-- `https://cdn.example.com/x`. -/
def cdnUrl : Url := { exampleUrl with host := some "cdn.example.com".toList }

/-- A parser that knows the target and where it leads to. -/
@[reducible] def redirecting : Crates := knowing [exampleUrl, cdnUrl]

/-- `Cross-Origin-Resource-Policy`. -/
def resourcePolicy : HeaderName := ⟨"cross-origin-resource-policy".toList, by decide⟩

/-- `exampleState` with one rule, which sets a header for a site. -/
def siteState (site : MatchEntry) : AppState :=
  { exampleState with
    headerOverrides := ⟨[{
      site := site
      remove := []
      add := []
      set := [(resourcePolicy, .fromStatic "cross-origin".toList)] }]⟩ }

/-- The state whose rule is for the URL behind the redirect. -/
def cdnState : AppState := siteState (.exact "https://cdn.example.com/x".toList)

/-- The state whose rule is for every URL. -/
def anySiteState : AppState := siteState (.wildcard fun _ => true)

/-- The upstream: `exampleUrl` redirects to `cdnUrl`, which answers. -/
def redirectedAnswer (url : Url) : UpstreamResponse :=
  if url = exampleUrl then {
    status := 302
    headers := [(.location, .fromStatic "https://cdn.example.com/x".toList)]
    contentLength := none
    body := [] }
  else firstAnswer

/-- Nothing fails and the upstream answers by URL. -/
def redirectedWorld : Handler Io World := fun o =>
  World.calm (redirectedAnswer (o.sentUrl.getD exampleUrl)) o

/-- The handler for a plain request. -/
def plainHandler (state : AppState) : Prog Io (Except AppError Response) :=
  @proxyHandler redirecting state plainRequest.uri exampleKey []

/-- The world after a plain request in the empty world. -/
def afterRedirect (state : AppState) : World :=
  (exec redirectedWorld (@serve redirecting state plainRequest.uri exampleKey [])
    emptyWorld).2.next

/-- Whether a response is stored. -/
def isStored : Except AppError Response → Bool
  | .ok ⟨_, _, .live _ _ _ _ (some _)⟩ => true
  | _ => false

/-- Whether a response is a cached one. -/
def isServed : Except AppError Response → Bool
  | .ok ⟨_, _, .cached _ _ _⟩ => true
  | _ => false

/-- The first plain request. -/
def firstResult (state : AppState) : Except AppError Response :=
  (exec redirectedWorld (plainHandler state) emptyWorld).1

/-- What it does. -/
def firstEvents (state : AppState) : List (Event Io) :=
  execEvents redirectedWorld (plainHandler state) emptyWorld

/-- The plain request after it. -/
def secondResult (state : AppState) : Except AppError Response :=
  (exec redirectedWorld (plainHandler state) (afterRedirect state)).1

/-- What it does. -/
def secondEvents (state : AppState) : List (Event Io) :=
  execEvents redirectedWorld (plainHandler state) (afterRedirect state)

/-- A first request that stores. -/
theorem exists_storesFrom {state : AppState} (hstored : isStored (firstResult state) = true)
    (hfinal : (sentUrls (firstEvents state)).getLast? = some cdnUrl) :
    ∃ response, firstResult state = .ok response ∧
      @StoresFrom redirecting state plainRequest.uri exampleKey [] exampleUrl cdnUrl
        (firstEvents state) response := by
  have htrace := trace_exec redirectedWorld (plainHandler state) emptyWorld
  change Trace _ (firstEvents state) (firstResult state) at htrace
  revert hstored htrace
  cases firstResult state with
  | error e => exact fun h => nomatch h
  | ok response =>
      obtain ⟨status, headers, body⟩ := response
      cases body with
      | live items bucket guard cache writer =>
          cases writer with
          | none => exact fun h => nomatch h
          | some writer =>
              exact fun _ htrace => ⟨_, rfl,
                @StoresFrom.mk redirecting _ _ _ _ _ _ _ _ htrace (by rfl) hfinal
                  ⟨_, _, _, _, _, rfl⟩⟩
      | _ => exact fun h => nomatch h

/-- A second request that is served from the cache. -/
theorem exists_servesCached {state : AppState} (hserved : isServed (secondResult state) = true) :
    ∃ response, secondResult state = .ok response ∧
      @ServesCached redirecting state plainRequest.uri exampleKey [] exampleUrl
        (secondEvents state) response := by
  have htrace := trace_exec redirectedWorld (plainHandler state) (afterRedirect state)
  change Trace _ (secondEvents state) (secondResult state) at htrace
  revert hserved htrace
  cases secondResult state with
  | error e => exact fun h => nomatch h
  | ok response =>
      obtain ⟨status, headers, body⟩ := response
      cases body with
      | cached path bucket guard =>
          exact fun _ htrace => ⟨_, rfl,
            @ServesCached.mk redirecting _ _ _ _ _ _ _ htrace (by rfl) ⟨_, _, _, rfl⟩⟩
      | _ => exact fun h => nomatch h

/-- The theorem for a rule that matches every URL: the hit has it too. -/
theorem same_rules_anySite :
    SameRules anySiteState.headerOverrides exampleUrl cdnUrl exampleUrl := by
  obtain ⟨response, -, hstores⟩ := @exists_storesFrom anySiteState (by decide +kernel)
    (by decide +kernel)
  obtain ⟨response', -, hserves⟩ := @exists_servesCached anySiteState (by decide +kernel)
  refine (@same_rules_iff redirecting _ _ _ _ _ _ _ _ _ _ _ _ _ _ hstores hserves).2.2.mpr ?_
  intro rule hrule
  obtain rfl := List.mem_singleton.mp hrule
  exact ⟨fun _ => rfl, fun _ => .inl rfl⟩

/-- **A rule for the redirect's end is lost.**  The first request for `exampleUrl`
gets the header of the rule for `cdnUrl` and stores the response; the second is
a hit and does not. -/
theorem redirected_rule_is_lost :
    ∃ response response', firstResult cdnState = .ok response ∧
      secondResult cdnState = .ok response' ∧
      @StoresFrom redirecting cdnState plainRequest.uri exampleKey [] exampleUrl cdnUrl
        (firstEvents cdnState) response ∧
      @ServesCached redirecting cdnState plainRequest.uri exampleKey [] exampleUrl
        (secondEvents cdnState) response' ∧
      ¬ SameRules cdnState.headerOverrides exampleUrl cdnUrl exampleUrl ∧
      response.headers.containsKey resourcePolicy = true ∧
      response'.headers.get cacheDiagnosticHeader = some cacheHit ∧
      response'.headers.containsKey resourcePolicy = false := by
  obtain ⟨response, hfirst, hstores⟩ := @exists_storesFrom cdnState (by decide +kernel)
    (by decide +kernel)
  obtain ⟨response', hsecond, hserves⟩ := @exists_servesCached cdnState (by decide +kernel)
  have hheaders : ((firstResult cdnState).toOption.map fun r =>
        r.headers.containsKey resourcePolicy) = some true ∧
      ((secondResult cdnState).toOption.bind fun r => r.headers.get cacheDiagnosticHeader) =
        some cacheHit ∧
      ((secondResult cdnState).toOption.map fun r =>
        r.headers.containsKey resourcePolicy) = some false := by
    decide +kernel
  rw [hfirst, hsecond] at hheaders
  obtain ⟨hset, hhit, hunset⟩ := hheaders
  refine ⟨response, response', hfirst, hsecond, hstores, hserves, ?_, Option.some.inj hset, hhit,
    Option.some.inj hunset⟩
  intro h
  exact absurd (congrArg List.length h) (by decide)

end Corsget
