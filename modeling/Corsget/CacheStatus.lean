import Corsget.HitHeaders
import Corsget.OverrideRules
import Corsget.UpstreamHops

/-!
# What `X-Cache` tells

A response to a planned request carries one `X-Cache` line, and `ToldStatus` says
in terms of the run what its value means: what the lookup found, which answers
came from upstream, and whether the consumer asked for a revalidation.  No exit
of the handler and no override gets between (`planned_tells`).

A request without a plan should carry none.  The handler adds none, but it also
lets the upstream's own line through, because `copy_response_headers` does not
drop it (`upstream_status_passes`).  `cache_status_iff` is the exact condition.
-/

namespace Corsget

open Text Effect

/-! ## What a run did -/

/-- The upstream's answer, if an event is one. -/
def answerOf : Event Io → Option UpstreamResponse
  | ⟨.send _, answer⟩ => (answer : Except ClientError UpstreamResponse).toOption
  | _ => none

/-- The upstream's answers, in order. -/
def answers (es : List (Event Io)) : List UpstreamResponse := es.filterMap answerOf

/-- **What the proxy did for a planned request**, with the value of `X-Cache` that says
so.  `entry` is what the lookup found, `forced` whether the consumer asked for a
revalidation, `es` the run, and `body` the body of the response. -/
inductive ToldStatus (entry : Option CacheEntry) (forced : Bool) (es : List (Event Io))
    (body : Body) : HeaderValue → Prop
  /-- The body of a fresh entry, without contacting the upstream. -/
  | hit (found : CacheEntry) (now : ℕ) (bucket : Str) (guard : ResultSizeGuard)
      (hfound : entry = some found) (hread : (⟨.systemTime, now⟩ : Event Io) ∈ es)
      (hfresh : isFresh found (now / 10 ^ 9) = true) (hsent : sentUrls es = [])
      (hbody : body = .cached found.bodyPath bucket guard) :
      ToldStatus entry forced es body cacheHit
  /-- A 304 confirmed the entry. -/
  | confirmed (resp : UpstreamResponse) (hfound : entry.isSome = true)
      (hlast : (answers es).getLast? = some resp) (hstatus : resp.status = 304) :
      ToldStatus entry forced es body cacheRevalidated
  /-- A forced revalidation of an entry returned a new response. -/
  | replaced (resp : UpstreamResponse) (hfound : entry.isSome = true) (hforced : forced = true)
      (hlast : (answers es).getLast? = some resp) (hstatus : resp.status ≠ 304) :
      ToldStatus entry forced es body cacheRevalidated
  /-- Every other response from upstream. -/
  | miss (resp : UpstreamResponse) (hlast : (answers es).getLast? = some resp)
      (hother : ¬ (entry.isSome = true ∧ (forced = true ∨ resp.status = 304))) :
      ToldStatus entry forced es body cacheMiss

theorem answers_append (es es' : List (Event Io)) :
    answers (es ++ es') = answers es ++ answers es' := List.filterMap_append

/-- No answer without a request. -/
theorem answers_eq_nil_of_sentUrls {es : List (Event Io)} (h : sentUrls es = []) :
    answers es = [] := by
  refine List.filterMap_eq_nil_iff.mpr fun e he => ?_
  have hone := List.filterMap_eq_nil_iff.mp h e he
  obtain ⟨o, r⟩ := e
  cases o with
  | send request => cases hone
  | _ => rfl

/-- **A run has one status.** -/
theorem ToldStatus.unique {entry : Option CacheEntry} {forced : Bool} {es : List (Event Io)}
    {body : Body} {status status' : HeaderValue} (h : ToldStatus entry forced es body status)
    (h' : ToldStatus entry forced es body status') : status = status' := by
  have hnone : ∀ {resp}, sentUrls es = [] → (answers es).getLast? ≠ some resp := by
    intro resp hsent hlast
    rw [answers_eq_nil_of_sentUrls hsent] at hlast
    cases hlast
  have hsame : ∀ {resp resp'}, (answers es).getLast? = some resp →
      (answers es).getLast? = some resp' → resp = resp' :=
    fun h h' => Option.some.inj (h.symm.trans h')
  cases h with
  | hit found now bucket guard hfound hread hfresh hsent hbody =>
      cases h' with
      | hit => rfl
      | confirmed resp _ hlast => exact absurd hlast (hnone hsent)
      | replaced resp _ _ hlast => exact absurd hlast (hnone hsent)
      | miss resp hlast => exact absurd hlast (hnone hsent)
  | confirmed resp hfound hlast hstatus =>
      cases h' with
      | hit _ _ _ _ _ _ _ hsent => exact absurd hlast (hnone hsent)
      | confirmed => rfl
      | replaced => rfl
      | miss resp' hlast' hother =>
          obtain rfl := hsame hlast hlast'
          exact absurd ⟨hfound, .inr hstatus⟩ hother
  | replaced resp hfound hforced hlast hstatus =>
      cases h' with
      | hit _ _ _ _ _ _ _ hsent => exact absurd hlast (hnone hsent)
      | confirmed => rfl
      | replaced => rfl
      | miss resp' hlast' hother => exact absurd ⟨hfound, .inl hforced⟩ hother
  | miss resp hlast hother =>
      cases h' with
      | hit _ _ _ _ _ _ _ hsent => exact absurd hlast (hnone hsent)
      | confirmed resp' hfound hlast' hstatus =>
          obtain rfl := hsame hlast hlast'
          exact absurd ⟨hfound, .inr hstatus⟩ hother
      | replaced resp' hfound hforced => exact absurd ⟨hfound, .inl hforced⟩ hother
      | miss => rfl

/-- A last answer stays the last behind a quiet stretch. -/
theorem getLast?_answers_append_quiet {es es' : List (Event Io)} {resp : UpstreamResponse}
    (hquiet : ∀ e ∈ es', Quiet e.1) (h : (answers es).getLast? = some resp) :
    (answers (es ++ es')).getLast? = some resp := by
  have hnil := answers_eq_nil_of_sentUrls (sentUrls_eq_nil_of_quiet hquiet)
  rw [answers_append, hnil, List.append_nil]
  exact h

/-- A last answer is the last whatever came before. -/
theorem getLast?_answers_append {es es' : List (Event Io)} {resp : UpstreamResponse}
    (h : (answers es').getLast? = some resp) : (answers (es ++ es')).getLast? = some resp := by
  rw [answers_append, List.getLast?_append, h]
  rfl

/-! ## The exits of a run -/

section Runs

variable [Crates] {state : AppState} {key : RateLimitKey} {requestHeaders : HeaderMap}

/-- How the redirect loop came to its end: the last answer confirmed the entry, or it
is the one to be passed on. -/
def EndedWith (state : AppState) (bucket : Str) (target : Url) (plan : Option CachePlan)
    (cachedEntry : Option CacheEntry) (es : List (Event Io)) : Fetched → Prop
  | .confirmed response =>
      ∃ resp entry, (answers es).getLast? = some resp ∧ resp.status = 304 ∧
        cachedEntry.isSome = true ∧
        cachedResponse state entry bucket state.resultMax cacheRevalidated target = .ok response
  | .final resp _ =>
      (answers es).getLast? = some resp ∧
        ¬ (resp.status = 304 ∧ state.cache.isSome = true ∧ plan.isSome = true ∧
          cachedEntry.isSome = true)

omit [Crates] in
theorem EndedWith.prepend {bucket : Str} {target : Url} {plan : Option CachePlan}
    {cachedEntry : Option CacheEntry} {es : List (Event Io)} {fetched : Fetched}
    (h : EndedWith state bucket target plan cachedEntry es fetched) (before : List (Event Io)) :
    EndedWith state bucket target plan cachedEntry (before ++ es) fetched := by
  cases fetched with
  | confirmed response =>
      obtain ⟨resp, entry, hlast, hconfirmed⟩ := h
      exact ⟨resp, entry, getLast?_answers_append hlast, hconfirmed⟩
  | final resp finalUrl => exact ⟨getLast?_answers_append h.1, h.2⟩

/-- One turn: it ends with its own answer, or as the rest of the loop does. -/
theorem redirectTurn_endedWith {bucket : Str} {target url : Url} {plan : Option CachePlan}
    {cachedEntry : Option CacheEntry}
    {onward : UpstreamResponse → Prog Io (Except AppError Fetched)} {es : List (Event Io)}
    {fetched : Fetched}
    (h : Trace (redirectTurn state requestHeaders bucket target plan cachedEntry url onward) es
      (.ok fetched))
    (honward : ∀ {resp es}, Trace (onward resp) es (.ok fetched) →
      EndedWith state bucket target plan cachedEntry es fetched) :
    EndedWith state bucket target plan cachedEntry es fetched := by
  obtain ⟨resp, rest, rfl, hexit⟩ := redirectTurn_cases h
  rw [← List.singleton_append]
  rcases hexit with ⟨entry, response, hstatus, hfound, hquiet, hcached, rfl⟩ |
    ⟨hother, rfl, rfl⟩ | hrest
  · exact ⟨resp, entry, getLast?_answers_append_quiet hquiet rfl, hstatus, hfound, hcached⟩
  · exact ⟨rfl, hother⟩
  · exact (honward hrest).prepend _

/-- **A response of the handler that is not its own text**: a hit, a confirmed entry, or
the last answer of the upstream. -/
inductive Exit (state : AppState) (key : RateLimitKey) (target : Url)
    (requestHeaders : HeaderMap) (entry : Option CacheEntry) (es : List (Event Io))
    (response : Response) : Prop
  | hit (found : CacheEntry) (now : ℕ) (hfound : entry = some found)
      (hread : (⟨.systemTime, now⟩ : Event Io) ∈ es) (hfresh : isFresh found (now / 10 ^ 9) = true)
      (hsent : sentUrls es = [])
      (hcached : cachedResponse state found key.bucket state.resultMax cacheHit target =
        .ok response)
  | confirmed (resp : UpstreamResponse) (found : CacheEntry)
      (hlast : (answers es).getLast? = some resp) (hstatus : resp.status = 304)
      (hfound : entry.isSome = true)
      (hcached : cachedResponse state found key.bucket state.resultMax cacheRevalidated target =
        .ok response)
  | live (resp : UpstreamResponse) (finalUrl : Url)
      (hlast : (answers es).getLast? = some resp)
      (hother : ¬ (resp.status = 304 ∧ state.cache.isSome = true ∧
        (planOf state target requestHeaders).isSome = true ∧ entry.isSome = true))
      (hlive : response.headers =
        liveResponseHeaders state target finalUrl (planOf state target requestHeaders)
          (entry.isSome && requestRequiresRevalidation requestHeaders) resp.headers)

/-- What came before the exit sends nothing and leaves it as it is. -/
theorem Exit.prepend {target : Url} {entry : Option CacheEntry} {es : List (Event Io)}
    {response : Response} (h : Exit state key target requestHeaders entry es response)
    {before : List (Event Io)} (hquiet : ∀ e ∈ before, Quiet e.1) :
    Exit state key target requestHeaders entry (before ++ es) response := by
  cases h with
  | hit found now hfound hread hfresh hsent hcached =>
      refine .hit found now hfound (List.mem_append_right _ hread) hfresh ?_ hcached
      rw [sentUrls_append, sentUrls_eq_nil_of_quiet hquiet, hsent]
      rfl
  | confirmed resp found hlast hstatus hfound hcached =>
      exact .confirmed resp found (getLast?_answers_append hlast) hstatus hfound hcached
  | live resp finalUrl hlast hother hlive =>
      exact .live resp finalUrl (getLast?_answers_append hlast) hother hlive

/-- Without an entry the response is the upstream's. -/
theorem Exit.live_of_eq_none {target : Url} {entry : Option CacheEntry} {es : List (Event Io)}
    {response : Response} (h : Exit state key target requestHeaders entry es response)
    (hnone : entry = none) :
    ∃ resp finalUrl, (answers es).getLast? = some resp ∧ response.headers =
      liveResponseHeaders state target finalUrl (planOf state target requestHeaders)
        (entry.isSome && requestRequiresRevalidation requestHeaders) resp.headers := by
  cases h with
  | hit found now hfound =>
      rw [hnone] at hfound
      cases hfound
  | confirmed resp found hlast hstatus hfound =>
      rw [hnone] at hfound
      cases hfound
  | live resp finalUrl hlast hother hlive => exact ⟨resp, finalUrl, hlast, hlive⟩

theorem fetchUpstream_exit {target : Url} {entry : Option CacheEntry} {es : List (Event Io)}
    {response : Response}
    (h : Trace (fetchUpstream state key requestHeaders target
      (planOf state target requestHeaders) entry (requestRequiresRevalidation requestHeaders)) es
      (.ok response)) : Exit state key target requestHeaders entry es response := by
  obtain ⟨loop, fetched, rest, rfl, hloop, hquiet, hexit⟩ := fetchUpstream_cases h
  have hended : EndedWith state key.bucket target (planOf state target requestHeaders) entry loop
      fetched := followRedirects_rule redirectTurn_endedWith state.maxRedirects hloop
  rcases hexit with rfl | ⟨upstream, finalUrl, writer, rfl, rfl⟩
  · obtain ⟨resp, found, hlast, hstatus, hfound, hcached⟩ := hended
    exact .confirmed resp found (getLast?_answers_append_quiet hquiet hlast) hstatus hfound hcached
  · exact .live upstream finalUrl (getLast?_answers_append_quiet hquiet hended.1) hended.2 rfl

/-- **The exits of the handler.**  A response that is not a text of the proxy's own left
by one of them, for the entry that the lookup of the run found. -/
theorem proxyHandler_exit {uri : OriginalUri} {target : Url}
    (htarget : parseTargetUrl uri = .ok target) {es : List (Event Io)} {response : Response}
    (h : Trace (proxyHandler state uri key requestHeaders) es (.ok response))
    (hproxied : ∀ bytes, response.body ≠ .full bytes) :
    ∃ entry, FoundEntry state key target requestHeaders es entry ∧
      Exit state key target requestHeaders entry es response := by
  rcases proxyHandler_cases h with
    ⟨-, hanswer⟩ | ⟨target', tiers, rest, htarget', -, rfl, htiers, hrest⟩
  · obtain ⟨bytes, hbody⟩ := hanswer response rfl
    exact absurd hbody (hproxied bytes)
  · obtain rfl : target' = target := Except.ok.inj (htarget'.symm.trans htarget)
    obtain ⟨lookup, entry, fetch, rfl, hlookup, hexit⟩ := answerAdmitted_cases hrest
    refine ⟨entry, ⟨tiers, lookup, fetch, (List.append_assoc _ _ _).symm, htiers, hlookup⟩, ?_⟩
    have htiersQuiet := quiet_of_trace (checkTiers_confined trivial state.rateLimit) htiers
    have hlookupQuiet := quiet_of_trace (lookupPlanned_confined fun _ => trivial) hlookup
    refine Exit.prepend (Exit.prepend ?_ hlookupQuiet) htiersQuiet
    rcases hexit with ⟨found, now, hfound, rfl, hfresh, hcached⟩ |
      ⟨clock, fetch, rfl, hclock, hfetch⟩
    · exact .hit found now hfound List.mem_cons_self hfresh rfl hcached
    · refine (fetchUpstream_exit hfetch).prepend fun e he => ?_
      rw [hclock e he]
      trivial

/-- A request without a plan finds no entry. -/
theorem FoundEntry.eq_none {target : Url} {es : List (Event Io)} {entry : Option CacheEntry}
    (h : FoundEntry state key target requestHeaders es entry)
    (hplan : (planOf state target requestHeaders).isSome = false) : entry = none := by
  obtain ⟨tiers, lookup, rest, -, -, hlookup⟩ := h
  have hnone : planOf state target requestHeaders = none :=
    Option.not_isSome_iff_eq_none.mp (Bool.not_eq_true _ ▸ hplan)
  rw [hnone] at hlookup
  unfold lookupPlanned at hlookup
  split at hlookup
  · next hsome =>
    cases hsome
  · exact (Trace.ret_iff.mp hlookup).2

/-- **`X-Cache` tells what the proxy did**: nothing for a request without a plan, and
one line with the status of the run otherwise. -/
structure TellsCacheStatus (state : AppState) (target : Url) (requestHeaders : HeaderMap)
    (entry : Option CacheEntry) (es : List (Event Io)) (response : Response) : Prop where
  unplanned : (planOf state target requestHeaders).isSome = false →
    response.headers.getAll cacheDiagnosticHeader = []
  planned : (planOf state target requestHeaders).isSome = true →
    ∃ status,
      ToldStatus entry (requestRequiresRevalidation requestHeaders) es response.body status ∧
        response.headers.getAll cacheDiagnosticHeader = [status]

end Runs

/-! ## The line itself -/

section Lines

variable [RegexCrate] [UnicodeTables] {configs : List ResponseHeaderOverrideConfig}
  {state : AppState}

omit [RegexCrate] [UnicodeTables] in
/-- `X-Cache` is a header of the proxy's own. -/
theorem isProtected_cacheDiagnosticHeader : isProtected cacheDiagnosticHeader.text = true := by
  decide

/-- A cached response has the one line it is given. -/
theorem getAll_of_cachedResponse (hpolicy : HeaderOverridePolicy.new configs =
      .ok state.headerOverrides) {entry : CacheEntry} {bucket : Str} {cacheStatus : HeaderValue}
    {url : Url} {response : Response}
    (h : cachedResponse state entry bucket state.resultMax cacheStatus url = .ok response) :
    response.headers.getAll cacheDiagnosticHeader = [cacheStatus] := by
  unfold cachedResponse at h
  split at h
  · cases h
  · dsimp only at h
    split at h
    · cases h
    · obtain rfl := Except.ok.inj h
      dsimp only
      rw [HeaderOverridePolicy.getAll_apply_of_isProtected hpolicy
        isProtected_cacheDiagnosticHeader]
      exact (MultiMap.getAll_insert _ _ _ _).trans (if_pos rfl)

/-- A live response to a planned request has the one line. -/
theorem getAll_of_planned (hpolicy : HeaderOverridePolicy.new configs =
      .ok state.headerOverrides) {plan : Option CachePlan} (hplan : plan.isSome = true)
    (target finalUrl : Url) (revalidated : Bool) (source : HeaderMap) :
    (liveResponseHeaders state target finalUrl plan revalidated source).getAll
        cacheDiagnosticHeader = [if revalidated then cacheRevalidated else cacheMiss] := by
  unfold liveResponseHeaders
  dsimp only
  rw [if_pos hplan, HeaderOverridePolicy.getAll_apply_of_isProtected hpolicy
    isProtected_cacheDiagnosticHeader]
  exact (MultiMap.getAll_insert _ _ _ _).trans (if_pos rfl)

/-- A live response to any other request has the upstream's lines, unless the upstream
nominates them: it has none exactly when the upstream sends none or nominates them. -/
theorem getAll_of_not_planned_eq_nil_iff (hpolicy : HeaderOverridePolicy.new configs =
      .ok state.headerOverrides) {plan : Option CachePlan} (hplan : plan.isSome = false)
    (target finalUrl : Url) (revalidated : Bool) (source : HeaderMap) :
    (liveResponseHeaders state target finalUrl plan revalidated source).getAll
        cacheDiagnosticHeader = [] ↔
      source.getAll cacheDiagnosticHeader = [] ∨
        isNominated source cacheDiagnosticHeader = true := by
  have hkept : isEndToEnd state.resultMax cacheDiagnosticHeader = true := by
    have hname : cacheDiagnosticHeader ≠ .contentLength := by decide
    have hclasses : (isHopByHop cacheDiagnosticHeader.text ||
        isCorsResponseHeader cacheDiagnosticHeader.text) = false := by decide
    unfold isEndToEnd
    rw [hclasses, beq_eq_false_iff_ne.mpr hname, Bool.and_false]
    rfl
  unfold liveResponseHeaders
  dsimp only
  rw [if_neg (Bool.not_eq_true _ ▸ hplan), HeaderOverridePolicy.getAll_apply_of_isProtected hpolicy
    isProtected_cacheDiagnosticHeader, getAll_copyResponseHeaders, hkept, Bool.true_and]
  cases isNominated source cacheDiagnosticHeader with
  | false => simp
  | true => simp

/-- **A planned request is told the truth**, whatever the upstream sends and the
configured overrides do. -/
theorem planned_tells (hpolicy : HeaderOverridePolicy.new configs = .ok state.headerOverrides)
    {key : RateLimitKey} {target : Url} {requestHeaders : HeaderMap} {entry : Option CacheEntry}
    {es : List (Event Io)} {response : Response}
    (hplan : (planOf state target requestHeaders).isSome = true)
    (h : Exit state key target requestHeaders entry es response) :
    ∃ status,
      ToldStatus entry (requestRequiresRevalidation requestHeaders) es response.body status ∧
        response.headers.getAll cacheDiagnosticHeader = [status] := by
  have hcache : state.cache.isSome = true := by
    unfold planOf at hplan
    cases hnone : state.cache with
    | some cache => rfl
    | none =>
        rw [hnone] at hplan
        cases hplan
  cases h with
  | hit found now hfound hread hfresh hsent hcached =>
      exact ⟨cacheHit, .hit found now key.bucket _ hfound hread hfresh hsent
        (cachedResponse_body hcached), getAll_of_cachedResponse hpolicy hcached⟩
  | confirmed resp found hlast hstatus hfound hcached =>
      exact ⟨cacheRevalidated, .confirmed resp hfound hlast hstatus,
        getAll_of_cachedResponse hpolicy hcached⟩
  | live resp finalUrl hlast hother hlive =>
      have hlines := getAll_of_planned hpolicy hplan target finalUrl
        (entry.isSome && requestRequiresRevalidation requestHeaders) resp.headers
      rw [← hlive] at hlines
      refine ⟨_, ?_, hlines⟩
      -- A 304 for the entry of a planned request is not passed on.
      by_cases hforced : (entry.isSome && requestRequiresRevalidation requestHeaders) = true
      · rw [if_pos hforced]
        obtain ⟨hfound, hforce⟩ := Bool.and_eq_true_iff.mp hforced
        exact .replaced resp hfound hforce hlast fun hstatus =>
          hother ⟨hstatus, hcache, hplan, hfound⟩
      · rw [if_neg hforced]
        refine .miss resp hlast ?_
        rintro ⟨hfound, hforce | hstatus⟩
        · exact hforced (Bool.and_eq_true_iff.mpr ⟨hfound, hforce⟩)
        · exact hother ⟨hstatus, hcache, hplan, hfound⟩

/-- **When `X-Cache` tells what the proxy did.**  In every run of the handler that
answers with a proxied response it does so exactly when the request has a plan, or the
last answer of the upstream has no `X-Cache` of its own, or nominates it in its
`Connection` header. -/
theorem cache_status_iff (hpolicy : HeaderOverridePolicy.new configs = .ok state.headerOverrides)
    {uri : OriginalUri} {key : RateLimitKey} {requestHeaders : HeaderMap} {target : Url}
    (htarget : parseTargetUrl uri = .ok target) {es : List (Event Io)} {response : Response}
    (hrun : Trace (proxyHandler state uri key requestHeaders) es (.ok response))
    (hproxied : ∀ bytes, response.body ≠ .full bytes) :
    ∃ entry, FoundEntry state key target requestHeaders es entry ∧
      (TellsCacheStatus state target requestHeaders entry es response ↔
        (planOf state target requestHeaders).isSome = true ∨
          ∀ resp, (answers es).getLast? = some resp →
            resp.headers.getAll cacheDiagnosticHeader = [] ∨
              isNominated resp.headers cacheDiagnosticHeader = true) := by
  obtain ⟨entry, hfound, hexit⟩ := proxyHandler_exit htarget hrun hproxied
  refine ⟨entry, hfound, ?_⟩
  cases hplan : (planOf state target requestHeaders).isSome with
  | true =>
      refine iff_of_true ⟨fun hnone => ?_, fun _ => planned_tells hpolicy hplan hexit⟩ (.inl rfl)
      rw [hplan] at hnone
      cases hnone
  | false =>
      obtain ⟨resp, finalUrl, hlast, hlive⟩ := hexit.live_of_eq_none (hfound.eq_none hplan)
      have hempty := getAll_of_not_planned_eq_nil_iff hpolicy hplan target finalUrl
        (entry.isSome && requestRequiresRevalidation requestHeaders) resp.headers
      rw [← hlive] at hempty
      constructor
      · intro htells
        refine .inr fun resp' hlast' => ?_
        obtain rfl := Option.some.inj (hlast.symm.trans hlast')
        exact hempty.mp (htells.unplanned hplan)
      · intro hcondition
        refine ⟨fun _ => hempty.mpr ?_, fun hsome => ?_⟩
        · exact hcondition.resolve_left Bool.false_ne_true resp hlast
        · rw [hplan] at hsome
          cases hsome

/-- The promise about `X-Cache`, for every compiled policy and every run. -/
def CacheStatusIsTold : Prop :=
  ∀ configs (state : AppState) uri key requestHeaders target entry es (response : Response),
    HeaderOverridePolicy.new configs = .ok state.headerOverrides →
      parseTargetUrl uri = .ok target →
        Trace (proxyHandler state uri key requestHeaders) es (.ok response) →
          (∀ bytes, response.body ≠ .full bytes) →
            FoundEntry state key target requestHeaders es entry →
              TellsCacheStatus state target requestHeaders entry es response

end Lines

/-! ## An upstream with a cache of its own -/

/-- A response that another cache has marked. -/
def markedAnswer : UpstreamResponse where
  status := 200
  headers := [(.cacheControl, .fromStatic "private".toList), (cacheDiagnosticHeader, cacheHit)]
  contentLength := none
  body := []

/-- The handler for a plain request. -/
def markedHandler (state : AppState) : Prog Io (Except AppError Response) :=
  @proxyHandler (@RegexCrate.toCrates fragmentRegex) state plainRequest.uri exampleKey []

/-- What it does when the upstream gives that response. -/
def markedEvents (state : AppState) : List (Event Io) :=
  execEvents (World.calm markedAnswer) (markedHandler state) emptyWorld

/-- `exampleState` without a cache. -/
def uncachedState : AppState := { exampleState with cache := none }

/-- The response passed on. -/
def markedResponse : Response where
  status := 200
  headers := markedAnswer.headers
  body := .live [] exampleKey.bucket ⟨0, 0⟩ none none

/-- **The upstream's `X-Cache` reaches a consumer whose request has no plan**, and tells of
a hit that never was. -/
theorem upstream_status_passes : ¬ @CacheStatusIsTold fragmentRegex asciiTables := by
  intro h
  have hrun : Trace (markedHandler uncachedState) (markedEvents uncachedState)
      (.ok markedResponse) := trace_exec (World.calm markedAnswer) _ emptyWorld
  have hfound : @FoundEntry (@RegexCrate.toCrates fragmentRegex) uncachedState exampleKey
      exampleUrl [] (markedEvents uncachedState) none := ⟨[], [], _, rfl, .ret _, .ret _⟩
  have hproxied : ∀ bytes, markedResponse.body ≠ .full bytes := by
    intro bytes hfull
    cases hfull
  obtain ⟨hunplanned, -⟩ := h [] uncachedState plainRequest.uri exampleKey [] exampleUrl none _ _
    rfl rfl hrun hproxied hfound
  exact absurd (hunplanned rfl) (by decide)

/-- The response to a planned request. -/
def missedResponse : Response where
  status := 200
  headers := [(.cacheControl, .fromStatic "private".toList), (cacheDiagnosticHeader, cacheMiss)]
  body := .live [] exampleKey.bucket ⟨0, 0⟩ (some exampleCache) none

/-- The theorem at a planned request for the marked response: it is a miss. -/
theorem cache_status_iff_planned :
    ∃ entry,
      @FoundEntry (@RegexCrate.toCrates fragmentRegex) exampleState exampleKey exampleUrl []
        (markedEvents exampleState) entry ∧
      @TellsCacheStatus (@RegexCrate.toCrates fragmentRegex) exampleState exampleUrl [] entry
        (markedEvents exampleState) missedResponse := by
  have hrun : Trace (markedHandler exampleState) (markedEvents exampleState)
      (.ok missedResponse) := trace_exec (World.calm markedAnswer) _ emptyWorld
  have hproxied : ∀ bytes, missedResponse.body ≠ .full bytes := by
    intro bytes hfull
    cases hfull
  obtain ⟨entry, hfound, htells⟩ := @cache_status_iff fragmentRegex asciiTables [] exampleState rfl
    plainRequest.uri exampleKey [] exampleUrl rfl _ _ hrun hproxied
  exact ⟨entry, hfound, htells.mpr (.inl rfl)⟩

end Corsget
