import Corsget.Reference
import Corsget.Storing

/-!
# The headers of a hit and of the miss that stored it

A miss sends the upstream's headers through `copyResponseHeaders`; a hit sends
them through `cacheHeaders`, the metadata file and `headersFromEntry`.  The two
filters agree on the hop-by-hop headers, the CORS headers and `Content-Length`
under a cap.  They differ twice: only the first one looks at the names that the
upstream's `Connection` header nominates, and only the second one loses the
values that are not visible ASCII.

`hit_repeats_miss_iff` says exactly which header maps come out the same.
-/

namespace Corsget

open Text Effect

/-! ## The two filters, name by name -/

/-- The names both filters leave to the upstream: neither hop-by-hop nor CORS, and
not `Content-Length` while a cap is set. -/
def isEndToEnd (resultMax : ℕ) (name : HeaderName) : Bool :=
  !(isHopByHop name.text || isCorsResponseHeader name.text ||
    (resultMax != 0 && name == .contentLength))

/-- What a miss sends. -/
theorem getAll_copyResponseHeaders (source : HeaderMap) (resultMax : ℕ) (name : HeaderName) :
    (copyResponseHeaders source (resultMax != 0)).getAll name =
      if isEndToEnd resultMax name && !isNominated source name
      then source.getAll name else [] := by
  unfold copyResponseHeaders
  rw [MultiMap.getAll_filter_key (fun n => !isStripped source (resultMax != 0) n)]
  have hiff : (!isStripped source (resultMax != 0) name) =
      (isEndToEnd resultMax name && !isNominated source name) := by
    unfold isStripped isEndToEnd
    cases isHopByHop name.text with
    | true => rfl
    | false =>
        cases isCorsResponseHeader name.text with
        | true => rfl
        | false =>
            cases isNominated source name with
            | true => simp
            | false => simp
  rw [hiff]

/-- What a hit sends under a name other than `X-Cache`. -/
theorem getAll_cachedResponseHeaders {entry : CacheEntry} {source : HeaderMap}
    (hentry : entry.headers = cacheHeaders source) (resultMax : ℕ) (cacheStatus : HeaderValue)
    {name : HeaderName} (hname : name ≠ cacheDiagnosticHeader) :
    (cachedResponseHeaders entry resultMax cacheStatus).getAll name =
      if isEndToEnd resultMax name
      then (source.getAll name).filter HeaderValue.isVisible else [] := by
  -- `Connection` is hop-by-hop, so its own test in `cache_headers` decides nothing.
  have hstored : isNotStored name =
      (isHopByHop name.text || isCorsResponseHeader name.text) := by
    have hconnection : isHopByHop HeaderName.connection.text = true := by decide
    unfold isNotStored
    rw [beq_eq_false_iff_ne.mpr hname, Bool.false_or]
    by_cases h : name = .connection
    · rw [h, hconnection]
      rfl
    · rw [beq_eq_false_iff_ne.mpr h, Bool.or_false]
  have hlines : (headersFromEntry entry).getAll name =
      if isHopByHop name.text || isCorsResponseHeader name.text then []
      else (source.getAll name).filter HeaderValue.isVisible := by
    rw [headersFromEntry_eq hentry, getAll_storedLines, hstored]
  unfold cachedResponseHeaders addCacheHeader
  dsimp only
  rw [MultiMap.getAll_insert, if_neg hname]
  -- With a cap both paths drop `Content-Length`; without one neither does.
  by_cases hcap : resultMax = 0
  · rw [if_neg (not_not.mpr hcap), hlines]
    unfold isEndToEnd
    rw [hcap]
    cases isHopByHop name.text || isCorsResponseHeader name.text with
    | true => rfl
    | false => rfl
  · rw [if_pos hcap, MultiMap.getAll_remove, hlines]
    unfold isEndToEnd
    rw [bne_iff_ne.mpr hcap, Bool.true_and]
    by_cases hlength : name = .contentLength
    · rw [if_pos hlength, hlength]
      rfl
    · rw [if_neg hlength, beq_eq_false_iff_ne.mpr hlength, Bool.or_false]
      cases isHopByHop name.text || isCorsResponseHeader name.text with
      | true => rfl
      | false => rfl

/-- **Under one name**, hit and miss send the same lines exactly when, for a name
left to the upstream, each value is visible or each is nominated away. -/
theorem same_lines_iff {entry : CacheEntry} {source : HeaderMap}
    (hentry : entry.headers = cacheHeaders source) (resultMax : ℕ) (cacheStatus : HeaderValue)
    {name : HeaderName} (hname : name ≠ cacheDiagnosticHeader) :
    (cachedResponseHeaders entry resultMax cacheStatus).getAll name =
        (copyResponseHeaders source (resultMax != 0)).getAll name ↔
      (isEndToEnd resultMax name = true →
        ∀ value ∈ source.getAll name, value.isVisible = !isNominated source name) := by
  rw [getAll_copyResponseHeaders, getAll_cachedResponseHeaders hentry resultMax cacheStatus hname]
  cases isEndToEnd resultMax name with
  | false => simp
  | true =>
      cases isNominated source name with
      | true => simp [List.filter_eq_nil_iff]
      | false => simp [List.filter_eq_self]

/-! ## Hit and miss -/

/-- A hit that sends what the miss sent, name by name, except under `X-Cache`. -/
def SameSent (hit miss : Response) : Prop :=
  ∀ name, name ≠ cacheDiagnosticHeader → hit.headers.getAll name = miss.headers.getAll name

section Responses

variable [Crates]

omit [Crates] in
/-- The headers of a hit, without overrides. -/
theorem cachedResponse_headers {state : AppState} {entry : CacheEntry} {bucket : Str}
    {cacheStatus : HeaderValue} {url : Url} {hit : Response}
    (hoverrides : state.headerOverrides.rules = [])
    (h : cachedResponse state entry bucket state.resultMax cacheStatus url = .ok hit) :
    hit.headers = cachedResponseHeaders entry state.resultMax cacheStatus := by
  unfold cachedResponse HeaderOverridePolicy.apply at h
  rw [hoverrides] at h
  split at h
  · cases h
  · dsimp only at h
    split at h
    · cases h
    · cases h
      rfl

omit [Crates] in
/-- The headers of a miss, without overrides and under a name other than
`X-Cache`. -/
theorem getAll_liveResponseHeaders {state : AppState} {target finalUrl : Url}
    {plan : Option CachePlan} {revalidated : Bool} {source : HeaderMap}
    (hoverrides : state.headerOverrides.rules = []) {name : HeaderName}
    (hname : name ≠ cacheDiagnosticHeader) :
    (liveResponseHeaders state target finalUrl plan revalidated source).getAll name =
      (copyResponseHeaders source (state.resultMax != 0)).getAll name := by
  unfold liveResponseHeaders HeaderOverridePolicy.apply
  rw [hoverrides]
  cases plan with
  | none => rfl
  | some plan => exact (MultiMap.getAll_insert _ _ _ _).trans (if_neg hname)

/-- The headers that a live response with a writer stores. -/
theorem writer_headers {state : AppState} {requestHeaders : HeaderMap} {plan : Option CachePlan}
    {upstream : UpstreamResponse} {es : List (Event Io)} {writer : CacheWriter}
    (h : Trace (beginWritePlanned state plan upstream requestHeaders) es (some writer)) :
    writer.entry.headers = cacheHeaders upstream.headers := by
  unfold beginWritePlanned at h
  split at h
  · obtain ⟨vary, created, accessed, now, tempId, -, rfl, -⟩ := beginWrite_trace_iff.mp h
    rfl
  · cases (Trace.ret_iff.mp h).2

/-- **When a hit repeats the miss that stored it.**  For a miss with a writer, and a
hit on an entry with the header list of that writer, the two send the same
headers exactly when, under every name left to the upstream, each value is
visible ASCII if the upstream's `Connection` does not nominate the name, and none
is if it does. -/
theorem hit_repeats_miss_iff {state : AppState} (hoverrides : state.headerOverrides.rules = [])
    {requestHeaders : HeaderMap} {bucket bucket' : Str} {target finalUrl url : Url}
    {plan : Option CachePlan} {revalidated : Bool} {upstream : UpstreamResponse}
    {es : List (Event Io)} {miss hit : Response} {items : List (Except Str Bytes)}
    {guard : ResultSizeGuard} {cache : Option Cache} {writer : CacheWriter} {entry : CacheEntry}
    (hmiss : Trace (liveResponse state requestHeaders bucket target finalUrl plan revalidated
      upstream) es (.ok miss))
    (hwriter : miss.body = .live items bucket guard cache (some writer))
    (hentry : entry.headers = writer.entry.headers)
    (hhit : cachedResponse state entry bucket' state.resultMax cacheHit url = .ok hit) :
    SameSent hit miss ↔
      ∀ name, name ≠ cacheDiagnosticHeader → isEndToEnd state.resultMax name = true →
        ∀ value ∈ upstream.headers.getAll name,
          value.isVisible = !isNominated upstream.headers name := by
  obtain ⟨-, writer', hwrite, rfl⟩ := liveResponse_trace_iff.mp hmiss
  obtain rfl : writer' = some writer := by
    injection hwriter
  have hstored : entry.headers = cacheHeaders upstream.headers :=
    hentry.trans (writer_headers hwrite)
  unfold SameSent
  refine forall_congr' fun name => imp_congr_right fun hname => ?_
  rw [cachedResponse_headers hoverrides hhit]
  show _ = (liveResponseHeaders state target finalUrl plan revalidated
    upstream.headers).getAll name ↔ _
  rw [getAll_liveResponseHeaders hoverrides hname]
  exact same_lines_iff hstored state.resultMax cacheHit hname

/-- Hits repeat misses for one upstream response: every hit on an entry that a miss
with this response stored sends the headers of that miss. -/
def HitsRepeatMisses (state : AppState) (upstream : UpstreamResponse) : Prop :=
  ∀ requestHeaders bucket bucket' target finalUrl url plan revalidated es (miss hit : Response)
      items guard cache (writer : CacheWriter) (entry : CacheEntry),
    Trace (liveResponse state requestHeaders bucket target finalUrl plan revalidated upstream) es
        (.ok miss) →
      miss.body = .live items bucket guard cache (some writer) →
      entry.headers = writer.entry.headers →
      cachedResponse state entry bucket' state.resultMax cacheHit url = .ok hit →
        SameSent hit miss

end Responses

/-- A name that an upstream may nominate. -/
def xPrivate : HeaderName := ⟨"x-private".toList, by decide⟩

/-- An empty response with the given headers. -/
def emptyResponse (headers : HeaderMap) : UpstreamResponse where
  status := 200
  headers := headers
  contentLength := some 0
  body := []

/-- The writer of `exampleState` for such a response. -/
def emptyWriter (headers : HeaderMap) : CacheWriter :=
  @newWriter reference ⟨"k".toList, 60⟩ 200 headers [] [] 0 0 0 0

/-- Its live response. -/
def emptyMiss (headers : HeaderMap) : Response where
  status := 200
  headers := liveResponseHeaders exampleState exampleUrl exampleUrl (some ⟨"k".toList, 60⟩) false
    headers
  body := .live [] [] ⟨0, 0⟩ (some exampleCache) (some (emptyWriter headers))

/-- An accepted empty response has its miss. -/
theorem emptyMiss_trace {headers : HeaderMap}
    (h : @Accepts reference ⟨"k".toList, 60⟩ 200 headers [] [] 0) :
    Trace (@liveResponse reference exampleState [] [] exampleUrl exampleUrl
        (some ⟨"k".toList, 60⟩) false (emptyResponse headers))
      (beginWriteEvents (emptyWriter headers).tempBody 0 0 0 0) (.ok (emptyMiss headers)) :=
  (@liveResponse_trace_iff reference _ _ _ _ _ _ _ _ _ _).mpr ⟨rfl, _,
    (@beginWrite_trace_iff reference _ _ _ _ _ _).mpr ⟨[], 0, 0, 0, 0, h, rfl, rfl⟩, rfl⟩

/-- A header that the upstream nominates in `Connection`. -/
def nominatedHeaders : HeaderMap :=
  [(.connection, .fromStatic "x-private".toList), (xPrivate, .fromStatic "secret".toList)]

/-- **A nominated header reaches the consumer of a hit.** -/
theorem nominated_header_is_hit :
    ¬ @HitsRepeatMisses reference exampleState (emptyResponse nominatedHeaders) := by
  intro h
  have haccepts : @Accepts reference ⟨"k".toList, 60⟩ 200 nominatedHeaders [] [] 0 :=
    @Accepts.mk reference _ _ _ _ _ _ (by decide) (by decide) (by decide) (by decide) (by decide)
  have hsame := h [] [] [] exampleUrl exampleUrl exampleUrl _ false _ _ _ [] ⟨0, 0⟩ _ _
    (emptyWriter nominatedHeaders).entry (emptyMiss_trace haccepts) rfl rfl rfl xPrivate (by decide)
  exact absurd hsame (by decide)

/-- A header with a visible value. -/
def plainHeaders : HeaderMap := [(xPrivate, .fromStatic "public".toList)]

/-- The theorem at a response without `Connection`. -/
theorem hit_repeats_miss_plainHeaders :
    SameSent
      { status := 200
        headers := cachedResponseHeaders (emptyWriter plainHeaders).entry 0 cacheHit
        body := .cached (bodyPath "k".toList) [] ⟨0, 0⟩ }
      (emptyMiss plainHeaders) := by
  have haccepts : @Accepts reference ⟨"k".toList, 60⟩ 200 plainHeaders [] [] 0 :=
    @Accepts.mk reference _ _ _ _ _ _ (by decide) (by decide) (by decide) (by decide) (by decide)
  refine (@hit_repeats_miss_iff reference exampleState rfl _ _ [] _ _ exampleUrl _ _ _ _ _ _ _ _ _
    _ _ (emptyMiss_trace haccepts) rfl rfl rfl).mpr ?_
  intro name _ _ value hvalue
  have hline := MultiMap.mem_getAll.mp hvalue
  obtain ⟨rfl, rfl⟩ : name = xPrivate ∧ value = .fromStatic "public".toList := by
    simpa [plainHeaders, emptyResponse] using hline
  decide

end Corsget
