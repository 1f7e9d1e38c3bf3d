import Corsget.Forwarding
import Corsget.KeySeparation
import Corsget.Overriding

/-!
# What every upstream request carries

A request of the consumer may become several upstream requests, one for each hop
of a redirect chain.  Each of them is built again from the consumer's headers,
the URL of the hop and the entry that the lookup found.

`Withheld` says in the terms of the documentation which names stay behind, and
`isForwarded_iff` that the filter of `forward_headers` is that class and `Host`.
`serve_carries_forwardable` is the guarantee over whole runs: at every hop the
names that are withheld have no line, every other name has exactly the
consumer's lines, and there is one `Host`, that of the hop.  Two names may carry
something else, and only when the entry has a validator for them
(`SetsValidator`).
-/

namespace Corsget

open Text Effect

/-! ## The names that stay behind -/

/-- The headers of a single connection, as the documentation lists them. -/
def singleConnectionHeaders : List Str :=
  ["connection".toList, "keep-alive".toList, "proxy-authenticate".toList,
    "proxy-authorization".toList, "te".toList, "trailers".toList, "transfer-encoding".toList,
    "upgrade".toList]

/-- A `Connection` line has the name among its items, in whatever case. -/
def NamedInConnection (source : HeaderMap) (name : HeaderName) : Prop :=
  ∃ value ∈ source.getAll .connection, ∃ item ∈ value.text.splitOn ',',
    toAsciiLowercase (trim item) = name.text

/-- **The consumer's headers that the target must not see.** -/
inductive Withheld (source : HeaderMap) (name : HeaderName) : Prop
  /-- Hop-by-hop. -/
  | hopByHop (h : name.text ∈ singleConnectionHeaders)
  /-- `X-Forwarded-*`. -/
  | xForwarded (h : "x-forwarded-".toList <+: name.text)
  /-- `X-Real-IP`. -/
  | xRealIp (h : name.text = "x-real-ip".toList)
  /-- `Forwarded`. -/
  | forwarded (h : name.text = "forwarded".toList)
  /-- Named by the request's `Connection` header. -/
  | named (h : NamedInConnection source name)

/-- Every `Connection` line is visible ASCII. -/
def VisibleConnection (source : HeaderMap) : Prop :=
  ∀ value ∈ source.getAll .connection, value.isVisible = true

/-- `is_hop_by_hop` on a header name is the documented list and the prefix. -/
theorem isHopByHop_iff (name : HeaderName) :
    isHopByHop name.text = true ↔
      name.text ∈ singleConnectionHeaders ∨ "x-forwarded-".toList <+: name.text ∨
        name.text = "x-real-ip".toList ∨ name.text = "forwarded".toList := by
  have hlisted : ∀ text ∈ hopByHopHeaders, text ∈ singleConnectionHeaders ∨
      "x-forwarded-".toList <+: text ∨ text = "x-real-ip".toList ∨ text = "forwarded".toList := by
    decide
  have hsingle : ∀ text ∈ singleConnectionHeaders, text ∈ hopByHopHeaders := by decide
  have hrealIp : "x-real-ip".toList ∈ hopByHopHeaders := by decide
  have hforwarded : "forwarded".toList ∈ hopByHopHeaders := by decide
  unfold isHopByHop
  rw [HeaderName.toAsciiLowercase_text, Bool.or_eq_true, List.isPrefixOf_iff_prefix,
    List.contains_iff_mem]
  constructor
  · rintro (hforwarded | hmem)
    · exact .inr (.inl hforwarded)
    · exact hlisted _ hmem
  · rintro (hmem | hprefix | hname | hname)
    · exact .inr (hsingle _ hmem)
    · exact .inl hprefix
    · exact .inr (hname ▸ hrealIp)
    · exact .inr (hname ▸ hforwarded)

/-- `connection_headers` nominates the names of the visible lines. -/
theorem isNominated_iff {source : HeaderMap} (hvisible : VisibleConnection source)
    (name : HeaderName) : isNominated source name = true ↔ NamedInConnection source name := by
  unfold isNominated NamedInConnection connectionHeaders
  simp only [List.any_map, List.any_eq_true, List.mem_filter, List.mem_map, List.mem_flatMap,
    Option.mem_toList, Function.comp_apply, beq_iff_eq]
  constructor
  · rintro ⟨part, ⟨⟨item, ⟨text, ⟨value, hvalue, htext⟩, hitem⟩, rfl⟩, -⟩, hname⟩
    obtain ⟨-, rfl⟩ := HeaderValue.toStr_eq_some.mp htext
    exact ⟨value, hvalue, item, hitem, hname⟩
  · rintro ⟨value, hvalue, item, hitem, hname⟩
    have htext : value.toStr = some value.text :=
      HeaderValue.toStr_eq_some.mpr ⟨hvisible value hvalue, rfl⟩
    -- A header name is not empty, so neither is the item.
    have hitem_ne : trim item ≠ [] := by
      intro hnil
      rw [hnil] at hname
      exact name.valid.1 hname.symm
    exact ⟨trim item, ⟨⟨item, ⟨value.text, ⟨value, hvalue, htext⟩, hitem⟩, rfl⟩,
      decide_eq_true hitem_ne⟩, hname⟩

/-- **The filter of `forward_headers`**: the names that are withheld, and `Host`. -/
theorem isForwarded_iff {source : HeaderMap} (hvisible : VisibleConnection source)
    {name : HeaderName} (hhost : name ≠ .host) :
    isForwarded source name = true ↔ ¬ Withheld source name := by
  have hwithheld : Withheld source name ↔
      isHopByHop name.text = true ∨ isNominated source name = true := by
    rw [isHopByHop_iff, isNominated_iff hvisible]
    constructor
    · intro h
      cases h with
      | hopByHop h => exact .inl (.inl h)
      | xForwarded h => exact .inl (.inr (.inl h))
      | xRealIp h => exact .inl (.inr (.inr (.inl h)))
      | forwarded h => exact .inl (.inr (.inr (.inr h)))
      | named h => exact .inr h
    · rintro ((h | h | h | h) | h)
      · exact .hopByHop h
      · exact .xForwarded h
      · exact .xRealIp h
      · exact .forwarded h
      · exact .named h
  unfold isForwarded
  rw [hwithheld, bne_iff_ne.mpr hhost, Bool.and_true, Bool.not_eq_true', ← Bool.or_eq_true,
    Bool.not_eq_true]

/-! ## The host of a hop -/

/-- Visible ASCII, without the space. -/
def IsPrintable (s : Str) : Prop := ∀ c ∈ s, 32 < c.toNat ∧ c.toNat < 127

instance (s : Str) : Decidable (IsPrintable s) :=
  List.decidableBAll (fun c : Char => 32 < c.toNat ∧ c.toNat < 127) s

/-- The host of a URL is printable, as the parser writes it. -/
def Url.PrintableHost (url : Url) : Prop := ∀ host, url.host = some host → IsPrintable host

/-- A host with the port of the URL when that is not the default one. -/
def Url.hostAndPort (url : Url) (host : Str) : Str :=
  match url.port with
  | none => host
  | some port => host ++ ':' :: decimal port

/-- Printable text is a header value. -/
theorem exists_fromStr_of_printable {s : Str} (h : IsPrintable s) :
    ∃ value, HeaderValue.fromStr s = some value ∧ value.bytes = utf8 s := by
  have hbytes : ∀ n : Fin 127, 32 < n.val →
      (String.utf8EncodeChar (Char.ofNat n.val)).all isValueByte = true := by decide +kernel
  have hall : (utf8 s).all isValueByte = true := by
    refine List.all_eq_true.mpr fun b hb => ?_
    obtain ⟨c, hc, hmem⟩ := List.mem_flatMap.mp hb
    have hchar := hbytes ⟨c.toNat, (h c hc).2⟩ (h c hc).1
    rw [Char.ofNat_toNat] at hchar
    exact List.all_eq_true.mp hchar b hmem
  exact ⟨⟨utf8 s, hall⟩, dif_pos hall, rfl⟩

/-- The text with the port is printable as the host is. -/
theorem isPrintable_hostAndPort {url : Url} {host : Str} (hhost : url.host = some host)
    (hprintable : url.PrintableHost) : IsPrintable (url.hostAndPort host) := by
  have hdigit : ∀ c : Char, c.isDigit = true → 32 < c.toNat ∧ c.toNat < 127 := by
    intro c hc
    obtain ⟨h48, h57⟩ : 48 ≤ c.toNat ∧ c.toNat ≤ 57 := Char.isDigit_iff_toNat.mp hc
    exact ⟨by omega, by omega⟩
  have hcolon : 32 < (':' : Char).toNat ∧ (':' : Char).toNat < 127 := by decide
  intro c hc
  unfold Url.hostAndPort at hc
  cases hport : url.port with
  | none =>
      rw [hport] at hc
      exact hprintable host hhost c hc
  | some port =>
      rw [hport] at hc
      rcases List.mem_append.mp hc with hfront | hback
      · exact hprintable host hhost c hfront
      · rcases List.mem_cons.mp hback with rfl | hdecimal
        · exact hcolon
        · exact hdigit c (isDigit_of_mem_decimal hdecimal)

/-- `forward_headers` puts one `Host` line. -/
theorem exists_getAll_host (requestHeaders : HeaderMap) (entry : Option CacheEntry) {url : Url}
    {host : Str} (hhost : url.host = some host) (hprintable : url.PrintableHost) :
    ∃ value, (upstreamHeaders requestHeaders entry url).getAll .host = [value] ∧
      value.bytes = utf8 (url.hostAndPort host) := by
  obtain ⟨value, hvalue, hbytes⟩ := exists_fromStr_of_printable
    (isPrintable_hostAndPort hhost hprintable)
  have htext : hostOf url = some (url.hostAndPort host) := by
    unfold hostOf Url.hostAndPort
    rw [hhost]
    cases url.port with
    | none => rfl
    | some port => rfl
  have hforward : (forwardHeaders requestHeaders url).getAll .host = [value] := by
    unfold forwardHeaders
    dsimp only
    rw [htext]
    dsimp only
    rw [hvalue]
    exact (MultiMap.getAll_insert _ _ _ _).trans (if_pos rfl)
  refine ⟨value, ?_, hbytes⟩
  cases entry with
  | none => exact hforward
  | some entry =>
      exact (getAll_addValidators_of_ne _ entry (by decide) (by decide)).trans hforward

/-! ## One hop -/

/-- The proxy sets a conditional header for the entry that was found. -/
def SetsValidator (entry : Option CacheEntry) (name : HeaderName) : Prop :=
  ∃ found, entry = some found ∧
    ((name = .ifNoneMatch ∧ (found.etag.bind HeaderValue.fromStr).isSome = true) ∨
      (name = .ifModifiedSince ∧ (found.lastModified.bind HeaderValue.fromStr).isSome = true))

/-- **A request that carries exactly the forwardable headers of the consumer.** -/
structure CarriesForwardable (requestHeaders : HeaderMap) (entry : Option CacheEntry)
    (request : UpstreamRequest) : Prop where
  /-- No header that is withheld. -/
  withheld : ∀ name, name ≠ .host → ¬ SetsValidator entry name → Withheld requestHeaders name →
    request.headers.getAll name = []
  /-- Every other header of the consumer, with its lines in their order. -/
  forwarded : ∀ name, name ≠ .host → ¬ SetsValidator entry name → ¬ Withheld requestHeaders name →
    request.headers.getAll name = requestHeaders.getAll name
  /-- One `Host`, that of the URL. -/
  host : ∃ host value, request.url.host = some host ∧ request.headers.getAll .host = [value] ∧
    value.bytes = utf8 (request.url.hostAndPort host)

/-- A validator that is not set leaves the lines. -/
theorem validatorOr_of_not {validator : Option Str} {lines : List HeaderValue}
    (h : ¬ (validator.bind HeaderValue.fromStr).isSome = true) :
    validatorOr validator lines = lines := by
  unfold validatorOr
  rw [Option.not_isSome_iff_eq_none.mp h]

/-- What `upstreamHeaders` has under a name the proxy does not set. -/
theorem getAll_upstreamHeaders_of_not_set (requestHeaders : HeaderMap) {entry : Option CacheEntry}
    (url : Url) {name : HeaderName} (hhost : name ≠ .host) (hset : ¬ SetsValidator entry name) :
    (upstreamHeaders requestHeaders entry url).getAll name =
      if isForwarded requestHeaders name then requestHeaders.getAll name else [] := by
  cases entry with
  | none => exact getAll_forwardHeaders requestHeaders url hhost
  | some entry =>
      refine Eq.trans ?_ (getAll_forwardHeaders requestHeaders url hhost)
      show (addValidators _ entry).getAll name = _
      by_cases hmatch : name = .ifNoneMatch
      · subst hmatch
        rw [getAll_addValidators_ifNoneMatch]
        exact validatorOr_of_not fun hsome => hset ⟨entry, rfl, .inl ⟨rfl, hsome⟩⟩
      · by_cases hsince : name = .ifModifiedSince
        · subst hsince
          rw [getAll_addValidators_ifModifiedSince]
          exact validatorOr_of_not fun hsome => hset ⟨entry, rfl, .inr ⟨rfl, hsome⟩⟩
        · exact getAll_addValidators_of_ne _ entry hmatch hsince

/-- A hop to a URL with a printable host. -/
theorem carriesForwardable_upstreamHeaders {requestHeaders : HeaderMap}
    (hvisible : VisibleConnection requestHeaders) (entry : Option CacheEntry) {url : Url}
    {host : Str} (hhost : url.host = some host) (hprintable : url.PrintableHost) :
    CarriesForwardable requestHeaders entry
      { url := url, headers := upstreamHeaders requestHeaders entry url } where
  withheld name hname hset hwithheld := by
    have hdropped : isForwarded requestHeaders name = false :=
      Bool.not_eq_true _ ▸ fun hkept => (isForwarded_iff hvisible hname).mp hkept hwithheld
    rw [getAll_upstreamHeaders_of_not_set requestHeaders url hname hset, hdropped]
    rfl
  forwarded name hname hset hwithheld := by
    have hkept := (isForwarded_iff hvisible hname).mpr hwithheld
    rw [getAll_upstreamHeaders_of_not_set requestHeaders url hname hset, if_pos hkept]
  host := by
    obtain ⟨value, hlines, hbytes⟩ := exists_getAll_host requestHeaders entry hhost hprintable
    exact ⟨host, value, hhost, hlines, hbytes⟩

/-! ## Every hop of a run -/

section Runs

variable [Crates]

/-- The parser's guarantee about hosts: it writes them in visible ASCII. -/
structure ParsesPrintableHosts : Prop where
  urlParse : ∀ text url, Crates.urlParse text = .ok url → url.PrintableHost
  urlJoin : ∀ base text url, Crates.urlJoin base text = .ok url → url.PrintableHost

/-- The entry of a run: what its lookup found, after the tiers admitted the request. -/
def FoundEntry (state : AppState) (key : RateLimitKey) (target : Url) (requestHeaders : HeaderMap)
    (es : List (Event Io)) (entry : Option CacheEntry) : Prop :=
  ∃ tiers lookup rest, es = tiers ++ lookup ++ rest ∧
    Trace (checkTiers key state.rateLimit) tiers (.ok none) ∧
      Trace (lookupPlanned state (planOf state target requestHeaders)) lookup entry

variable {state : AppState} {key : RateLimitKey} {requestHeaders : HeaderMap}

/-- A URL that a hop may go to. -/
def IsHop (state : AppState) (origin : Origin) (url : Url) : Prop :=
  Permitted state origin url ∧ url.PrintableHost

theorem nextHop_isHop (hhosts : ParsesPrintableHosts) {origin : Origin} {base url : Url}
    {headers : HeaderMap} (h : nextHop state origin base headers = .ok url) :
    IsHop state origin url := by
  obtain ⟨hpermitted, ⟨location, hparsed⟩ | ⟨location, hjoined⟩⟩ := nextHop_eq_ok h
  · exact ⟨hpermitted, hhosts.urlParse _ _ hparsed⟩
  · exact ⟨hpermitted, hhosts.urlJoin _ _ _ hjoined⟩

/-- The requests of a run for an entry. -/
def sendsHops (state : AppState) (origin : Origin) (requestHeaders : HeaderMap)
    (entry : Option CacheEntry) : Rights where
  sends request := IsHop state origin request.url ∧
    request.headers = upstreamHeaders requestHeaders entry request.url
  store := True
  checks := True

/-- What follows the lookup sends hops for the entry it found. -/
theorem fetchUpstream_sendsHops (hhosts : ParsesPrintableHosts) {target : Url}
    {plan : Option CachePlan} {entry : Option CacheEntry} {force : Bool}
    (htarget : IsHop state key.origin target) :
    Meets (Confined (sendsHops state key.origin requestHeaders entry)) (Answered True)
      (fetchUpstream state key requestHeaders target plan entry force) :=
  fetchUpstream_confined (nextHop_isHop hhosts) (fun _ hurl => ⟨hurl, rfl⟩) (fun _ => trivial)
    htarget

omit [Crates] in
/-- A request of those is one the theorem promises. -/
theorem carriesForwardable_of_sends (hvisible : VisibleConnection requestHeaders)
    {origin : Origin} {entry : Option CacheEntry} {request : UpstreamRequest}
    (h : (sendsHops state origin requestHeaders entry).sends request) :
    CarriesForwardable requestHeaders entry request := by
  obtain ⟨url, headers⟩ := request
  obtain ⟨⟨⟨-, ⟨host, hhost, -⟩, -⟩, hprintable⟩, hheaders⟩ := h
  dsimp only at hhost hprintable hheaders
  subst hheaders
  exact carriesForwardable_upstreamHeaders hvisible entry hhost hprintable

theorem FoundEntry.append {target : Url} {es : List (Event Io)} {entry : Option CacheEntry}
    (h : FoundEntry state key target requestHeaders es entry) (later : List (Event Io)) :
    FoundEntry state key target requestHeaders (es ++ later) entry := by
  obtain ⟨tiers, lookup, rest, rfl, htiers, hlookup⟩ := h
  exact ⟨tiers, lookup, rest ++ later, List.append_assoc _ _ _, htiers, hlookup⟩

/-- An admitted request looks an entry up, and sends hops for it. -/
theorem answerAdmitted_hops (hhosts : ParsesPrintableHosts) {target : Url}
    (htarget : IsHop state key.origin target) {es : List (Event Io)}
    {result : Except AppError Response}
    (h : Trace (answerAdmitted state key requestHeaders target) es result) :
    ∃ lookup entry rest, es = lookup ++ rest ∧
      Trace (lookupPlanned state (planOf state target requestHeaders)) lookup entry ∧
      ∀ e ∈ es, Confined (sendsHops state key.origin requestHeaders entry) e.1 := by
  obtain ⟨lookup, entry, rest, rfl, hlookup, hrest⟩ := answerAdmitted_cases h
  refine ⟨lookup, entry, rest, rfl, hlookup, fun e he => ?_⟩
  have hlooks : Meets (Confined (sendsHops state key.origin requestHeaders entry))
      (fun found : Option CacheEntry => found.isSome = true → True)
      (lookupPlanned state (planOf state target requestHeaders)) :=
    lookupPlanned_confined fun _ => trivial
  have hquiet := (hlooks.of_trace hlookup).1
  rcases List.mem_append.mp he with hearly | hlate
  · exact hquiet e hearly
  · rcases hrest with ⟨found, now, -, rfl, -⟩ | ⟨clock, fetch, rfl, hclock, hfetch⟩
    · rw [List.mem_singleton.mp hlate]
      trivial
    · rcases List.mem_append.mp hlate with hread | hfetched
      · rw [hclock e hread]
        trivial
      · exact ((fetchUpstream_sendsHops hhosts htarget).of_trace hfetch).1 e hfetched

/-- A run that sends anything has looked up an entry, and sends hops for it. -/
theorem proxyHandler_hops (hhosts : ParsesPrintableHosts) {uri : OriginalUri} {es : List (Event Io)}
    {result : Except AppError Response} {request : UpstreamRequest} {answer}
    (h : Trace (proxyHandler state uri key requestHeaders) es result)
    (hsent : (⟨.send request, answer⟩ : Event Io) ∈ es) :
    ∃ target entry, parseTargetUrl uri = .ok target ∧
      FoundEntry state key target requestHeaders es entry ∧
        (sendsHops state key.origin requestHeaders entry).sends request := by
  rcases proxyHandler_cases h with
    ⟨hquiet, -⟩ | ⟨target, tiers, rest, htarget, hpermitted, rfl, htiers, hrest⟩
  · exact absurd (hquiet _ hsent) id
  · obtain ⟨text, htext⟩ := exists_urlParse htarget
    have hhop : IsHop state key.origin target := ⟨hpermitted, hhosts.urlParse _ _ htext⟩
    obtain ⟨lookup, entry, fetch, rfl, hlookup, hsends⟩ := answerAdmitted_hops hhosts hhop hrest
    have hquiet := quiet_of_trace (checkTiers_confined trivial state.rateLimit) htiers
    have hlater := (List.mem_append.mp hsent).resolve_left fun htier => hquiet _ htier
    exact ⟨target, entry, htarget,
      ⟨tiers, lookup, fetch, (List.append_assoc _ _ _).symm, htiers, hlookup⟩, hsends _ hlater⟩

/-- **Every upstream request of a run carries exactly the forwardable headers**,
for every answer of the environment: every stored entry, every redirect chain. -/
theorem serve_carries_forwardable (hhosts : ParsesPrintableHosts)
    (hvisible : VisibleConnection requestHeaders) {uri : OriginalUri} {es : List (Event Io)}
    {result : Except AppError Response} (h : Trace (serve state uri key requestHeaders) es result)
    {request : UpstreamRequest} {answer}
    (hsent : (⟨.send request, answer⟩ : Event Io) ∈ es) :
    ∃ target entry, parseTargetUrl uri = .ok target ∧
      FoundEntry state key target requestHeaders es entry ∧
        CarriesForwardable requestHeaders entry request := by
  unfold serve at h
  obtain ⟨handled, response, delivered, rfl, hhandler, hdeliver⟩ := Trace.bind_iff.mp h
  have hquiet := quiet_of_trace (deliver_confined (answered_true response)) hdeliver
  have hhandled : (⟨.send request, answer⟩ : Event Io) ∈ handled :=
    (List.mem_append.mp hsent).resolve_right fun hlate => hquiet _ hlate
  obtain ⟨target, entry, htarget, hfound, hsends⟩ := proxyHandler_hops hhosts hhandler hhandled
  exact ⟨target, entry, htarget, hfound.append delivered,
    carriesForwardable_of_sends hvisible hsends⟩

end Runs

/-! ## A redirect with cookies -/

/-- A request was sent to every URL that was asked. -/
theorem exists_send_of_mem_sentUrls {es : List (Event Io)} {url : Url} (h : url ∈ sentUrls es) :
    ∃ request answer, (⟨.send request, answer⟩ : Event Io) ∈ es ∧ request.url = url := by
  obtain ⟨⟨o, answer⟩, hmem, hurl⟩ := List.mem_filterMap.mp h
  cases o with
  | send request => exact ⟨request, answer, hmem, Option.some.inj hurl⟩
  | _ => cases hurl

theorem redirecting_parsesPrintableHosts : @ParsesPrintableHosts redirecting := by
  have hknown : ∀ url ∈ [exampleUrl, cdnUrl], url.PrintableHost := by
    intro url hurl host hhost
    rcases List.mem_pair.mp hurl with rfl | rfl
    · obtain rfl := Option.some.inj hhost
      exact (by decide : IsPrintable "example.com".toList)
    · obtain rfl := Option.some.inj hhost
      exact (by decide : IsPrintable "cdn.example.com".toList)
  refine @ParsesPrintableHosts.mk redirecting (fun _ _ h => hknown _ (mem_of_knowing h)) ?_
  intro base text url h
  cases h

/-- `X-Trace`. -/
def xTrace : HeaderName := ⟨"x-trace".toList, by decide⟩

/-- A consumer with cookies, and a header that belongs to its connection. -/
def tracedHeaders : HeaderMap :=
  [(.connection, .fromStatic "Close, X-Trace".toList), (xTrace, .fromStatic "1".toList),
    (.cookie, .fromStatic "a=1".toList), (.cookie, .fromStatic "b=2".toList)]

/-- The requests of the redirected run. -/
def redirectedEvents : List (Event Io) :=
  execEvents redirectedWorld
    (@serve redirecting exampleState plainRequest.uri exampleKey tracedHeaders) emptyWorld

/-- The theorem at the hop behind a redirect. -/
theorem serve_carries_forwardable_redirected :
    ∃ request target entry, request.url = cdnUrl ∧
      @parseTargetUrl redirecting plainRequest.uri = .ok target ∧
        @FoundEntry redirecting exampleState exampleKey target tracedHeaders redirectedEvents
          entry ∧ CarriesForwardable tracedHeaders entry request := by
  have hsent : cdnUrl ∈ sentUrls redirectedEvents := by decide +kernel
  obtain ⟨request, answer, hmem, hurl⟩ := exists_send_of_mem_sentUrls hsent
  have hvisible : ∀ value ∈ tracedHeaders.getAll .connection, value.isVisible = true := by decide
  have htrace := trace_exec redirectedWorld
    (@serve redirecting exampleState plainRequest.uri exampleKey tracedHeaders) emptyWorld
  obtain ⟨target, entry, hcarries⟩ := @serve_carries_forwardable redirecting exampleState
    exampleKey tracedHeaders redirecting_parsesPrintableHosts hvisible plainRequest.uri
    _ _ htrace request answer hmem
  exact ⟨request, target, entry, hurl, hcarries⟩

end Corsget
