import Corsget.AccessPolicy
import Corsget.Buckets
import Corsget.CorsLayer
import Corsget.Layout
import Corsget.Library.Fetch
import Corsget.WriteFaults

/-!
# The server

`main.rs` routes a request by its path and method, `error.rs` turns the errors of a handler into
responses, `preflight_handler` of `cors.rs` answers preflights, and the middleware puts the
generated CORS headers on whatever comes out.  `Server.respond` is all of it, up to the body that
is still to be streamed; `Server.serve` streams it.

The purpose of the program is that a browser lets a script read the answers.  The results below say
so in the words of the browser's own checks: every answer passes the CORS check
(`cors_check_passes`), and a preflight passes exactly when the policy admits the request it asks
about (`preflight_passes_iff`).  Headers that the HTTP library adds by itself, `Content-Length` and
`Allow`, take no part in them and are left out.
-/

namespace Corsget

open Text Effect

/-! ## Generated responses -/

theorem isHeaderName_contentType : IsHeaderName "content-type".toList := by decide

/-- `content-type: application/json`. -/
def jsonContent : HeaderMap :=
  [(⟨"content-type".toList, isHeaderName_contentType⟩,
    .fromStatic "application/json".toList)]

/-- The text of `json!({ "error": message })`. -/
def errorBody (message : Str) : Str :=
  "\x7b\"error\":".toList ++ jsonString message ++ "\x7d".toList

/-- A status with such a body. -/
def jsonError (status : ℕ) (message : Str) : Response where
  status := status
  headers := jsonContent
  body := .full (utf8 (errorBody message))

/-- `AppError::into_response`. -/
def AppError.intoResponse (e : AppError) : Response := jsonError e.status e.message

/-- `root_not_found`. -/
def rootNotFound : Response := jsonError 404 "not found".toList

/-- `method_not_allowed`. -/
def methodNotAllowed : Response := jsonError 405 "method not allowed".toList

/-- What the router answers where it has no route. -/
def noRoute : Response where
  status := 404
  headers := []
  body := .full []

/-- The response of a handler. -/
def intoResponse : Except AppError Response → Response
  | .ok response => response
  | .error e => e.intoResponse

/-! ## Requests and routes -/

/-- `Method`, as far as the router tells methods apart. -/
inductive Method where
  | get
  | head
  | options
  | other (name : Str)
deriving DecidableEq

/-- A request as it arrives. -/
structure Incoming [IpAddrs] where
  method : Method
  uri : OriginalUri
  parts : Parts

/-- `Uri::path`: the part before the query; `/` when that is empty, and nothing when the URI has
no path at all. -/
def OriginalUri.path (uri : OriginalUri) : Str :=
  match uri.pathAndQuery with
  | none => []
  | some pathAndQuery =>
      let path := pathAndQuery.takeWhile (· ≠ '?')
      if path = [] then ['/'] else path

/-- The routes of `main`: `/`, `/{*target}`, and none. -/
inductive Route where
  | root
  | target
  | none
deriving DecidableEq

/-- The route that matches a path.  What `{*target}` stands for is not empty. -/
def route (path : Str) : Route :=
  match path with
  | '/' :: _ :: _ => .target
  | ['/'] => .root
  | _ => .none

/-- What a server has been started with: the state, and `application.real_ip_header`. -/
structure Server where
  state : AppState
  realIpHeader : Str

section Server

variable [Crates] [UnicodeTables]

/-- The answer of `preflight_handler` to a request that the policy admits. -/
def preflightResponse (requestHeaders : HeaderMap) : Response where
  status := 204
  headers := MultiMap.update
    (addVaryField (addVaryField [] "origin".toList) "access-control-request-headers".toList)
    (corsHeaders requestHeaders)
  body := .full []

/-- `preflight_handler`. -/
def preflightHandler (state : AppState) (uri : OriginalUri) (requestHeaders : HeaderMap) :
    Except AppError Response :=
  match parseTargetUrl uri with
  | .error e => .error e
  | .ok targetUrl =>
      match checkScheme targetUrl with
      | .error e => .error e
      | .ok () =>
          match validateTargetPolicy state targetUrl (.fromHeaders requestHeaders) with
          | .error e => .error e
          | .ok () => .ok (preflightResponse requestHeaders)

variable [IpAddrs]

/-- The limit key of a request. -/
def Server.limitKey (server : Server) (request : Incoming) : RateLimitKey :=
  .fromRequestParts request.parts server.realIpHeader

/-- The handler of `GET /{*target}`, which also answers `HEAD`. -/
def Server.proxy (server : Server) (request : Incoming) : Prog Io Response := do
  let result ← proxyHandler server.state request.uri (server.limitKey request)
    request.parts.headers
  return intoResponse result

/-- The router of `main`. -/
def Server.handle (server : Server) (request : Incoming) : Prog Io Response :=
  match route request.uri.path with
  | .root => return rootNotFound
  | .none => return noRoute
  | .target =>
      match request.method with
      | .get | .head => server.proxy request
      | .options =>
          return intoResponse
            (preflightHandler server.state request.uri request.parts.headers)
      | .other _ => return methodNotAllowed

/-- A request to the server, up to the body: the router inside `cors_layer`. -/
def Server.respond (server : Server) (request : Incoming) : Prog Io Response := do
  let response ← server.handle request
  return { response with headers := corsLayer request.parts.headers response.headers }

/-- A request to the server.  The body of an answer to `HEAD` is dropped before it is polled. -/
def Server.serve (server : Server) (request : Incoming) : Prog Io Response := do
  let response ← server.respond request
  if request.method ≠ .head then response.body.stream
  return response

/-! ## What a browser sees -/

/-- The lines of a header, combined. -/
def combined (headers : HeaderMap) (name : HeaderName) : Option Str :=
  match headers.getAll name with
  | [] => none
  | value :: values => some (", ".toList.intercalate ((value :: values).map HeaderValue.text))

/-- A response to a browser. -/
def Response.view (response : Response) : Fetch.ResponseView where
  status := response.status
  header := fun name => (HeaderName.fromBytes name).bind (combined response.headers)

omit [Crates] [UnicodeTables] [IpAddrs] in
/-- A header with one line. -/
theorem combined_singleton {headers : HeaderMap} {name : HeaderName} {value : HeaderValue}
    (h : headers.getAll name = [value]) : combined headers name = some value.text := by
  unfold combined
  rw [h]
  simp [List.intercalate]

omit [Crates] [UnicodeTables] [IpAddrs] in
/-- The middleware replaces a generated header by the one of the request. -/
theorem header_corsLayer {request inner : HeaderMap} {response : Response} {name : HeaderName}
    {value : HeaderValue} (hlayer : response.headers = corsLayer request inner)
    (hname : name ∈ generatedHeaders) (hvalue : (corsHeaders request).getAll name = [value]) :
    response.view.header name.text = some value.text := by
  have hvary : name ≠ .vary := by
    rintro rfl
    exact absurd hname (by decide)
  have hlines := (getAll_corsLayer request inner).1 name hvary
  rw [if_pos hname, hvalue, ← hlayer] at hlines
  show (HeaderName.fromBytes name.text).bind (combined response.headers) = _
  rw [HeaderName.fromBytes_text]
  exact combined_singleton hlines

omit [Crates] [UnicodeTables] [IpAddrs] in
/-- The generated headers of a request with an origin that can be read. -/
theorem getAll_corsHeaders {request : HeaderMap} {origin : HeaderValue}
    (horigin : request.get .origin = some origin) (hvisible : origin.isVisible = true) :
    (corsHeaders request).getAll .accessControlAllowOrigin = [origin] ∧
      (corsHeaders request).getAll .accessControlAllowCredentials =
        [.fromStatic "true".toList] ∧
      (corsHeaders request).getAll .accessControlAllowMethods =
        [.fromStatic "GET, OPTIONS".toList] := by
  obtain ⟨allowHeaders, heq⟩ := corsHeaders_eq request
  have hallowed : allowedOrigin request = origin := by
    unfold allowedOrigin
    rw [horigin]
    exact if_pos hvisible
  rw [heq, hallowed]
  exact ⟨rfl, rfl, rfl⟩

omit [Crates] [UnicodeTables] [IpAddrs] in
/-- The allowed headers are those that were asked for, or `Authorization`. -/
theorem getAll_allowHeaders (request : HeaderMap) :
    (corsHeaders request).getAll .accessControlAllowHeaders =
      [((request.get .accessControlRequestHeaders).filter fun v => v.bytes ≠ []).getD
        (.fromStatic "Authorization".toList)] := by
  unfold corsHeaders
  simp only [MultiMap.getAll_insert]
  rw [if_neg (by decide), if_neg (by decide), if_pos trivial]

omit [Crates] [UnicodeTables] [IpAddrs] in
/-- What a preflight asks for is listed by the answer. -/
theorem allowHeaders_listed {request : HeaderMap} {names : List Str}
    (htokens : ∀ name ∈ names, Fetch.IsToken name)
    (hasked : (request.get .accessControlRequestHeaders).map HeaderValue.text =
      Fetch.askedHeaders names) :
    ∃ value allowed, (corsHeaders request).getAll .accessControlAllowHeaders = [value] ∧
      Fetch.extractTokens value.text = some allowed ∧ ∀ name ∈ names, name ∈ allowed := by
  cases names with
  | nil =>
      have hnone : request.get .accessControlRequestHeaders = none :=
        Option.map_eq_none_iff.mp hasked
      refine ⟨.fromStatic "Authorization".toList, ["Authorization".toList], ?_, by decide,
        List.forall_mem_nil _⟩
      rw [getAll_allowHeaders, hnone]
      rfl
  | cons first rest =>
      have hne : first :: rest ≠ [] := List.cons_ne_nil first rest
      have hlist : Fetch.askedHeaders (first :: rest) =
          some ([','].intercalate (first :: rest)) := if_neg hne
      obtain ⟨asked, hget, htext⟩ := Option.map_eq_some_iff.mp (hasked.trans hlist)
      have htokens' := Fetch.extractTokens_intercalate hne htokens
      rw [← htext] at htokens'
      have hbytes : asked.bytes ≠ [] := by
        intro hnil
        have hempty : asked.text = [] := by
          unfold HeaderValue.text
          rw [hnil]
          rfl
        rw [hempty] at htokens'
        exact absurd (Option.some.inj htokens') (List.cons_ne_nil first rest).symm
      have hvalue : ((some asked).filter fun v => v.bytes ≠ []) = some asked :=
        Option.filter_some_pos (decide_eq_true hbytes)
      refine ⟨asked, first :: rest, ?_, htokens', fun _ h => h⟩
      rw [getAll_allowHeaders, hget, hvalue]
      rfl

/-- Every answer is that of a route, with the headers of the middleware. -/
theorem respond_of_trace {server : Server} {request : Incoming} {es : List (Event Io)}
    {response : Response} (h : Trace (server.respond request) es response) :
    ∃ inner, Trace (server.handle request) es inner ∧ response.status = inner.status ∧
      response.headers = corsLayer request.parts.headers inner.headers := by
  obtain ⟨es₁, inner, es₂, rfl, hinner, hrest⟩ := Trace.bind_iff.mp h
  obtain ⟨rfl, rfl⟩ := Trace.ret_iff.mp hrest
  exact ⟨inner, (List.append_nil es₁).symm ▸ hinner, rfl, rfl⟩

variable {server : Server} {request : Incoming} {es : List (Event Io)} {response : Response}
  {origin : HeaderValue}

/-- The headers that the browser's checks look at first. -/
theorem view_of_trace (horigin : request.parts.headers.get .origin = some origin)
    (hvisible : origin.isVisible = true) (ht : Trace (server.respond request) es response) :
    response.view.header "access-control-allow-origin".toList = some origin.text ∧
      response.view.header "access-control-allow-credentials".toList = some "true".toList ∧
      response.view.header "access-control-allow-methods".toList =
        some "GET, OPTIONS".toList := by
  obtain ⟨inner, -, -, hlayer⟩ := respond_of_trace ht
  obtain ⟨hallowed, hcredentials, hmethods⟩ := getAll_corsHeaders horigin hvisible
  refine ⟨header_corsLayer hlayer (by decide) hallowed, ?_, ?_⟩
  · exact (header_corsLayer hlayer (by decide) hcredentials).trans (by decide)
  · exact (header_corsLayer hlayer (by decide) hmethods).trans (by decide)

/-- **Every answer passes the CORS check** of the browser that asked, with and without credentials:
whatever the route, the method, the policy, the limits, the cache and the upstream make of it. -/
theorem cors_check_passes (horigin : request.parts.headers.get .origin = some origin)
    (hvisible : origin.isVisible = true) (ht : Trace (server.respond request) es response)
    (credentials : Bool) : Fetch.corsCheck credentials origin.text response.view = true := by
  obtain ⟨hallowed, hcredentials, -⟩ := view_of_trace horigin hvisible ht
  exact Fetch.corsCheck_of_echo hallowed hcredentials

/-- A server with the example configuration. -/
def exampleServer : Server := ⟨exampleState, "X-Real-IP".toList⟩

/-- The headers of a page of `https://app.test`. -/
def browserHeaders (headers : HeaderMap) : HeaderMap :=
  (.origin, .fromStatic "https://app.test".toList) :: headers

/-- Its request for `https://example.com/x`. -/
def browserRequest (method : Method) (headers : HeaderMap) : @Incoming dottedAddrs :=
  @Incoming.mk dottedAddrs method plainRequest.uri (fromPeer (browserHeaders headers))

/-- How it goes when nothing fails and the upstream answers. -/
def browserAnswer (method : Method) (headers : HeaderMap) : Response :=
  (exec (calmListing [] firstAnswer) (@Server.respond reference asciiTables dottedAddrs
    exampleServer (browserRequest method headers)) ∅).1

omit [Crates] [UnicodeTables] [IpAddrs] in
/-- For an answer of the upstream. -/
theorem cors_check_passes_get :
    Fetch.corsCheck true "https://app.test".toList (browserAnswer .get []).view = true ∧
      (browserAnswer .get []).status = 200 :=
  have hread : (HeaderValue.fromStatic "https://app.test".toList).text =
    "https://app.test".toList := by decide
  ⟨hread ▸ @cors_check_passes reference asciiTables dottedAddrs exampleServer
    (browserRequest .get []) _ _ (.fromStatic "https://app.test".toList) rfl (by decide)
    (trace_exec (calmListing [] firstAnswer) _ ∅) true, by decide +kernel⟩

/-! ## Preflights -/

omit [IpAddrs] in
/-- A preflight is answered 204 exactly when the policy admits the target and the origin. -/
theorem preflightHandler_cases (state : AppState) (uri : OriginalUri) (requestHeaders : HeaderMap) :
    ((∃ target, parseTargetUrl uri = .ok target ∧
        Permitted state (.fromHeaders requestHeaders) target) ∧
      preflightHandler state uri requestHeaders = .ok (preflightResponse requestHeaders)) ∨
    ((¬∃ target, parseTargetUrl uri = .ok target ∧
        Permitted state (.fromHeaders requestHeaders) target) ∧
      ∃ e, preflightHandler state uri requestHeaders = .error e) := by
  unfold preflightHandler
  cases hparse : parseTargetUrl uri with
  | error e =>
      refine .inr ⟨?_, e, rfl⟩
      rintro ⟨target, htarget, -⟩
      cases htarget
  | ok targetUrl =>
      have hvalid : validateTargetPolicy state targetUrl (.fromHeaders requestHeaders) = .ok () ↔
          Permitted state (.fromHeaders requestHeaders) targetUrl := validateTargetPolicy_eq_ok
      dsimp only
      by_cases hpermitted : Permitted state (.fromHeaders requestHeaders) targetUrl
      · refine .inl ⟨⟨targetUrl, rfl, hpermitted⟩, ?_⟩
        have hscheme : checkScheme targetUrl = .ok () := if_pos hpermitted.1
        rw [hscheme, hvalid.mpr hpermitted]
      · refine .inr ⟨?_, ?_⟩
        · rintro ⟨target, htarget, htarget'⟩
          obtain rfl := Except.ok.inj htarget
          exact hpermitted htarget'
        · split
          · exact ⟨_, rfl⟩
          · split
            · exact ⟨_, rfl⟩
            · next hok => exact absurd (hvalid.mp hok) hpermitted

omit [Crates] [UnicodeTables] [IpAddrs] in
/-- An error of a handler is no success. -/
theorem AppError.status_not_ok (e : AppError) :
    ¬(200 ≤ e.intoResponse.status ∧ e.intoResponse.status < 300) := by
  show ¬(200 ≤ e.status ∧ e.status < 300)
  unfold AppError.status
  split <;> decide

/-- **A preflight passes exactly when the policy admits the request it asks about**: for any
headers, also none, any credentials mode and any origin that can be read. -/
theorem preflight_passes_iff (hmethod : request.method = .options)
    (hroute : route request.uri.path = .target)
    (horigin : request.parts.headers.get .origin = some origin)
    (hvisible : origin.isVisible = true) {names : List Str}
    (htokens : ∀ name ∈ names, Fetch.IsToken name)
    (hasked : (request.parts.headers.get .accessControlRequestHeaders).map HeaderValue.text =
      Fetch.askedHeaders names)
    (ht : Trace (server.respond request) es response) (credentials : Bool) :
    Fetch.preflightCheck credentials origin.text "GET".toList names response.view = true ↔
      ∃ target, parseTargetUrl request.uri = .ok target ∧
        Permitted server.state (.fromHeaders request.parts.headers) target := by
  obtain ⟨hallowed, hcredentials, hmethods⟩ := view_of_trace horigin hvisible ht
  obtain ⟨inner, hinner, hstatus, hlayer⟩ := respond_of_trace ht
  have hhandle : server.handle request =
      .ret (intoResponse (preflightHandler server.state request.uri request.parts.headers)) := by
    unfold Server.handle
    rw [hroute, hmethod]
    rfl
  rw [hhandle] at hinner
  obtain ⟨-, rfl⟩ := Trace.ret_iff.mp hinner
  rcases preflightHandler_cases server.state request.uri request.parts.headers with
    ⟨hadmitted, hok⟩ | ⟨hrefused, e, herror⟩
  · refine iff_of_true ?_ hadmitted
    obtain ⟨value, allowed, hvalue, htext, hsub⟩ := allowHeaders_listed htokens hasked
    have hheaders : response.view.header "access-control-allow-headers".toList =
        some value.text := header_corsLayer hlayer (by decide) hvalue
    have hlisted : Fetch.listed (response.view.header "access-control-allow-headers".toList) =
        some allowed := by
      rw [hheaders]
      exact htext
    have hgets : Fetch.listed (response.view.header "access-control-allow-methods".toList) =
        some ["GET".toList, "OPTIONS".toList] := by
      rw [hmethods]
      decide
    rw [hok] at hstatus
    refine Fetch.preflightCheck_of_listed hallowed hcredentials ?_ hgets (by decide) hlisted hsub
    show 200 ≤ response.status ∧ response.status < 300
    rw [hstatus]
    show 200 ≤ 204 ∧ 204 < 300
    decide
  · refine iff_of_false ?_ hrefused
    rw [herror] at hstatus
    rw [Fetch.preflightCheck_of_status]
    · decide
    · show ¬(200 ≤ response.status ∧ response.status < 300)
      rw [hstatus]
      exact e.status_not_ok

omit [Crates] [UnicodeTables] [IpAddrs] in
/-- A preflight that asks for two headers, and one that asks for none. -/
theorem preflight_passes_iff_options :
    Fetch.preflightCheck true "https://app.test".toList "GET".toList
        ["authorization".toList, "x-token".toList]
        (browserAnswer .options [(.accessControlRequestHeaders,
          .fromStatic "authorization,x-token".toList)]).view = true ∧
      Fetch.preflightCheck true "https://app.test".toList "GET".toList []
        (browserAnswer .options []).view = true :=
  have hread : (HeaderValue.fromStatic "https://app.test".toList).text =
    "https://app.test".toList := by decide
  have hadmitted : ∃ target, @parseTargetUrl reference plainRequest.uri = .ok target ∧
      Permitted exampleState (@Origin.fromHeaders reference asciiTables
        (browserHeaders [(.accessControlRequestHeaders,
          .fromStatic "authorization,x-token".toList)])) target :=
    ⟨exampleUrl, by decide +kernel, validateTargetPolicy_eq_ok.mp (by decide +kernel)⟩
  have hplain : ∃ target, @parseTargetUrl reference plainRequest.uri = .ok target ∧
      Permitted exampleState (@Origin.fromHeaders reference asciiTables (browserHeaders []))
        target :=
    ⟨exampleUrl, by decide +kernel, validateTargetPolicy_eq_ok.mp (by decide +kernel)⟩
  ⟨hread ▸ (@preflight_passes_iff reference asciiTables dottedAddrs exampleServer
    (browserRequest .options [(.accessControlRequestHeaders,
      .fromStatic "authorization,x-token".toList)]) _ _
    (.fromStatic "https://app.test".toList) rfl (by decide) rfl (by decide) _ (by decide)
    (by decide) (trace_exec (calmListing [] firstAnswer) _ ∅) true).mpr hadmitted,
  hread ▸ (@preflight_passes_iff reference asciiTables dottedAddrs exampleServer
    (browserRequest .options []) _ _ (.fromStatic "https://app.test".toList) rfl (by decide) rfl
    (by decide) [] (List.forall_mem_nil _) rfl
    (trace_exec (calmListing [] firstAnswer) _ ∅) true).mpr hplain⟩

/-- What the policy leaves of a request: the tiers, then the admitted request. -/
def Server.admitted (server : Server) (request : Incoming) (target : Url) : Prog Io Response := do
  let result ← (do
    match ← checkTiers (server.limitKey request) server.state.rateLimit with
    | .error e => return .error e
    | .ok (some response) => return .ok response
    | .ok none =>
        answerAdmitted server.state (server.limitKey request) request.parts.headers target)
  return intoResponse result

/-- **A preflight predicts the request it asks about.**  For one URI and requests with the same
origin: either both are refused at once, with the same status, message and nothing done, or the
preflight is answered 204 and the policy does not stop the request. -/
theorem preflight_predicts {preflight actual : Incoming} (hpreflight : preflight.method = .options)
    (hactual : actual.method = .get ∨ actual.method = .head) (huri : preflight.uri = actual.uri)
    (hroute : route actual.uri.path = .target)
    (horigin : Origin.fromHeaders preflight.parts.headers =
      Origin.fromHeaders actual.parts.headers) :
    (∃ e, server.handle preflight = .ret (AppError.intoResponse e) ∧
      server.handle actual = .ret (AppError.intoResponse e)) ∨
    (server.handle preflight = .ret (preflightResponse preflight.parts.headers) ∧
      ∃ target, parseTargetUrl actual.uri = .ok target ∧
        server.handle actual = server.admitted actual target) := by
  have hanswer : server.handle preflight = .ret
      (intoResponse (preflightHandler server.state actual.uri preflight.parts.headers)) := by
    unfold Server.handle
    rw [huri, hroute, hpreflight]
    rfl
  have hproxy : server.handle actual = server.proxy actual := by
    unfold Server.handle
    rw [hroute]
    rcases hactual with h | h
    · rw [h]
    · rw [h]
  have hkey : (server.limitKey actual).origin = .fromHeaders preflight.parts.headers :=
    horigin.symm
  rw [hanswer, hproxy]
  unfold Server.proxy preflightHandler
  cases hparse : parseTargetUrl actual.uri with
  | error e =>
      refine .inl ⟨e, rfl, ?_⟩
      unfold proxyHandler
      rw [hparse]
      rfl
  | ok target =>
      dsimp only
      by_cases hpermitted : Permitted server.state (.fromHeaders preflight.parts.headers) target
      · refine .inr ⟨?_, target, rfl, ?_⟩
        · have hscheme : checkScheme target = .ok () := if_pos hpermitted.1
          rw [hscheme, validateTargetPolicy_eq_ok.mpr hpermitted]
          rfl
        · rw [proxyHandler_of_permitted hparse (hkey ▸ hpermitted)]
          rfl
      · refine .inl ?_
        unfold proxyHandler
        rw [hparse, hkey]
        dsimp only
        cases checkScheme target with
        | error e => exact ⟨e, rfl, rfl⟩
        | ok _ =>
            dsimp only
            cases hpolicy : validateTargetPolicy server.state target
                (.fromHeaders preflight.parts.headers) with
            | error e => exact ⟨e, rfl, rfl⟩
            | ok _ => exact absurd (validateTargetPolicy_eq_ok.mp hpolicy) hpermitted

omit [Crates] [UnicodeTables] [IpAddrs] in
/-- A preflight that is answered 204. -/
theorem preflight_predicts_get :
    (∃ e, @Server.handle reference asciiTables dottedAddrs exampleServer
          (browserRequest .options []) = .ret (AppError.intoResponse e) ∧
        @Server.handle reference asciiTables dottedAddrs exampleServer
          (browserRequest .get []) = .ret (AppError.intoResponse e)) ∨
      (@Server.handle reference asciiTables dottedAddrs exampleServer
          (browserRequest .options []) =
            .ret (preflightResponse (browserHeaders [])) ∧
        ∃ target, @parseTargetUrl reference plainRequest.uri = .ok target ∧
          @Server.handle reference asciiTables dottedAddrs exampleServer (browserRequest .get []) =
            @Server.admitted reference asciiTables dottedAddrs exampleServer
              (browserRequest .get []) target) :=
  @preflight_predicts reference asciiTables dottedAddrs exampleServer (browserRequest .options [])
    (browserRequest .get []) rfl (.inl rfl) rfl (by decide) rfl

/-! ## `HEAD` -/

section Bodiless

omit [UnicodeTables] [IpAddrs]

/-- What a request whose answer has no body may do: it charges and delivers nothing, reads no file
but metadata, and writes to no body.  The files that it creates are temporary bodies, which it
leaves empty; it writes temporary metadata only, and removes and replaces no file but metadata. -/
def Bodiless : IoOp → Prop
  | .fs (.read path) => ∃ key, path = metaPath key
  | .fs (.create path) => ∃ key tempId, path = tempBodyPath key tempId
  | .fs (.write path _) => ∃ key tempId, path = tempMetaPath key tempId
  | .fs (.rename source path) =>
      (∃ key tempId, source = tempMetaPath key tempId) ∧ ∃ key, path = metaPath key
  | .fs (.removeFile path) => ∃ key, path = metaPath key
  | .fs (.writeAll _ _) | .fs (.flush _) | .fs (.openFile _) | .fs .readDir => False
  | .charge _ _ | .yield _ => False
  | _ => True

theorem writeMetadata_bodiless (entry : CacheEntry) :
    Meets Bodiless (fun _ => True) (writeMetadata entry) := by
  unfold writeMetadata
  simp only [Io.fetchAdd_bind, Io.write_bind]
  refine ⟨trivial, fun tempId => ⟨⟨_, _, rfl⟩, fun r => ?_⟩⟩
  rcases r with e | ⟨⟩
  · trivial
  · exact ⟨⟨⟨_, _, rfl⟩, ⟨_, rfl⟩⟩, fun _ => trivial⟩

theorem lookup_bodiless (plan : CachePlan) (now : ℕ) :
    Meets Bodiless (fun _ => True) (lookup plan now) := by
  unfold lookup
  simp only [Io.read_bind, Io.metadata_bind, Io.removeFile_bind]
  refine ⟨⟨_, rfl⟩, fun r => ?_⟩
  rcases r with e | data
  · trivial
  · dsimp only
    split
    · exact ⟨⟨_, rfl⟩, fun _ => trivial⟩
    · refine ⟨trivial, fun bodyLen => ?_⟩
      dsimp only
      split
      · exact ⟨⟨_, rfl⟩, fun _ => trivial⟩
      · exact (writeMetadata_bodiless _).bind fun _ _ => trivial

theorem beginWrite_bodiless (plan : CachePlan) (status : ℕ) (headers requestHeaders : HeaderMap) :
    Meets Bodiless (fun _ => True) (beginWrite plan status headers requestHeaders) := by
  rcases beginWrite_cases plan status headers requestHeaders with
    ⟨hrefused, -⟩ | ⟨vary, hopens, -⟩
  · rw [hrefused]
    trivial
  · rw [hopens]
    refine ⟨trivial, fun created => ⟨trivial, fun accessed => ⟨trivial, fun now => ?_⟩⟩⟩
    dsimp only
    split
    · trivial
    · refine ⟨trivial, fun tempId => ⟨⟨_, _, rfl⟩, fun r => ?_⟩⟩
      rcases r with e | ⟨⟩
      · trivial
      · trivial

theorem discipline_bodiless (plan : CachePlan) :
    Discipline (fun _ => True) Bodiless plan (fun _ => True) (fun _ => True) where
  lookup now := (Assuming.of_meets (lookup_bodiless plan now)).mono (fun _ h => h)
    fun _ _ _ _ => trivial
  refresh entry headers _ := by
    unfold refresh
    simp only [Io.nowSeconds_bind, Io.systemTime_bind]
    refine Assuming.op trivial fun created _ => Assuming.op trivial fun now _ => ?_
    exact (Assuming.of_meets (writeMetadata_bodiless _)).bind fun _ _ => trivial
  beginWrite status headers requestHeaders :=
    (Assuming.of_meets (beginWrite_bodiless plan status headers requestHeaders)).mono
      (fun _ h => h) fun _ _ _ _ => trivial

end Bodiless

/-- **A `HEAD` request is a `GET` whose body is thrown away.**  The handler may ask the limits, the
cache and the upstream; nothing is charged or delivered, nothing is committed, no body is opened
or written, and the temporary file that `begin_write` may have created stays behind, empty. -/
theorem head_discards_body (hmethod : request.method = .head)
    (ht : Trace (server.serve request) es response) : ∀ e ∈ es, Bodiless e.1 := by
  have hrest : AllowsHandler Bodiless := ⟨trivial, fun _ _ => trivial, fun _ => trivial⟩
  have hproxy : Assuming (fun _ => True) Bodiless (fun _ => True) (server.proxy request) := by
    have hhandler : Assuming (fun _ => True) Bodiless
        (Obeys (fun _ => True) (fun _ => True) fun _ => True)
        (proxyHandler server.state request.uri (server.limitKey request)
          request.parts.headers) :=
      proxyHandler_assuming hrest (fun _ _ plan _ => discipline_bodiless plan) (fun _ _ => trivial)
        fun _ _ => trivial
    exact hhandler.bind fun _ _ => trivial
  have hserve : Assuming (fun _ => True) Bodiless (fun _ => True) (server.serve request) := by
    unfold Server.serve Server.respond
    rw [Prog.bind_assoc]
    refine Assuming.bind (Q := fun _ => True) ?_ fun response _ => ?_
    · unfold Server.handle
      rw [hmethod]
      split
      · trivial
      · trivial
      · exact hproxy
    · simp only [hmethod]
      trivial
  intro e he
  obtain ⟨before, after, hsplit⟩ := List.append_of_mem he
  exact (hserve.of_trace ht).1 before e after hsplit fun _ _ => trivial

/-- What such a request does when the answer of the upstream could have been stored. -/
def headEvents : List (Event Io) :=
  execEvents (calmListing [] firstAnswer) (@Server.serve reference asciiTables dottedAddrs
    exampleServer (browserRequest .head [])) ∅

omit [Crates] [UnicodeTables] [IpAddrs] in
theorem head_discards_body_miss :
    headEvents.any (fun e => e.1.isSend) = true ∧ ∀ e ∈ headEvents, @Bodiless reference e.1 :=
  ⟨by decide +kernel,
    @head_discards_body reference asciiTables dottedAddrs exampleServer (browserRequest .head [])
      _ _ rfl (trace_exec (calmListing [] firstAnswer) _ ∅)⟩

end Server

end Corsget
