import Corsget.CacheStore
import Corsget.Overrides

/-!
# The proxy handler

`proxy.rs`: reading the target URL, the access policy, the request limits, the
cache lookup, the redirect loop, and the response whose body is streamed to the
consumer while it is teed into the cache.

The handler returns a `Response` whose body has not been read yet.
`Body.stream` is what happens when the server polls it: opening and reading the
cached file, or forwarding the upstream's chunks.
-/

namespace Corsget

open Text Effect

/-! ## Errors and responses -/

/-- `AppError`. -/
inductive AppError where
  | badUrl (message : Str)
  | denied (message : Str)
  | tooLarge (message : Str)
  | upstream (message : Str)
  | limitBackend (message : Str)
deriving DecidableEq

/-- The status of `AppError::into_response`. -/
def AppError.status : AppError → ℕ
  | badUrl _ => 400
  | denied _ => 403
  | tooLarge _ => 413
  | upstream _ => 502
  | limitBackend _ => 503

/-- `impl From<reqwest::Error> for AppError`. -/
def AppError.fromClient (e : ClientError) : AppError :=
  if e.isTimeout then .upstream ("upstream timeout: ".toList ++ e.text)
  else if e.isRedirect then .upstream ("too many redirects: ".toList ++ e.text)
  else .upstream e.text

/-- The body of a response, before it is streamed. -/
inductive Body where
  /-- Bytes the proxy generated. -/
  | full (bytes : Bytes)
  /-- A cached body file. -/
  | cached (path bucket : Str) (guard : ResultSizeGuard)
  /-- An upstream body, teed into a cache writer if there is one. -/
  | live (items : List (Except Str Bytes)) (bucket : Str) (guard : ResultSizeGuard)
      (cache : Option Cache) (writer : Option CacheWriter)

/-- A response of the handler. -/
structure Response where
  status : ℕ
  headers : HeaderMap
  body : Body

/-! ## State -/

/-- The parts of `AppState` that the handler reads. -/
structure AppState where
  matchPolicy : MatchPolicy
  /-- `connection.rate_limit` -/
  rateLimit : List LimitTier
  /-- `connection.bandwidth_limit.result.max` -/
  resultMax : ℕ
  /-- `proxy.max_redirects` -/
  maxRedirects : ℕ
  cache : Option Cache
  headerOverrides : HeaderOverridePolicy

/-- The request URI: its scheme in absolute form, its path and query, and its
text. -/
structure OriginalUri where
  scheme : Option Str
  pathAndQuery : Option Str
  text : Str
deriving DecidableEq

section Handler

variable [Crates]

/-! ## Target and policy -/

/-- `str::starts_with`. -/
def startsWith (s pre : Str) : Bool := pre.isPrefixOf s

/-- `parse_target_url`. -/
def parseTargetUrl (uri : OriginalUri) : Except AppError Url :=
  match uri.scheme with
  | some scheme =>
      if scheme ≠ "http".toList ∧ scheme ≠ "https".toList then
        .error (.badUrl ("unsupported scheme `".toList ++ scheme ++
          "`; only http/https are allowed".toList))
      else (Crates.urlParse uri.text).mapError .badUrl
  | none =>
      let pathAndQuery := uri.pathAndQuery.getD []
      let raw := if startsWith pathAndQuery ['/'] then pathAndQuery.drop 1 else pathAndQuery
      if raw = [] then .error (.badUrl "no target url provided".toList)
      else
        let withScheme :=
          if startsWith raw "http://".toList || startsWith raw "https://".toList then raw
          else if startsWith raw "//".toList then "https://".toList ++ raw.drop 2
          else "https://".toList ++ raw
        (Crates.urlParse withScheme).mapError .badUrl

/-- The scheme check of `proxy_handler` and of `validate_target_policy`. -/
def checkScheme (url : Url) : Except AppError Unit :=
  if url.scheme = "http".toList ∨ url.scheme = "https".toList then .ok ()
  else .error (.badUrl ("unsupported scheme `".toList ++ url.scheme ++
    "`; only http/https are allowed".toList))

/-- `validate_target_policy`. -/
def validateTargetPolicy (state : AppState) (targetUrl : Url) (origin : Origin) :
    Except AppError Unit := do
  checkScheme targetUrl
  match targetUrl.host with
  | none => .error (.badUrl "target url has no host".toList)
  | some targetHost =>
      if state.matchPolicy.target.isAllowed targetHost = false then
        .error (.denied ("target `".toList ++ targetHost ++ "` is not allowed".toList))
      else
        match origin.host with
        | some originHost =>
            if state.matchPolicy.origin.isAllowed originHost then .ok ()
            else .error (.denied ("origin `".toList ++ originHost ++ "` is not allowed".toList))
        | none =>
            if state.matchPolicy.origin.hasWhitelist then
              .error (.denied "a valid Origin or Referer header is required".toList)
            else .ok ()

/-! ## Header forwarding -/

/-- The value `forward_headers` gives to `Host`; nothing when the URL has a port
but no host. -/
def hostOf (url : Url) : Option Str :=
  match url.port with
  | some port => url.host.map fun host => host ++ ':' :: decimal port
  | none => some (url.host.getD [])

/-- The client headers that `forward_headers` keeps. -/
def isForwarded (source : HeaderMap) (name : HeaderName) : Bool :=
  !(isHopByHop name.text || isNominated source name) && name != .host

/-- `forward_headers`. -/
def forwardHeaders (source : HeaderMap) (targetUrl : Url) : HeaderMap :=
  let out := source.filter fun line => isForwarded source line.1
  match hostOf targetUrl with
  | none => out
  | some host =>
      match HeaderValue.fromStr host with
      | none => out
      | some value => MultiMap.insert out .host value

/-- The upstream headers that `copy_response_headers` drops. -/
def isStripped (source : HeaderMap) (bodyMayBeTruncated : Bool) (name : HeaderName) : Bool :=
  isHopByHop name.text || isCorsResponseHeader name.text || isNominated source name ||
    (bodyMayBeTruncated && name == .contentLength)

/-- `copy_response_headers`. -/
def copyResponseHeaders (source : HeaderMap) (bodyMayBeTruncated : Bool) : HeaderMap :=
  source.filter fun line => !isStripped source bodyMayBeTruncated line.1

/-- The headers of an upstream request for `url`: the client's, with the
validators of a cached entry. -/
def upstreamHeaders (requestHeaders : HeaderMap) (cachedEntry : Option CacheEntry) (url : Url) :
    HeaderMap :=
  let forwarded := forwardHeaders requestHeaders url
  match cachedEntry with
  | none => forwarded
  | some entry => addValidators forwarded entry

/-! ## Cached responses -/

/-- The values of `X-Cache`. -/
def cacheHit : HeaderValue := .fromStatic "HIT".toList
def cacheMiss : HeaderValue := .fromStatic "MISS".toList
def cacheRevalidated : HeaderValue := .fromStatic "REVALIDATED".toList

/-- The headers of `cached_response` before the overrides. -/
def cachedResponseHeaders (entry : CacheEntry) (resultMax : ℕ) (cacheStatus : HeaderValue) :
    HeaderMap :=
  let headers := headersFromEntry entry
  let headers := if resultMax ≠ 0 then MultiMap.remove headers .contentLength else headers
  addCacheHeader headers cacheStatus

/-- `cached_response`. -/
def cachedResponse (state : AppState) (entry : CacheEntry) (bucket : Str) (resultMax : ℕ)
    (cacheStatus : HeaderValue) (requestedUrl : Url) : Except AppError Response :=
  if ¬(100 ≤ entry.status ∧ entry.status < 1000) then
    .error (.upstream "invalid cached status: invalid status code".toList)
  else
    let headers := cachedResponseHeaders entry resultMax cacheStatus
    let headers := state.headerOverrides.apply headers requestedUrl requestedUrl
    let guard := ResultSizeGuard.new resultMax
    if guard.wouldExceed entry.bodyLen then
      .error (.tooLarge ("cached response body (".toList ++ decimal entry.bodyLen ++
        ") exceeds per-result cap (".toList ++ decimal resultMax ++ ")".toList))
    else .ok {
      status := entry.status
      headers := headers
      body := .cached entry.bodyPath bucket guard }

omit [Crates] in
/-- The body of a cached response is the entry's file. -/
theorem cachedResponse_body {state : AppState} {entry : CacheEntry} {bucket : Str}
    {resultMax : ℕ} {cacheStatus : HeaderValue} {url : Url} {response : Response}
    (h : cachedResponse state entry bucket resultMax cacheStatus url = .ok response) :
    response.body = .cached entry.bodyPath bucket (ResultSizeGuard.new resultMax) := by
  unfold cachedResponse at h
  split at h
  · cases h
  · dsimp only at h
    split at h
    · cases h
    · obtain rfl := Except.ok.inj h
      rfl

/-! ## Redirects -/

/-- `is_followable_redirect`. -/
def isFollowableRedirect (status : ℕ) : Bool :=
  status == 301 || status == 302 || status == 303 || status == 307 || status == 308

/-- The URL a redirect leads to, checked against the policy. -/
def nextHop (state : AppState) (origin : Origin) (base : Url) (headers : HeaderMap) :
    Except AppError Url :=
  match (headers.get .location).bind HeaderValue.toStr with
  | none => .error (.upstream "redirect without Location header".toList)
  | some location =>
      match Crates.urlParse location with
      | .ok url => (validateTargetPolicy state url origin).map fun _ => url
      | .error _ =>
          match Crates.urlJoin base location with
          | .error e => .error (.badUrl e)
          | .ok url => (validateTargetPolicy state url origin).map fun _ => url

/-- How the redirect loop ends when it does not fail: with a confirmed entry, or
with the last response and its URL. -/
inductive Fetched where
  | confirmed (response : Response)
  | final (response : UpstreamResponse) (finalUrl : Url)

/-- The error of the redirect loop when no redirect is left. -/
def redirectLimitReached : AppError := .upstream "redirect limit reached".toList

/-- A 304 confirms the entry: refresh it and serve its body. -/
def confirmEntry (state : AppState) (bucket : Str) (targetUrl : Url) (plan : CachePlan)
    (entry : CacheEntry) (confirmed : HeaderMap) : Prog Io (Except AppError Fetched) := do
  let (entry, written) ← refresh entry confirmed plan.ttl
  match written with
  | .error e => return .error (.upstream ("failed to refresh cache metadata: ".toList ++ e))
  | .ok () =>
      return (cachedResponse state entry bucket state.resultMax cacheRevalidated targetUrl).map
        .confirmed

/-- One turn of the redirect loop of `proxy_handler`: the request for `url` and
the exits of the loop.  `onward` is the rest of the loop for a redirect that is
to be followed. -/
def redirectTurn (state : AppState) (requestHeaders : HeaderMap) (bucket : Str) (targetUrl : Url)
    (plan : Option CachePlan) (cachedEntry : Option CacheEntry) (url : Url)
    (onward : UpstreamResponse → Prog Io (Except AppError Fetched)) :
    Prog Io (Except AppError Fetched) := do
  match ← Io.send { url := url, headers := upstreamHeaders requestHeaders cachedEntry url } with
  | .error e => return .error (.fromClient e)
  | .ok resp =>
      match resp.status == 304, state.cache, plan, cachedEntry with
      | true, some _, some plan, some entry =>
          confirmEntry state bucket targetUrl plan entry resp.headers
      | _, _, _, _ =>
          if isFollowableRedirect resp.status = false then return .ok (.final resp url)
          else if state.maxRedirects = 0 then return .error redirectLimitReached
          else onward resp

/-- The redirect loop of `proxy_handler`, from the request for `url`. -/
def followRedirects (state : AppState) (origin : Origin) (requestHeaders : HeaderMap)
    (bucket : Str) (targetUrl : Url) (plan : Option CachePlan)
    (cachedEntry : Option CacheEntry) : ℕ → Url → Prog Io (Except AppError Fetched)
  | 0, url =>
      redirectTurn state requestHeaders bucket targetUrl plan cachedEntry url fun _ =>
        return .error redirectLimitReached
  | redirectsLeft + 1, url =>
      redirectTurn state requestHeaders bucket targetUrl plan cachedEntry url fun resp =>
        match nextHop state origin url resp.headers with
        | .error e => return .error e
        | .ok nextUrl =>
            followRedirects state origin requestHeaders bucket targetUrl plan cachedEntry
              redirectsLeft nextUrl

/-! ## The handler -/

/-- `content-type: text/plain; charset=utf-8`, which a generated text carries. -/
def plainText : HeaderMap :=
  [(⟨"content-type".toList, by decide⟩, .fromStatic "text/plain; charset=utf-8".toList)]

/-- The 429 of a tier that does not allow the request. -/
def rateLimited (snapshot : Snapshot) : Response where
  status := 429
  headers := MultiMap.update plainText snapshot.headers
  body := .full (utf8 "Rate limit exceeded.".toList)

/-- The request-count limits: the first tier that fails decides. -/
def checkTiers (key : RateLimitKey) : List LimitTier → Prog Io (Except AppError (Option Response))
  | [] => return .ok none
  | tier :: rest => do
      let quota : Quota :=
        { max := min tier.max (2 ^ 64 - 1), periodMs := min (tier.window * 1000) (2 ^ 64 - 1) }
      match ← Io.checkLimit key quota with
      | .error e => return .error (.limitBackend e)
      | .ok snapshot =>
          if snapshot.allowed then checkTiers key rest else return .ok (some (rateLimited snapshot))

/-- The lookup of section 4 of `proxy_handler`. -/
def lookupPlanned (state : AppState) (plan : Option CachePlan) : Prog Io (Option CacheEntry) :=
  match state.cache, plan with
  | some _, some plan => do
      let now ← Io.nowSeconds
      lookup plan now
  | _, _ => return none

/-- The cache writer of section 7 of `proxy_handler`. -/
def beginWritePlanned (state : AppState) (plan : Option CachePlan)
    (upstreamResponse : UpstreamResponse) (requestHeaders : HeaderMap) :
    Prog Io (Option CacheWriter) :=
  match state.cache, plan with
  | some _, some plan =>
      beginWrite plan upstreamResponse.status upstreamResponse.headers requestHeaders
  | _, _ => return none

/-- The headers of a live response: the upstream's, `X-Cache` for a planned
request, and the overrides. -/
def liveResponseHeaders (state : AppState) (targetUrl finalUrl : Url) (plan : Option CachePlan)
    (revalidated : Bool) (source : HeaderMap) : HeaderMap :=
  let headers := copyResponseHeaders source (state.resultMax != 0)
  let headers :=
    if plan.isSome then addCacheHeader headers (if revalidated then cacheRevalidated else cacheMiss)
    else headers
  state.headerOverrides.apply headers targetUrl finalUrl

/-- The response of `proxy_handler` to the last upstream response: size check,
headers, overrides, and the cache writer. -/
def liveResponse (state : AppState) (requestHeaders : HeaderMap) (bucket : Str)
    (targetUrl finalUrl : Url) (plan : Option CachePlan) (revalidated : Bool)
    (upstreamResponse : UpstreamResponse) : Prog Io (Except AppError Response) := do
  let guard := ResultSizeGuard.new state.resultMax
  match upstreamResponse.contentLength.filter guard.wouldExceed with
  | some contentLength =>
      return .error (.tooLarge ("response Content-Length (".toList ++ decimal contentLength ++
        ") exceeds per-result cap (".toList ++ decimal state.resultMax ++ ")".toList))
  | none =>
      let headers := liveResponseHeaders state targetUrl finalUrl plan revalidated
        upstreamResponse.headers
      let writer ← beginWritePlanned state plan upstreamResponse requestHeaders
      return .ok
        { status := upstreamResponse.status
          headers := headers
          body := .live upstreamResponse.body bucket guard state.cache writer }

/-- Sections 5 to 7 of `proxy_handler`: what follows when the cache did not
answer. -/
def fetchUpstream (state : AppState) (key : RateLimitKey) (requestHeaders : HeaderMap)
    (targetUrl : Url) (plan : Option CachePlan) (cachedEntry : Option CacheEntry)
    (forceRevalidation : Bool) : Prog Io (Except AppError Response) := do
  match ← followRedirects state key.origin requestHeaders key.bucket targetUrl plan cachedEntry
      state.maxRedirects targetUrl with
  | .error e => return .error e
  | .ok (.confirmed response) => return .ok response
  | .ok (.final upstreamResponse finalUrl) =>
      liveResponse state requestHeaders key.bucket targetUrl finalUrl plan
        (cachedEntry.isSome && forceRevalidation) upstreamResponse

/-- Sections 4 to 7 of `proxy_handler`: the cache, then the upstream. -/
def answerAdmitted (state : AppState) (key : RateLimitKey) (requestHeaders : HeaderMap)
    (targetUrl : Url) : Prog Io (Except AppError Response) := do
  let plan := state.cache.bind fun cache => cache.plan targetUrl requestHeaders
  let cachedEntry ← lookupPlanned state plan
  let forceRevalidation := requestRequiresRevalidation requestHeaders
  match state.cache, cachedEntry, forceRevalidation with
  | some _, some entry, false =>
      let now ← Io.nowSeconds
      if isFresh entry now then
        return cachedResponse state entry key.bucket state.resultMax cacheHit targetUrl
      else
        fetchUpstream state key requestHeaders targetUrl plan cachedEntry forceRevalidation
  | _, _, _ =>
      fetchUpstream state key requestHeaders targetUrl plan cachedEntry forceRevalidation

/-- `proxy_handler`. -/
def proxyHandler (state : AppState) (uri : OriginalUri) (key : RateLimitKey)
    (requestHeaders : HeaderMap) : Prog Io (Except AppError Response) :=
  match parseTargetUrl uri with
  | .error e => return .error e
  | .ok targetUrl =>
      match checkScheme targetUrl with
      | .error e => return .error e
      | .ok () =>
          match validateTargetPolicy state targetUrl key.origin with
          | .error e => return .error e
          | .ok () => do
              match ← checkTiers key state.rateLimit with
              | .error e => return .error e
              | .ok (some response) => return .ok response
              | .ok none => answerAdmitted state key requestHeaders targetUrl

/-! ## Streaming -/

/-- `metered_stream`, handing each of its items to `onItem`: the stream ends
after the first error. -/
def meteredStream {σ : Type} (bucket : Str)
    (onItem : σ → Except MeteredError Bytes → Prog Io σ) :
    ResultSizeGuard → List (Except Str Bytes) → σ → Prog Io σ
  | _, [], s => return s
  | _, .error e :: _, s => onItem s (.error (.upstream e))
  | guard, .ok chunk :: rest, s =>
      match guard.charge chunk.length with
      | (.error e, _) => onItem s (.error (.fromBandwidth e))
      | (.ok (), guard) => do
          -- A connection tier that is exceeded is logged; the chunk goes on.
          let _ ← Io.charge bucket chunk.length
          let s ← onItem s (.ok chunk)
          meteredStream bucket onItem guard rest s

/-- A chunk written to the cache: a failed write gives the writer up. -/
def teeWrite (bytes : Bytes) : Option CacheWriter → Prog Io (Option CacheWriter)
  | none => return none
  | some w => do
      match ← w.write bytes with
      | (w, .ok ()) => return some w
      | (w, .error _) =>
          w.discard
          return none

/-- The writer given up, if there is one. -/
def teeDiscard : Option CacheWriter → Prog Io Unit
  | none => return ()
  | some w => w.discard

/-- One item of the live stream: teed into the writer, then handed over. -/
def teeItem (writer : Option CacheWriter) :
    Except MeteredError Bytes → Prog Io (Option CacheWriter)
  | .ok bytes => do
      let writer ← teeWrite bytes writer
      Io.yield (.ok bytes)
      return writer
  | .error e => do
      teeDiscard writer
      Io.yield (.error e.toText)
      return none

/-- What polling the body of a response to its end does. -/
def Body.stream : Body → Prog Io Unit
  | .full bytes => Io.yield (.ok bytes)
  | .cached path bucket guard => do
      let items ← fileStream path
      meteredStream bucket
        (fun _ item => Io.yield (item.mapError MeteredError.toText)) guard items ()
  | .live items bucket guard cache writer => do
      let writer ← meteredStream bucket teeItem guard items writer
      match cache, writer with
      | some cache, some w => do
          let _ ← w.finish cache
          return ()
      | _, _ => return ()

/-- The server polls the body of the response to its end. -/
def deliver : Except AppError Response → Prog Io (Except AppError Response)
  | .error e => return .error e
  | .ok response => do
      response.body.stream
      return .ok response

/-- A request from its arrival to the end of its response body. -/
def serve (state : AppState) (uri : OriginalUri) (key : RateLimitKey)
    (requestHeaders : HeaderMap) : Prog Io (Except AppError Response) := do
  let result ← proxyHandler state uri key requestHeaders
  deliver result

end Handler

end Corsget
