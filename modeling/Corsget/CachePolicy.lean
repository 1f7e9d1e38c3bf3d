import Corsget.Cors

/-!
# The caching policy

The functions of `cache.rs` that read headers and URLs and touch no file: which
requests have a cache plan and under which key, which responses may be stored
and for how long, and the translation between a header map and the list of
strings kept in the metadata.

Times are in nanoseconds since the epoch where the code holds a `SystemTime`,
and in seconds where it holds `now_seconds()`.
-/

namespace Corsget

open Text

/-- `CACHE_VERSION`. -/
def cacheVersion : ℕ := 1

/-- `CACHE_DIAGNOSTIC_HEADER`. -/
def cacheDiagnosticHeader : HeaderName := ⟨"x-cache".toList, by decide⟩

/-- `SUPPORTED_VARY_HEADERS`. -/
def supportedVaryHeaders : List HeaderName :=
  [.accept, .acceptLanguage, .acceptEncoding, .origin, .authorization]

/-! ## Plans -/

/-- `CachePattern`. -/
inductive CachePattern where
  | exact (host suffix : Str)
  | wildcard (host path : Str → Bool)
  | regex (re : Str → Bool)

/-- `CachePattern::is_match`. -/
def CachePattern.isMatch : CachePattern → Str → Bool
  | .regex re, subject => re subject
  | .exact host suffix, subject => host.isPrefixOf subject && subject.drop host.length == suffix
  | .wildcard host path, subject =>
      match splitOnce '/' subject with
      | none => false
      | some (actualHost, actualPath) => host actualHost && path ('/' :: actualPath)

/-- `CompiledRule`. -/
structure CompiledRule where
  pattern : CachePattern
  maxAge : ℕ

/-- The settings of an initialised cache, `CacheInner` without its directory. -/
structure Cache where
  maxSize : ℕ
  defaultMaxAge : ℕ
  rules : List CompiledRule

/-- `CachePlan`. -/
structure CachePlan where
  key : Str
  ttl : ℕ
deriving DecidableEq

/-- `normalized_url`: host, port, path and query, without scheme, userinfo or
fragment. -/
def normalizedUrl (url : Url) : Str :=
  toAsciiLowercase (url.host.getD []) ++
    (match url.port with
      | none => []
      | some port => ':' :: decimal port) ++
    (if url.path = [] then ['/'] else url.path) ++
    (match url.query with
      | none => []
      | some query => '?' :: query)

/-- What `cache_key` feeds to the hasher for one header: its name, NUL, the
first value if there is one, NUL. -/
def cacheKeyField (headers : HeaderMap) (name : HeaderName) : Bytes :=
  utf8 name.text ++ [0] ++ ((headers.get name).map HeaderValue.bytes).getD [] ++ [0]

/-- Everything `cache_key` feeds to the hasher. -/
def cacheKeyInput (subject : Str) (headers : HeaderMap) : Bytes :=
  utf8 subject ++ supportedVaryHeaders.flatMap (cacheKeyField headers)

section Keys

variable [Crates]

/-- `cache_key`. -/
def cacheKey (subject : Str) (headers : HeaderMap) : Str :=
  Crates.sha256 (cacheKeyInput subject headers)

/-- The age of the last rule that matches. -/
def Cache.ruleMaxAge (cache : Cache) (subject : Str) : Option ℕ :=
  cache.rules.foldl
    (fun ttl rule => if rule.pattern.isMatch subject then some rule.maxAge else ttl) none

/-- `Cache::plan`. -/
def Cache.plan (cache : Cache) (url : Url) (headers : HeaderMap) : Option CachePlan :=
  if headers.containsKey .authorization || headers.containsKey .cookie ||
      headers.containsKey .range then none
  else
    let subject := normalizedUrl url
    match cache.ruleMaxAge subject with
    | none => none
    | some maxAge =>
        let ttl := min maxAge cache.defaultMaxAge
        if ttl = 0 then none else some { key := cacheKey subject headers, ttl := ttl }

end Keys

/-! ## Responses -/

/-- The first `Cache-Control` line, when it is visible ASCII. -/
def cacheControl (headers : HeaderMap) : Option Str :=
  (headers.get .cacheControl).bind HeaderValue.toStr

/-- `cacheable_headers`. -/
def cacheableHeaders (headers : HeaderMap) : Bool :=
  match cacheControl headers with
  | none => !headers.containsKey .setCookie
  | some value =>
      let directives := (value.splitOn ',').map fun x => toAsciiLowercase (trim x)
      !directives.contains "no-store".toList && !directives.contains "private".toList &&
        !headers.containsKey .setCookie

/-- One `Vary` line added to the names collected so far. -/
def parseVaryLine (vary : List Str) (value : HeaderValue) : Option (List Str) :=
  value.toStr.bind fun value =>
    (((value.splitOn ',').map fun name => toAsciiLowercase (trim name)).filter
        fun name => name ≠ []).foldlM
      (fun vary name =>
        if name = "*".toList ∨ name ∉ supportedVaryHeaders.map HeaderName.text then none
        else if name ∈ vary then some vary
        else some (vary ++ [name])) vary

/-- `parse_vary`: the nominated names, or nothing when one is `*`, unsupported
or unreadable. -/
def parseVary (headers : HeaderMap) : Option (List Str) :=
  (headers.getAll .vary).foldlM parseVaryLine []

/-- The seconds of a `max-age` directive, if this is one. -/
def maxAgeDirective (directive : Str) : Option ℕ :=
  (splitOnce '=' directive).bind fun (name, value) =>
    if eqIgnoreAsciiCase (trim name) "max-age".toList
    then parseU64 (trimMatches '"' (trim value)) else none

section Lifetimes

variable [Crates]

/-- `expires_ttl`, at time `now` in nanoseconds. -/
def expiresTtl (configured : ℕ) (headers : HeaderMap) (now : ℕ) : ℕ :=
  match ((headers.get .expires).bind HeaderValue.toStr).bind Crates.parseHttpDate with
  | none => configured
  | some expires => min configured ((expires * 10 ^ 9 - now) / 10 ^ 9)

/-- `effective_ttl`, at time `now` in nanoseconds. -/
def effectiveTtl (configured : ℕ) (headers : HeaderMap) (now : ℕ) : ℕ :=
  match cacheControl headers with
  | none => expiresTtl configured headers now
  | some value =>
      let ttl := match ((value.splitOn ',').map trim).findSome? maxAgeDirective with
        | none => configured
        | some upstream => min configured upstream
      expiresTtl ttl headers now

end Lifetimes

/-- `cache_control_requires_revalidation`. -/
def cacheControlRequiresRevalidation (headers : HeaderMap) : Bool :=
  match cacheControl headers with
  | none => false
  | some value =>
      ((value.splitOn ',').map trim).any fun directive =>
        eqIgnoreAsciiCase directive "no-cache".toList

/-- `request_requires_revalidation`: the same question for a consumer's
request, over all lines and with arguments allowed. -/
def requestRequiresRevalidation (headers : HeaderMap) : Bool :=
  (((((headers.getAll .cacheControl).filterMap HeaderValue.toStr).flatMap
      fun value => value.splitOn ',').map trim).filter fun directive => directive ≠ []).any
    fun directive =>
      let name := match splitOnce '=' directive with
        | none => directive
        | some (name, _) => trim name
      eqIgnoreAsciiCase name "no-cache".toList

/-! ## Stored headers -/

/-- The header classes that `cache_headers` does not store. -/
def isNotStored (name : HeaderName) : Bool :=
  name == cacheDiagnosticHeader || isHopByHop name.text || isCorsResponseHeader name.text ||
    name == .connection

/-- `cache_headers`. -/
def cacheHeaders (headers : HeaderMap) : List (Str × Str) :=
  headers.filterMap fun (name, value) =>
    if isNotStored name then none
    else value.toStr.map fun value => (name.text, value)

/-- `CacheEntry`. -/
structure CacheEntry where
  version : ℕ
  status : ℕ
  headers : List (Str × Str)
  bodyLen : ℕ
  createdAt : ℕ
  lastAccess : ℕ
  ttl : ℕ
  revalidate : Bool
  etag : Option Str
  lastModified : Option Str
  vary : List Str
  requestVariants : List (Str × Str)
  /-- Not serialised: set by the lookup that read the entry. -/
  key : Str
  /-- Not serialised: set by the lookup that read the entry. -/
  bodyPath : Str
deriving DecidableEq

/-- One stored line read back, or nothing when it is not a valid header or is
generated by the proxy. -/
def storedLine : Str × Str → Option (HeaderName × HeaderValue)
  | (name, value) =>
      match HeaderName.fromBytes name, HeaderValue.fromStr value with
      | some name, some value =>
          if isCorsResponseHeader name.text then none else some (name, value)
      | _, _ => none

/-- `headers_from_entry`. -/
def headersFromEntry (entry : CacheEntry) : HeaderMap :=
  entry.headers.filterMap storedLine

/-- `add_cache_header`. -/
def addCacheHeader (headers : HeaderMap) (value : HeaderValue) : HeaderMap :=
  headers.insert cacheDiagnosticHeader value

/-- `Cache::is_fresh`, at time `now` in seconds. -/
def isFresh (entry : CacheEntry) (now : ℕ) : Bool :=
  !entry.revalidate && now - entry.createdAt < entry.ttl

/-- `Cache::add_validators`. -/
def addValidators (headers : HeaderMap) (entry : CacheEntry) : HeaderMap :=
  let headers := match entry.etag.bind HeaderValue.fromStr with
    | none => headers
    | some value => headers.insert .ifNoneMatch value
  match entry.lastModified.bind HeaderValue.fromStr with
  | none => headers
  | some value => headers.insert .ifModifiedSince value

end Corsget
