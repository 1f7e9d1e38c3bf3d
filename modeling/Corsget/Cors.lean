import Corsget.Http

/-!
# Hop-by-hop headers and generated CORS headers

The header classes of `cors.rs` that decide what crosses the proxy: headers
that belong to one connection or that a proxy injects, headers the proxy
generates itself from the consumer's request, and headers that a `Connection`
header nominates as belonging to its connection.  The last section is the
middleware that puts the generated headers on every response.
-/

namespace Corsget

open Text

/-- `HOP_BY_HOP_HEADERS`: never forwarded to the target nor copied back. -/
def hopByHopHeaders : List Str :=
  ["connection".toList, "keep-alive".toList, "proxy-authenticate".toList,
    "proxy-authorization".toList, "te".toList, "trailers".toList,
    "transfer-encoding".toList, "upgrade".toList, "x-forwarded-for".toList,
    "x-forwarded-host".toList, "x-forwarded-proto".toList,
    "x-forwarded-port".toList, "x-real-ip".toList, "forwarded".toList]

/-- Whether a name is a hop-by-hop or proxy-injected header. -/
def isHopByHop (name : Str) : Bool :=
  let name := toAsciiLowercase name
  "x-forwarded-".toList.isPrefixOf name || hopByHopHeaders.contains name

/-- Whether a name is one of the CORS response headers the proxy generates. -/
def isCorsResponseHeader (name : Str) : Bool :=
  eqIgnoreAsciiCase name "access-control-allow-origin".toList
    || eqIgnoreAsciiCase name "access-control-allow-credentials".toList
    || eqIgnoreAsciiCase name "access-control-allow-headers".toList
    || eqIgnoreAsciiCase name "access-control-allow-methods".toList
    || eqIgnoreAsciiCase name "access-control-max-age".toList

/-- The header names nominated by `Connection`, over all its lines.  A line
that is not visible ASCII nominates nothing. -/
def connectionHeaders (headers : HeaderMap) : List Str :=
  ((((headers.getAll HeaderName.connection).flatMap fun value => value.toStr.toList).flatMap
    fun value => value.splitOn ',').map trim).filter fun name => name ≠ []

/-- Whether `Connection` nominates a header, as both directions of the proxy
test it: `connection_headers` lower-cased, compared with the name. -/
def isNominated (headers : HeaderMap) (name : HeaderName) : Bool :=
  ((connectionHeaders headers).map toAsciiLowercase).any fun header => header == name.text

/-! ## The middleware -/

/-- `*`, the origin that every consumer may share. -/
def anyOrigin : HeaderValue := .fromStatic "*".toList

/-- `cors_headers`. -/
def corsHeaders (headers : HeaderMap) : HeaderMap :=
  let origin := (headers.get .origin).bind HeaderValue.toStr
  let allowOrigin := match origin with
    | some o => (HeaderValue.fromStr o).getD anyOrigin
    | none => anyOrigin
  let allowHeaders := ((headers.get .accessControlRequestHeaders).filter
    fun v => v.bytes ≠ []).getD (.fromStatic "Authorization".toList)
  let map : HeaderMap := MultiMap.insert [] .accessControlAllowOrigin allowOrigin
  let map := map.insert .accessControlAllowCredentials (.fromStatic "true".toList)
  let map := map.insert .accessControlAllowHeaders allowHeaders
  let map := map.insert .accessControlAllowMethods (.fromStatic "GET, OPTIONS".toList)
  map.insert .accessControlMaxAge (.fromStatic "86400".toList)

/-- Whether a `Vary` line nominates a field; a line that is not visible ASCII
nominates nothing. -/
def nominatesField (field : Str) (value : HeaderValue) : Bool :=
  match value.toStr with
  | some value => (value.splitOn ',').any fun part => eqIgnoreAsciiCase (trim part) field
  | none => false

/-- `add_vary_field`. -/
def addVaryField (headers : HeaderMap) (field : Str) : HeaderMap :=
  let alreadyNominated := (headers.getAll .vary).any (nominatesField field)
  if alreadyNominated then headers
  else
    match HeaderValue.fromStr field with
    | some value => headers.append .vary value
    | none => headers

/-- `cors_layer`: the response headers of the consumer, from those of the request
and those of the inner response. -/
def corsLayer (request response : HeaderMap) : HeaderMap :=
  let response := (corsHeaders request).foldl
    (fun response line => response.insert line.1 line.2) response
  if request.containsKey .origin then addVaryField response "origin".toList else response

end Corsget
