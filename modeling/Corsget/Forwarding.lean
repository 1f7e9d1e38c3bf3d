import Corsget.Proxy

/-!
# The headers an upstream request carries

`forwardHeaders` and `addValidators` name by name.  The upstream sees, under a
name other than `Host` and the two conditional headers, exactly the client's
lines when the name is forwarded and none otherwise (`getAll_upstreamHeaders`).
-/

namespace Corsget

open Text Effect

/-- The names a cache plan looks at are forwarded unless `Connection` nominates
them. -/
theorem isForwarded_of_supported {name : HeaderName} (h : name ∈ supportedVaryHeaders)
    (source : HeaderMap) : isForwarded source name = !isNominated source name := by
  have hall : ∀ n ∈ supportedVaryHeaders, isHopByHop n.text = false ∧ n ≠ .host := by decide
  obtain ⟨hhop, hhost⟩ := hall name h
  unfold isForwarded
  rw [hhop, Bool.false_or, bne_iff_ne.mpr hhost, Bool.and_true]

/-- What `forward_headers` leaves under a name. -/
theorem getAll_forwardHeaders (source : HeaderMap) (url : Url) {name : HeaderName}
    (hname : name ≠ .host) :
    (forwardHeaders source url).getAll name =
      if isForwarded source name then source.getAll name else [] := by
  have hfilter := MultiMap.getAll_filter_key (isForwarded source) source name
  unfold forwardHeaders
  dsimp only
  split
  · exact hfilter
  · split
    · exact hfilter
    · rw [MultiMap.getAll_insert, if_neg hname]
      exact hfilter

/-- The one line that a validator sets, or the given lines when there is no valid
one. -/
def validatorOr (validator : Option Str) (lines : List HeaderValue) : List HeaderValue :=
  match validator.bind HeaderValue.fromStr with
  | none => lines
  | some value => [value]

/-- What `add_validators` leaves under `If-None-Match`. -/
theorem getAll_addValidators_ifNoneMatch (headers : HeaderMap) (entry : CacheEntry) :
    (addValidators headers entry).getAll .ifNoneMatch =
      validatorOr entry.etag (headers.getAll .ifNoneMatch) := by
  have hne : HeaderName.ifNoneMatch ≠ HeaderName.ifModifiedSince := by decide
  unfold addValidators validatorOr
  cases entry.etag.bind HeaderValue.fromStr with
  | none =>
      cases entry.lastModified.bind HeaderValue.fromStr with
      | none => rfl
      | some value => exact (MultiMap.getAll_insert _ _ _ _).trans (if_neg hne)
  | some etag =>
      have hetag : (MultiMap.insert headers .ifNoneMatch etag).getAll .ifNoneMatch = [etag] :=
        (MultiMap.getAll_insert _ _ _ _).trans (if_pos rfl)
      cases entry.lastModified.bind HeaderValue.fromStr with
      | none => exact hetag
      | some value => exact ((MultiMap.getAll_insert _ _ _ _).trans (if_neg hne)).trans hetag

/-- What `add_validators` leaves under `If-Modified-Since`. -/
theorem getAll_addValidators_ifModifiedSince (headers : HeaderMap) (entry : CacheEntry) :
    (addValidators headers entry).getAll .ifModifiedSince =
      validatorOr entry.lastModified (headers.getAll .ifModifiedSince) := by
  have hne : HeaderName.ifModifiedSince ≠ HeaderName.ifNoneMatch := by decide
  unfold addValidators validatorOr
  cases entry.lastModified.bind HeaderValue.fromStr with
  | none =>
      cases entry.etag.bind HeaderValue.fromStr with
      | none => rfl
      | some etag => exact (MultiMap.getAll_insert _ _ _ _).trans (if_neg hne)
  | some value => exact (MultiMap.getAll_insert _ _ _ _).trans (if_pos rfl)

/-- `add_validators` touches the two conditional headers and nothing else. -/
theorem getAll_addValidators_of_ne (headers : HeaderMap) (entry : CacheEntry) {name : HeaderName}
    (hmatch : name ≠ .ifNoneMatch) (hsince : name ≠ .ifModifiedSince) :
    (addValidators headers entry).getAll name = headers.getAll name := by
  unfold addValidators
  cases entry.etag.bind HeaderValue.fromStr with
  | none =>
      cases entry.lastModified.bind HeaderValue.fromStr with
      | none => rfl
      | some value => exact (MultiMap.getAll_insert _ _ _ _).trans (if_neg hsince)
  | some etag =>
      have hetag : (MultiMap.insert headers .ifNoneMatch etag).getAll name = headers.getAll name :=
        (MultiMap.getAll_insert _ _ _ _).trans (if_neg hmatch)
      cases entry.lastModified.bind HeaderValue.fromStr with
      | none => exact hetag
      | some value => exact ((MultiMap.getAll_insert _ _ _ _).trans (if_neg hsince)).trans hetag

/-- **What the upstream sees** under a name the proxy does not set itself. -/
theorem getAll_upstreamHeaders (requestHeaders : HeaderMap) (entry : Option CacheEntry) (url : Url)
    {name : HeaderName} (hhost : name ≠ .host) (hmatch : name ≠ .ifNoneMatch)
    (hsince : name ≠ .ifModifiedSince) :
    (upstreamHeaders requestHeaders entry url).getAll name =
      if isForwarded requestHeaders name then requestHeaders.getAll name else [] := by
  cases entry with
  | none => exact getAll_forwardHeaders requestHeaders url hhost
  | some entry =>
      exact (getAll_addValidators_of_ne _ entry hmatch hsince).trans
        (getAll_forwardHeaders requestHeaders url hhost)

/-- The upstream sees no line of a name the client did not send. -/
theorem containsKey_upstreamHeaders_eq_false {requestHeaders : HeaderMap} {name : HeaderName}
    (h : requestHeaders.containsKey name = false) (entry : Option CacheEntry) (url : Url)
    (hhost : name ≠ .host) (hmatch : name ≠ .ifNoneMatch) (hsince : name ≠ .ifModifiedSince) :
    (upstreamHeaders requestHeaders entry url).containsKey name = false := by
  rw [MultiMap.containsKey_eq_false_iff] at h ⊢
  rw [getAll_upstreamHeaders requestHeaders entry url hhost hmatch hsince, h, ite_self]

end Corsget
