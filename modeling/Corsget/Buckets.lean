import Corsget.Io
import Corsget.Patterns

/-!
# Whom the limits tell apart

`RateLimitKey::bucket` of `extractors.rs` writes the requesting origin and the client IP
into one string, under which both limiters count.  The keys themselves are taken from the
request: the host of its `Origin` or `Referer` URL, and the address in the configured
header or that of the peer.

No host contains the `|` between the two parts, so the string can be cut again
(`bucket_eq_iff`).  What it cannot tell apart is a request without an origin and one
from the host `unknown`, because the first is written with that word
(`bucket_separates_iff`).
-/

namespace Corsget

open Text

/-! ## The extractors -/

section Extractors

variable [Crates] [UnicodeTables]

/-- `Origin::host_of`. -/
def Origin.hostOf (value : Str) : Option Str :=
  (Crates.urlParse value).toOption.bind fun url => url.host.map UnicodeTables.toLowercase

/-- `Origin::from_headers`. -/
def Origin.fromHeaders (headers : HeaderMap) : Origin :=
  match ((headers.get .origin).bind HeaderValue.toStr).bind Origin.hostOf with
  | some host => ⟨some host⟩
  | none =>
      match ((headers.get .referer).bind HeaderValue.toStr).bind Origin.hostOf with
      | some host => ⟨some host⟩
      | none => ⟨none⟩

variable [IpAddrs]

/-- What the extractors read of a request: its headers and the address of its peer. -/
structure Parts where
  headers : HeaderMap
  connectInfo : Option IpAddrs.Addr

/-- The address in the configured header, if there is one. -/
def realIp (parts : Parts) (realIpHeader : Str) : Option IpAddrs.Addr :=
  (HeaderName.fromBytes realIpHeader).bind fun name =>
    ((parts.headers.get name).bind HeaderValue.toStr).bind fun value =>
      IpAddrs.parse (trim ((value.splitOn ',').head?.getD []))

/-- `ClientIp::from_parts`. -/
def ClientIp.fromParts (parts : Parts) (realIpHeader : Str) : ClientIp :=
  match realIp parts realIpHeader with
  | some ip => ⟨IpAddrs.text ip⟩
  | none =>
      match parts.connectInfo with
      | some ip => ⟨IpAddrs.text ip⟩
      | none => ⟨"unknown".toList⟩

/-- `RateLimitKey::from_request_parts`. -/
def RateLimitKey.fromRequestParts (parts : Parts) (realIpHeader : Str) : RateLimitKey :=
  ⟨.fromHeaders parts.headers, .fromParts parts realIpHeader⟩

end Extractors

/-! ## Reading a bucket -/

/-- The host that `storage_key` writes. -/
def Origin.written (origin : Origin) : Str := origin.host.getD "unknown".toList

theorem Origin.storageKey_eq (origin : Origin) :
    origin.storageKey = "origin:".toList ++ origin.written := by
  obtain ⟨host⟩ := origin
  cases host with
  | none => rfl
  | some host => rfl

/-- One request has no origin and the other comes from the host `unknown`. -/
def Confusable (o₁ o₂ : Origin) : Prop :=
  (o₁ = ⟨none⟩ ∧ o₂ = ⟨some "unknown".toList⟩) ∨ (o₁ = ⟨some "unknown".toList⟩ ∧ o₂ = ⟨none⟩)

/-- Equal words mean equal origins, or confusable ones. -/
theorem Origin.written_eq_iff {o₁ o₂ : Origin} :
    o₁.written = o₂.written ↔ o₁ = o₂ ∨ Confusable o₁ o₂ := by
  obtain ⟨host₁⟩ := o₁
  obtain ⟨host₂⟩ := o₂
  unfold Confusable Origin.written
  cases host₁ with
  | none =>
      cases host₂ with
      | none => simp
      | some host₂ => simp [eq_comm]
  | some host₁ =>
      cases host₂ with
      | none => simp
      | some host₂ => simp

/-- Confusable origins are different. -/
theorem Confusable.ne {o₁ o₂ : Origin} (h : Confusable o₁ o₂) : o₁ ≠ o₂ := by
  rcases h with ⟨rfl, rfl⟩ | ⟨rfl, rfl⟩
  · intro h
    cases h
  · intro h
    cases h

/-- **A bucket can be cut** where its `|` is, when no host contains one. -/
theorem RateLimitKey.bucket_eq_iff {k₁ k₂ : RateLimitKey} (h₁ : '|' ∉ k₁.origin.written)
    (h₂ : '|' ∉ k₂.origin.written) :
    k₁.bucket = k₂.bucket ↔
      k₁.clientIp = k₂.clientIp ∧ k₁.origin.written = k₂.origin.written := by
  have hbar : ∀ origin : Origin, '|' ∉ origin.written → '|' ∉ origin.storageKey := by
    intro origin h
    rw [origin.storageKey_eq, List.mem_append, not_or]
    exact ⟨by decide, h⟩
  constructor
  · intro h
    obtain ⟨horigin, hip⟩ := segment_append_inj (hbar _ h₁) (hbar _ h₂) h
    rw [Origin.storageKey_eq, Origin.storageKey_eq] at horigin
    have hip' : k₁.clientIp.ip = k₂.clientIp.ip := List.append_cancel_left hip
    refine ⟨?_, List.append_cancel_left horigin⟩
    cases hk₁ : k₁.clientIp
    cases hk₂ : k₂.clientIp
    rw [hk₁, hk₂] at hip'
    exact congrArg ClientIp.mk hip'
  · rintro ⟨hip, hwritten⟩
    unfold RateLimitKey.bucket
    rw [Origin.storageKey_eq, Origin.storageKey_eq, hip, hwritten]

/-! ## Requests -/

section Requests

variable [Crates]

/-- The hosts that the URL parser returns are ASCII texts without a `|`. -/
def HostsWithoutBar : Prop :=
  ∀ text url host, Crates.urlParse text = .ok url → url.host = some host →
    IsAscii host ∧ '|' ∉ host

variable [UnicodeTables]

theorem bar_notMem_hostOf (hcase : AsciiCase) (hhosts : HostsWithoutBar) {value host : Str}
    (h : Origin.hostOf value = some host) : '|' ∉ host := by
  obtain ⟨url, hparse, hmap⟩ := Option.bind_eq_some_iff.mp h
  obtain ⟨host', hhost', rfl⟩ := Option.map_eq_some_iff.mp hmap
  have hurl : Crates.urlParse value = .ok url := by
    cases hresult : Crates.urlParse value with
    | error e =>
        rw [hresult] at hparse
        cases hparse
    | ok url' =>
        rw [hresult] at hparse
        exact congrArg _ (Option.some.inj hparse)
  obtain ⟨hascii, hbar⟩ := hhosts value url host' hurl hhost'
  rw [hcase.toLowercase host' hascii, mem_toAsciiLowercase_iff (by decide)]
  exact hbar

theorem bar_notMem_written_fromHeaders (hcase : AsciiCase) (hhosts : HostsWithoutBar)
    (headers : HeaderMap) : '|' ∉ (Origin.fromHeaders headers).written := by
  have hhost : ∀ (lookup : Option Str) (host : Str),
      lookup.bind Origin.hostOf = some host → '|' ∉ host := by
    intro lookup host h
    obtain ⟨value, -, hvalue⟩ := Option.bind_eq_some_iff.mp h
    exact bar_notMem_hostOf hcase hhosts hvalue
  unfold Origin.fromHeaders
  split
  · next host h => exact hhost _ host h
  · split
    · next host h => exact hhost _ host h
    · exact (by decide : '|' ∉ "unknown".toList)

variable [IpAddrs]

/-- **Buckets separate subjects** except for one word.  Two requests that share a bucket
have the same key, unless they have the same client IP and one of them has no origin while
the other comes from the host `unknown`; in that case they do share it. -/
theorem bucket_separates_iff (hcase : AsciiCase) (hhosts : HostsWithoutBar) (realIpHeader : Str)
    (parts₁ parts₂ : Parts) :
    ((RateLimitKey.fromRequestParts parts₁ realIpHeader).bucket =
        (RateLimitKey.fromRequestParts parts₂ realIpHeader).bucket →
      RateLimitKey.fromRequestParts parts₁ realIpHeader =
        RateLimitKey.fromRequestParts parts₂ realIpHeader) ↔
    ¬ (ClientIp.fromParts parts₁ realIpHeader = ClientIp.fromParts parts₂ realIpHeader ∧
        Confusable (.fromHeaders parts₁.headers) (.fromHeaders parts₂.headers)) := by
  set key₁ := RateLimitKey.fromRequestParts parts₁ realIpHeader
  set key₂ := RateLimitKey.fromRequestParts parts₂ realIpHeader
  have hbucket : key₁.bucket = key₂.bucket ↔
      key₁.clientIp = key₂.clientIp ∧ key₁.origin.written = key₂.origin.written :=
    RateLimitKey.bucket_eq_iff (bar_notMem_written_fromHeaders hcase hhosts parts₁.headers)
      (bar_notMem_written_fromHeaders hcase hhosts parts₂.headers)
  have hkey : key₁ = key₂ ↔ key₁.origin = key₂.origin ∧ key₁.clientIp = key₂.clientIp :=
    RateLimitKey.mk.injEq _ _ _ _ ▸ Iff.rfl
  change (key₁.bucket = key₂.bucket → key₁ = key₂) ↔
    ¬ (key₁.clientIp = key₂.clientIp ∧ Confusable key₁.origin key₂.origin)
  rw [hbucket, hkey, Origin.written_eq_iff]
  constructor
  · rintro h ⟨hip, hconfusable⟩
    exact hconfusable.ne (h ⟨hip, .inr hconfusable⟩).1
  · rintro h ⟨hip, hsame | hconfusable⟩
    · exact ⟨hsame, hip⟩
    · exact absurd ⟨hip, hconfusable⟩ h

end Requests

/-! ## The host `unknown` -/

/-- `http://unknown/`. -/
def unknownUrl : Url :=
  { exampleUrl with scheme := "http".toList, host := some "unknown".toList, path := "/".toList }

/-- A parser that knows `http://unknown`. -/
@[reducible] def unknownHost : Crates :=
  { reference with
    urlParse := fun text =>
      if text = "http://unknown".toList then .ok unknownUrl
      else .error "relative URL without a base".toList }

theorem unknownHost_hostsWithoutBar : @HostsWithoutBar unknownHost := by
  intro text url host hparse hhost
  change (if text = "http://unknown".toList then Except.ok unknownUrl
    else .error "relative URL without a base".toList) = .ok url at hparse
  split at hparse
  · obtain rfl := Except.ok.inj hparse
    obtain rfl := Option.some.inj hhost
    decide
  · cases hparse

/-- Addresses in dotted form, by their text. -/
@[reducible] def dottedAddrs : IpAddrs where
  Addr := Str
  parse s := if s ≠ [] ∧ s.all fun c => c.isDigit || c == '.' then some s else none
  text := id

/-- A request from `192.0.2.1` with the given headers. -/
def fromPeer (headers : HeaderMap) : @Parts dottedAddrs :=
  @Parts.mk dottedAddrs headers (some "192.0.2.1".toList)

/-- The key of such a request. -/
def peerKey (headers : HeaderMap) : RateLimitKey :=
  @RateLimitKey.fromRequestParts unknownHost asciiTables dottedAddrs (fromPeer headers)
    "X-Real-IP".toList

/-- A request from the page `http://unknown` counts in the bucket of the requests without
an origin. -/
theorem unknown_shares_bucket :
    (peerKey [(.origin, .fromStatic "http://unknown".toList)]).origin =
        ⟨some "unknown".toList⟩ ∧
      (peerKey []).origin = ⟨none⟩ ∧
      (peerKey [(.origin, .fromStatic "http://unknown".toList)]).bucket = (peerKey []).bucket ∧
      peerKey [(.origin, .fromStatic "http://unknown".toList)] ≠ peerKey [] := by
  decide +kernel

/-- The same two requests. -/
theorem bucket_separates_iff_unknown :
    ¬ ((peerKey [(.origin, .fromStatic "http://unknown".toList)]).bucket = (peerKey []).bucket →
      peerKey [(.origin, .fromStatic "http://unknown".toList)] = peerKey []) := by
  have hspec := @bucket_separates_iff unknownHost asciiTables dottedAddrs asciiCase_asciiTables
    unknownHost_hostsWithoutBar "X-Real-IP".toList
    (fromPeer [(.origin, .fromStatic "http://unknown".toList)]) (fromPeer [])
  intro h
  exact hspec.mp h ⟨by decide +kernel, .inr (by decide +kernel)⟩

end Corsget
