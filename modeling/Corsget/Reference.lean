import Corsget.Proxy

/-!
# A concrete instance of the other crates

`reference` gives every function of `Crates` a definition that can be
evaluated: URLs are looked up by their text among a few, and the digest is the
hexadecimal form of the whole input, which is injective by construction.
It serves where a statement about the program needs one concrete environment;
so does `exampleState`, a small configuration to go with it.
-/

namespace Corsget

open Text

/-- The two hexadecimal digits of a byte. -/
def hexByte (b : UInt8) : Str := [Nat.digitChar (b.toNat / 16), Nat.digitChar (b.toNat % 16)]

/-- The digits determine the byte. -/
theorem hexByte_injective : Function.Injective hexByte := by
  have hdigit : ∀ m n : Fin 16, Nat.digitChar m.val = Nat.digitChar n.val → m = n := by decide
  intro a b h
  unfold hexByte at h
  obtain ⟨hhigh, hlow⟩ : _ ∧ _ := by simpa using h
  have ha := a.toNat_lt
  have hb := b.toNat_lt
  have hdiv := hdigit ⟨a.toNat / 16, by omega⟩ ⟨b.toNat / 16, by omega⟩ hhigh
  have hmod := hdigit ⟨a.toNat % 16, by omega⟩ ⟨b.toNat % 16, by omega⟩ hlow
  simp only [Fin.mk.injEq] at hdiv hmod
  exact UInt8.toNat_inj.mp (by omega)

/-- The digits of a byte string determine it. -/
theorem flatMap_hexByte_injective : Function.Injective (List.flatMap hexByte) := by
  intro a
  induction a with
  | nil =>
      intro b h
      cases b with
      | nil => rfl
      | cons y b => cases h
  | cons x a ih =>
      intro b h
      cases b with
      | nil => cases h
      | cons y b =>
          rw [List.flatMap_cons, List.flatMap_cons] at h
          obtain ⟨hbyte, hrest⟩ := List.append_inj h rfl
          rw [hexByte_injective hbyte, ih hrest]

/-- `https://example.com/x`. -/
def exampleUrl : Url where
  scheme := "https".toList
  username := []
  password := none
  host := some "example.com".toList
  port := none
  path := "/x".toList
  query := none
  fragment := none

/-- `https://u:p@example.com/x`. -/
def userinfoUrl : Url := { exampleUrl with username := "u".toList, password := some "p".toList }

/-- The instance. -/
@[reducible] def reference : Crates where
  urlParse text :=
    match [exampleUrl, userinfoUrl].find? fun url => url.asStr = text with
    | some url => .ok url
    | none => .error "relative URL without a base".toList
  urlJoin _ _ := .error "invalid relative URL".toList
  sha256 bytes := bytes.flatMap hexByte
  parseHttpDate _ := none
  regex _ _ := .error "regex not available".toList
  processId := 1

/-- `reference` with a parser that knows the given URLs. -/
@[reducible] def knowing (urls : List Url) : Crates :=
  { reference with
    urlParse := fun text =>
      match urls.find? fun url => url.asStr = text with
      | some url => .ok url
      | none => .error "relative URL without a base".toList }

theorem mem_of_knowing {urls : List Url} {text : Str} {url : Url}
    (h : (knowing urls).urlParse text = .ok url) : url ∈ urls := by
  unfold knowing Crates.urlParse at h
  dsimp only at h
  split at h
  · next found hfound =>
    obtain rfl := Except.ok.inj h
    exact List.mem_of_find?_eq_some hfound
  · cases h

/-- The digest of `reference` is injective. -/
theorem reference_sha256_injective : Function.Injective reference.sha256 :=
  flatMap_hexByte_injective

/-- A proxy that allows every target and caches `example.com/x` for a minute. -/
def exampleCache : Cache where
  maxSize := 1024 * 1024
  defaultMaxAge := 900
  rules := [{ pattern := .exact "example.com".toList "/x".toList, maxAge := 60 }]

/-- Its state, with no limits and no overrides. -/
def exampleState : AppState where
  matchPolicy := { target := ⟨[], []⟩, origin := ⟨[], []⟩ }
  rateLimit := []
  resultMax := 0
  maxRedirects := 5
  cache := some exampleCache
  headerOverrides := ⟨[]⟩

/-- A request for `/https://u:p@example.com/x`. -/
def userinfoUri : OriginalUri where
  scheme := none
  pathAndQuery := some "/https://u:p@example.com/x".toList
  text := "/https://u:p@example.com/x".toList

/-- A consumer without an origin. -/
def exampleKey : RateLimitKey := ⟨⟨none⟩, ⟨"192.0.2.1".toList⟩⟩

end Corsget
