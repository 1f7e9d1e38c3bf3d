import Corsget.Library.Text
import Corsget.Library.MultiMap

/-!
# Header names, header values, URLs

The vocabulary the proxy takes from the `http` and `url` crates.

* `HeaderName` and `HeaderValue` carry the validity check of their constructors
  as a field, so a map built from them holds only names and values that can be
  put on the wire.  A value is a byte string: its text exists only when every
  byte is visible ASCII (`HeaderValue.toStr`), and several functions of the
  proxy behave differently on the other values.
* `HeaderMap` is the ordered multi-map of `Corsget.Library.MultiMap`.  The crate
  leaves the relative order of different names unspecified; so does `Same`.
* `Url` has the components the code asks for.  `port` is `none` for the default
  port of the scheme, as `Url::port` answers.

`Crates` collects what is not under `src/`: the URL parser, SHA-256, the HTTP
date parser, the regex compiler and the process id.
-/

namespace Corsget

open Text

/-- Byte strings. -/
abbrev Bytes := List UInt8

/-- The UTF-8 encoding of a string, `str::as_bytes`. -/
def utf8 (s : Str) : Bytes := s.flatMap String.utf8EncodeChar

/-- The encoding of a string determines it. -/
theorem utf8_injective : Function.Injective utf8 := by
  intro s t h
  have hencode : s.utf8Encode = t.utf8Encode := congrArg List.toByteArray h
  have hdecode := congrArg ByteArray.utf8Decode? hencode
  rw [List.utf8Decode?_utf8Encode, List.utf8Decode?_utf8Encode] at hdecode
  exact Array.toList_inj.mpr (Option.some.inj hdecode)

/-! ## Header names -/

/-- The characters of a normalised header name. -/
def isNameChar (c : Char) : Bool :=
  c.isDigit || c.isLower || "!#$%&'*+-.^_`|~".toList.contains c

/-- The check of `HeaderName::from_bytes` on a lower-cased name. -/
def IsHeaderName (text : Str) : Prop :=
  text ≠ [] ∧ text.length ≤ 65535 ∧ text.all isNameChar = true

instance (text : Str) : Decidable (IsHeaderName text) :=
  inferInstanceAs (Decidable (_ ∧ _ ∧ _))

/-- A header name, in lower case. -/
structure HeaderName where
  /-- The name as `HeaderName::as_str` gives it. -/
  text : Str
  /-- Only valid names exist. -/
  valid : IsHeaderName text
deriving DecidableEq

namespace HeaderName

/-- `HeaderName::from_bytes`: lower-case, then check. -/
def fromBytes (name : Str) : Option HeaderName :=
  if h : IsHeaderName (toAsciiLowercase name) then some ⟨_, h⟩ else none

theorem ext_text {m n : HeaderName} (h : m.text = n.text) : m = n := by
  cases m
  cases n
  simpa using h

def accept : HeaderName := ⟨"accept".toList, by decide⟩
def acceptEncoding : HeaderName := ⟨"accept-encoding".toList, by decide⟩
def acceptLanguage : HeaderName := ⟨"accept-language".toList, by decide⟩
def accessControlAllowCredentials : HeaderName :=
  ⟨"access-control-allow-credentials".toList, by decide⟩
def accessControlAllowHeaders : HeaderName := ⟨"access-control-allow-headers".toList, by decide⟩
def accessControlAllowMethods : HeaderName := ⟨"access-control-allow-methods".toList, by decide⟩
def accessControlAllowOrigin : HeaderName := ⟨"access-control-allow-origin".toList, by decide⟩
def accessControlMaxAge : HeaderName := ⟨"access-control-max-age".toList, by decide⟩
def accessControlRequestHeaders : HeaderName :=
  ⟨"access-control-request-headers".toList, by decide⟩
def authorization : HeaderName := ⟨"authorization".toList, by decide⟩
def cacheControl : HeaderName := ⟨"cache-control".toList, by decide⟩
def connection : HeaderName := ⟨"connection".toList, by decide⟩
def contentLength : HeaderName := ⟨"content-length".toList, by decide⟩
def cookie : HeaderName := ⟨"cookie".toList, by decide⟩
def etag : HeaderName := ⟨"etag".toList, by decide⟩
def expires : HeaderName := ⟨"expires".toList, by decide⟩
def host : HeaderName := ⟨"host".toList, by decide⟩
def ifModifiedSince : HeaderName := ⟨"if-modified-since".toList, by decide⟩
def ifNoneMatch : HeaderName := ⟨"if-none-match".toList, by decide⟩
def lastModified : HeaderName := ⟨"last-modified".toList, by decide⟩
def location : HeaderName := ⟨"location".toList, by decide⟩
def origin : HeaderName := ⟨"origin".toList, by decide⟩
def range : HeaderName := ⟨"range".toList, by decide⟩
def referer : HeaderName := ⟨"referer".toList, by decide⟩
def setCookie : HeaderName := ⟨"set-cookie".toList, by decide⟩
def vary : HeaderName := ⟨"vary".toList, by decide⟩

/-- Lower-casing leaves the characters of a normalised name alone. -/
theorem toLower_of_isNameChar {c : Char} (h : isNameChar c = true) : c.toLower = c := by
  apply toLower_of_not_upper
  rintro ⟨h65, h90⟩
  have hall : ∀ n : Fin 26, isNameChar (Char.ofNat (65 + n.val)) = false := by decide
  have hc := hall ⟨c.toNat - 65, by omega⟩
  rw [show 65 + (c.toNat - 65) = c.toNat by omega, Char.ofNat_toNat, h] at hc
  exact absurd hc (by decide)

/-- A normalised name is in lower case. -/
@[simp] theorem toAsciiLowercase_text (n : HeaderName) :
    toAsciiLowercase n.text = n.text := by
  have hall := List.all_eq_true.mp n.valid.2.2
  calc toAsciiLowercase n.text = n.text.map id :=
        List.map_congr_left fun c hc => toLower_of_isNameChar (hall c hc)
    _ = n.text := List.map_id _

/-- A name read back from its own text is itself. -/
@[simp] theorem fromBytes_text (n : HeaderName) : fromBytes n.text = some n := by
  unfold fromBytes
  rw [dif_pos (by rw [toAsciiLowercase_text]; exact n.valid)]
  exact congrArg some (ext_text (toAsciiLowercase_text n))

end HeaderName

/-! ## Header values -/

/-- The bytes `HeaderValue::to_str` accepts. -/
def isVisibleAscii (b : UInt8) : Bool := (32 ≤ b && b < 127) || b == 9

/-- The bytes a header value may contain. -/
def isValueByte (b : UInt8) : Bool := (32 ≤ b && b != 127) || b == 9

/-- A header value: any bytes but control characters. -/
structure HeaderValue where
  /-- The value as `HeaderValue::as_bytes` gives it. -/
  bytes : Bytes
  /-- Only valid values exist. -/
  valid : bytes.all isValueByte = true
deriving DecidableEq

namespace HeaderValue

/-- `HeaderValue::from_str`. -/
def fromStr (s : Str) : Option HeaderValue :=
  if h : (utf8 s).all isValueByte = true then some ⟨utf8 s, h⟩ else none

/-- The bytes read one character each. -/
def text (v : HeaderValue) : Str := v.bytes.map Char.ofUInt8

/-- Whether `to_str` succeeds. -/
def isVisible (v : HeaderValue) : Bool := v.bytes.all isVisibleAscii

/-- `HeaderValue::to_str`. -/
def toStr (v : HeaderValue) : Option Str :=
  if v.isVisible then some v.text else none

/-- `HeaderValue::from_static`, for the constants of the program. -/
def fromStatic (s : Str) (h : (fromStr s).isSome := by decide) : HeaderValue :=
  (fromStr s).get h

theorem ext_bytes {v w : HeaderValue} (h : v.bytes = w.bytes) : v = w := by
  cases v
  cases w
  simpa using h

theorem toStr_eq_some {v : HeaderValue} {s : Str} :
    v.toStr = some s ↔ v.isVisible = true ∧ s = v.text := by
  unfold toStr
  split
  · next h => simp [h, eq_comm]
  · next h => simp [h]

/-- A visible byte is one character long in UTF-8. -/
theorem utf8EncodeChar_ofUInt8 {b : UInt8} (h : isVisibleAscii b = true) :
    String.utf8EncodeChar (Char.ofUInt8 b) = [b] := by
  have hall : ∀ n : Fin 256, isVisibleAscii (UInt8.ofNat n.val) = true →
      String.utf8EncodeChar (Char.ofUInt8 (UInt8.ofNat n.val)) = [UInt8.ofNat n.val] := by
    decide +kernel
  have hb := hall ⟨b.toNat, b.toNat_lt⟩
  rw [show UInt8.ofNat (⟨b.toNat, b.toNat_lt⟩ : Fin 256).val = b from UInt8.ofNat_toNat] at hb
  exact hb h

theorem utf8_text {v : HeaderValue} (h : v.isVisible = true) : utf8 v.text = v.bytes := by
  have hall := List.all_eq_true.mp h
  have hflat : ∀ bs : Bytes, (∀ b ∈ bs, isVisibleAscii b = true) →
      utf8 (bs.map Char.ofUInt8) = bs := by
    intro bs hbs
    induction bs with
    | nil => rfl
    | cons b bs ih =>
        have hb := utf8EncodeChar_ofUInt8 (hbs b List.mem_cons_self)
        have htail := ih fun x hx => hbs x (List.mem_cons_of_mem _ hx)
        unfold utf8 at htail ⊢
        rw [List.map_cons, List.flatMap_cons, hb, htail]
        rfl
  exact hflat v.bytes hall

/-- **The string round trip.**  A value whose text exists is the value of that
text. -/
theorem fromStr_toStr {v : HeaderValue} {s : Str} (h : v.toStr = some s) :
    fromStr s = some v := by
  obtain ⟨hvis, rfl⟩ := toStr_eq_some.mp h
  unfold fromStr
  rw [dif_pos (by rw [utf8_text hvis]; exact v.valid)]
  exact congrArg some (ext_bytes (utf8_text hvis))

/-- No header value contains a NUL byte. -/
theorem zero_notMem_bytes (v : HeaderValue) : (0 : UInt8) ∉ v.bytes := by
  intro hmem
  have := List.all_eq_true.mp v.valid 0 hmem
  exact absurd this (by decide)

end HeaderValue

/-- `HeaderMap`: an ordered multi-map from names to values. -/
abbrev HeaderMap := MultiMap HeaderName HeaderValue

/-! ## URLs -/

/-- A parsed URL, by its components.  `port` is `none` when the URL has the
default port of its scheme. -/
structure Url where
  scheme : Str
  username : Str
  password : Option Str
  host : Option Str
  port : Option ℕ
  path : Str
  query : Option Str
  fragment : Option Str
deriving DecidableEq

namespace Url

/-- The userinfo part, with its `@`. -/
def userinfo (u : Url) : Str :=
  match u.username, u.password with
  | [], none => []
  | user, none => user ++ ['@']
  | user, some pass => user ++ ':' :: pass ++ ['@']

/-- `Url::as_str`. -/
def asStr (u : Url) : Str :=
  let authority := match u.host with
    | none => []
    | some host => "//".toList ++ u.userinfo ++ host ++
        (match u.port with
          | none => []
          | some port => ':' :: decimal port)
  u.scheme ++ ':' :: authority ++ u.path ++
    (match u.query with
      | none => []
      | some query => '?' :: query) ++
    (match u.fragment with
      | none => []
      | some fragment => '#' :: fragment)

/-- Whether the URL carries a user name or a password. -/
def hasUserinfo (u : Url) : Bool := u.username ≠ [] || u.password.isSome

end Url

/-! ## What is not under `src/` -/

/-- The options the code passes to `RegexBuilder`. -/
structure RegexFlags where
  caseInsensitive : Bool := false
  multiLine : Bool := false
  dotMatchesNewLine : Bool := false
  ignoreWhitespace : Bool := false
deriving DecidableEq

/-- The case mappings that need the tables of Unicode. -/
class UnicodeTables where
  /-- `str::to_lowercase`. -/
  toLowercase : Str → Str
  /-- The simple case folding by which a case-insensitive expression compares. -/
  foldCase : Char → Char

/-- The addresses of the standard library: `IpAddr` with its `FromStr` and `Display`. -/
class IpAddrs where
  Addr : Type
  parse : Str → Option Addr
  text : Addr → Str

/-- On ASCII the tables of Unicode move `A` to `Z` only. -/
structure AsciiCase [UnicodeTables] : Prop where
  toLowercase : ∀ s, IsAscii s → UnicodeTables.toLowercase s = toAsciiLowercase s
  foldCase : ∀ c : Char, c.toNat < 128 → UnicodeTables.foldCase c = c.toLower

/-- The functions of other crates that the program calls. -/
class Crates where
  /-- `Url::parse`, with the text of its error. -/
  urlParse : Str → Except Str Url
  /-- `Url::join`. -/
  urlJoin : Url → Str → Except Str Url
  /-- SHA-256, as the hexadecimal digits of the digest. -/
  sha256 : Bytes → Str
  /-- `httpdate::parse_http_date`, in seconds since the epoch. -/
  parseHttpDate : Str → Option ℕ
  /-- `RegexBuilder::build`, as the matcher of the compiled expression. -/
  regex : RegexFlags → Str → Except Str (Str → Bool)
  /-- `std::process::id`. -/
  processId : ℕ

end Corsget
