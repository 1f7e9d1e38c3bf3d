import Corsget.ByteExpressions
import Corsget.CacheRules
import Corsget.Library.Decode
import Corsget.Limit
import Corsget.OverrideRules

/-!
# The configuration

`config.rs` reads the configuration from a tree of YAML.  The reader is derived from the
structures: a structure is read from a mapping, unknown and repeated keys are errors, and
absent keys have their defaults or are errors.  Lists and byte counts come in several forms,
and are first put into a buffer, from which one form after the other is tried.  `validate`
then looks at the values.

Anchors, tags and the choice between a number and a text are the business of the parser, which
is a parameter, as is the way in which its deserializer reads scalars.
-/

namespace Corsget

open Decode Text Validation

/-! ## Trees and readers -/

/-- A tree of YAML, with integers of any size. -/
inductive Yaml where
  | null
  | bool (b : Bool)
  | int (n : ℤ)
  | float (text : Str)
  | str (s : Str)
  | seq (items : List Yaml)
  | map (entries : List (Str × Yaml))

/-- Neither a list nor a mapping. -/
def Yaml.Scalar : Yaml → Prop
  | .seq _ => False
  | .map _ => False
  | _ => True

/-- The error type of the YAML crate, with what `serde` asks of it. -/
class YamlErrors where
  Error : Type
  custom : Str → Error
  unknownField : Str → List Str → Error
  duplicateField : Str → Error
  missingField : Str → Error
  invalidLength : ℕ → Str → Error
  invalidType : Yaml → Str → Error
  /-- The text of an error. -/
  display : Error → Str

export YamlErrors (Error)

section Reading

variable [YamlErrors]

/-- A `Deserializer` of `serde`: how it reads scalars, and whether a structure may also be
given as a sequence. -/
structure Deserializer where
  string : Yaml → Except Error Str
  /-- `u16`, `u32` or `u64`, by the number of bits. -/
  unsigned : ℕ → Yaml → Except Error ℕ
  bool : Yaml → Except Error Bool
  structFromSeq : Bool

/-- The deserializer of a value in a buffer, `ContentRefDeserializer` of `serde`. -/
def contentRef : Deserializer where
  string
    | .str s => .ok s
    | v => .error (YamlErrors.invalidType v "a string".toList)
  unsigned bits
    | .int n =>
        if 0 ≤ n ∧ n < 2 ^ bits then .ok n.toNat
        else .error (YamlErrors.invalidType (.int n) ("u".toList ++ decimal bits))
    | v => .error (YamlErrors.invalidType v ("u".toList ++ decimal bits))
  bool
    | .bool b => .ok b
    | v => .error (YamlErrors.invalidType v "a boolean".toList)
  structFromSeq := true

/-- The errors of a derived reader of a structure. -/
def recordErrors : RecordErrors Str Error where
  unknown names key := YamlErrors.unknownField key names
  duplicate := YamlErrors.duplicateField
  missing := YamlErrors.missingField

/-- `1 element`, `2 elements`. -/
def elements (n : ℕ) : Str := decimal n ++ (if n = 1 then " element" else " elements").toList

/-- A derived reader of a structure. -/
def readStruct {α : Type} (name : Str) (fields : Fields Str Yaml Error α) (d : Deserializer) :
    Yaml → Except Error α
  | .map entries => fields.read recordErrors entries
  | .seq items =>
      let expected := "struct ".toList ++ name ++ " with ".toList ++ elements fields.names.length
      if d.structFromSeq then
        fields.readSeq (fun index => YamlErrors.invalidLength index expected)
          (YamlErrors.invalidLength items.length
            (elements fields.names.length ++ " in sequence".toList)) 0 items
      else .error (YamlErrors.invalidType (.seq items) ("struct ".toList ++ name))
  | v => .error (YamlErrors.invalidType v ("struct ".toList ++ name))

/-- `Vec::deserialize` from a buffer. -/
def readVec {α : Type} (read : Yaml → Except Error α) : Yaml → Except Error (List α)
  | .seq items => items.mapM read
  | v => .error (YamlErrors.invalidType v "a sequence".toList)

/-- `Option::deserialize` from a buffer. -/
def readOption {α : Type} (read : Yaml → Except Error α) : Yaml → Except Error (Option α)
  | .null => .ok none
  | v => (read v).map some

/-- No variant of an untagged enumeration fits. -/
def noVariant (name : Str) : Error :=
  YamlErrors.custom ("data did not match any variant of untagged enum ".toList ++ name)

/-- `NullableVec` and `NullableStrings`: null, or a sequence whose null items are dropped. -/
def readNullable {α : Type} (name : Str) (read : Yaml → Except Error α) :
    Yaml → Except Error (List α)
  | .null => .ok []
  | v =>
      match readVec (readOption read) v with
      | .ok values => .ok (values.filterMap id)
      | .error _ => .error (noVariant name)

/-- `deserialize_optional_vec`. -/
def deserializeOptionalVec {α : Type} (deserialize : Deserializer → Yaml → Except Error α) :
    Yaml → Except Error (List α) :=
  readNullable "NullableVec".toList (deserialize contentRef)

/-- `deserialize_non_empty_strings`. -/
def deserializeNonEmptyStrings (v : Yaml) : Except Error (List Str) :=
  (readNullable "NullableStrings".toList contentRef.string v).map fun values =>
    values.filter fun value => trim value ≠ []

/-- `deserialize_hosts`. -/
def deserializeHosts (v : Yaml) : Except Error (List Str) :=
  match contentRef.string v with
  | .ok host => .ok [host]
  | .error _ =>
      match readVec contentRef.string v with
      | .ok [] => .error (YamlErrors.custom "application.host must not be empty".toList)
      | .ok hosts => .ok hosts
      | .error _ => .error (noVariant "Hosts".toList)

/-- `deserialize_byte_count`. -/
def deserializeByteCount (v : Yaml) : Except Error ℕ :=
  match contentRef.unsigned 64 v with
  | .ok n => .ok n
  | .error _ =>
      match contentRef.string v with
      | .ok expr => (evalByteExpr expr).mapError YamlErrors.custom
      | .error _ => .error (noVariant "NumOrExpr".toList)

/-- The reader of a field that says in its error which field it is and what to do. -/
def describing {α : Type} (what hint : Str) (read : Yaml → Except Error α) (v : Yaml) :
    Except Error α :=
  (read v).mapError fun error =>
    YamlErrors.custom (what ++ " is invalid: ".toList ++ YamlErrors.display error ++
      "; ".toList ++ hint)

/-- `deserialize_port`. -/
def deserializePort (d : Deserializer) : Yaml → Except Error ℕ :=
  describing "field `application.port`".toList "use a whole number from 0 to 65535".toList
    (d.unsigned 16)

/-- `deserialize_hostname`. -/
def deserializeHostname (d : Deserializer) : Yaml → Except Error Str :=
  describing "field `application.hostname`".toList "use a hostname string".toList d.string

/-- `deserialize_limit_max`. -/
def deserializeLimitMax : Yaml → Except Error ℕ :=
  describing "field `max`".toList
    "use a whole number or a multiplication expression such as `1024 * 1024`".toList
    deserializeByteCount

/-- `deserialize_result_max`. -/
def deserializeResultMax : Yaml → Except Error ℕ :=
  describing "field `connection.bandwidth_limit.result.max`".toList
    "use a whole number or a multiplication expression such as `1024 * 1024`".toList
    deserializeByteCount

/-- `deserialize_cache_number`. -/
def deserializeCacheNumber : Yaml → Except Error ℕ :=
  describing "cache value".toList
    "use a whole number or a multiplication expression".toList deserializeByteCount

/-- `deserialize_window`. -/
def deserializeWindow (d : Deserializer) : Yaml → Except Error ℕ :=
  describing "field `window`".toList "use a positive whole number of seconds".toList
    (d.unsigned 64)

/-- `deserialize_max_redirects`. -/
def deserializeMaxRedirects (d : Deserializer) : Yaml → Except Error ℕ :=
  describing "field `proxy.max_redirects`".toList "use a whole number of redirects".toList
    (d.unsigned 32)

/-- `deserialize_timeout`. -/
def deserializeTimeout (d : Deserializer) : Yaml → Except Error ℕ :=
  describing "field `proxy.timeout`".toList "use a whole number of seconds".toList
    (d.unsigned 64)

/-! ## The structures -/

/-- `ApplicationConfig`. -/
structure ApplicationConfig where
  host : List Str
  port : ℕ
  hostname : Str
  realIpHeader : Str

/-- `TargetListConfig`. -/
structure TargetListConfig where
  blacklist : List Str
  whitelist : List Str

/-- `ResultSizeConfig`. -/
structure ResultSizeConfig where
  max : ℕ

/-- `BandwidthLimitConfig`. -/
structure BandwidthLimitConfig where
  connection : List LimitTier
  result : ResultSizeConfig

/-- `ConnectionConfig`. -/
structure ConnectionConfig where
  target : TargetListConfig
  origin : TargetListConfig
  rateLimit : List LimitTier
  bandwidthLimit : BandwidthLimitConfig

/-- `ProxyConfig`. -/
structure ProxyConfig where
  maxRedirects : ℕ
  timeout : ℕ
  responseHeadersOverrides : List ResponseHeaderOverrideConfig

/-- `CacheConfig`. -/
structure CacheConfig where
  enabled : Bool
  maxAge : ℕ
  maxSize : ℕ
  location : Str
  whitelist : List CacheRule

/-- `Config`. -/
structure Config where
  application : ApplicationConfig
  connection : ConnectionConfig
  proxy : ProxyConfig
  cache : CacheConfig

/-- `default_real_ip_header`. -/
def defaultRealIpHeader : Str := "X-Real-IP".toList

/-- `ResultSizeConfig::default`. -/
def ResultSizeConfig.default : ResultSizeConfig where
  max := 0

/-- `BandwidthLimitConfig::default`. -/
def BandwidthLimitConfig.default : BandwidthLimitConfig where
  connection := []
  result := .default

/-- `CacheConfig::default`. -/
def CacheConfig.default : CacheConfig where
  enabled := false
  maxAge := 0
  maxSize := 0
  location := []
  whitelist := []

/-- The fields of `ApplicationConfig`. -/
def ApplicationConfig.fields (d : Deserializer) :
    Fields Str Yaml Error (List Str × ℕ × Str × Str × Unit) :=
  .field "host".toList deserializeHosts none <|
  .field "port".toList (deserializePort d) none <|
  .field "hostname".toList (deserializeHostname d) none <|
  .field "real_ip_header".toList d.string (some defaultRealIpHeader) .done

/-- `ApplicationConfig::deserialize`. -/
def ApplicationConfig.deserialize (d : Deserializer) (v : Yaml) : Except Error ApplicationConfig :=
  (readStruct "ApplicationConfig".toList (fields d) d v).map
    fun (host, port, hostname, realIpHeader, _) => ⟨host, port, hostname, realIpHeader⟩

/-- The fields of `TargetListConfig`. -/
def TargetListConfig.fields : Fields Str Yaml Error (List Str × List Str × Unit) :=
  .field "blacklist".toList deserializeNonEmptyStrings (some []) <|
  .field "whitelist".toList deserializeNonEmptyStrings (some []) .done

/-- `TargetListConfig::deserialize`. -/
def TargetListConfig.deserialize (d : Deserializer) (v : Yaml) : Except Error TargetListConfig :=
  (readStruct "TargetListConfig".toList fields d v).map
    fun (blacklist, whitelist, _) => ⟨blacklist, whitelist⟩

/-- The fields of `LimitTier`. -/
def LimitTier.fields (d : Deserializer) : Fields Str Yaml Error (ℕ × ℕ × Unit) :=
  .field "window".toList (deserializeWindow d) none <|
  .field "max".toList deserializeLimitMax none .done

/-- `LimitTier::deserialize`. -/
def LimitTier.deserialize (d : Deserializer) (v : Yaml) : Except Error LimitTier :=
  (readStruct "LimitTier".toList (fields d) d v).map fun (window, max, _) => ⟨window, max⟩

/-- The fields of `ResultSizeConfig`. -/
def ResultSizeConfig.fields : Fields Str Yaml Error (ℕ × Unit) :=
  .field "max".toList deserializeResultMax (some 0) .done

/-- `ResultSizeConfig::deserialize`. -/
def ResultSizeConfig.deserialize (d : Deserializer) (v : Yaml) : Except Error ResultSizeConfig :=
  (readStruct "ResultSizeConfig".toList fields d v).map fun (max, _) => ⟨max⟩

/-- The fields of `BandwidthLimitConfig`. -/
def BandwidthLimitConfig.fields (d : Deserializer) :
    Fields Str Yaml Error (List LimitTier × ResultSizeConfig × Unit) :=
  .field "connection".toList (deserializeOptionalVec LimitTier.deserialize) (some []) <|
  .field "result".toList (ResultSizeConfig.deserialize d) (some .default) .done

/-- `BandwidthLimitConfig::deserialize`. -/
def BandwidthLimitConfig.deserialize (d : Deserializer) (v : Yaml) :
    Except Error BandwidthLimitConfig :=
  (readStruct "BandwidthLimitConfig".toList (fields d) d v).map
    fun (connection, result, _) => ⟨connection, result⟩

/-- The fields of `ConnectionConfig`. -/
def ConnectionConfig.fields (d : Deserializer) :
    Fields Str Yaml Error
      (TargetListConfig × TargetListConfig × List LimitTier × BandwidthLimitConfig × Unit) :=
  .field "target".toList (TargetListConfig.deserialize d) none <|
  .field "origin".toList (TargetListConfig.deserialize d) none <|
  .field "rate_limit".toList (deserializeOptionalVec LimitTier.deserialize) (some []) <|
  .field "bandwidth_limit".toList (BandwidthLimitConfig.deserialize d) (some .default) .done

/-- `ConnectionConfig::deserialize`. -/
def ConnectionConfig.deserialize (d : Deserializer) (v : Yaml) : Except Error ConnectionConfig :=
  (readStruct "ConnectionConfig".toList (fields d) d v).map
    fun (target, origin, rateLimit, bandwidthLimit, _) =>
      ⟨target, origin, rateLimit, bandwidthLimit⟩

/-- `BTreeMap::deserialize`, from strings to strings: the last value of a key stays. -/
def readPairs (d : Deserializer) : Yaml → Except Error (AList fun _ : Str => Str)
  | .map entries =>
      (entries.mapM fun e => (d.string e.2).map fun value => (e.1, value)).map fun pairs =>
        pairs.foldl (fun map e => map.insert e.1 e.2) ∅
  | v => .error (YamlErrors.invalidType v "a map".toList)

/-- `HeaderPair::deserialize`. -/
def HeaderPair.deserialize (d : Deserializer) (v : Yaml) : Except Error HeaderPair :=
  (readPairs d v).bind fun map =>
    match map.entries with
    | [⟨name, value⟩] =>
        if trim name = [] then
          .error (YamlErrors.custom
            "header name in `add_headers`/`set_headers` must not be empty".toList)
        else .ok ⟨name, value⟩
    | _ =>
        .error (YamlErrors.custom
          ("each `add_headers`/`set_headers` entry must contain exactly one ".toList ++
            "`name: value` pair".toList))

/-- The fields of `ResponseHeaderOverrideConfig`. -/
def ResponseHeaderOverrideConfig.fields (d : Deserializer) :
    Fields Str Yaml Error (Str × List Str × List HeaderPair × List HeaderPair × Unit) :=
  .field "site".toList d.string none <|
  .field "remove_headers".toList deserializeNonEmptyStrings (some []) <|
  .field "add_headers".toList (deserializeOptionalVec HeaderPair.deserialize) (some []) <|
  .field "set_headers".toList (deserializeOptionalVec HeaderPair.deserialize) (some []) .done

/-- `ResponseHeaderOverrideConfig::deserialize`. -/
def ResponseHeaderOverrideConfig.deserialize (d : Deserializer) (v : Yaml) :
    Except Error ResponseHeaderOverrideConfig :=
  (readStruct "ResponseHeaderOverrideConfig".toList (fields d) d v).map
    fun (site, remove, add, set, _) => ⟨site, remove, add, set⟩

/-- The fields of `ProxyConfig`. -/
def ProxyConfig.fields (d : Deserializer) :
    Fields Str Yaml Error (ℕ × ℕ × List ResponseHeaderOverrideConfig × Unit) :=
  .field "max_redirects".toList (deserializeMaxRedirects d) none <|
  .field "timeout".toList (deserializeTimeout d) none <|
  .field "response_headers_overrides".toList
    (deserializeOptionalVec ResponseHeaderOverrideConfig.deserialize) (some []) .done

/-- `ProxyConfig::deserialize`. -/
def ProxyConfig.deserialize (d : Deserializer) (v : Yaml) : Except Error ProxyConfig :=
  (readStruct "ProxyConfig".toList (fields d) d v).map
    fun (maxRedirects, timeout, overrides, _) => ⟨maxRedirects, timeout, overrides⟩

/-- The fields of `CacheRule`. -/
def CacheRule.fields (d : Deserializer) : Fields Str Yaml Error (Str × ℕ × Unit) :=
  .field "match".toList d.string none <|
  .field "max_age".toList deserializeCacheNumber none .done

/-- `CacheRule::deserialize`. -/
def CacheRule.deserialize (d : Deserializer) (v : Yaml) : Except Error CacheRule :=
  (readStruct "CacheRule".toList (fields d) d v).map fun (pattern, maxAge, _) => ⟨pattern, maxAge⟩

/-- The fields of `CacheConfig`. -/
def CacheConfig.fields (d : Deserializer) :
    Fields Str Yaml Error (Bool × ℕ × ℕ × Str × List CacheRule × Unit) :=
  .field "enabled".toList d.bool (some false) <|
  .field "max_age".toList deserializeCacheNumber (some 0) <|
  .field "max_size".toList deserializeCacheNumber (some 0) <|
  .field "location".toList d.string (some []) <|
  .field "whitelist".toList (deserializeOptionalVec CacheRule.deserialize) (some []) .done

/-- `CacheConfig::deserialize`. -/
def CacheConfig.deserialize (d : Deserializer) (v : Yaml) : Except Error CacheConfig :=
  (readStruct "CacheConfig".toList (fields d) d v).map
    fun (enabled, maxAge, maxSize, location, whitelist, _) =>
      ⟨enabled, maxAge, maxSize, location, whitelist⟩

/-- The fields of `Config`. -/
def Config.fields (d : Deserializer) :
    Fields Str Yaml Error
      (ApplicationConfig × ConnectionConfig × ProxyConfig × CacheConfig × Unit) :=
  .field "application".toList (ApplicationConfig.deserialize d) none <|
  .field "connection".toList (ConnectionConfig.deserialize d) none <|
  .field "proxy".toList (ProxyConfig.deserialize d) none <|
  .field "cache".toList (CacheConfig.deserialize d) (some .default) .done

/-- `Config::deserialize`. -/
def Config.deserialize (d : Deserializer) (v : Yaml) : Except Error Config :=
  (readStruct "Config".toList (fields d) d v).map
    fun (application, connection, proxy, cache, _) => ⟨application, connection, proxy, cache⟩

/-! ## Loading -/

/-- `ConfigError`. -/
inductive ConfigError where
  | parse (error : Error)
  | io (text : Str)
  | invalid (text : Str)

/-- The text of a `ConfigError`. -/
def ConfigError.toText : ConfigError → Str
  | .parse error => "failed to parse config: ".toList ++ YamlErrors.display error
  | .io text => "failed to read config file: ".toList ++ text
  | .invalid text => "invalid config: ".toList ++ text

/-- The checks of `validate` on the tiers under `path`: `window` says what the window is of,
`units` what is counted. -/
def validateTier (path window units : Str) (tier : LimitTier) : Except ConfigError Unit :=
  if tier.window = 0 then
    .error (.invalid ("field `".toList ++ path ++
      "[].window` must be > 0; set it to the number of seconds in the ".toList ++ window ++
      " window".toList))
  else if tier.max = 0 then
    .error (.invalid ("field `".toList ++ path ++
      "[].max` must be > 0; set it to the maximum number of ".toList ++ units ++
      " allowed".toList))
  else .ok ()

/-- The checks of `validate` on the override rule at `index`. -/
def validateOverride (rule : ResponseHeaderOverrideConfig) (index : ℕ) : Except ConfigError Unit :=
  let field := "field `proxy.response_headers_overrides[".toList ++ decimal index
  if trim rule.site = [] then
    .error (.invalid (field ++
      "].site` must not be empty; use a target URL pattern such as `*://example.com/*`".toList))
  else if rule.removeHeaders = [] ∧ rule.addHeaders.isEmpty ∧ rule.setHeaders.isEmpty then
    .error (.invalid (field ++
      "]` must define at least one of `remove_headers`, `add_headers`, or `set_headers`".toList))
  else .ok ()

/-- `Config::validate`. -/
def Config.validate (config : Config) : Except ConfigError Unit :=
  (config.connection.rateLimit.forM
      (validateTier "connection.rate_limit".toList "rate-limit".toList "requests".toList)).bind
    fun _ =>
  (config.connection.bandwidthLimit.connection.forM
      (validateTier "connection.bandwidth_limit.connection".toList "bandwidth".toList
        "bytes".toList)).bind fun _ =>
  if config.proxy.maxRedirects = 0 ∧ config.proxy.timeout = 0 then
    .error (.invalid ("fields `proxy.max_redirects` and `proxy.timeout` cannot both be 0; ".toList
      ++ "increase either value to enable redirects or upstream requests".toList))
  else
    config.proxy.responseHeadersOverrides.zipIdx.forM fun rule => validateOverride rule.1 rule.2

/-- The configuration of a parsed document. -/
def Config.ofYaml (d : Deserializer) (v : Yaml) : Except ConfigError Config :=
  ((Config.deserialize d v).mapError .parse).bind fun config =>
    config.validate.map fun _ => config

end Reading

/-- The YAML crate: its parser, and its deserializer of a parsed value. -/
class YamlCrate extends YamlErrors where
  parse : Bytes → Except Error Yaml
  deserializer : Deserializer

/-- `Config::load`, of a file that opens with the bytes `file`. -/
def Config.load [YamlCrate] (file : Except Str Bytes) : Except ConfigError Config :=
  (file.mapError .io).bind fun bytes =>
    ((YamlCrate.parse bytes).mapError .parse).bind fun v =>
      Config.ofYaml YamlCrate.deserializer v

theorem load_eq_ok_iff [YamlCrate] {file : Except Str Bytes} {config : Config} :
    Config.load file = .ok config ↔
      ∃ bytes v, file = .ok bytes ∧ YamlCrate.parse bytes = .ok v ∧
        Config.ofYaml YamlCrate.deserializer v = .ok config := by
  unfold Config.load
  rw [bind_eq_ok_iff]
  constructor
  · rintro ⟨bytes, hfile, h⟩
    obtain ⟨v, hparse, hconfig⟩ := bind_eq_ok_iff.mp h
    exact ⟨bytes, v, mapError_eq_ok_iff.mp hfile, mapError_eq_ok_iff.mp hparse, hconfig⟩
  · rintro ⟨bytes, v, hfile, hparse, hconfig⟩
    exact ⟨bytes, mapError_eq_ok_iff.mpr hfile,
      bind_eq_ok_iff.mpr ⟨v, mapError_eq_ok_iff.mpr hparse, hconfig⟩⟩

/-- A file that parses loads as what its document gives. -/
theorem load_ok_iff [YamlCrate] {bytes : Bytes} {v : Yaml} (hparse : YamlCrate.parse bytes = .ok v)
    {config : Config} :
    Config.load (.ok bytes) = .ok config ↔
      Config.ofYaml YamlCrate.deserializer v = .ok config := by
  rw [load_eq_ok_iff]
  constructor
  · rintro ⟨bytes', v', hbytes, hparse', hconfig⟩
    obtain rfl := Except.ok.inj hbytes
    obtain rfl := Except.ok.inj (hparse.symm.trans hparse')
    exact hconfig
  · intro hconfig
    exact ⟨bytes, v, rfl, hparse, hconfig⟩

end Corsget
