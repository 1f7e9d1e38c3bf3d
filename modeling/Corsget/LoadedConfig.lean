import Corsget.Config

/-!
# The configurations that can be loaded

Loading accepts exactly the well-formed configurations (`load_image`): the numbers are in the
ranges of their types, the lists of patterns and of headers have no blank entries, the tiers
are positive, and every override rule has a site and an action.  For each of the structures of
`config.rs` a lemma says which of its values its reader returns.
-/

namespace Corsget

open Decode Text Validation

section Reading

variable [YamlErrors]

/-! ## What the readers return -/

/-- What a deserializer of scalars does: it reads the scalars of its own type, and no list and
no mapping, and a number that it reads is in the range of the type. -/
structure Deserializer.Lawful (d : Deserializer) : Prop where
  string_str : ∀ s, d.string (.str s) = .ok s
  unsigned_int : ∀ (bits n : ℕ), n < 2 ^ bits → d.unsigned bits (.int n) = .ok n
  unsigned_lt : ∀ {bits n : ℕ} {v : Yaml}, d.unsigned bits v = .ok n → n < 2 ^ bits
  bool_bool : ∀ b, d.bool (.bool b) = .ok b
  string_scalar : ∀ {v : Yaml} {s : Str}, d.string v = .ok s → v.Scalar
  unsigned_scalar : ∀ {bits n : ℕ} {v : Yaml}, d.unsigned bits v = .ok n → v.Scalar
  bool_scalar : ∀ {v : Yaml} {b : Bool}, d.bool v = .ok b → v.Scalar

theorem contentRef_unsigned_eq_ok {bits n : ℕ} {v : Yaml} (h : contentRef.unsigned bits v = .ok n) :
    v = .int n ∧ n < 2 ^ bits := by
  cases v with
  | int m =>
      change (if 0 ≤ m ∧ m < 2 ^ bits then _ else _) = _ at h
      split at h
      · next hm =>
          have hnat : m.toNat = n := Except.ok.inj h
          refine ⟨congrArg _ ?_, ?_⟩
          · omega
          · have hcast : ((n : ℤ)) < 2 ^ bits := by omega
            exact_mod_cast hcast
      · cases h
  | _ => cases h

theorem contentRef_lawful : contentRef.Lawful where
  string_str _ := rfl
  unsigned_int bits n h := by
    have hrange : (0 : ℤ) ≤ n ∧ (n : ℤ) < 2 ^ bits := ⟨by omega, by exact_mod_cast h⟩
    show (if (0 : ℤ) ≤ n ∧ (n : ℤ) < 2 ^ bits then _ else _) = _
    rw [if_pos hrange]
    exact congrArg _ (Int.toNat_natCast n)
  unsigned_lt h := (contentRef_unsigned_eq_ok h).2
  bool_bool _ := rfl
  string_scalar {v s} h := by
    cases v with
    | str s => trivial
    | _ => cases h
  unsigned_scalar h := by
    obtain ⟨rfl, -⟩ := contentRef_unsigned_eq_ok h
    trivial
  bool_scalar {v b} h := by
    cases v with
    | bool b => trivial
    | _ => cases h

section Images

variable {α : Type} {d : Deserializer}

theorem image_string (hd : d.Lawful) : Image d.string fun _ => True :=
  fun s => iff_of_true ⟨.str s, hd.string_str s⟩ trivial

theorem image_unsigned (hd : d.Lawful) (bits : ℕ) : Image (d.unsigned bits) (· < 2 ^ bits) :=
  fun n => ⟨fun ⟨_, hread⟩ => hd.unsigned_lt hread, fun h => ⟨.int n, hd.unsigned_int bits n h⟩⟩

theorem image_bool (hd : d.Lawful) : Image d.bool fun _ => True :=
  fun b => iff_of_true ⟨.bool b, hd.bool_bool b⟩ trivial

theorem image_describing {what hint : Str} {read : Yaml → Except Error α} {P : α → Prop}
    (h : Image read P) : Image (describing what hint read) P :=
  h.mapError _

/-- A derived reader returns the records of the values of its fields. -/
theorem image_readStruct {name : Str} {fields : Fields Str Yaml Error α} {P : α → Prop}
    (h : fields.Reads P) (hnodup : fields.names.Nodup) : Image (readStruct name fields d) P := by
  intro a
  constructor
  · rintro ⟨v, hread⟩
    cases v with
    | map entries => exact (h.image hnodup).holds hread
    | seq items =>
        change (if d.structFromSeq then _ else _) = _ at hread
        split at hread
        · exact h.of_readSeq hread
        · cases hread
    | _ => cases hread
  · intro ha
    obtain ⟨entries, hread⟩ := (h.image hnodup a).mpr ha
    exact ⟨.map entries, hread⟩

theorem readOption_eq_ok_some {read : Yaml → Except Error α} {v : Yaml} {a : α}
    (h : readOption read v = .ok (some a)) : read v = .ok a := by
  have hmap : v ≠ .null → (read v).map some = .ok (some a) → read v = .ok a := by
    intro _ h
    obtain ⟨b, hb, hsome⟩ := map_eq_ok_iff.mp h
    rw [hb, Option.some.inj hsome]
  cases v with
  | null => cases h
  | _ => exact hmap (by simp) h

theorem readOption_of_ne_null {read : Yaml → Except Error α} {v : Yaml} (hv : v ≠ .null) :
    readOption read v = (read v).map some := by
  cases v with
  | null => exact absurd rfl hv
  | _ => rfl

/-- **Nullable lists** of values that are not null. -/
theorem image_readNullable {name : Str} {read : Yaml → Except Error α} {P : α → Prop}
    (h : Image read P) (hnull : ∀ a, read .null ≠ .ok a) :
    Image (readNullable name read) fun xs => ∀ x ∈ xs, P x := by
  intro xs
  constructor
  · rintro ⟨v, hread⟩ x hx
    cases v with
    | null =>
        obtain rfl : [] = xs := Except.ok.inj hread
        cases hx
    | seq items =>
        simp only [readNullable, readVec] at hread
        split at hread
        · next values hvalues =>
            obtain rfl := Except.ok.inj hread
            obtain ⟨y, hy, hyx⟩ := List.mem_filterMap.mp hx
            obtain rfl : y = some x := hyx
            obtain ⟨item, -, hitem⟩ := exists_of_mem_of_mapM hvalues hy
            exact h.holds (readOption_eq_ok_some hitem)
        · cases hread
    | _ => cases hread
  · intro hall
    obtain ⟨items, hitems⟩ := (h.list xs).mpr hall
    have hsome : items.mapM (readOption read) = .ok (xs.map some) := by
      refine mapM_eq_ok_iff.mpr (List.forall₂_map_right_iff.mpr ?_)
      refine (mapM_eq_ok_iff.mp hitems).imp fun v x hv => ?_
      have hne : v ≠ .null := fun hv' => hnull x (hv' ▸ hv)
      rw [readOption_of_ne_null hne, hv]
      rfl
    refine ⟨.seq items, ?_⟩
    simp only [readNullable, readVec, hsome]
    simp

theorem image_nonEmptyStrings :
    Image deserializeNonEmptyStrings fun xs => ∀ x ∈ xs, trim x ≠ [] := by
  have hstrings : Image (readNullable "NullableStrings".toList contentRef.string)
      fun xs => ∀ x ∈ xs, True :=
    image_readNullable (image_string contentRef_lawful) fun a h => (by cases h)
  refine hstrings.map fun xs => ⟨fun h => ⟨xs, fun _ _ => trivial, ?_⟩, ?_⟩
  · exact List.filter_eq_self.mpr fun x hx => decide_eq_true (h x hx)
  · rintro ⟨values, -, rfl⟩ x hx
    exact of_decide_eq_true (List.mem_filter.mp hx).2

theorem deserializeHosts_of_ne_nil {items : List Yaml} {hosts : List Str}
    (h : items.mapM contentRef.string = .ok hosts) (hne : hosts ≠ []) :
    deserializeHosts (.seq items) = .ok hosts := by
  have hvec : readVec contentRef.string (.seq items) = .ok hosts := h
  obtain ⟨host, rest, rfl⟩ := List.exists_cons_of_ne_nil hne
  have hnone : contentRef.string (.seq items) =
      .error (YamlErrors.invalidType (.seq items) "a string".toList) := rfl
  unfold deserializeHosts
  rw [hnone, hvec]

theorem image_hosts : Image deserializeHosts (· ≠ []) := by
  intro hosts
  constructor
  · rintro ⟨v, hread⟩ rfl
    unfold deserializeHosts at hread
    split at hread
    · cases hread
    · split at hread
      · cases hread
      · next hne _ =>
          obtain rfl := Except.ok.inj hread
          exact hne rfl
      · cases hread
  · intro hne
    refine ⟨.seq (hosts.map .str), deserializeHosts_of_ne_nil ?_ hne⟩
    exact mapM_eq_ok_iff.mpr (List.forall₂_map_left_iff.mpr (List.forall₂_same.mpr fun _ _ => rfl))

omit [YamlErrors] in
theorem evalByteExpr_lt {expr : Str} {n : ℕ} (h : evalByteExpr expr = .ok n) : n < 2 ^ 64 := by
  obtain ⟨factors, -, hleading, rfl⟩ := (foldlM_evalBytePart_eq_ok_iff (by decide)).mp h
  exact hleading factors List.prefix_rfl

theorem deserializeByteCount_of_unsigned {v : Yaml} {n : ℕ} (h : contentRef.unsigned 64 v = .ok n) :
    deserializeByteCount v = .ok n := by
  unfold deserializeByteCount
  rw [h]

theorem image_byteCount : Image deserializeByteCount (· < 2 ^ 64) := by
  intro n
  constructor
  · rintro ⟨v, hread⟩
    unfold deserializeByteCount at hread
    split at hread
    · next m hm =>
        obtain rfl := Except.ok.inj hread
        exact contentRef_lawful.unsigned_lt hm
    · split at hread
      · exact evalByteExpr_lt (mapError_eq_ok_iff.mp hread)
      · cases hread
  · intro hn
    exact ⟨.int n, deserializeByteCount_of_unsigned (contentRef_lawful.unsigned_int 64 n hn)⟩

/-! ## The structures that can be read -/

/-- Both numbers of a tier are in the range of `u64`. -/
def LimitTier.Fits (tier : LimitTier) : Prop := tier.window < 2 ^ 64 ∧ tier.max < 2 ^ 64

/-- No entry of the lists is blank. -/
def TargetListConfig.NonBlank (lists : TargetListConfig) : Prop :=
  (∀ entry ∈ lists.blacklist, trim entry ≠ []) ∧ ∀ entry ∈ lists.whitelist, trim entry ≠ []

/-- The pair has a name. -/
def HeaderPair.Named (pair : HeaderPair) : Prop := trim pair.name ≠ []

/-- No header of the rule is without a name. -/
def ResponseHeaderOverrideConfig.Named (rule : ResponseHeaderOverrideConfig) : Prop :=
  (∀ name ∈ rule.removeHeaders, trim name ≠ []) ∧ (∀ pair ∈ rule.addHeaders, pair.Named) ∧
    ∀ pair ∈ rule.setHeaders, pair.Named

/-- The values of `ApplicationConfig` are in their ranges. -/
def ApplicationConfig.Fits (application : ApplicationConfig) : Prop :=
  application.host ≠ [] ∧ application.port < 2 ^ 16

/-- The values of `BandwidthLimitConfig` are in their ranges. -/
def BandwidthLimitConfig.Fits (limit : BandwidthLimitConfig) : Prop :=
  (∀ tier ∈ limit.connection, tier.Fits) ∧ limit.result.max < 2 ^ 64

/-- The values of `ConnectionConfig` are in their ranges. -/
def ConnectionConfig.Fits (connection : ConnectionConfig) : Prop :=
  connection.target.NonBlank ∧ connection.origin.NonBlank ∧
    (∀ tier ∈ connection.rateLimit, tier.Fits) ∧ connection.bandwidthLimit.Fits

/-- The values of `ProxyConfig` are in their ranges. -/
def ProxyConfig.Fits (proxy : ProxyConfig) : Prop :=
  proxy.maxRedirects < 2 ^ 32 ∧ proxy.timeout < 2 ^ 64 ∧
    ∀ rule ∈ proxy.responseHeadersOverrides, rule.Named

/-- The values of `CacheConfig` are in their ranges. -/
def CacheConfig.Fits (cache : CacheConfig) : Prop :=
  cache.maxAge < 2 ^ 64 ∧ cache.maxSize < 2 ^ 64 ∧ ∀ rule ∈ cache.whitelist, rule.maxAge < 2 ^ 64

/-- The values of a configuration are in their ranges. -/
def Config.Fits (config : Config) : Prop :=
  config.application.Fits ∧ config.connection.Fits ∧ config.proxy.Fits ∧ config.cache.Fits

theorem image_optionalVec {deserialize : Deserializer → Yaml → Except Error α} {P : α → Prop}
    (h : Image (deserialize contentRef) P) (hnull : ∀ a, deserialize contentRef .null ≠ .ok a) :
    Image (deserializeOptionalVec deserialize) fun xs => ∀ x ∈ xs, P x :=
  image_readNullable h hnull

theorem image_limitTier (hd : d.Lawful) : Image (LimitTier.deserialize d) LimitTier.Fits := by
  have hfields : (LimitTier.fields d).Reads fun a => a.1 < 2 ^ 64 ∧ a.2.1 < 2 ^ 64 ∧ True :=
    .required (image_describing (image_unsigned hd 64)) <|
      .required (image_describing image_byteCount) .done
  have hnodup : (LimitTier.fields d).names.Nodup := by
    show List.Nodup ["window".toList, "max".toList]
    decide
  refine (image_readStruct hfields hnodup).map fun tier => ⟨fun h => ?_, ?_⟩
  · exact ⟨(tier.window, tier.max, ()), ⟨h.1, h.2, trivial⟩, rfl⟩
  · rintro ⟨a, h, rfl⟩
    exact ⟨h.1, h.2.1⟩

theorem image_targetList : Image (TargetListConfig.deserialize d) TargetListConfig.NonBlank := by
  have hnil : ∀ x ∈ ([] : List Str), trim x ≠ [] := fun x hx => (by cases hx)
  have hfields : TargetListConfig.fields.Reads fun a =>
      (∀ x ∈ a.1, trim x ≠ []) ∧ (∀ x ∈ a.2.1, trim x ≠ []) ∧ True :=
    .optional image_nonEmptyStrings hnil <| .optional image_nonEmptyStrings hnil .done
  have hnodup : TargetListConfig.fields.names.Nodup := by
    show List.Nodup ["blacklist".toList, "whitelist".toList]
    decide
  refine (image_readStruct hfields hnodup).map fun lists => ⟨fun h => ?_, ?_⟩
  · exact ⟨(lists.blacklist, lists.whitelist, ()), ⟨h.1, h.2, trivial⟩, rfl⟩
  · rintro ⟨a, h, rfl⟩
    exact ⟨h.1, h.2.1⟩

theorem image_resultSize :
    Image (ResultSizeConfig.deserialize d) fun result => result.max < 2 ^ 64 := by
  have hfields : ResultSizeConfig.fields.Reads fun a => a.1 < 2 ^ 64 ∧ True :=
    .optional (image_describing image_byteCount) (by decide) .done
  refine (image_readStruct hfields (List.nodup_singleton _)).map fun result => ⟨fun h => ?_, ?_⟩
  · exact ⟨(result.max, ()), ⟨h, trivial⟩, rfl⟩
  · rintro ⟨a, h, rfl⟩
    exact h.1

/-- Tiers in a list. -/
theorem image_limitTiers :
    Image (deserializeOptionalVec LimitTier.deserialize) fun tiers => ∀ tier ∈ tiers, tier.Fits :=
  image_optionalVec (image_limitTier contentRef_lawful) fun a h => (by cases h)

theorem image_bandwidthLimit :
    Image (BandwidthLimitConfig.deserialize d) BandwidthLimitConfig.Fits := by
  have hfields : (BandwidthLimitConfig.fields d).Reads fun a =>
      (∀ tier ∈ a.1, tier.Fits) ∧ a.2.1.max < 2 ^ 64 ∧ True :=
    .optional image_limitTiers (fun tier h => (by cases h)) <|
      .optional image_resultSize (by decide) .done
  have hnodup : (BandwidthLimitConfig.fields d).names.Nodup := by
    show List.Nodup ["connection".toList, "result".toList]
    decide
  refine (image_readStruct hfields hnodup).map fun limit => ⟨fun h => ?_, ?_⟩
  · exact ⟨(limit.connection, limit.result, ()), ⟨h.1, h.2, trivial⟩, rfl⟩
  · rintro ⟨a, h, rfl⟩
    exact ⟨h.1, h.2.1⟩

omit [YamlErrors] in
theorem BandwidthLimitConfig.default_fits : BandwidthLimitConfig.default.Fits :=
  ⟨fun tier h => (by cases h), by decide⟩

theorem image_connection : Image (ConnectionConfig.deserialize d) ConnectionConfig.Fits := by
  have hfields : (ConnectionConfig.fields d).Reads fun a =>
      a.1.NonBlank ∧ a.2.1.NonBlank ∧ (∀ tier ∈ a.2.2.1, tier.Fits) ∧ a.2.2.2.1.Fits ∧ True :=
    .required image_targetList <| .required image_targetList <|
      .optional image_limitTiers (fun tier h => (by cases h)) <|
        .optional image_bandwidthLimit BandwidthLimitConfig.default_fits .done
  have hnodup : (ConnectionConfig.fields d).names.Nodup := by
    show List.Nodup ["target".toList, "origin".toList, "rate_limit".toList,
      "bandwidth_limit".toList]
    decide
  refine (image_readStruct hfields hnodup).map fun connection => ⟨fun h => ?_, ?_⟩
  · obtain ⟨htarget, horigin, hrate, hbandwidth⟩ := h
    exact ⟨(connection.target, connection.origin, connection.rateLimit,
      connection.bandwidthLimit, ()), ⟨htarget, horigin, hrate, hbandwidth, trivial⟩, rfl⟩
  · rintro ⟨a, ⟨htarget, horigin, hrate, hbandwidth, -⟩, rfl⟩
    exact ⟨htarget, horigin, hrate, hbandwidth⟩

theorem image_application (hd : d.Lawful) :
    Image (ApplicationConfig.deserialize d) ApplicationConfig.Fits := by
  have hfields : (ApplicationConfig.fields d).Reads fun a =>
      a.1 ≠ [] ∧ a.2.1 < 2 ^ 16 ∧ True ∧ True ∧ True :=
    .required image_hosts <| .required (image_describing (image_unsigned hd 16)) <|
      .required (image_describing (image_string hd)) <| .optional (image_string hd) trivial .done
  have hnodup : (ApplicationConfig.fields d).names.Nodup := by
    show List.Nodup ["host".toList, "port".toList, "hostname".toList, "real_ip_header".toList]
    decide
  refine (image_readStruct hfields hnodup).map fun application => ⟨fun h => ?_, ?_⟩
  · exact ⟨(application.host, application.port, application.hostname, application.realIpHeader, ()),
      ⟨h.1, h.2, trivial, trivial, trivial⟩, rfl⟩
  · rintro ⟨a, h, rfl⟩
    exact ⟨h.1, h.2.1⟩

theorem readPairs_single (hd : d.Lawful) (name value : Str) :
    readPairs d (.map [(name, .str value)]) = .ok (AList.singleton name value) := by
  have hread : [(name, Yaml.str value)].mapM
      (fun e => (d.string e.2).map fun value => (e.1, value)) = .ok [(name, value)] := by
    refine mapM_eq_ok_iff.mpr (.cons ?_ .nil)
    rw [hd.string_str]
    rfl
  show Except.map _ _ = _
  rw [hread]
  rfl

theorem image_headerPair (hd : d.Lawful) : Image (HeaderPair.deserialize d) HeaderPair.Named := by
  intro pair
  constructor
  · rintro ⟨v, hread⟩
    obtain ⟨map, -, hmap⟩ := bind_eq_ok_iff.mp hread
    split at hmap
    · split at hmap
      · cases hmap
      · next hname =>
          obtain rfl := Except.ok.inj hmap
          exact hname
    · cases hmap
  · intro hnamed
    refine ⟨.map [(pair.name, .str pair.value)], bind_eq_ok_iff.mpr ?_⟩
    exact ⟨_, readPairs_single hd pair.name pair.value, if_neg hnamed⟩

theorem image_override (hd : d.Lawful) :
    Image (ResponseHeaderOverrideConfig.deserialize d) ResponseHeaderOverrideConfig.Named := by
  have hpairs : Image (deserializeOptionalVec HeaderPair.deserialize)
      fun pairs => ∀ pair ∈ pairs, pair.Named :=
    image_optionalVec (image_headerPair contentRef_lawful) fun a h => (by cases h)
  have hfields : (ResponseHeaderOverrideConfig.fields d).Reads fun a =>
      True ∧ (∀ name ∈ a.2.1, trim name ≠ []) ∧ (∀ pair ∈ a.2.2.1, pair.Named) ∧
        (∀ pair ∈ a.2.2.2.1, pair.Named) ∧ True :=
    .required (image_string hd) <|
      .optional image_nonEmptyStrings (fun name h => (by cases h)) <|
        .optional hpairs (fun pair h => (by cases h)) <|
          .optional hpairs (fun pair h => (by cases h)) .done
  have hnodup : (ResponseHeaderOverrideConfig.fields d).names.Nodup := by
    show List.Nodup ["site".toList, "remove_headers".toList, "add_headers".toList,
      "set_headers".toList]
    decide
  refine (image_readStruct hfields hnodup).map fun rule => ⟨fun h => ?_, ?_⟩
  · exact ⟨(rule.site, rule.removeHeaders, rule.addHeaders, rule.setHeaders, ()),
      ⟨trivial, h.1, h.2.1, h.2.2, trivial⟩, rfl⟩
  · rintro ⟨a, ⟨-, hremove, hadd, hset, -⟩, rfl⟩
    exact ⟨hremove, hadd, hset⟩

theorem image_proxy (hd : d.Lawful) : Image (ProxyConfig.deserialize d) ProxyConfig.Fits := by
  have hrules : Image (deserializeOptionalVec ResponseHeaderOverrideConfig.deserialize)
      fun rules => ∀ rule ∈ rules, rule.Named :=
    image_optionalVec (image_override contentRef_lawful) fun a h => (by cases h)
  have hfields : (ProxyConfig.fields d).Reads fun a =>
      a.1 < 2 ^ 32 ∧ a.2.1 < 2 ^ 64 ∧ (∀ rule ∈ a.2.2.1, rule.Named) ∧ True :=
    .required (image_describing (image_unsigned hd 32)) <|
      .required (image_describing (image_unsigned hd 64)) <|
        .optional hrules (fun rule h => (by cases h)) .done
  have hnodup : (ProxyConfig.fields d).names.Nodup := by
    show List.Nodup ["max_redirects".toList, "timeout".toList,
      "response_headers_overrides".toList]
    decide
  refine (image_readStruct hfields hnodup).map fun proxy => ⟨fun h => ?_, ?_⟩
  · exact ⟨(proxy.maxRedirects, proxy.timeout, proxy.responseHeadersOverrides, ()),
      ⟨h.1, h.2.1, h.2.2, trivial⟩, rfl⟩
  · rintro ⟨a, h, rfl⟩
    exact ⟨h.1, h.2.1, h.2.2.1⟩

theorem image_cacheRule (hd : d.Lawful) :
    Image (CacheRule.deserialize d) fun rule => rule.maxAge < 2 ^ 64 := by
  have hfields : (CacheRule.fields d).Reads fun a => True ∧ a.2.1 < 2 ^ 64 ∧ True :=
    .required (image_string hd) <| .required (image_describing image_byteCount) .done
  have hnodup : (CacheRule.fields d).names.Nodup := by
    show List.Nodup ["match".toList, "max_age".toList]
    decide
  refine (image_readStruct hfields hnodup).map fun rule => ⟨fun h => ?_, ?_⟩
  · exact ⟨(rule.pattern, rule.maxAge, ()), ⟨trivial, h, trivial⟩, rfl⟩
  · rintro ⟨a, h, rfl⟩
    exact h.2.1

theorem image_cache (hd : d.Lawful) : Image (CacheConfig.deserialize d) CacheConfig.Fits := by
  have hrules : Image (deserializeOptionalVec CacheRule.deserialize)
      fun rules => ∀ rule ∈ rules, rule.maxAge < 2 ^ 64 :=
    image_optionalVec (image_cacheRule contentRef_lawful) fun a h => (by cases h)
  have hnumber : Image deserializeCacheNumber (· < 2 ^ 64) := image_describing image_byteCount
  have hfields : (CacheConfig.fields d).Reads fun a =>
      True ∧ a.2.1 < 2 ^ 64 ∧ a.2.2.1 < 2 ^ 64 ∧ True ∧
        (∀ rule ∈ a.2.2.2.2.1, rule.maxAge < 2 ^ 64) ∧ True :=
    .optional (image_bool hd) trivial <| .optional hnumber (by decide) <|
      .optional hnumber (by decide) <| .optional (image_string hd) trivial <|
        .optional hrules (fun rule h => (by cases h)) .done
  have hnodup : (CacheConfig.fields d).names.Nodup := by
    show List.Nodup ["enabled".toList, "max_age".toList, "max_size".toList, "location".toList,
      "whitelist".toList]
    decide
  refine (image_readStruct hfields hnodup).map fun cache => ⟨fun h => ?_, ?_⟩
  · exact ⟨(cache.enabled, cache.maxAge, cache.maxSize, cache.location, cache.whitelist, ()),
      ⟨trivial, h.1, h.2.1, trivial, h.2.2, trivial⟩, rfl⟩
  · rintro ⟨a, ⟨-, hage, hsize, -, hwhitelist, -⟩, rfl⟩
    exact ⟨hage, hsize, hwhitelist⟩

omit [YamlErrors] in
theorem CacheConfig.default_fits : CacheConfig.default.Fits :=
  ⟨by decide, by decide, fun rule h => (by cases h)⟩

/-- **The configurations that can be read** are those whose values are in their ranges. -/
theorem image_config (hd : d.Lawful) : Image (Config.deserialize d) Config.Fits := by
  have hfields : (Config.fields d).Reads fun a =>
      a.1.Fits ∧ a.2.1.Fits ∧ a.2.2.1.Fits ∧ a.2.2.2.1.Fits ∧ True :=
    .required (image_application hd) <| .required image_connection <|
      .required (image_proxy hd) <| .optional (image_cache hd) CacheConfig.default_fits .done
  have hnodup : (Config.fields d).names.Nodup := by
    show List.Nodup ["application".toList, "connection".toList, "proxy".toList, "cache".toList]
    decide
  refine (image_readStruct hfields hnodup).map fun config => ⟨fun h => ?_, ?_⟩
  · obtain ⟨happlication, hconnection, hproxy, hcache⟩ := h
    exact ⟨(config.application, config.connection, config.proxy, config.cache, ()),
      ⟨happlication, hconnection, hproxy, hcache, trivial⟩, rfl⟩
  · rintro ⟨a, ⟨happlication, hconnection, hproxy, hcache, -⟩, rfl⟩
    exact ⟨happlication, hconnection, hproxy, hcache⟩

end Images

/-! ## The configurations that can be loaded -/

/-- Both numbers of a tier are positive. -/
def LimitTier.Positive (tier : LimitTier) : Prop := 0 < tier.window ∧ 0 < tier.max

/-- The rule has a site and does something there. -/
def ResponseHeaderOverrideConfig.Active (rule : ResponseHeaderOverrideConfig) : Prop :=
  trim rule.site ≠ [] ∧
    (rule.removeHeaders ≠ [] ∨ rule.addHeaders ≠ [] ∨ rule.setHeaders ≠ [])

/-- What a configuration that was loaded satisfies: its values are in their ranges, and
`validate` has nothing against them. -/
structure Config.WellFormed (config : Config) : Prop where
  fits : config.Fits
  rateLimit : ∀ tier ∈ config.connection.rateLimit, tier.Positive
  bandwidth : ∀ tier ∈ config.connection.bandwidthLimit.connection, tier.Positive
  progress : config.proxy.maxRedirects ≠ 0 ∨ config.proxy.timeout ≠ 0
  overrides : ∀ rule ∈ config.proxy.responseHeadersOverrides, rule.Active

theorem validateTier_eq_ok_iff {path window units : Str} {tier : LimitTier} :
    validateTier path window units tier = .ok () ↔ tier.Positive := by
  unfold validateTier LimitTier.Positive
  by_cases hwindow : tier.window = 0
  · rw [if_pos hwindow]
    exact iff_of_false (fun h => by cases h) (by omega)
  · rw [if_neg hwindow]
    by_cases hmax : tier.max = 0
    · rw [if_pos hmax]
      exact iff_of_false (fun h => by cases h) (by omega)
    · rw [if_neg hmax]
      exact iff_of_true rfl (by omega)

theorem validateOverride_eq_ok_iff {rule : ResponseHeaderOverrideConfig} {index : ℕ} :
    validateOverride rule index = .ok () ↔ rule.Active := by
  unfold validateOverride ResponseHeaderOverrideConfig.Active
  dsimp only
  by_cases hsite : trim rule.site = []
  · rw [if_pos hsite]
    exact iff_of_false (fun h => by cases h) fun h => h.1 hsite
  · rw [if_neg hsite]
    by_cases hidle : rule.removeHeaders = [] ∧ rule.addHeaders.isEmpty ∧ rule.setHeaders.isEmpty
    · rw [if_pos hidle]
      simp only [List.isEmpty_iff] at hidle
      exact iff_of_false (fun h => by cases h) (by simp [hidle])
    · rw [if_neg hidle]
      simp only [List.isEmpty_iff] at hidle
      exact iff_of_true rfl ⟨hsite, by tauto⟩

/-- **`validate`** passes the configurations with positive tiers, some progress and active
rules. -/
theorem validate_eq_ok_iff {config : Config} (hfits : config.Fits) :
    config.validate = .ok () ↔ config.WellFormed := by
  unfold Config.validate
  rw [bind_eq_ok_iff]
  constructor
  · rintro ⟨⟨⟩, hrate, h⟩
    obtain ⟨⟨⟩, hbandwidth, h⟩ := bind_eq_ok_iff.mp h
    split at h
    · cases h
    · next hprogress =>
        refine ⟨hfits, fun tier htier => ?_, fun tier htier => ?_, by tauto, fun rule hrule => ?_⟩
        · exact validateTier_eq_ok_iff.mp (forM_eq_ok_iff.mp hrate tier htier)
        · exact validateTier_eq_ok_iff.mp (forM_eq_ok_iff.mp hbandwidth tier htier)
        · obtain ⟨index, hindex⟩ := List.mem_iff_getElem?.mp hrule
          have hmem := List.mk_mem_zipIdx_iff_getElem?.mpr hindex
          exact validateOverride_eq_ok_iff.mp (forM_eq_ok_iff.mp h _ hmem)
  · intro h
    refine ⟨(), forM_eq_ok_iff.mpr fun tier htier => ?_, bind_eq_ok_iff.mpr ⟨(),
      forM_eq_ok_iff.mpr fun tier htier => ?_, ?_⟩⟩
    · exact validateTier_eq_ok_iff.mpr (h.rateLimit tier htier)
    · exact validateTier_eq_ok_iff.mpr (h.bandwidth tier htier)
    · rw [if_neg (by have := h.progress; tauto), forM_eq_ok_iff]
      intro rule hrule
      exact validateOverride_eq_ok_iff.mpr (h.overrides rule.1 (List.fst_mem_of_mem_zipIdx hrule))

/-- What a parsed document gives are the well-formed configurations. -/
theorem image_ofYaml {d : Deserializer} (hd : d.Lawful) :
    Image (Config.ofYaml d) Config.WellFormed := by
  have hread : Image (fun v => (Config.deserialize d v).mapError ConfigError.parse) Config.Fits :=
    (image_config hd).mapError _
  refine hread.check fun config => ⟨fun h => ⟨config, h.fits, ?_⟩, ?_⟩
  · exact map_eq_ok_iff.mpr ⟨(), (validate_eq_ok_iff h.fits).mpr h, rfl⟩
  · rintro ⟨config, hfits, hvalid⟩
    obtain ⟨⟨⟩, hok, rfl⟩ := map_eq_ok_iff.mp hvalid
    exact (validate_eq_ok_iff hfits).mp hok

end Reading

/-- **The configurations that can be loaded** are exactly the well-formed ones: whatever a file
contains, what it loads as is well formed, and every well-formed configuration is read from some
document, so that it is what a file loads as which the crate parses to that document. -/
theorem load_image [YamlCrate] (hd : (YamlCrate.deserializer).Lawful) (config : Config) :
    (∀ file, Config.load file = .ok config → config.WellFormed) ∧
      (config.WellFormed ↔ ∃ v, Config.ofYaml YamlCrate.deserializer v = .ok config ∧
        ∀ bytes, YamlCrate.parse bytes = .ok v → Config.load (.ok bytes) = .ok config) := by
  refine ⟨fun file hload => ?_, fun h => ?_, fun ⟨v, hv, _⟩ => (image_ofYaml hd).holds hv⟩
  · obtain ⟨bytes, v, -, -, hconfig⟩ := load_eq_ok_iff.mp hload
    exact (image_ofYaml hd).holds hconfig
  · obtain ⟨v, hv⟩ := (image_ofYaml hd config).mpr h
    exact ⟨v, hv, fun bytes hparse => load_eq_ok_iff.mpr ⟨bytes, v, rfl, hparse, hv⟩⟩

/-! ## An example -/

/-- The texts of `serde` as errors. -/
@[reducible] def textErrors : YamlErrors where
  Error := Str
  custom text := text
  unknownField key _ := "unknown field `".toList ++ key ++ "`".toList
  duplicateField key := "duplicate field `".toList ++ key ++ "`".toList
  missingField key := "missing field `".toList ++ key ++ "`".toList
  invalidLength n expected :=
    "invalid length ".toList ++ decimal n ++ ", expected ".toList ++ expected
  invalidType _ expected := "invalid type, expected ".toList ++ expected
  display text := text

def applicationEntry : Str × Yaml :=
  ("application".toList, .map
    [("host".toList, .str "127.0.0.1".toList), ("port".toList, .int 9647),
      ("hostname".toList, .str "localhost".toList)])

def connectionEntry : Str × Yaml :=
  ("connection".toList, .map
    [("target".toList, .map []), ("origin".toList, .map []),
      ("rate_limit".toList, .seq [.map [("window".toList, .int 1), ("max".toList, .int 5)]])])

/-- A document in the order of the structures. -/
def exampleDocument : Yaml :=
  .map [applicationEntry, connectionEntry,
    ("proxy".toList, .map [("max_redirects".toList, .int 10), ("timeout".toList, .int 30)])]

/-- The same settings in another order. -/
def reorderedDocument : Yaml :=
  .map [connectionEntry, applicationEntry,
    ("proxy".toList, .map [("timeout".toList, .int 30), ("max_redirects".toList, .int 10)])]

def exampleText : Str :=
  ("application: \x7bhost: 127.0.0.1, port: 9647, hostname: localhost\x7d\n" ++
    "connection: \x7btarget: \x7b\x7d, origin: \x7b\x7d, " ++
    "rate_limit: [\x7bwindow: 1, max: 5\x7d]\x7d\n" ++
    "proxy: \x7bmax_redirects: 10, timeout: 30\x7d\n").toList

def reorderedText : Str :=
  ("connection: \x7btarget: \x7b\x7d, origin: \x7b\x7d, " ++
    "rate_limit: [\x7bwindow: 1, max: 5\x7d]\x7d\n" ++
    "application: \x7bhost: 127.0.0.1, port: 9647, hostname: localhost\x7d\n" ++
    "proxy: \x7btimeout: 30, max_redirects: 10\x7d\n").toList

/-- The example with a cache for one page. -/
def cachingDocument : Yaml :=
  .map [applicationEntry, connectionEntry,
    ("proxy".toList, .map [("max_redirects".toList, .int 10), ("timeout".toList, .int 30)]),
    ("cache".toList, .map
      [("enabled".toList, .bool true), ("max_age".toList, .str "60 * 15".toList),
        ("max_size".toList, .str "1024 * 1024".toList),
        ("whitelist".toList, .seq
          [.map [("match".toList, .str "example.com/x".toList), ("max_age".toList, .int 60)]])])]

def cachingText : Str :=
  exampleText ++ ("cache: \x7benabled: true, max_age: 60 * 15, max_size: 1024 * 1024, " ++
    "whitelist: [\x7bmatch: example.com/x, max_age: 60\x7d]\x7d\n").toList

/-- The YAML crate on these documents. -/
@[reducible] def yamlReference : YamlCrate where
  toYamlErrors := textErrors
  parse bytes :=
    if bytes = utf8 exampleText then .ok exampleDocument
    else if bytes = utf8 reorderedText then .ok reorderedDocument
    else if bytes = utf8 cachingText then .ok cachingDocument
    else .error "unknown document".toList
  deserializer := @contentRef textErrors

/-- The settings of the documents. -/
def exampleConfig : Config where
  application := ⟨["127.0.0.1".toList], 9647, "localhost".toList, defaultRealIpHeader⟩
  connection := ⟨⟨[], []⟩, ⟨[], []⟩, [⟨1, 5⟩], .default⟩
  proxy := ⟨10, 30, []⟩
  cache := .default

/-- The text of the example parses to its document and loads as its settings, so that these are
well formed, and are read from some document. -/
theorem load_image_example :
    @Config.load yamlReference (.ok (utf8 exampleText)) = .ok exampleConfig ∧
      exampleConfig.WellFormed ∧
        ∃ v, @Config.ofYaml textErrors yamlReference.deserializer v = .ok exampleConfig := by
  have hparse : yamlReference.parse (utf8 exampleText) = .ok exampleDocument := if_pos rfl
  have hread : @Config.ofYaml textErrors yamlReference.deserializer exampleDocument =
      .ok exampleConfig := rfl
  have hload : @Config.load yamlReference (.ok (utf8 exampleText)) = .ok exampleConfig :=
    (@load_eq_ok_iff yamlReference _ _).mpr ⟨_, _, rfl, hparse, hread⟩
  obtain ⟨hsound, hcomplete⟩ :=
    @load_image yamlReference (@contentRef_lawful textErrors) exampleConfig
  have hformed : exampleConfig.WellFormed := hsound _ hload
  obtain ⟨v, hv, -⟩ := hcomplete.mp hformed
  exact ⟨hload, hformed, v, hv⟩

end Corsget
