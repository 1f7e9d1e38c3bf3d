import Corsget.LoadedConfig
import Mathlib.Logic.Relation

/-!
# The order of keys

Two documents that differ only in the order in which their mappings list the keys, at any
depth, load as the same configuration, or are both refused (`load_key_order`).

One step of `Yaml.Reordered` lists the entries of one mapping in another order.  Every reader
of `config.rs` is stable along it: a structure looks up its fields by name, whatever reads a
scalar reads no mapping, and a header pair is a mapping of one entry.
-/

namespace Corsget

open Decode Text Validation

/-- One mapping of the tree, without repeated keys, lists its entries in another order. -/
inductive Yaml.Reordered : Yaml → Yaml → Prop where
  | here {entries entries' : List (Str × Yaml)} (hnodup : (entries.map Prod.fst).Nodup)
      (hperm : entries.Perm entries') : Reordered (.map entries) (.map entries')
  | item {pre post : List Yaml} {v v' : Yaml} (h : Reordered v v') :
      Reordered (.seq (pre ++ v :: post)) (.seq (pre ++ v' :: post))
  | value {pre post : List (Str × Yaml)} {key : Str} {v v' : Yaml} (h : Reordered v v') :
      Reordered (.map (pre ++ (key, v) :: post)) (.map (pre ++ (key, v') :: post))

theorem Yaml.Reordered.symm {v v' : Yaml} (h : v.Reordered v') : v'.Reordered v := by
  induction h with
  | here hnodup hperm => exact .here ((hperm.map Prod.fst).nodup_iff.mp hnodup) hperm.symm
  | item _ ih => exact .item ih
  | value _ ih => exact .value ih

theorem Yaml.Reordered.not_scalar {v v' : Yaml} (h : v.Reordered v') : ¬v.Scalar := by
  cases h with
  | _ => exact id

section Readers

variable [YamlErrors] {α : Type} {d : Deserializer}

/-- A reader of scalars. -/
theorem stable_of_scalar {read : Yaml → Except Error α}
    (h : ∀ {v a}, read v = .ok a → v.Scalar) : Stable Yaml.Reordered read :=
  fun _ _ _ hR hread => absurd (h hread) hR.not_scalar

theorem stable_describing {what hint : Str} {read : Yaml → Except Error α}
    (h : Stable Yaml.Reordered read) : Stable Yaml.Reordered (describing what hint read) :=
  h.mapError _

/-- A derived reader of a structure looks up its fields by name. -/
theorem stable_readStruct {name : Str} {fields : Fields Str Yaml Error α}
    (h : fields.StableFields (OrSame Yaml.Reordered)) :
    Stable Yaml.Reordered (readStruct name fields d) := by
  intro v v' a hR hread
  cases hR with
  | here hnodup hperm => exact Fields.read_perm hperm hread
  | value hv => exact Fields.read_stable h hv hread
  | item hv =>
      simp only [readStruct] at hread ⊢
      split at hread
      · next hseq =>
          rw [if_pos hseq]
          exact Fields.readSeq_stable h (forall₂_orSame hv _ _) hread
      · cases hread

theorem stable_readOption {read : Yaml → Except Error α} (h : Stable Yaml.Reordered read) :
    Stable Yaml.Reordered (readOption read) := by
  intro v v' a hR hread
  have hne : v ≠ .null := by
    rintro rfl
    exact hR.not_scalar trivial
  have hne' : v' ≠ .null := by
    rintro rfl
    exact hR.symm.not_scalar trivial
  rw [readOption_of_ne_null hne] at hread
  rw [readOption_of_ne_null hne']
  exact h.map some v v' a hR hread

theorem stable_readVec {read : Yaml → Except Error α} (h : Stable Yaml.Reordered read) :
    Stable Yaml.Reordered (readVec read) := by
  intro v v' as hR hread
  cases hR with
  | here hnodup hperm => cases hread
  | value hv => cases hread
  | item hv => exact h.orSame.list _ _ _ (forall₂_orSame hv _ _) hread

theorem readNullable_of_not_scalar {name : Str} {read : Yaml → Except Error α} {v : Yaml}
    (hv : ¬v.Scalar) {as : List α} :
    readNullable name read v = .ok as ↔
      ∃ values, readVec (readOption read) v = .ok values ∧ values.filterMap id = as := by
  have hne : v ≠ .null := by
    rintro rfl
    exact hv trivial
  unfold readNullable
  split
  · exact absurd rfl hne
  · split
    · next values hvalues =>
        rw [hvalues]
        constructor
        · intro h
          exact ⟨values, rfl, Except.ok.inj h⟩
        · rintro ⟨values', hvalues', rfl⟩
          rw [Except.ok.inj hvalues']
    · next e he =>
        rw [he]
        refine iff_of_false (fun h => by cases h) ?_
        rintro ⟨values, hvalues, -⟩
        cases hvalues

theorem stable_readNullable {name : Str} {read : Yaml → Except Error α}
    (h : Stable Yaml.Reordered read) : Stable Yaml.Reordered (readNullable name read) := by
  intro v v' as hR hread
  obtain ⟨values, hvalues, hflat⟩ := (readNullable_of_not_scalar hR.not_scalar).mp hread
  exact (readNullable_of_not_scalar hR.symm.not_scalar).mpr
    ⟨values, stable_readVec (stable_readOption h) v v' values hR hvalues, hflat⟩

theorem stable_string (hd : d.Lawful) : Stable Yaml.Reordered d.string :=
  stable_of_scalar hd.string_scalar

theorem stable_unsigned (hd : d.Lawful) (bits : ℕ) : Stable Yaml.Reordered (d.unsigned bits) :=
  stable_of_scalar hd.unsigned_scalar

theorem stable_byteCount : Stable Yaml.Reordered deserializeByteCount := by
  refine stable_of_scalar fun {v n} hread => ?_
  unfold deserializeByteCount at hread
  split at hread
  · next hn => exact contentRef_lawful.unsigned_scalar hn
  · split at hread
    · next hs => exact contentRef_lawful.string_scalar hs
    · cases hread

theorem stable_nonEmptyStrings : Stable Yaml.Reordered deserializeNonEmptyStrings :=
  (stable_readNullable (stable_string contentRef_lawful)).map _

theorem stable_hosts : Stable Yaml.Reordered deserializeHosts := by
  intro v v' hosts hR hread
  unfold deserializeHosts at hread
  split at hread
  · next hs => exact absurd (contentRef_lawful.string_scalar hs) hR.not_scalar
  · split at hread
    · cases hread
    · next hne hvec =>
        obtain rfl := Except.ok.inj hread
        have hvec' := stable_readVec (stable_string contentRef_lawful) v v' _ hR hvec
        cases hR with
        | item hv => exact deserializeHosts_of_ne_nil hvec' hne
        | here => cases hvec
        | value => cases hvec
    · cases hread

/-! ## Header pairs -/

omit [YamlErrors] in
/-- What is inserted into a map stays in it. -/
theorem mem_foldl_insert {pairs : List (Str × Str)} {map : AList fun _ : Str => Str} {name : Str}
    (h : name ∈ map ∨ name ∈ pairs.map Prod.fst) :
    name ∈ pairs.foldl (fun map e => map.insert e.1 e.2) map := by
  induction pairs generalizing map with
  | nil => exact h.resolve_right List.not_mem_nil
  | cons e pairs ih =>
      refine ih ?_
      rcases h with h | h
      · exact .inl (AList.mem_insert _ |>.mpr (.inr h))
      · rcases List.mem_cons.mp h with rfl | h
        · exact .inl (AList.mem_insert _ |>.mpr (.inl rfl))
        · exact .inr h

/-- The keys of a mapping that is read are in the map. -/
theorem mem_of_readPairs {entries : List (Str × Yaml)} {map : AList fun _ : Str => Str}
    (h : readPairs d (.map entries) = .ok map) {e : Str × Yaml} (he : e ∈ entries) :
    e.1 ∈ map ∧ ∃ value, d.string e.2 = .ok value := by
  obtain ⟨pairs, hpairs, rfl⟩ := map_eq_ok_iff.mp h
  obtain ⟨pair, hpair, hread⟩ := exists_result_of_mapM hpairs he
  obtain ⟨value, hvalue, rfl⟩ := map_eq_ok_iff.mp hread
  exact ⟨mem_foldl_insert (.inr (List.mem_map_of_mem hpair)), value, hvalue⟩

/-- A header pair is read from a mapping of scalars, in which all keys are the same. -/
theorem headerPair_eq_ok {v : Yaml} {pair : HeaderPair}
    (h : HeaderPair.deserialize d v = .ok pair) :
    ∃ entries, v = .map entries ∧
      ∀ e ∈ entries, e.1 = pair.name ∧ ∃ value, d.string e.2 = .ok value := by
  obtain ⟨map, hmap, hpair⟩ := bind_eq_ok_iff.mp h
  cases v with
  | map entries =>
      refine ⟨entries, rfl, fun e he => ?_⟩
      obtain ⟨hmem, hvalue⟩ := mem_of_readPairs hmap he
      refine ⟨?_, hvalue⟩
      split at hpair
      · next name value hentries =>
          split at hpair
          · cases hpair
          · obtain rfl := Except.ok.inj hpair
            rw [AList.mem_keys, AList.keys, hentries] at hmem
            exact List.mem_singleton.mp hmem
      · cases hpair
  | _ => cases hmap

theorem stable_headerPair (hd : d.Lawful) : Stable Yaml.Reordered (HeaderPair.deserialize d) := by
  intro v v' pair hR hread
  obtain ⟨entries, rfl, hentries⟩ := headerPair_eq_ok hread
  cases hR with
  | here hnodup hperm =>
      -- All keys are the same and no key is repeated: there is one entry at most.
      rcases entries with _ | ⟨e, _ | ⟨e', rest⟩⟩
      · exact List.perm_nil.mp hperm.symm ▸ hread
      · exact List.perm_singleton.mp hperm.symm ▸ hread
      · have hkey := (hentries e List.mem_cons_self).1
        have hkey' := (hentries e' (List.mem_cons_of_mem e List.mem_cons_self)).1
        refine absurd ?_ (List.nodup_cons.mp hnodup).1
        exact List.mem_cons.mpr (.inl (hkey.trans hkey'.symm))
  | value hv =>
      obtain ⟨-, value, hvalue⟩ := hentries _ (List.mem_append_right _ List.mem_cons_self)
      exact absurd (hd.string_scalar hvalue) hv.not_scalar

/-! ## The structures -/

theorem stable_pairs :
    Stable Yaml.Reordered (deserializeOptionalVec HeaderPair.deserialize) :=
  stable_readNullable (stable_headerPair contentRef_lawful)

theorem stable_limitTier (hd : d.Lawful) : Stable Yaml.Reordered (LimitTier.deserialize d) :=
  (stable_readStruct <| .field (stable_describing (stable_unsigned hd 64)).orSame <|
    .field (stable_describing stable_byteCount).orSame .done).map _

theorem stable_limitTiers :
    Stable Yaml.Reordered (deserializeOptionalVec LimitTier.deserialize) :=
  stable_readNullable (stable_limitTier contentRef_lawful)

theorem stable_targetList : Stable Yaml.Reordered (TargetListConfig.deserialize d) :=
  (stable_readStruct <| .field stable_nonEmptyStrings.orSame <|
    .field stable_nonEmptyStrings.orSame .done).map _

theorem stable_resultSize : Stable Yaml.Reordered (ResultSizeConfig.deserialize d) :=
  (stable_readStruct <| .field (stable_describing stable_byteCount).orSame .done).map _

theorem stable_bandwidthLimit : Stable Yaml.Reordered (BandwidthLimitConfig.deserialize d) :=
  (stable_readStruct <| .field stable_limitTiers.orSame <|
    .field stable_resultSize.orSame .done).map _

theorem stable_connection : Stable Yaml.Reordered (ConnectionConfig.deserialize d) :=
  (stable_readStruct <| .field stable_targetList.orSame <| .field stable_targetList.orSame <|
    .field stable_limitTiers.orSame <| .field stable_bandwidthLimit.orSame .done).map _

theorem stable_application (hd : d.Lawful) :
    Stable Yaml.Reordered (ApplicationConfig.deserialize d) :=
  (stable_readStruct <| .field stable_hosts.orSame <|
    .field (stable_describing (stable_unsigned hd 16)).orSame <|
      .field (stable_describing (stable_string hd)).orSame <|
        .field (stable_string hd).orSame .done).map _

theorem stable_override (hd : d.Lawful) :
    Stable Yaml.Reordered (ResponseHeaderOverrideConfig.deserialize d) :=
  (stable_readStruct <| .field (stable_string hd).orSame <|
    .field stable_nonEmptyStrings.orSame <| .field stable_pairs.orSame <|
      .field stable_pairs.orSame .done).map _

theorem stable_proxy (hd : d.Lawful) : Stable Yaml.Reordered (ProxyConfig.deserialize d) :=
  (stable_readStruct <| .field (stable_describing (stable_unsigned hd 32)).orSame <|
    .field (stable_describing (stable_unsigned hd 64)).orSame <|
      .field (stable_readNullable (stable_override contentRef_lawful)).orSame .done).map _

theorem stable_cacheRule (hd : d.Lawful) : Stable Yaml.Reordered (CacheRule.deserialize d) :=
  (stable_readStruct <| .field (stable_string hd).orSame <|
    .field (stable_describing stable_byteCount).orSame .done).map _

theorem stable_cache (hd : d.Lawful) : Stable Yaml.Reordered (CacheConfig.deserialize d) :=
  (stable_readStruct <| .field (stable_of_scalar hd.bool_scalar).orSame <|
    .field (stable_describing stable_byteCount).orSame <|
      .field (stable_describing stable_byteCount).orSame <| .field (stable_string hd).orSame <|
        .field (stable_readNullable (stable_cacheRule contentRef_lawful)).orSame .done).map _

theorem stable_config (hd : d.Lawful) : Stable Yaml.Reordered (Config.deserialize d) :=
  (stable_readStruct <| .field (stable_application hd).orSame <|
    .field stable_connection.orSame <| .field (stable_proxy hd).orSame <|
      .field (stable_cache hd).orSame .done).map _

/-- **One mapping in another order** gives the same configuration. -/
theorem stable_ofYaml (hd : d.Lawful) : Stable Yaml.Reordered (Config.ofYaml d) :=
  ((stable_config hd).mapError _).check _

end Readers

/-- **The order of keys is of no consequence**: two files whose documents differ only in the
order in which their mappings list the keys, at any depth, load as the same configuration or
are both refused. -/
theorem load_key_order [YamlCrate] (hd : (YamlCrate.deserializer).Lawful) {v v' : Yaml}
    (h : Relation.ReflTransGen Yaml.Reordered v v') {bytes bytes' : Bytes}
    (hparse : YamlCrate.parse bytes = .ok v) (hparse' : YamlCrate.parse bytes' = .ok v')
    (config : Config) :
    Config.load (.ok bytes) = .ok config ↔ Config.load (.ok bytes') = .ok config := by
  have hof : ∀ {u u' : Yaml}, Relation.ReflTransGen Yaml.Reordered u u' →
      Config.ofYaml YamlCrate.deserializer u = .ok config →
        Config.ofYaml YamlCrate.deserializer u' = .ok config := by
    intro u u' hu hconfig
    induction hu with
    | refl => exact hconfig
    | tail _ hstep ih => exact stable_ofYaml hd _ _ config hstep ih
  have hsymm : Relation.ReflTransGen Yaml.Reordered v' v :=
    Relation.ReflTransGen.mono (fun _ _ => Yaml.Reordered.symm) _ _ h.swap
  rw [load_ok_iff hparse, load_ok_iff hparse']
  exact ⟨hof h, hof hsymm⟩

/-- Two documents that list the structures, and the settings of one of them, in different
orders. -/
theorem load_key_order_sections :
    utf8 reorderedText ≠ utf8 exampleText ∧ ∀ config,
      @Config.load yamlReference (.ok (utf8 exampleText)) = .ok config ↔
        @Config.load yamlReference (.ok (utf8 reorderedText)) = .ok config := by
  have hne : utf8 reorderedText ≠ utf8 exampleText := by decide +kernel
  have hparse : yamlReference.parse (utf8 exampleText) = .ok exampleDocument := if_pos rfl
  have hparse' : yamlReference.parse (utf8 reorderedText) = .ok reorderedDocument :=
    (if_neg hne).trans (if_pos rfl)
  refine ⟨hne, fun config => ?_⟩
  refine @load_key_order yamlReference (@contentRef_lawful textErrors) exampleDocument
    reorderedDocument ?_ _ _ hparse hparse' config
  refine .tail (.single (@Yaml.Reordered.value [applicationEntry, connectionEntry] []
    "proxy".toList _ _ (.here (by decide) (.swap _ _ _)))) ?_
  exact .here (by decide) (.swap _ _ _)

end Corsget
