import Corsget.Footprint
import Corsget.Library.Runs

/-!
# The store on a directory

The programs of the store run on a directory that only they change.  Any
operation may fail, a scan may list anything, and the clock and the counter may
answer anything (`storeEnv`), so what is shown here holds with every fault, at
every cut and for every order of a scan.

Of a directory only two files matter to one key, its metadata and its body:
its `View`.  Each program of the store is described by what it may do to the
view of a key.
-/

namespace Corsget

open Text Effect

/-! ## The environment -/

/-- The environment of the store: files change as `Dir.perform` says, with or
without a fault. -/
def storeEnv : Env Io Dir
  | .fs .readDir, d, _, d' => d' = d
  | .fs o, d, r, d' => ∃ fault, d.perform o fault = (r, d')
  | _, d, _, d' => d' = d

section Operations

variable {d d' : Dir} {path source target : Str} {data : FileData} {bytes : Bytes}

/-- A file that a step does not touch stays as it is. -/
theorem storeEnv_lookup {o : FsOp} {r : o.Res} (ho : o ≠ .readDir) (hpath : path ∉ o.touched)
    (h : storeEnv (.fs o) d r d') : d'.lookup path = d.lookup path := by
  cases o with
  | readDir => exact absurd rfl ho
  | _ =>
      obtain ⟨fault, hperform⟩ := h
      have hframe := Dir.lookup_perform hpath fault d
      rwa [hperform] at hframe

theorem storeEnv_read {r : Except IoError FileData} (h : storeEnv (.fs (.read path)) d r d') :
    d' = d ∧ ∀ data, r = .ok data → d.lookup path = some data := by
  obtain ⟨fault, h⟩ := h
  cases fault with
  | some f =>
      obtain ⟨rfl, rfl⟩ := Prod.mk.inj h
      exact ⟨rfl, fun data hr => by cases hr⟩
  | none =>
      obtain ⟨rfl, rfl⟩ := Prod.mk.inj h
      refine ⟨rfl, fun data hr => ?_⟩
      cases hlookup : d.lookup path with
      | none =>
          rw [hlookup] at hr
          cases hr
      | some found =>
          rw [hlookup] at hr
          cases hr
          rfl

theorem storeEnv_metadata {r : Except IoError ℕ} (h : storeEnv (.fs (.metadata path)) d r d') :
    d' = d ∧ ∀ len, r = .ok len → ∃ data, d.lookup path = some data ∧ data.len = len := by
  obtain ⟨fault, h⟩ := h
  cases fault with
  | some f =>
      obtain ⟨rfl, rfl⟩ := Prod.mk.inj h
      exact ⟨rfl, fun len hr => by cases hr⟩
  | none =>
      obtain ⟨rfl, rfl⟩ := Prod.mk.inj h
      refine ⟨rfl, fun len hr => ?_⟩
      cases hlookup : d.lookup path with
      | none =>
          rw [hlookup] at hr
          cases hr
      | some found =>
          rw [hlookup] at hr
          cases hr
          exact ⟨found, rfl, rfl⟩

theorem storeEnv_removeFile {r : Except IoError Unit}
    (h : storeEnv (.fs (.removeFile path)) d r d') : d' = d ∨ d' = d.erase path := by
  obtain ⟨fault, h⟩ := h
  cases fault with
  | some f => exact .inl (Prod.mk.inj h).2.symm
  | none =>
      unfold Dir.perform Dir.performOk at h
      dsimp only at h
      cases hlookup : d.lookup path with
      | none =>
          rw [hlookup] at h
          exact .inl (Prod.mk.inj h).2.symm
      | some data =>
          rw [hlookup] at h
          exact .inr (Prod.mk.inj h).2.symm

/-- A rename that succeeds moves the file; one that fails changes nothing. -/
theorem storeEnv_rename {r : Except IoError Unit}
    (h : storeEnv (.fs (.rename source target)) d r d') :
    d' = d ∧ (∃ e, r = .error e) ∨
      r = .ok () ∧ ∃ data, d.lookup source = some data ∧
        d' = (d.erase source).insert target data := by
  obtain ⟨fault, h⟩ := h
  cases fault with
  | some f =>
      obtain ⟨rfl, rfl⟩ := Prod.mk.inj h
      exact .inl ⟨rfl, _, rfl⟩
  | none =>
      unfold Dir.perform Dir.performOk at h
      dsimp only at h
      cases hlookup : d.lookup source with
      | none =>
          rw [hlookup] at h
          obtain ⟨rfl, rfl⟩ := Prod.mk.inj h
          exact .inl ⟨rfl, _, rfl⟩
      | some data =>
          rw [hlookup] at h
          obtain ⟨rfl, rfl⟩ := Prod.mk.inj h
          exact .inr ⟨rfl, data, rfl, rfl⟩

/-- A write leaves something in the file, and the data when it succeeds. -/
theorem storeEnv_write {r : Except IoError Unit} (h : storeEnv (.fs (.write path data)) d r d') :
    ∃ found, d' = d.insert path found ∧ (r = .ok () → found = data) := by
  obtain ⟨fault, h⟩ := h
  cases fault with
  | some f =>
      obtain ⟨rfl, rfl⟩ := Prod.mk.inj h
      exact ⟨_, rfl, fun hr => by cases hr⟩
  | none =>
      obtain ⟨rfl, rfl⟩ := Prod.mk.inj h
      exact ⟨data, rfl, fun _ => rfl⟩

theorem storeEnv_create {r : Except IoError Unit} (h : storeEnv (.fs (.create path)) d r d') :
    r = .ok () → d' = d.insert path (.raw []) := by
  rintro rfl
  obtain ⟨fault, h⟩ := h
  cases fault with
  | some f => cases (Prod.mk.inj h).1
  | none => exact (Prod.mk.inj h).2.symm

/-- What is written is appended to a file that is still there. -/
theorem storeEnv_writeAll {r : Except IoError Unit}
    (h : storeEnv (.fs (.writeAll path bytes)) d r d') (hfile : d.lookup path = some data) :
    r = .ok () → d' = d.insert path (.raw (data.bytes ++ bytes)) := by
  rintro rfl
  obtain ⟨fault, h⟩ := h
  cases fault with
  | some f => cases (Prod.mk.inj h).1
  | none =>
      unfold Dir.perform Dir.performOk at h
      dsimp only at h
      rw [hfile] at h
      exact (Prod.mk.inj h).2.symm

theorem storeEnv_flush {r : Except IoError Unit} (h : storeEnv (.fs (.flush path)) d r d') :
    d' = d := by
  obtain ⟨fault, h⟩ := h
  cases fault with
  | some f => exact (Prod.mk.inj h).2.symm
  | none => exact (Prod.mk.inj h).2.symm

end Operations

/-- One environment of the store: nothing fails, the clock stands still and
nobody else is there. -/
def calm : Handler Io Dir
  | .fs o, d => d.performOk o
  | .tempCounter, d => ((0 : ℕ), d)
  | .systemTime, d => ((0 : ℕ), d)
  | .checkLimit _ _, d => ((.error [] : Except Str Snapshot), d)
  | .send _, d => ((.error ⟨false, false, []⟩ : Except ClientError UpstreamResponse), d)
  | .charge _ _, d => ((.ok () : Except BandwidthError Unit), d)
  | .yield _, d => (((), d) : Unit × Dir)

theorem storeEnv_calm (o : IoOp) (d : Dir) : storeEnv o d (calm o d).1 (calm o d).2 := by
  cases o with
  | fs o =>
      cases o with
      | readDir => exact rfl
      | _ => exact ⟨none, rfl⟩
  | _ => exact rfl

/-! ## Views -/

/-- The two files of one key. -/
structure View where
  record : Option FileData
  body : Option FileData
deriving DecidableEq

/-- What a directory holds for a key. -/
def Dir.view (d : Dir) (key : Str) : View := ⟨d.lookup (metaPath key), d.lookup (bodyPath key)⟩

namespace View

/-- **A complete entry**: metadata of the current version and a body of the
length it records.  These are the entries a lookup returns. -/
structure Admits (v : View) (entry : CacheEntry) (file : FileData) : Prop where
  record : v.record.bind FileData.fromSlice = some entry
  version : entry.version = cacheVersion
  body : v.body = some file
  length : file.len = entry.bodyLen

/-- `v'` is `v` with some of its files removed. -/
structure Shrinks (v v' : View) : Prop where
  record : v'.record = v.record ∨ v'.record = none
  body : v'.body = v.body ∨ v'.body = none

theorem Shrinks.refl (v : View) : v.Shrinks v := ⟨.inl rfl, .inl rfl⟩

theorem Shrinks.trans {v v' v'' : View} (h : v.Shrinks v') (h' : v'.Shrinks v'') :
    v.Shrinks v'' where
  record := h'.record.elim (fun heq => heq ▸ h.record) .inr
  body := h'.body.elim (fun heq => heq ▸ h.body) .inr

/-- What is complete after a removal was complete before it. -/
theorem Admits.of_shrinks {v v' : View} {entry : CacheEntry} {file : FileData}
    (h : v'.Admits entry file) (hv : v.Shrinks v') : v.Admits entry file := by
  have hrecord : v'.record = v.record := by
    refine hv.record.resolve_right fun hnone => ?_
    have := h.record
    rw [hnone] at this
    cases this
  have hbody : v'.body = v.body := by
    refine hv.body.resolve_right fun hnone => ?_
    have := h.body
    rw [hnone] at this
    cases this
  exact ⟨hrecord ▸ h.record, h.version, hbody ▸ h.body, h.length⟩

end View

namespace Dir

variable (d : Dir) (key : Str) {path : Str}

theorem view_insert_of_ne (hmeta : path ≠ metaPath key) (hbody : path ≠ bodyPath key)
    (data : FileData) : view (d.insert path data) key = view d key := by
  unfold view
  rw [AList.lookup_insert_ne hmeta.symm, AList.lookup_insert_ne hbody.symm]

theorem view_erase_of_ne (hmeta : path ≠ metaPath key) (hbody : path ≠ bodyPath key) :
    view (d.erase path) key = view d key := by
  unfold view
  rw [AList.lookup_erase_ne hmeta.symm, AList.lookup_erase_ne hbody.symm]

theorem view_insert_metaPath (data : FileData) :
    view (d.insert (metaPath key) data) key = { view d key with record := some data } := by
  unfold view
  rw [AList.lookup_insert, AList.lookup_insert_ne (metaPath_ne_bodyPath key key).symm]

theorem view_insert_bodyPath (data : FileData) :
    view (d.insert (bodyPath key) data) key = { view d key with body := some data } := by
  unfold view
  rw [AList.lookup_insert, AList.lookup_insert_ne (metaPath_ne_bodyPath key key)]

theorem view_erase_shrinks (path : Str) : (view d key).Shrinks (view (d.erase path) key) := by
  have hfile : ∀ name, (d.erase path).lookup name = d.lookup name ∨
      (d.erase path).lookup name = none := by
    intro name
    by_cases hname : name = path
    · subst hname
      exact .inr (AList.lookup_erase _ _)
    · exact .inl (AList.lookup_erase_ne hname)
  exact ⟨hfile _, hfile _⟩

end Dir

/-! ## Removals -/

/-- An invariant of the view that removals keep is kept by the operations that
only remove. -/
theorem RemovesOnly.keeps {I : View → Prop} (hI : ∀ v v', View.Shrinks v v' → I v → I v')
    {key : Str} (o : IoOp) (d : Dir) (r : o.Res) (d' : Dir) (ho : RemovesOnly o)
    (h : I (d.view key)) (hstep : storeEnv o d r d') : I (d'.view key) := by
  cases o with
  | fs o =>
      cases o with
      | read path => exact (storeEnv_read hstep).1 ▸ h
      | metadata path => exact (storeEnv_metadata hstep).1 ▸ h
      | removeFile path =>
          rcases storeEnv_removeFile hstep with rfl | rfl
          · exact h
          · exact hI _ _ (d.view_erase_shrinks key path) h
      | readDir =>
          have heq : d' = d := hstep
          exact heq ▸ h
      | _ => cases ho
  | _ => cases ho

/-- The entry that `finish` commits. -/
def CacheWriter.final (w : CacheWriter) : CacheEntry := { w.entry with bodyLen := w.bodyLen }

section Store

variable [Crates]

/-! ## Metadata -/

/-- The view with the metadata replaced by an entry's. -/
def View.withRecord (v : View) (entry : CacheEntry) : View :=
  { v with record := some (.json entry.persisted) }

/-- **Writing metadata** leaves a view as it is or with the new metadata, and
touches no key but the entry's. -/
theorem writeMetadata_safe (entry : CacheEntry) (key : Str) (d : Dir) :
    Safe storeEnv
      (fun d' => d'.view key = d.view key ∨
        entry.key = key ∧ d'.view key = (d.view key).withRecord entry)
      (fun _ _ => True) (writeMetadata entry) d := by
  unfold writeMetadata
  simp only [Io.fetchAdd_bind, Io.write_bind]
  refine ⟨.inl rfl, fun tempId d₁ hcount => ?_⟩
  obtain rfl : d₁ = d := hcount
  refine ⟨.inl rfl, fun r d₂ hwrite => ?_⟩
  obtain ⟨found, rfl, hfound⟩ := storeEnv_write hwrite
  have htemp := tempMetaPath_isTemporary entry.key tempId
  have hview : Dir.view (d₁.insert (tempMetaPath entry.key tempId) found) key = d₁.view key :=
    d₁.view_insert_of_ne key (htemp.ne_metaPath key) (htemp.ne_bodyPath key) found
  cases r with
  | error e => exact ⟨.inl hview, trivial⟩
  | ok _ =>
      refine ⟨.inl hview, fun r d₃ hrename => ?_⟩
      rcases storeEnv_rename hrename with ⟨rfl, -⟩ | ⟨-, data, hdata, rfl⟩
      · exact ⟨.inl hview, trivial⟩
      · obtain rfl : data = .json entry.persisted := by
          rw [AList.lookup_insert, Option.some.injEq] at hdata
          rw [← hdata, hfound rfl]
        refine ⟨?_, trivial⟩
        have herase := Dir.view_erase_of_ne
          (d₁.insert (tempMetaPath entry.key tempId) found) key (htemp.ne_metaPath key)
          (htemp.ne_bodyPath key)
        -- The rename replaces the metadata of one key.
        by_cases hkey : entry.key = key
        · subst hkey
          refine .inr ⟨rfl, ?_⟩
          rw [Dir.view_insert_metaPath, herase, hview]
          rfl
        · refine .inl ?_
          rw [Dir.view_insert_of_ne _ _ (fun h => hkey (metaPath_injective h))
            (metaPath_ne_bodyPath _ _), herase, hview]

/-! ## Lookups -/

/-- An entry as `lookup` returns it. -/
def CacheEntry.touched (entry : CacheEntry) (key : Str) (now : ℕ) : CacheEntry :=
  { entry with key := key, bodyPath := Corsget.bodyPath key, lastAccess := now }

/-- The part of an entry that a lookup leaves alone. -/
def CacheEntry.response (entry : CacheEntry) : CacheEntry :=
  { entry with key := [], bodyPath := [], lastAccess := 0 }

/-- What a lookup may do to the view of a key: it keeps the body, and it keeps,
removes or touches the metadata. -/
structure Looked (plan : CachePlan) (now : ℕ) (key : Str) (v v' : View) : Prop where
  body : v'.body = v.body
  record : v'.record = v.record ∨ v'.record = none ∨
    plan.key = key ∧ ∃ entry file, v.Admits entry file ∧
      v'.record = some (.json (entry.touched key now).persisted)

omit [Crates] in
theorem Looked.refl (plan : CachePlan) (now : ℕ) (key : Str) (v : View) :
    Looked plan now key v v := ⟨rfl, .inl rfl⟩

omit [Crates] in
/-- What is complete after a lookup was complete before it, up to the last
access. -/
theorem View.Admits.of_looked {plan : CachePlan} {now : ℕ} {key : Str} {v v' : View}
    {entry : CacheEntry} {file : FileData} (h : v'.Admits entry file)
    (hv : Looked plan now key v v') :
    ∃ previous, v.Admits previous file ∧ entry.response = previous.response := by
  rcases hv.record with hsame | hnone | ⟨-, previous, file', hadmits, hnew⟩
  · exact ⟨entry, h.of_shrinks ⟨.inl hsame, .inl hv.body⟩, rfl⟩
  · exact ⟨entry, h.of_shrinks ⟨.inr hnone, .inl hv.body⟩, rfl⟩
  · obtain rfl : (previous.touched key now).persisted.persisted = entry := by
      have hrecord := h.record
      rw [hnew] at hrecord
      exact Option.some.inj hrecord
    obtain rfl : file' = file := by
      have hbody := h.body
      rw [hv.body, hadmits.body] at hbody
      exact Option.some.inj hbody
    exact ⟨previous, hadmits, rfl⟩

omit [Crates] in
theorem Looked.of_removeFile {plan : CachePlan} {now : ℕ} {key : Str} {d d' : Dir}
    {r : Except IoError Unit} (h : storeEnv (.fs (.removeFile (metaPath plan.key))) d r d') :
    Looked plan now key (d.view key) (d'.view key) := by
  rcases storeEnv_removeFile h with rfl | rfl
  · exact .refl plan now key _
  · refine ⟨AList.lookup_erase_ne (metaPath_ne_bodyPath plan.key key).symm, ?_⟩
    by_cases hkey : plan.key = key
    · subst hkey
      exact .inr (.inl (AList.lookup_erase _ _))
    · exact .inl (AList.lookup_erase_ne fun h => hkey (metaPath_injective h).symm)

/-- **The specification of `lookup`**: it returns a complete entry, touched, or
nothing. -/
theorem lookup_safe (plan : CachePlan) (now : ℕ) (key : Str) (d : Dir) :
    Safe storeEnv (fun d' => Looked plan now key (d.view key) (d'.view key))
      (fun result _ => ∀ found, result = some found →
        ∃ entry file, (d.view plan.key).Admits entry file ∧ found = entry.touched plan.key now)
      (lookup plan now) d := by
  unfold lookup
  simp only [Io.read_bind, Io.metadata_bind, Io.removeFile_bind]
  refine ⟨.refl _ _ _ _, fun r d₁ hread => ?_⟩
  obtain ⟨rfl, hread⟩ := storeEnv_read hread
  cases r with
  | error e => exact ⟨.refl _ _ _ _, fun found h => by cases h⟩
  | ok data =>
      dsimp only
      have hdata := hread data rfl
      cases hentry : data.fromSlice with
      | none =>
          refine ⟨.refl _ _ _ _, fun r d₂ hremove => ?_⟩
          exact ⟨.of_removeFile hremove, fun found h => by cases h⟩
      | some entry =>
          refine ⟨.refl _ _ _ _, fun bodyLen d₂ hstat => ?_⟩
          obtain ⟨rfl, hstat⟩ := storeEnv_metadata hstat
          dsimp only
          split
          · refine ⟨.refl _ _ _ _, fun r d₃ hremove => ?_⟩
            exact ⟨.of_removeFile hremove, fun found h => by cases h⟩
          · next hcheck =>
            rw [not_or, not_not, not_not] at hcheck
            obtain ⟨hversion, hlen⟩ := hcheck
            obtain ⟨len, rfl⟩ : ∃ len, bodyLen = .ok len := by
              cases bodyLen with
              | error e => cases hlen
              | ok len => exact ⟨len, rfl⟩
            obtain ⟨file, hfile, hfilelen⟩ := hstat len rfl
            -- The checks of the source are those of a complete entry.
            have hadmits : (d₂.view plan.key).Admits entry file := {
              record := by
                show (AList.lookup (metaPath plan.key) d₂).bind FileData.fromSlice = some entry
                rw [hdata]
                exact hentry
              version := hversion
              body := hfile
              length := hfilelen.trans (Option.some.inj hlen) }
            refine Safe.bind
              ((writeMetadata_safe (entry.touched plan.key now) key d₂).weaken ?_) ?_
            · rintro d₃ (hsame | ⟨rfl, hnew⟩)
              · rw [hsame]
                exact .refl _ _ _ _
              · rw [hnew]
                exact ⟨rfl, .inr (.inr ⟨rfl, entry, file, hadmits, rfl⟩)⟩
            · intro _ d₃ hlooked _
              refine ⟨hlooked, fun found h => ?_⟩
              cases h
              exact ⟨entry, file, hadmits, rfl⟩

end Store

end Corsget
