import Corsget.Eviction
import Corsget.Reference
import Mathlib.Algebra.BigOperators.Group.Finset.Basic
import Mathlib.Algebra.GroupWithZero.Nat
import Mathlib.Algebra.Order.BigOperators.Group.Finset

/-!
# The size limit

The size of the cache is that of the metadata files and of the bodies that go with them.
A commit ends with an eviction, so its size is within the limit then; but a lookup and a
refresh write metadata as well, and nothing is evicted after them.

`size_limit_kept_iff` is about any sequence of operations that begins with the cleanup at
startup: the size is within the limit after each of them exactly when the metadata that
lookups and refreshes write have room.  Metadata that were there before the process started
may be any text that the decoder accepts, so what they take is the length of the file; that the
model keeps such a text beside the entry agrees with any decoder that reads back what the
program writes (`Operations.readBy`).
-/

namespace Corsget

open Text Effect Lru

/-! ## Sizes -/

namespace Dir

/-- The size of the entry whose metadata file has the given name: the metadata and the body
that goes with them. -/
def entrySize (d : Dir) (name : Str) : ℕ :=
  if extension name = some "json".toList ∧ (d.lookup name).isSome then
    d.fileLen name + d.fileLen (bodyPath (fileStem name))
  else 0

/-- The size of the cache. -/
def committedSize (d : Dir) : ℕ := (d.keys.map d.entrySize).sum

variable {d d' : Dir} {name path : Str}

theorem fileLen_congr (h : d'.lookup path = d.lookup path) : d'.fileLen path = d.fileLen path := by
  unfold fileLen
  rw [h]

theorem fileLen_of_lookup_eq_none (h : d.lookup path = none) : d.fileLen path = 0 := by
  unfold fileLen
  rw [h]
  rfl

/-- A file less is no byte more. -/
theorem fileLen_le_of_sub (h : ∀ data, d'.lookup path = some data → d.lookup path = some data) :
    d'.fileLen path ≤ d.fileLen path := by
  cases hdata : d'.lookup path with
  | none =>
      rw [fileLen_of_lookup_eq_none hdata]
      exact Nat.zero_le _
  | some data => rw [fileLen_of_lookup hdata, fileLen_of_lookup (h data hdata)]

theorem exists_of_entrySize_ne_zero (h : d.entrySize name ≠ 0) :
    extension name = some "json".toList ∧ ∃ data, d.lookup name = some data := by
  unfold entrySize at h
  split at h
  · next hname => exact ⟨hname.1, Option.isSome_iff_exists.mp hname.2⟩
  · exact absurd rfl h

theorem entrySize_congr (hname : d'.lookup name = d.lookup name)
    (hbody : d'.fileLen (bodyPath (fileStem name)) = d.fileLen (bodyPath (fileStem name))) :
    d'.entrySize name = d.entrySize name := by
  unfold entrySize
  rw [hname, fileLen_congr hname, hbody]

theorem entrySize_le_of_sub
    (h : ∀ path data, d'.lookup path = some data → d.lookup path = some data) :
    d'.entrySize name ≤ d.entrySize name := by
  by_cases hzero : d'.entrySize name = 0
  · exact hzero ▸ Nat.zero_le _
  · obtain ⟨hext, data, hdata⟩ := exists_of_entrySize_ne_zero hzero
    unfold entrySize
    rw [if_pos ⟨hext, by rw [hdata]; rfl⟩, if_pos ⟨hext, by rw [h _ _ hdata]; rfl⟩]
    exact Nat.add_le_add (fileLen_le_of_sub (h _)) (fileLen_le_of_sub (h _))

/-- The size as a sum over enough names. -/
theorem committedSize_eq_sum {names : Finset Str}
    (h : ∀ name, d.entrySize name ≠ 0 → name ∈ names) :
    d.committedSize = ∑ name ∈ names, d.entrySize name := by
  have hkeys : ∀ name, d.entrySize name ≠ 0 → name ∈ d.keys.toFinset := by
    intro name hname
    obtain ⟨-, hdata⟩ := exists_of_entrySize_ne_zero hname
    exact List.mem_toFinset.mpr (d.mem_keys_iff_lookup.mpr hdata)
  have hsum : ∀ names : Finset Str, (∀ name, d.entrySize name ≠ 0 → name ∈ names) →
      ∑ name ∈ d.keys.toFinset ∪ names, d.entrySize name = ∑ name ∈ names, d.entrySize name := by
    intro names hnames
    refine (Finset.sum_subset Finset.subset_union_right fun name _ hnot => ?_).symm
    by_contra hne
    exact hnot (hnames name hne)
  have hboth := hsum d.keys.toFinset hkeys
  rw [Finset.union_idempotent] at hboth
  rw [← hsum names h, committedSize, ← List.sum_toFinset _ (AList.keys_nodup d)]
  refine Finset.sum_subset Finset.subset_union_left fun name _ hnot => ?_
  by_contra hne
  exact hnot (hkeys name hne)

theorem committedSize_le_of_sub
    (h : ∀ path data, d'.lookup path = some data → d.lookup path = some data) :
    d'.committedSize ≤ d.committedSize := by
  have hkeys : ∀ name, d'.entrySize name ≠ 0 → name ∈ d.keys.toFinset := by
    intro name hne
    obtain ⟨-, data, hdata⟩ := exists_of_entrySize_ne_zero hne
    exact List.mem_toFinset.mpr (d.mem_keys_iff_lookup.mpr ⟨data, h name data hdata⟩)
  rw [committedSize_eq_sum hkeys, committedSize, ← List.sum_toFinset _ (AList.keys_nodup d)]
  exact Finset.sum_le_sum fun name _ => entrySize_le_of_sub h

theorem entrySize_le_committedSize : d.entrySize name ≤ d.committedSize := by
  by_cases hzero : d.entrySize name = 0
  · exact hzero ▸ Nat.zero_le _
  · obtain ⟨-, hdata⟩ := exists_of_entrySize_ne_zero hzero
    exact List.single_le_sum (fun _ _ => Nat.zero_le _) _
      (List.mem_map_of_mem (d.mem_keys_iff_lookup.mpr hdata))

/-- **Accounting**: when the size of one entry changes, that of the cache changes with it. -/
theorem committedSize_add_entrySize
    (h : ∀ other, other ≠ name → d'.entrySize other = d.entrySize other) :
    d'.committedSize + d.entrySize name = d.committedSize + d'.entrySize name := by
  have hall : ∀ (e : Dir) other, e.entrySize other ≠ 0 → e = d ∨ e = d' →
      other ∈ insert name (d.keys.toFinset ∪ d'.keys.toFinset) := by
    rintro e other hne he
    obtain ⟨-, hdata⟩ := exists_of_entrySize_ne_zero hne
    have hmem := List.mem_toFinset.mpr (e.mem_keys_iff_lookup.mpr hdata)
    rcases he with rfl | rfl
    · exact Finset.mem_insert_of_mem (Finset.mem_union_left _ hmem)
    · exact Finset.mem_insert_of_mem (Finset.mem_union_right _ hmem)
  rw [committedSize_eq_sum fun other hne => hall d other hne (.inl rfl),
    committedSize_eq_sum fun other hne => hall d' other hne (.inr rfl),
    ← Finset.add_sum_erase _ d.entrySize (Finset.mem_insert_self name _),
    ← Finset.add_sum_erase _ d'.entrySize (Finset.mem_insert_self name _)]
  have hrest : ∑ other ∈ (insert name (d.keys.toFinset ∪ d'.keys.toFinset)).erase name,
      d'.entrySize other = ∑ other ∈ (insert name (d.keys.toFinset ∪ d'.keys.toFinset)).erase name,
        d.entrySize other :=
    Finset.sum_congr rfl fun other hmem => h other (Finset.ne_of_mem_erase hmem)
  rw [hrest]
  omega

/-! ## What an eviction leaves -/

theorem use_size {entry : CacheEntry} (hext : extension name = some "json".toList)
    (hentry : d.decoded name = some entry) (hfits : d.committedSize < 2 ^ 64) :
    (d.use name entry).2.2 = d.entrySize name := by
  obtain ⟨data, hdata, -⟩ := Option.bind_eq_some_iff.mp hentry
  have hsize : d.entrySize name = d.fileLen name + d.fileLen (bodyPath (fileStem name)) :=
    if_pos ⟨hext, by rw [hdata]; rfl⟩
  have hle : d.entrySize name ≤ d.committedSize := entrySize_le_committedSize
  show saturatingAdd _ _ = _
  unfold saturatingAdd
  rw [hsize] at hle ⊢
  omega

variable {names : List Str} {collect : Str → Option (Usage Str)} {maxSize : ℕ}

/-- What a scan collects about a name is what there is to say about its entry. -/
def Collects (d : Dir) (collect : Str → Option (Usage Str)) : Prop :=
  ∀ name e, collect name = some e → extension name = some "json".toList ∧
    ∃ entry, d.decoded name = some entry ∧ e = d.use name entry

/-- The metadata file of what a scan has collected. -/
theorem Collects.metaPath_key (h : d.Collects collect) {e : Usage Str}
    (he : collect name = some e) : metaPath e.2.1 = name := by
  obtain ⟨hext, entry, -, rfl⟩ := h name e he
  exact metaPath_fileStem hext

theorem Collects.sublist (h : d.Collects collect) (names : List Str) :
    ((names.filterMap collect).map fun e => metaPath e.2.1).Sublist names := by
  induction names with
  | nil => exact .slnil
  | cons name rest ih =>
      cases he : collect name with
      | none =>
          rw [List.filterMap_cons_none he]
          exact ih.cons name
      | some e =>
          rw [List.filterMap_cons_some he, List.map_cons, h.metaPath_key he]
          exact ih.cons_cons name

theorem exists_collected {e : Usage Str} (he : e ∈ names.filterMap collect) :
    ∃ name, collect name = some e := by
  obtain ⟨name, -, hname⟩ := List.mem_filterMap.mp he
  exact ⟨name, hname⟩

/-- What a scan of distinct names has collected belongs to distinct entries. -/
theorem Collects.nodup (h : d.Collects collect) (hnodup : names.Nodup)
    {entries : List (Usage Str)} (hperm : entries.Perm (names.filterMap collect)) :
    (entries.map fun e => metaPath e.2.1).Nodup :=
  (hperm.map _).nodup_iff.mpr (hnodup.sublist (h.sublist names))

/-- The size of what a scan has collected, as a sum over the metadata files. -/
theorem Collects.size_eq (h : d.Collects collect) (hfits : d.committedSize < 2 ^ 64)
    {entries : List (Usage Str)} (hentries : ∀ e ∈ entries, ∃ name, collect name = some e) :
    size entries = (entries.map fun e => d.entrySize (metaPath e.2.1)).sum := by
  unfold size
  refine congrArg List.sum (List.map_congr_left fun e he => ?_)
  obtain ⟨name, hname⟩ := hentries e he
  obtain ⟨hext, entry, hentry, rfl⟩ := h name e hname
  rw [h.metaPath_key hname]
  exact use_size hext hentry hfits

/-- A scan that collects something about every metadata file. -/
def Complete (d : Dir) (collect : Str → Option (Usage Str)) (names : List Str) : Prop :=
  ∀ name, extension name = some "json".toList → (d.lookup name).isSome →
    name ∈ names ∧ (collect name).isSome

/-- A complete scan has collected something about each metadata file. -/
theorem Complete.exists_use (hcomplete : d.Complete collect names) (h : d.Collects collect)
    (hext : extension name = some "json".toList) {data : FileData}
    (hdata : d.lookup name = some data) :
    ∃ e ∈ names.filterMap collect, metaPath e.2.1 = name := by
  obtain ⟨hname, hsome⟩ := hcomplete name hext (Option.isSome_of_eq_some hdata)
  obtain ⟨e, he⟩ := Option.isSome_iff_exists.mp hsome
  exact ⟨e, List.mem_filterMap.mpr ⟨name, hname, he⟩, h.metaPath_key he⟩

/-- **What is left when some entries are gone** has the size of the others. -/
theorem committedSize_without (h : d.Collects collect) (hnodup : names.Nodup)
    (hfits : d.committedSize < 2 ^ 64) (hcomplete : d.Complete collect names)
    {front back : List (Usage Str)} (hperm : (front ++ back).Perm (names.filterMap collect)) :
    (d.without (files front)).committedSize = size back := by
  have hdistinct := h.nodup hnodup hperm
  rw [List.map_append, List.nodup_append'] at hdistinct
  obtain ⟨-, hback, hdisjoint⟩ := hdistinct
  have hcollected : ∀ e ∈ back, ∃ name, collect name = some e :=
    fun e he => exists_collected (hperm.subset (List.mem_append_right front he))
  have hleft : ∀ name, (d.without (files front)).entrySize name ≠ 0 →
      name ∈ (back.map fun e => metaPath e.2.1).toFinset := by
    intro name hne
    obtain ⟨hext, data, hdata⟩ := exists_of_entrySize_ne_zero hne
    obtain ⟨e, he, hkey⟩ := hcomplete.exists_use h hext (without_sub d _ _ _ hdata)
    rcases List.mem_append.mp (hperm.symm.subset he) with hgone | hstays
    · have hfile : name ∈ files front :=
        mem_files.mpr ⟨e.2.1, List.mem_map_of_mem hgone, .inl hkey.symm⟩
      rw [lookup_without, if_pos hfile] at hdata
      cases hdata
    · exact List.mem_toFinset.mpr (List.mem_map.mpr ⟨e, hstays, hkey⟩)
  -- The entries that stay keep both files.
  have hsame : ∀ name ∈ (back.map fun e => metaPath e.2.1).toFinset,
      (d.without (files front)).entrySize name = d.entrySize name := by
    intro name hname
    obtain ⟨e, he, rfl⟩ := List.mem_map.mp (List.mem_toFinset.mp hname)
    obtain ⟨name, hcollect⟩ := hcollected e he
    have hext : extension (metaPath e.2.1) = some "json".toList := by
      rw [h.metaPath_key hcollect]
      exact (h name e hcollect).1
    have hkept : ∀ path, path = metaPath e.2.1 ∨ path = bodyPath e.2.1 → path ∉ files front := by
      intro path hpath hfile
      obtain ⟨key, hkey, hpath'⟩ := mem_files.mp hfile
      obtain ⟨e', he', rfl⟩ := List.mem_map.mp hkey
      have hsame : e'.2.1 = e.2.1 := key_unique hpath' hpath
      exact hdisjoint (List.mem_map_of_mem he') (hsame ▸ List.mem_map_of_mem he)
    refine entrySize_congr (lookup_without_of_notMem d (hkept _ (.inl rfl))) (fileLen_congr ?_)
    exact lookup_without_of_notMem d (hkept _ (.inr (congrArg bodyPath
      (metaPath_injective (metaPath_fileStem hext)))))
  calc (d.without (files front)).committedSize
      = ∑ name ∈ (back.map fun e => metaPath e.2.1).toFinset,
          (d.without (files front)).entrySize name := committedSize_eq_sum hleft
    _ = ∑ name ∈ (back.map fun e => metaPath e.2.1).toFinset, d.entrySize name :=
        Finset.sum_congr rfl hsame
    _ = size back := by
        rw [List.sum_toFinset _ hback, List.map_map, h.size_eq hfits hcollected]
        rfl

/-- **The victims of a scan that is complete are a least cut**, by the sizes of the entries:
its total is exact. -/
theorem cut_evicted (h : d.Collects collect) (hnodup : names.Nodup)
    (hfits : d.committedSize < 2 ^ 64) (hcomplete : d.Complete collect names) (maxSize : ℕ) :
    ∃ stay, Cut maxSize (sortByLastAccess (names.filterMap collect))
      (evicted maxSize (names.filterMap collect)) stay := by
  have hperm : (sortByLastAccess (names.filterMap collect)).Perm (names.filterMap collect) :=
    List.perm_insertionSort _ _
  have htotal : d.committedSize = size (names.filterMap collect) :=
    @committedSize_without d names collect h hnodup hfits hcomplete [] _ (.refl _)
  have htally : tally (names.filterMap collect) 0 =
      size (sortByLastAccess (names.filterMap collect)) := by
    rw [size_perm hperm, tally_of_lt (by omega), Nat.zero_add]
  unfold evicted
  rw [htally]
  exact cut_victims maxSize _

/-- So what is left is within the limit. -/
theorem committedSize_evicted (h : d.Collects collect) (hnodup : names.Nodup)
    (hfits : d.committedSize < 2 ^ 64) (hcomplete : d.Complete collect names) (maxSize : ℕ) :
    (d.without (files (evicted maxSize (names.filterMap collect)))).committedSize ≤ maxSize := by
  obtain ⟨stay, hcut⟩ := cut_evicted h hnodup hfits hcomplete maxSize
  have hperm : (evicted maxSize (names.filterMap collect) ++ stay).Perm
      (names.filterMap collect) := by
    rw [← hcut.split]
    exact List.perm_insertionSort _ _
  rw [committedSize_without h hnodup hfits hcomplete hperm]
  exact hcut.fits

/-- Every metadata file is that of an entry. -/
def Tidy (d : Dir) : Prop :=
  ∀ name data, extension name = some "json".toList → d.lookup name = some data →
    ∃ entry, data.fromSlice = some entry

/-- The metadata files are files from before and texts that the program has written. -/
def Recording (d d' : Dir) : Prop :=
  ∀ name data, extension name = some "json".toList → d'.lookup name = some data →
    d.lookup name = some data ∨ ∃ entry, data = .json entry

theorem Recording.of_sub
    (h : ∀ path data, d'.lookup path = some data → d.lookup path = some data) : d.Recording d' :=
  fun name data _ hdata => .inl (h name data hdata)

theorem Recording.trans {d'' : Dir} (h : d.Recording d') (h' : d'.Recording d'') :
    d.Recording d'' := by
  intro name data hext hdata
  rcases h' name data hext hdata with hdata | hwritten
  · exact h name data hext hdata
  · exact .inr hwritten

theorem Tidy.of_recording (htidy : d.Tidy) (h : d.Recording d') : d'.Tidy := by
  intro name data hext hdata
  rcases h name data hext hdata with hdata | ⟨entry, rfl⟩
  · exact htidy name data hext hdata
  · exact ⟨entry.persisted, rfl⟩

theorem Tidy.of_sub (h : d.Tidy)
    (hsub : ∀ path data, d'.lookup path = some data → d.lookup path = some data) : d'.Tidy :=
  h.of_recording (.of_sub hsub)

/-- What the metadata files are said to decode to is what a decoder reads from their bytes. -/
def ReadBy (decode : Bytes → Option CacheEntry) (d : Dir) : Prop :=
  ∀ name data, extension name = some "json".toList → d.lookup name = some data →
    decode data.bytes = data.fromSlice

/-- A decoder that reads back the texts of the program goes on to agree. -/
theorem ReadBy.of_recording {decode : Bytes → Option CacheEntry}
    (hdecode : ∀ entry : CacheEntry, decode entry.toVec = some entry.persisted)
    (hd : d.ReadBy decode) (h : d.Recording d') : d'.ReadBy decode := by
  intro name data hext hdata
  rcases h name data hext hdata with hdata | ⟨entry, rfl⟩
  · exact hd name data hext hdata
  · rw [FileData.bytes_json, hdecode, FileData.fromSlice_json]

theorem usage_collects (d : Dir) : d.Collects d.usage := by
  intro name e he
  unfold usage at he
  split at he
  · next hext =>
    obtain ⟨entry, hentry, rfl⟩ := Option.map_eq_some_iff.mp he
    exact ⟨hext, entry, hentry, rfl⟩
  · cases he

theorem kept_collects (d : Dir) (now : ℕ) : d.Collects (d.kept now) := by
  intro name e he
  obtain ⟨-, hext, entry, hentry, -, rfl⟩ := kept_eq_some_iff.mp he
  exact ⟨hext, entry, hentry, rfl⟩

/-- The scan of an eviction is complete in a directory whose metadata files are all those of
entries. -/
theorem Tidy.complete_usage (htidy : d.Tidy) (hnames : names.Perm d.keys) :
    d.Complete d.usage names := by
  intro name hext hsome
  obtain ⟨data, hdata⟩ := Option.isSome_iff_exists.mp hsome
  obtain ⟨entry, hentry⟩ := htidy name data hext hdata
  refine ⟨hnames.symm.subset (d.mem_keys_iff_lookup.mpr ⟨data, hdata⟩), ?_⟩
  have hdecoded : d.decoded name = some entry := by
    unfold decoded
    rw [hdata]
    exact hentry
  unfold usage
  rw [if_pos hext, hdecoded]
  rfl

/-- **An eviction restores the limit.** -/
theorem committedSize_afterEviction (hnames : names.Perm d.keys) (htidy : d.Tidy)
    (hfits : d.committedSize < 2 ^ 64) :
    (d.afterEviction maxSize names).committedSize ≤ maxSize :=
  committedSize_evicted d.usage_collects (hnames.nodup_iff.mpr (AList.keys_nodup d)) hfits
    (htidy.complete_usage hnames) maxSize

/-- The first two scans of the cleanup leave what the first one has collected, and nothing
else of the cache. -/
theorem scanned_collects {now : ℕ} {names' : List Str} (hnames : names.Perm d.keys)
    (hnames' : names'.Perm (d.without (names.flatMap (d.swept now))).keys) :
    (d.scanned now names names').Collects (d.kept now) ∧
      (d.scanned now names names').Complete (d.kept now) names ∧
        (d.scanned now names names').Tidy := by
  have hlookup := fun path => lookup_scanned path hnames hnames'
  have hmetadata : ∀ name data, extension name = some "json".toList →
      (d.scanned now names names').lookup name = some data →
        name ∈ names ∧ (d.kept now name).isSome ∧ d.lookup name = some data := by
    intro name data hext hdata
    rw [hlookup] at hdata
    split at hdata
    · next hsurvives =>
      have hkept := hsurvives.2 (.inl hext)
      rw [metaPath_fileStem hext] at hkept
      exact ⟨hnames.symm.subset (d.mem_keys_iff_lookup.mpr ⟨data, hdata⟩), hkept, hdata⟩
    · cases hdata
  refine ⟨fun name e he => ?_, fun name hext hsome => ?_, fun name data hext hdata => ?_⟩
  · obtain ⟨-, hext, entry, hentry, -, rfl⟩ := kept_eq_some_iff.mp he
    have hkept : (d.kept now (metaPath (fileStem name))).isSome := by
      rw [metaPath_fileStem hext, he]
      rfl
    obtain ⟨hmeta, hbody⟩ := survives_of_kept (eq_of_extension hext).1 hkept
    rw [metaPath_fileStem hext] at hmeta
    unfold use fileLen decoded
    rw [lookup_scanned_of_survives hnames hmeta, lookup_scanned_of_survives hnames hbody]
    exact ⟨hext, entry, hentry, rfl⟩
  · obtain ⟨data, hdata⟩ := Option.isSome_iff_exists.mp hsome
    obtain ⟨hname, hkept, -⟩ := hmetadata name data hext hdata
    exact ⟨hname, hkept⟩
  · obtain ⟨-, hkept, hdata⟩ := hmetadata name data hext hdata
    obtain ⟨e, he⟩ := Option.isSome_iff_exists.mp hkept
    obtain ⟨-, -, entry, hentry, -⟩ := kept_eq_some_iff.mp he
    unfold decoded at hentry
    rw [hdata] at hentry
    exact ⟨entry, hentry⟩

/-- **The cleanup brings about the limit**, and leaves only metadata files of entries. -/
theorem tidy_cleaned {now : ℕ} (h : Cleaned maxSize now d d') (hfits : d.committedSize < 2 ^ 64) :
    d'.Tidy ∧ d'.committedSize ≤ maxSize := by
  obtain ⟨names, names', hnames, hnames', rfl⟩ := h
  obtain ⟨hcollects, hcomplete, htidy⟩ := scanned_collects hnames hnames'
  have hle : (d.scanned now names names').committedSize ≤ d.committedSize :=
    committedSize_le_of_sub scanned_sub
  exact ⟨htidy.of_sub (without_sub _ _),
    committedSize_evicted hcollects (hnames.nodup_iff.mpr (AList.keys_nodup d)) (by omega)
      hcomplete maxSize⟩

theorem cleaned_sub {now : ℕ} (h : Cleaned maxSize now d d') (path : Str) (data : FileData)
    (hdata : d'.lookup path = some data) : d.lookup path = some data := by
  obtain ⟨names, names', hnames, hnames', rfl⟩ := h
  exact scanned_sub path data (without_sub _ _ path data hdata)

/-! ## What a write of metadata changes -/

theorem entrySize_of_view (h : extension name = some "json".toList →
    d'.view (fileStem name) = d.view (fileStem name)) : d'.entrySize name = d.entrySize name := by
  by_cases hext : extension name = some "json".toList
  · have h := h hext
    have hname : d'.lookup name = d.lookup name := by
      rw [← metaPath_fileStem hext]
      exact congrArg View.record h
    exact entrySize_congr hname (fileLen_congr (congrArg View.body h))
  · unfold entrySize
    rw [if_neg fun hname => hext hname.1, if_neg fun hname => hext hname.1]

/-- Files of no key do not count. -/
theorem committedSize_of_view (h : ∀ key, d'.view key = d.view key) :
    d'.committedSize = d.committedSize := by
  have hadd := @committedSize_add_entrySize d d' [] fun other _ => entrySize_of_view fun _ => h _
  rw [entrySize_of_view fun _ => h _] at hadd
  omega

theorem Recording.of_view (h : ∀ key, d'.view key = d.view key) : d.Recording d' := by
  intro name data hext hdata
  have hname : d'.lookup (metaPath (fileStem name)) = d.lookup (metaPath (fileStem name)) :=
    congrArg View.record (h _)
  rw [metaPath_fileStem hext] at hname
  exact .inl (hname.symm.trans hdata)

section Recorded

variable [Crates] {d : Dir} {entry : CacheEntry} (tempId : ℕ)

/-- **Accounting for a write of metadata.** -/
theorem committedSize_recorded (hkey : entry.key ≠ []) :
    (d.recorded entry tempId).committedSize + d.entrySize (metaPath entry.key) =
      d.committedSize + (entry.toVec.length + d.fileLen (bodyPath entry.key)) := by
  have hrecord := d.lookup_recorded entry tempId
  have hbody : (d.recorded entry tempId).fileLen (bodyPath entry.key) =
      d.fileLen (bodyPath entry.key) :=
    fileLen_congr (congrArg View.body (d.view_recorded entry tempId))
  have hsize : (d.recorded entry tempId).entrySize (metaPath entry.key) =
      entry.toVec.length + d.fileLen (bodyPath entry.key) := by
    unfold entrySize
    rw [if_pos ⟨extension_metaPath hkey, by rw [hrecord]; rfl⟩, fileStem_metaPath hkey,
      fileLen_of_lookup hrecord, hbody, FileData.len_json, CacheEntry.toVec_persisted]
  rw [committedSize_add_entrySize, hsize]
  intro other hother
  refine entrySize_of_view fun hext => d.view_recorded_of_ne entry tempId fun hstem => hother ?_
  rw [← hstem, metaPath_fileStem hext]

theorem recording_recorded : d.Recording (d.recorded entry tempId) := by
  intro name data hext hdata
  by_cases hkey : fileStem name = entry.key
  · rw [← metaPath_fileStem hext, hkey, lookup_recorded] at hdata
    exact .inr ⟨entry.persisted, (Option.some.inj hdata).symm⟩
  · have hname : (d.recorded entry tempId).lookup (metaPath (fileStem name)) =
        d.lookup (metaPath (fileStem name)) :=
      congrArg View.record (d.view_recorded_of_ne entry tempId hkey)
    rw [metaPath_fileStem hext] at hname
    exact .inl (hname.symm.trans hdata)

/-- There is room for the JSON text of an entry in place of the metadata file that is there. -/
def HasRoom (maxSize : ℕ) (d : Dir) (entry : CacheEntry) : Prop :=
  d.committedSize + (entry.toVec.length + d.fileLen (bodyPath entry.key)) ≤
    maxSize + d.entrySize (metaPath entry.key)

/-- A write of metadata keeps to the limit exactly when there is room for its text. -/
theorem committedSize_recorded_le_iff {maxSize : ℕ} (hkey : entry.key ≠ []) :
    (d.recorded entry tempId).committedSize ≤ maxSize ↔ d.HasRoom maxSize entry := by
  have haccount := @committedSize_recorded _ d entry tempId hkey
  unfold HasRoom
  omega

end Recorded

end Dir

/-! ## Lengths of the JSON text -/

theorem length_utf8_append (s t : Str) :
    (utf8 (s ++ t)).length = (utf8 s).length + (utf8 t).length := by
  unfold utf8
  rw [List.flatMap_append, List.length_append]

theorem length_utf8_decimal (n : ℕ) : (utf8 (decimal n)).length = (decimal n).length := by
  have hone : ∀ s : Str, (∀ c ∈ s, c.isDigit = true) → (utf8 s).length = s.length := by
    intro s hs
    induction s with
    | nil => rfl
    | cons c s ih =>
        have hdigit := hs c List.mem_cons_self
        have hsize : (String.utf8EncodeChar c).length = 1 := by
          have hrange : 48 ≤ c.val ∧ c.val ≤ 57 := by
            simpa [Char.isDigit] using hdigit
          rw [String.length_utf8EncodeChar, Char.utf8Size_eq_one_iff]
          exact UInt32.le_trans hrange.2 (by decide)
        show (String.utf8EncodeChar c ++ utf8 s).length = _
        rw [List.length_append, hsize, ih fun c hc => hs c (List.mem_cons_of_mem _ hc),
          List.length_cons]
        omega
  exact hone _ fun c hc => isDigit_of_mem_decimal hc

/-- Another last access changes the length of the text by that of the digits. -/
theorem CacheEntry.length_toVec_touched (entry : CacheEntry) (key : Str) (now : ℕ) :
    (entry.touched key now).toVec.length + (decimal entry.lastAccess).length =
      entry.toVec.length + (decimal now).length := by
  unfold CacheEntry.toVec CacheEntry.touched
  simp only [length_utf8_append, length_utf8_decimal]
  omega

/-- Where the metadata are a text that the program itself wrote, a lookup needs room for the
digits of its time in place of those of the last access. -/
theorem Dir.hasRoom_touched_iff {d : Dir} {key : Str} {entry : CacheEntry} {maxSize now : ℕ}
    (hkey : key ≠ []) (hrecord : d.lookup (metaPath key) = some (.json entry)) :
    d.HasRoom maxSize (entry.touched key now) ↔
      d.committedSize + (decimal now).length ≤ maxSize + (decimal entry.lastAccess).length := by
  have hsize : d.entrySize (metaPath key) = entry.toVec.length + d.fileLen (bodyPath key) := by
    unfold Dir.entrySize
    rw [if_pos ⟨extension_metaPath hkey, by rw [hrecord]; rfl⟩, fileStem_metaPath hkey,
      Dir.fileLen_of_lookup hrecord, FileData.len_json]
  have htext := entry.length_toVec_touched key now
  show d.committedSize + (_ + d.fileLen (bodyPath key)) ≤ maxSize + d.entrySize (metaPath key) ↔ _
  omega

/-! ## Operations of the store -/

section Operations

variable [Crates]

/-- An operation of the store, as one request or the start of the process performs it. -/
inductive StoreOp where
  /-- The cleanup at startup. -/
  | startup
  /-- A lookup, at a time in seconds. -/
  | lookup (plan : CachePlan) (now : ℕ)
  /-- A refresh of an entry that was found before. -/
  | refresh (entry : CacheEntry) (confirmed : HeaderMap) (ttl : ℕ)
  /-- The beginning of a write. -/
  | beginWrite (plan : CachePlan) (status : ℕ) (headers requestHeaders : HeaderMap)
  /-- A chunk of a body. -/
  | write (w : CacheWriter) (bytes : Bytes)
  /-- The commit. -/
  | finish (w : CacheWriter)
  /-- A write is given up. -/
  | discard (w : CacheWriter)

/-- What an operation does. -/
def StoreOp.prog (cache : Cache) : StoreOp → Prog Io Unit
  | startup => do
      let _ ← cleanupStartup cache
      return ()
  | lookup plan now => do
      let _ ← Corsget.lookup plan now
      return ()
  | refresh entry confirmed ttl => do
      let _ ← Corsget.refresh entry confirmed ttl
      return ()
  | beginWrite plan status headers requestHeaders => do
      let _ ← Corsget.beginWrite plan status headers requestHeaders
      return ()
  | write w bytes => do
      let _ ← w.write bytes
      return ()
  | finish w => do
      let _ ← w.finish cache
      return ()
  | discard w => w.discard

/-- A writer as `begin_write` makes it. -/
structure CacheWriter.Keyed (w : CacheWriter) : Prop where
  key : IsKey w.entry.key
  name : ∃ tempId, w.tempBody = tempBodyPath w.entry.key tempId

/-- The keys of an operation are keys, and its writer is one of `begin_write`. -/
def StoreOp.Keyed : StoreOp → Prop
  | startup => True
  | lookup plan _ => IsKey plan.key
  | refresh entry _ _ => IsKey entry.key
  | beginWrite plan _ _ _ => IsKey plan.key
  | write w _ => w.Keyed
  | finish w => w.Keyed
  | discard w => w.Keyed

/-- An operation that has been performed: the state before and after it. -/
structure Operated where
  op : StoreOp
  before : Disk
  after : Disk

/-- The sizes together fit in 64 bits. -/
def FitsIn64 (d : Dir) : Prop := d.committedSize < 2 ^ 64

/-- The operations of a process, one after the other and beginning with the cleanup.  The
directory may have been anything before. -/
inductive Operations (cache : Cache) : List Operated → Disk → Prop
  | startup {s s' : Disk} (hfits : FitsIn64 s.dir)
      (run : Steps (diskEnv FitsIn64) (StoreOp.startup.prog cache, s) (.ret (), s')) :
      Operations cache [⟨.startup, s, s'⟩] s'
  | next {xs : List Operated} {s s' : Disk} {op : StoreOp} (before : Operations cache xs s)
      (keyed : op.Keyed) (run : Steps (diskEnv FitsIn64) (op.prog cache, s) (.ret (), s')) :
      Operations cache (xs ++ [⟨op, s, s'⟩]) s'

/-- **The size stays within the limit.** -/
def KeepsLimit (cache : Cache) : Prop :=
  ∀ xs s, Operations cache xs s → ∀ x ∈ xs, x.after.dir.committedSize ≤ cache.maxSize

/-- **The condition on an operation.**  A lookup that finds an entry has room for the JSON text
with its time as the last access, and a refresh has room for the one with the new dates,
lifetime and validators, each in place of the metadata file that is there. -/
def Operated.Roomy (maxSize : ℕ) (x : Operated) : Prop :=
  match x.op with
  | .lookup plan now => ∀ entry file, (x.before.dir.view plan.key).Admits entry file →
      x.before.dir.HasRoom maxSize (entry.touched plan.key now)
  | .refresh entry confirmed ttl =>
      x.before.dir.HasRoom maxSize (x.before.refreshed entry confirmed ttl)
  | _ => True

/-! ## One operation -/

/-- What an operation leaves. -/
structure Kept (maxSize : ℕ) (op : StoreOp) (s s' : Disk) : Prop where
  recording : s.dir.Recording s'.dir
  limit : s.dir.committedSize ≤ maxSize →
    (s'.dir.committedSize ≤ maxSize ↔ Operated.Roomy maxSize ⟨op, s, s'⟩)

variable {maxSize : ℕ} {s s' : Disk}

/-- An operation that changes no file of any key. -/
theorem Kept.of_view {op : StoreOp} (hroomy : Operated.Roomy maxSize ⟨op, s, s'⟩)
    (h : ∀ key, s'.dir.view key = s.dir.view key) : Kept maxSize op s s' := by
  refine ⟨.of_view h, fun hlimit => ⟨fun _ => hroomy, fun _ => ?_⟩⟩
  rw [Dir.committedSize_of_view h]
  exact hlimit

/-- **A lookup.** -/
theorem lookup_kept {plan : CachePlan} {now : ℕ} {result : Option CacheEntry}
    (hkey : IsKey plan.key) (h : Consulted plan now s result s') :
    Kept maxSize (.lookup plan now) s s' := by
  cases h with
  | missed h =>
      -- The metadata go, if there are any.
      have hsub : ∀ path data, (s.dir.erase (metaPath plan.key)).lookup path = some data →
          s.dir.lookup path = some data :=
        fun _ _ => Dir.lookup_of_erase
      refine ⟨.of_sub hsub, fun hlimit =>
        ⟨fun _ entry file hadmits => absurd hadmits (h entry file), fun _ => ?_⟩⟩
      exact (Dir.committedSize_le_of_sub hsub).trans hlimit
  | @found entry file tempId hadmits =>
      refine ⟨Dir.recording_recorded tempId, fun _ => ?_⟩
      have hiff := @Dir.committedSize_recorded_le_iff _ s.dir (entry.touched plan.key now) tempId
        maxSize hkey.nonempty
      constructor
      · intro hlimit entry' file' hadmits'
        obtain rfl : entry = entry' := Option.some.inj (hadmits.record.symm.trans hadmits'.record)
        exact hiff.mp hlimit
      · intro hroomy
        exact hiff.mpr (hroomy entry file hadmits)

/-- **A refresh.** -/
theorem refresh_kept {entry : CacheEntry} {confirmed : HeaderMap} {ttl tempId : ℕ}
    (hkey : IsKey entry.key)
    (h : s'.dir = s.dir.recorded (s.refreshed entry confirmed ttl) tempId) :
    Kept maxSize (.refresh entry confirmed ttl) s s' := by
  refine ⟨h ▸ Dir.recording_recorded tempId, fun _ => ?_⟩
  rw [h]
  exact Dir.committedSize_recorded_le_iff tempId hkey.nonempty

/-- A commit writes the metadata of its entry. -/
theorem recording_committed {w : CacheWriter} {data : FileData} {tempId : ℕ} (hw : w.Keyed) :
    s.dir.Recording (s.dir.committed w data tempId) := by
  obtain ⟨n, hname⟩ := hw.name
  have htemp : IsTemporary w.tempBody n := hname ▸ tempBodyPath_isTemporary _ _
  refine Dir.Recording.trans (fun name found hext hfound => .inl ?_) (Dir.recording_recorded _)
  have hne : name ≠ bodyPath w.entry.key := by
    rw [← metaPath_fileStem hext]
    exact metaPath_ne_bodyPath _ _
  rw [AList.lookup_insert_ne hne] at hfound
  exact Dir.lookup_of_erase hfound

/-- **A commit** ends with an eviction. -/
theorem finish_kept {w : CacheWriter} {result : Except IoError Unit} (hw : w.Keyed)
    (htidy : s.dir.Tidy) (h : Finished FitsIn64 maxSize w s result s') :
    Kept maxSize (.finish w) s s' := by
  cases h with
  | gone h => exact .of_view trivial fun _ => rfl
  | @done data tempId names h hfits hnames =>
      have hrecording : s.dir.Recording (s.dir.committed w data tempId) := recording_committed hw
      exact ⟨hrecording.trans (.of_sub (Dir.without_sub _ _)), fun _ => ⟨fun _ => trivial,
        fun _ => Dir.committedSize_afterEviction hnames (htidy.of_recording hrecording) hfits⟩⟩

/-- **The cleanup**, from any directory. -/
theorem startup_limited (cache : Cache) (hfits : FitsIn64 s.dir) :
    Ends FitsIn64 (fun _ s' => s'.dir.Tidy ∧ s.dir.Recording s'.dir ∧
        s'.dir.committedSize ≤ cache.maxSize)
      (StoreOp.startup.prog cache) s := by
  refine .bind (cleanupStartup_ends cache) ?_
  rintro _ s' ⟨-, hcleaned⟩
  obtain ⟨htidy, hlimit⟩ := Dir.tidy_cleaned hcleaned hfits
  exact .ret ⟨htidy, .of_sub (Dir.cleaned_sub hcleaned), hlimit⟩

/-- **One operation**, whatever it is. -/
theorem op_kept {cache : Cache} {op : StoreOp} (hkeyed : op.Keyed) (htidy : s.dir.Tidy)
    (hfits : FitsIn64 s.dir) :
    Ends FitsIn64 (fun _ s' => Kept cache.maxSize op s s') (op.prog cache) s := by
  cases op with
  | startup =>
      refine (startup_limited cache hfits).mono ?_
      rintro _ s' ⟨-, hrecording, hlimit⟩
      exact ⟨hrecording, fun _ => ⟨fun _ => trivial, fun _ => hlimit⟩⟩
  | lookup plan now =>
      refine .bind (lookup_ends plan now) ?_
      intro _ s' h
      exact .ret (lookup_kept hkeyed h)
  | refresh entry confirmed ttl =>
      refine .bind (refresh_ends entry confirmed ttl) ?_
      rintro _ s' ⟨-, tempId, rfl⟩
      exact .ret (refresh_kept hkeyed rfl)
  | beginWrite plan status headers requestHeaders =>
      refine .bind (beginWrite_ends plan status headers requestHeaders) ?_
      rintro _ s' (⟨-, hdir, -⟩ | ⟨vary, created, accessed, now, tempId, -, -, hdir⟩)
      · refine .ret (.of_view trivial fun key => ?_)
        rw [hdir]
      · refine .ret (.of_view trivial fun key => ?_)
        have htemp := tempBodyPath_isTemporary plan.key tempId
        rw [hdir]
        exact Dir.view_insert_of_ne _ _ (htemp.ne_metaPath _) (htemp.ne_bodyPath _) _
  | write w bytes =>
      refine .bind (write_ends w bytes) ?_
      rintro _ s' ⟨-, rfl⟩
      obtain ⟨tempId, hname⟩ := hkeyed.name
      have htemp := tempBodyPath_isTemporary w.entry.key tempId
      rw [← hname] at htemp
      refine .ret (.of_view trivial fun key => ?_)
      unfold Dir.performOk
      dsimp only [Disk.on_dir]
      split
      · exact Dir.view_insert_of_ne _ _ (htemp.ne_metaPath _) (htemp.ne_bodyPath _) _
      · rfl
  | finish w =>
      refine .bind (finish_ends cache w) ?_
      intro _ s' h
      exact .ret (finish_kept hkeyed htidy h)
  | discard w =>
      refine (discard_ends w).mono ?_
      rintro _ s' rfl
      obtain ⟨tempId, hname⟩ := hkeyed.name
      have htemp := tempBodyPath_isTemporary w.entry.key tempId
      rw [← hname] at htemp
      refine .of_view trivial fun key => ?_
      exact Dir.view_erase_of_ne _ _ (htemp.ne_metaPath _) (htemp.ne_bodyPath _)

/-! ## Any number of operations -/

/-- What holds after some operations. -/
structure Operations.Holds (cache : Cache) (xs : List Operated) (s : Disk) : Prop where
  tidy : s.dir.Tidy
  fits : FitsIn64 s.dir
  last : ∃ x ∈ xs, x.after = s
  limit : (∀ x ∈ xs, x.after.dir.committedSize ≤ cache.maxSize) ↔
    ∀ x ∈ xs, x.Roomy cache.maxSize

theorem Operations.holds {cache : Cache} {xs : List Operated} (h : Operations cache xs s) :
    Operations.Holds cache xs s := by
  induction h with
  | @startup s s' hfits run =>
      obtain ⟨htidy, -, hlimit⟩ := ((startup_limited cache hfits).value run).2
      refine ⟨htidy, ((Ends.fits hfits).value run).2, ⟨_, List.mem_singleton_self _, rfl⟩, ?_⟩
      constructor
      · intro _ x hx
        rw [List.mem_singleton.mp hx]
        trivial
      · intro _ x hx
        rw [List.mem_singleton.mp hx]
        exact hlimit
  | @next xs s s' op before keyed run ih =>
      have hkept := ((op_kept keyed ih.tidy ih.fits).value run).2
      refine ⟨ih.tidy.of_recording hkept.recording, ((Ends.fits ih.fits).value run).2,
        ⟨_, List.mem_append_right _ (List.mem_singleton_self _), rfl⟩, ?_⟩
      simp only [List.forall_mem_append, List.forall_mem_singleton]
      -- The state before the operation is the one after the last.
      have hbefore : (∀ x ∈ xs, x.after.dir.committedSize ≤ cache.maxSize) →
          s.dir.committedSize ≤ cache.maxSize := by
        intro hall
        obtain ⟨x, hx, rfl⟩ := ih.last
        exact hall x hx
      constructor
      · rintro ⟨hall, hlimit⟩
        exact ⟨ih.limit.mp hall, (hkept.limit (hbefore hall)).mp hlimit⟩
      · rintro ⟨hall, hroomy⟩
        have hlimits := ih.limit.mpr hall
        exact ⟨hlimits, (hkept.limit (hbefore hlimits)).mpr hroomy⟩

/-- **The size limit**: in any sequence of operations that begins with the cleanup, the size
is within the limit after each of them exactly when every lookup and every refresh has
room. -/
theorem size_limit_kept_iff {cache : Cache} {xs : List Operated} {s : Disk}
    (h : Operations cache xs s) :
    (∀ x ∈ xs, x.after.dir.committedSize ≤ cache.maxSize) ↔ ∀ x ∈ xs, x.Roomy cache.maxSize :=
  h.holds.limit

/-- **The model agrees with any decoder** that reads back the texts that the program writes: when
the metadata of the directory decode as the model says before the process starts, they do so
after each operation. -/
theorem Operations.readBy {cache : Cache} {xs : List Operated} {s : Disk}
    {decode : Bytes → Option CacheEntry}
    (hdecode : ∀ entry : CacheEntry, decode entry.toVec = some entry.persisted)
    (h : Operations cache xs s) (hstart : ∀ x ∈ xs.head?, x.before.dir.ReadBy decode) :
    s.dir.ReadBy decode := by
  induction h with
  | startup hfits run =>
      obtain ⟨-, hrecording, -⟩ := ((startup_limited cache hfits).value run).2
      exact (hstart _ rfl).of_recording hdecode hrecording
  | @next xs s s' op before keyed run ih =>
      have hholds := before.holds
      have hkept := ((op_kept keyed hholds.tidy hholds.fits).value run).2
      refine (ih fun x hx => hstart x ?_).of_recording hdecode hkept.recording
      exact List.head?_append_of_ne_nil xs (List.ne_nil_of_mem hholds.last.choose_spec.1) ▸ hx

end Operations

/-! ## A cache with little room -/

instance : DecidablePred FitsIn64 := fun d => inferInstanceAs (Decidable (d.committedSize < 2 ^ 64))

section Calm

variable [Crates]

/-- The operation performed in that environment. -/
def StoreOp.calm (cache : Cache) (op : StoreOp) (s : Disk) : Operated :=
  ⟨op, s, (exec diskCalm (op.prog cache) s).2⟩

/-- Its states fit. -/
abbrev StoreOp.Fits (cache : Cache) (op : StoreOp) (s : Disk) : Prop :=
  ExecMeets diskCalm (fun o s => FitsIn64 (diskCalm o s).2.dir) (op.prog cache) s

theorem Operations.calmStartup {cache : Cache} {s : Disk} (hfits : FitsIn64 s.dir)
    (h : StoreOp.startup.Fits cache s) :
    Operations cache [StoreOp.startup.calm cache s] (StoreOp.startup.calm cache s).after :=
  .startup hfits (Steps.of_execMeets diskEnv_diskCalm h)

/-- Operations performed one after the other. -/
def StoreOp.calmAll (cache : Cache) : List StoreOp → Disk → List Operated
  | [], _ => []
  | op :: ops, s => op.calm cache s :: StoreOp.calmAll cache ops (op.calm cache s).after

/-- Their states fit. -/
def StoreOp.AllFit (cache : Cache) : List StoreOp → Disk → Prop
  | [], _ => True
  | op :: ops, s => op.Fits cache s ∧ StoreOp.AllFit cache ops (op.calm cache s).after

instance decidableAllFit (cache : Cache) :
    (ops : List StoreOp) → (s : Disk) → Decidable (StoreOp.AllFit cache ops s)
  | [], _ => inferInstanceAs (Decidable True)
  | op :: ops, s =>
      have := decidableAllFit cache ops (op.calm cache s).after
      inferInstanceAs (Decidable (op.Fits cache s ∧ _))

theorem Operations.calmAll {cache : Cache} {ops : List StoreOp} {xs : List Operated} {s : Disk}
    (before : Operations cache xs s) (keyed : ∀ op ∈ ops, op.Keyed)
    (h : StoreOp.AllFit cache ops s) :
    ∃ s', Operations cache (xs ++ StoreOp.calmAll cache ops s) s' := by
  induction ops generalizing xs s with
  | nil => exact ⟨s, by rwa [StoreOp.calmAll, List.append_nil]⟩
  | cons op ops ih =>
      have hop : Operations cache (xs ++ [op.calm cache s]) (op.calm cache s).after :=
        .next before (keyed op List.mem_cons_self) (Steps.of_execMeets diskEnv_diskCalm h.1)
      obtain ⟨s', hrest⟩ := ih hop (fun op hmem => keyed op (List.mem_cons_of_mem _ hmem)) h.2
      rw [List.append_assoc] at hrest
      exact ⟨s', hrest⟩

end Calm

/-- The headers of a response. -/
def shortTag : HeaderMap := [(.etag, .fromStatic "\"a\"".toList)]

/-- The headers of a `304` with a longer validator. -/
def longerTag : HeaderMap := [(.etag, .fromStatic "\"a longer one\"".toList)]

/-- The plan of both requests. -/
def tagPlan : CachePlan := ⟨"k".toList, 60⟩

/-- The writer of the response. -/
def tagWriter : CacheWriter :=
  @newWriter reference tagPlan 200 shortTag [] [] (1700000000 * 10 ^ 9) (1700000000 * 10 ^ 9)
    (1700000000 * 10 ^ 9) 0

/-- A response of three bytes is stored, found, and refreshed with the given validator. -/
def tagOps (confirmed : HeaderMap) : List StoreOp :=
  [.beginWrite tagPlan 200 shortTag [], .write tagWriter (utf8 "old".toList),
    .finish { tagWriter with bodyLen := 3 }, .lookup tagPlan 1700000000,
    .refresh { tagWriter.entry with bodyLen := 3 } confirmed 60]

theorem tagOps_keyed (confirmed : HeaderMap) :
    ∀ op ∈ tagOps confirmed, @StoreOp.Keyed reference op := by
  have hkey : IsKey tagPlan.key := ⟨by decide, by decide⟩
  have hw : @CacheWriter.Keyed reference tagWriter :=
    @CacheWriter.Keyed.mk reference _ hkey ⟨0, rfl⟩
  intro op hop
  rcases List.mem_cons.mp hop with rfl | hop
  · exact hkey
  rcases List.mem_cons.mp hop with rfl | hop
  · exact hw
  rcases List.mem_cons.mp hop with rfl | hop
  · exact @CacheWriter.Keyed.mk reference _ hkey ⟨0, rfl⟩
  rcases List.mem_pair.mp hop with rfl | rfl
  · exact hkey
  · exact hkey

/-- The same operations on an empty directory, after the cleanup. -/
def tagRun (cache : Cache) (confirmed : HeaderMap) : List Operated :=
  [@StoreOp.calm reference cache .startup emptyDisk] ++
    @StoreOp.calmAll reference cache (tagOps confirmed)
      (@StoreOp.calm reference cache .startup emptyDisk).after

theorem tagRun_operations {cache : Cache} {confirmed : HeaderMap}
    (hstart : @StoreOp.Fits reference cache .startup emptyDisk)
    (h : @StoreOp.AllFit reference cache (tagOps confirmed)
      (@StoreOp.calm reference cache .startup emptyDisk).after) :
    ∃ s', @Operations reference cache (tagRun cache confirmed) s' :=
  @Operations.calmAll reference _ _ _ _
    (@Operations.calmStartup reference _ _ (by decide) hstart) (tagOps_keyed confirmed) h

/-- In a cache of a mebibyte there is room for all of it. -/
theorem size_limit_kept_tagRun :
    (∀ x ∈ tagRun exampleCache longerTag,
      x.after.dir.committedSize ≤ exampleCache.maxSize) ∧
    ∀ x ∈ tagRun exampleCache longerTag, @Operated.Roomy reference exampleCache.maxSize x := by
  obtain ⟨s', h⟩ :=
    @tagRun_operations exampleCache longerTag (by decide +kernel) (by decide +kernel)
  have hlimit : ∀ x ∈ tagRun exampleCache longerTag,
      x.after.dir.committedSize ≤ exampleCache.maxSize := by decide +kernel
  exact ⟨hlimit, (@size_limit_kept_iff reference _ _ _ h).mp hlimit⟩

/-- A cache of 220 bytes. -/
def smallCache : Cache := { exampleCache with maxSize := 220 }

/-- **The limit is exceeded**: the response takes 216 bytes, and 11 more with the validator of
the `304`. -/
theorem refresh_exceeds_limit : ¬ @KeepsLimit reference smallCache := by
  intro h
  obtain ⟨s', hrun⟩ :=
    @tagRun_operations smallCache longerTag (by decide +kernel) (by decide +kernel)
  exact absurd (h _ _ hrun) (by decide +kernel)

end Corsget
