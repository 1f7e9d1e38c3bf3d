import Corsget.SizeLimit

/-!
# The order of eviction

What `Cache::evict` removes, said without the program: the entries that were used least
recently, as few as it takes, each with both of its files (`Evicts`).

The scan keeps a saturating total of its own.  While the sizes fit in 64 bits that total is
the size of the directory, and so it stays as the loop removes entry after entry
(`Dir.committedSize_without`): the loop stops when what is left fits, and not before.
-/

namespace Corsget

open Text Effect Lru

/-! ## What an eviction is for -/

/-- The two files of each of some keys. -/
def keyFiles (keys : List Str) : List Str := keys.flatMap fun key => [metaPath key, bodyPath key]

namespace Dir

/-- There is an entry under a key: its metadata can be read. -/
def HasEntry (d : Dir) (key : Str) : Prop := key ≠ [] ∧ (d.decoded (metaPath key)).isSome

/-- When the entry under a key was last used. -/
def lastAccess (d : Dir) (key : Str) : ℕ :=
  ((d.decoded (metaPath key)).map CacheEntry.lastAccess).getD 0

/-- **An eviction of the least recently used entries**, whose keys are listed in the order in
which they go. -/
structure Evicts (maxSize : ℕ) (d : Dir) (gone : List Str) (d' : Dir) : Prop where
  entries : ∀ key ∈ gone, d.HasEntry key
  sorted : gone.Pairwise fun key other => d.lastAccess key ≤ d.lastAccess other
  order : ∀ key ∈ gone, ∀ other, other ∉ gone → d.HasEntry other →
    d.lastAccess key ≤ d.lastAccess other
  fits : d'.committedSize ≤ maxSize
  least : ∀ front last, gone = front ++ [last] →
    maxSize < (d.without (keyFiles front)).committedSize
  removed : ∀ key ∈ gone, d'.view key = ⟨none, none⟩
  kept : ∀ key, key ∉ gone → d'.view key = d.view key
  others : ∀ path, (∀ key, path ≠ metaPath key ∧ path ≠ bodyPath key) →
    d'.lookup path = d.lookup path

variable {d d' : Dir} {maxSize : ℕ} {names gone : List Str} {collect : Str → Option (Usage Str)}

theorem decoded_metaPath (d : Dir) (key : Str) :
    d.decoded (metaPath key) = (d.view key).record.bind FileData.fromSlice := rfl

/-- An entry is the same where its files are. -/
theorem hasEntry_congr {key : Str} (h : d'.view key = d.view key) :
    (d'.HasEntry key ↔ d.HasEntry key) ∧ d'.lastAccess key = d.lastAccess key := by
  unfold HasEntry lastAccess
  rw [decoded_metaPath, decoded_metaPath, h]
  exact ⟨Iff.rfl, rfl⟩

/-! ### Without the files of some keys -/

theorem mem_keyFiles {keys : List Str} {path : Str} :
    path ∈ keyFiles keys ↔ ∃ key ∈ keys, path = metaPath key ∨ path = bodyPath key := by
  unfold keyFiles
  simp [List.mem_flatMap]

theorem view_without_of_mem {keys : List Str} {key : Str} (h : key ∈ keys) :
    (d.without (keyFiles keys)).view key = ⟨none, none⟩ := by
  unfold view
  rw [lookup_without, lookup_without, if_pos (mem_keyFiles.mpr ⟨key, h, .inl rfl⟩),
    if_pos (mem_keyFiles.mpr ⟨key, h, .inr rfl⟩)]

theorem view_without_of_notMem {keys : List Str} {key : Str} (h : key ∉ keys) :
    (d.without (keyFiles keys)).view key = d.view key := by
  have hfile : ∀ path, path = metaPath key ∨ path = bodyPath key → path ∉ keyFiles keys := by
    intro path hpath hmem
    obtain ⟨other, hother, hpath'⟩ := mem_keyFiles.mp hmem
    exact h (key_unique hpath hpath' ▸ hother)
  unfold view
  rw [lookup_without_of_notMem d (hfile _ (.inl rfl)),
    lookup_without_of_notMem d (hfile _ (.inr rfl))]

theorem lookup_without_keyFiles {keys : List Str} {path : Str}
    (h : ∀ key, path ≠ metaPath key ∧ path ≠ bodyPath key) :
    (d.without (keyFiles keys)).lookup path = d.lookup path := by
  refine lookup_without_of_notMem d fun hmem => ?_
  obtain ⟨key, -, hmeta | hbody⟩ := mem_keyFiles.mp hmem
  · exact (h key).1 hmeta
  · exact (h key).2 hbody

/-- With the last entry that went, the limit would be exceeded. -/
theorem Evicts.lt_of_last (h : Evicts maxSize d gone d') {front : List Str} {last : Str}
    (hgone : gone = front ++ [last]) :
    maxSize < d'.committedSize + d.entrySize (metaPath last) := by
  have hleast := h.least front last hgone
  have hother : ∀ key, key ≠ last → d'.view key = (d.without (keyFiles front)).view key := by
    intro key hne
    by_cases hkey : key ∈ front
    · rw [h.removed key (hgone ▸ List.mem_append_left _ hkey), view_without_of_mem hkey]
    · have hnot : key ∉ gone := by
        rw [hgone, List.mem_append, List.mem_singleton]
        exact fun hor => hor.elim hkey hne
      rw [h.kept key hnot, view_without_of_notMem hkey]
  have hsize := @committedSize_add_entrySize (d.without (keyFiles front)) d' (metaPath last)
    fun other hne => entrySize_of_view fun hext => hother _ fun hstem => hne (by
      rw [← hstem, metaPath_fileStem hext])
  have hzero : d'.entrySize (metaPath last) = 0 := by
    have hview := h.removed last (hgone ▸ List.mem_append_right _ (List.mem_singleton_self last))
    have hnone : d'.lookup (metaPath last) = none := congrArg View.record hview
    unfold entrySize
    rw [hnone, if_neg fun hand => Bool.false_ne_true hand.2]
  have hle : (d.without (keyFiles front)).entrySize (metaPath last) ≤ d.entrySize (metaPath last) :=
    entrySize_le_of_sub (without_sub d _)
  omega

/-! ### The victims -/

/-- When nothing needs to go, nothing goes. -/
theorem Evicts.nil_of_fits (h : Evicts maxSize d gone d') (hfits : d.committedSize ≤ maxSize) :
    gone = [] := by
  rcases List.eq_nil_or_concat gone with hnil | ⟨front, last, rfl⟩
  · exact hnil
  · have hover := h.least front last List.concat_eq_append
    have hle := committedSize_le_of_sub (without_sub d (keyFiles front))
    omega

theorem HasEntry.exists_data {key : Str} (h : d.HasEntry key) :
    ∃ data, d.lookup (metaPath key) = some data := by
  obtain ⟨entry, hentry⟩ := Option.isSome_iff_exists.mp h.2
  obtain ⟨data, hdata, -⟩ := Option.bind_eq_some_iff.mp hentry
  exact ⟨data, hdata⟩

/-- What a scan has collected about an entry. -/
theorem Collects.use (h : d.Collects collect) {e : Usage Str}
    (he : e ∈ names.filterMap collect) : d.HasEntry e.2.1 ∧ e.1 = d.lastAccess e.2.1 := by
  obtain ⟨name, -, hcollect⟩ := List.mem_filterMap.mp he
  have hkey := h.metaPath_key hcollect
  obtain ⟨hext, entry, hentry, rfl⟩ := h name e hcollect
  refine ⟨⟨(eq_of_extension hext).1, ?_⟩, ?_⟩
  · rw [hkey, hentry]
    rfl
  · unfold lastAccess
    rw [hkey, hentry]
    rfl

/-- **The victims of a scan that is complete are evicted in the order of last access.** -/
theorem evicts_evicted (h : d.Collects collect) (hnodup : names.Nodup)
    (hfits : d.committedSize < 2 ^ 64) (hcomplete : d.Complete collect names) (maxSize : ℕ) :
    Evicts maxSize d (keys (evicted maxSize (names.filterMap collect)))
      (d.without (files (evicted maxSize (names.filterMap collect)))) := by
  obtain ⟨stay, hcut⟩ := cut_evicted h hnodup hfits hcomplete maxSize
  have hsorted : (sortByLastAccess (names.filterMap collect)).Pairwise
      fun a b : Usage Str => a.1 ≤ b.1 :=
    List.pairwise_insertionSort _ _
  generalize hgone : evicted maxSize (names.filterMap collect) = gone at hcut
  have hperm : (gone ++ stay).Perm (names.filterMap collect) := by
    rw [← hcut.split]
    exact List.perm_insertionSort _ _
  have huse : ∀ e ∈ gone ++ stay, d.HasEntry e.2.1 ∧ e.1 = d.lastAccess e.2.1 :=
    fun e he => h.use (hperm.subset he)
  refine ⟨?_, ?_, ?_, ?_, ?_, ?_, ?_, ?_⟩
  · intro key hkey
    obtain ⟨e, he, rfl⟩ := List.mem_map.mp hkey
    exact (huse e (List.mem_append_left _ he)).1
  · rw [hcut.split, List.pairwise_append] at hsorted
    refine List.pairwise_map.mpr (hsorted.1.imp_of_mem fun {a b} ha hb hle => ?_)
    rwa [← (huse a (List.mem_append_left _ ha)).2, ← (huse b (List.mem_append_left _ hb)).2]
  · intro key hkey other hother hentry
    obtain ⟨a, ha, rfl⟩ := List.mem_map.mp hkey
    -- The scan has found the other entry too, and it stays.
    obtain ⟨data, hdata⟩ := hentry.exists_data
    obtain ⟨b, hb, hkey⟩ := hcomplete.exists_use h (extension_metaPath hentry.1) hdata
    obtain rfl : b.2.1 = other := metaPath_injective hkey
    have hmem : b ∈ gone ++ stay := hperm.symm.subset hb
    have hstays : b ∈ stay := by
      rcases List.mem_append.mp hmem with hgone | hstays
      · exact absurd (List.mem_map_of_mem hgone) hother
      · exact hstays
    have hle := hcut.le hsorted a ha b hstays
    rwa [(huse a (List.mem_append_left _ ha)).2, (huse b hmem).2] at hle
  · have hsize := committedSize_without h hnodup hfits hcomplete hperm
    rw [hsize]
    exact hcut.fits
  · intro front last hlast
    obtain ⟨before, after, hsplit, rfl, hafter⟩ := List.map_eq_append_iff.mp hlast
    obtain ⟨e, rest, rfl, -, hrest⟩ := List.map_eq_cons_iff.mp hafter
    obtain rfl := List.map_eq_nil_iff.mp hrest
    have hover := hcut.least before e hsplit
    rw [hsplit, List.append_assoc] at hperm
    have hsize := committedSize_without h hnodup hfits hcomplete hperm
    rw [List.singleton_append] at hsize
    rw [← hsize] at hover
    exact hover
  · exact fun key hkey => view_without_of_mem hkey
  · exact fun key hkey => view_without_of_notMem hkey
  · exact fun path hpath => lookup_without_keyFiles hpath

end Dir

/-! ## The run-time eviction -/

/-- **Run-time eviction removes as few of the least recently used entries as it takes.** -/
theorem evict_least_recent (cache : Cache) {s : Disk} (htidy : s.dir.Tidy)
    (hfits : s.dir.committedSize < 2 ^ 64) :
    Ends (fun _ => True)
      (fun _ s' => (s.dir.committedSize ≤ cache.maxSize → s'.dir = s.dir) ∧
        ∃ gone, Dir.Evicts cache.maxSize s.dir gone s'.dir)
      (evict cache) s := by
  refine (evict_ends cache).mono ?_
  rintro _ _ ⟨names, hnames, rfl⟩
  have hevicts := Dir.evicts_evicted s.dir.usage_collects
    (hnames.nodup_iff.mpr (AList.keys_nodup s.dir)) hfits (htidy.complete_usage hnames)
    cache.maxSize
  refine ⟨fun hcalm => ?_, _, hevicts⟩
  have hnone := List.map_eq_nil_iff.mp (hevicts.nil_of_fits hcalm)
  show s.dir.without (files (Dir.evicted cache.maxSize (names.filterMap s.dir.usage))) = s.dir
  rw [hnone]
  rfl

/-! ## Two entries -/

/-- The directory of some entries, each with its body. -/
def entriesDir : List (Str × CacheEntry × Bytes) → Dir
  | [] => ∅
  | (key, entry, body) :: rest =>
      ((entriesDir rest).insert (bodyPath key) (.raw body)).insert (metaPath key) (.json entry)

theorem tidy_entriesDir (entries : List (Str × CacheEntry × Bytes)) :
    (entriesDir entries).Tidy := by
  induction entries with
  | nil =>
      intro name data _ hdata
      unfold entriesDir at hdata
      rw [AList.lookup_empty] at hdata
      cases hdata
  | cons first rest ih =>
      obtain ⟨key, entry, body⟩ := first
      intro name data hext hdata
      unfold entriesDir at hdata
      by_cases hname : name = metaPath key
      · rw [hname, AList.lookup_insert] at hdata
        obtain rfl := Option.some.inj hdata
        exact ⟨entry.persisted, rfl⟩
      · have hbody : name ≠ bodyPath key := by
          rw [← metaPath_fileStem hext]
          exact metaPath_ne_bodyPath _ _
        rw [AList.lookup_insert_ne hname, AList.lookup_insert_ne hbody] at hdata
        exact ih name data hext hdata

/-- An entry of a body of three bytes. -/
def plainEntry (lastAccess : ℕ) : CacheEntry where
  version := cacheVersion
  status := 200
  headers := []
  bodyLen := 3
  createdAt := 1700000000
  lastAccess := lastAccess
  ttl := 60
  revalidate := false
  etag := none
  lastModified := none
  vary := []
  requestVariants := []
  key := []
  bodyPath := []

/-- Two entries that together take more than 220 bytes. -/
def twoEntries : Disk where
  dir := entriesDir [("a".toList, plainEntry 1700000005, utf8 "new".toList),
    ("b".toList, plainEntry 1700000001, utf8 "old".toList)]
  clock _ := 1700000010 * 10 ^ 9

/-- The theorem for a directory from which one of two entries goes. -/
theorem evict_least_recent_twoEntries :
    Ends (fun _ => True)
      (fun _ s' => (twoEntries.dir.committedSize ≤ smallCache.maxSize → s'.dir = twoEntries.dir) ∧
        ∃ gone, Dir.Evicts smallCache.maxSize twoEntries.dir gone s'.dir)
      (evict smallCache) twoEntries :=
  evict_least_recent smallCache (tidy_entriesDir _) (by decide +kernel)

end Corsget
