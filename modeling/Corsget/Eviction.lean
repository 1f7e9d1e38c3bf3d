import Corsget.Faultless
import Corsget.Library.Lru

/-!
# Eviction and cleanup where nothing fails

The files that `Cache::evict` and `Cache::cleanup_startup` remove are functions of the
directory they find and of the order in which a scan lists it.

`evict_ends` and `cleanupStartup_ends` are the specifications.  They hold of any
directory, also of one with files that the cache has never written.
-/

namespace Corsget

open Text Effect Lru

variable {α : Type} {P : Dir → Prop} {s : Disk}

/-- The files of some entries. -/
def files (entries : List (Usage Str)) : List Str :=
  (keys entries).flatMap fun key => [metaPath key, bodyPath key]

theorem mem_files {entries : List (Usage Str)} {path : Str} :
    path ∈ files entries ↔ ∃ key ∈ keys entries, path = metaPath key ∨ path = bodyPath key := by
  unfold files
  simp [List.mem_flatMap]

/-! ## Eviction -/

/-- The running total of some sizes, as both scans keep it. -/
def tally (entries : List (Usage Str)) (total : ℕ) : ℕ :=
  entries.foldl (fun total e => saturatingAdd total e.2.2) total

theorem saturatingAdd_assoc (a b c : ℕ) :
    saturatingAdd (saturatingAdd a b) c = saturatingAdd a (saturatingAdd b c) := by
  unfold saturatingAdd
  omega

/-- The total is exact up to the largest number of 64 bits. -/
theorem tally_eq (entries : List (Usage Str)) {total : ℕ} (h : total < 2 ^ 64) :
    tally entries total = min (total + size entries) (2 ^ 64 - 1) := by
  induction entries generalizing total with
  | nil =>
      show total = min (total + 0) _
      omega
  | cons e rest ih =>
      show tally rest (saturatingAdd total e.2.2) = _
      unfold saturatingAdd
      rw [ih (by omega), size_cons]
      omega

/-- While the sizes fit in 64 bits, it is exact. -/
theorem tally_of_lt {entries : List (Usage Str)} {total : ℕ}
    (h : total + size entries < 2 ^ 64) : tally entries total = total + size entries := by
  rw [tally_eq entries (by omega)]
  omega

namespace Dir

/-- What a scan collects about the entry of a metadata file. -/
def use (d : Dir) (name : Str) (entry : CacheEntry) : Usage Str :=
  (entry.lastAccess, fileStem name,
    saturatingAdd (d.fileLen name) (d.fileLen (bodyPath (fileStem name))))

/-- What the scan of `evict` collects at a name. -/
def usage (d : Dir) (name : Str) : Option (Usage Str) :=
  if extension name = some "json".toList then (d.decoded name).map (d.use name) else none

/-- The entries that go when the total is more than `maxSize`, for the order in which a
scan has listed them. -/
def evicted (maxSize : ℕ) (found : List (Usage Str)) : List (Usage Str) :=
  victims maxSize (sortByLastAccess found) (tally found 0)

end Dir

/-- `evict` only looks, at first. -/
theorem evictScan_ends (names : List Str) (entries : List (Usage Str)) (total : ℕ) :
    Ends P
      (fun result s' => s' = s ∧ result = (entries ++ names.filterMap s.dir.usage,
        tally (names.filterMap s.dir.usage) total))
      (evictScan (names.map .ok) entries total) s := by
  induction names generalizing entries total with
  | nil => exact .ret ⟨rfl, by simp [tally]⟩
  | cons name rest ih =>
      rw [List.map_cons]
      unfold evictScan
      -- A name without an entry adds nothing.
      have hskip : s.dir.usage name = none → Ends P
          (fun result s' => s' = s ∧ result =
            (entries ++ (name :: rest).filterMap s.dir.usage,
              tally ((name :: rest).filterMap s.dir.usage) total))
          (evictScan (rest.map .ok) entries total) s := by
        intro hnone
        rw [List.filterMap_cons_none hnone]
        exact ih entries total
      split
      · next hext => exact hskip (if_neg hext)
      · next hext =>
        rw [not_not] at hext
        simp only [Io.metadata_bind, Io.read_bind]
        have husage : s.dir.usage name = (s.dir.decoded name).map (s.dir.use name) := if_pos hext
        refine .metadata ?_
        cases hdata : s.dir.lookup name with
        | none =>
            have hnone : s.dir.decoded name = none := by
              unfold Dir.decoded
              rw [hdata]
              rfl
            rw [hnone] at husage
            exact hskip husage
        | some data =>
            have hdecoded : s.dir.decoded name = data.fromSlice := by
              unfold Dir.decoded
              rw [hdata]
              rfl
            have hlen : s.dir.fileLen name = data.len := by
              unfold Dir.fileLen
              rw [hdata]
              rfl
            rw [hdecoded] at husage
            refine .read ?_
            rw [hdata]
            dsimp only [Option.map_some, found]
            cases hentry : data.fromSlice with
            | none =>
                rw [hentry] at husage
                exact hskip husage
            | some entry =>
                rw [hentry, Option.map_some] at husage
                have hrest := ih (entries ++ [s.dir.use name entry])
                  (saturatingAdd total (s.dir.use name entry).2.2)
                refine .metadata ?_
                rw [List.filterMap_cons_some husage, List.append_cons, toOption_found,
                  saturatingAdd_assoc, ← hlen]
                exact hrest

/-- `evict` removes the files of the victims. -/
theorem evictLoop_ends (maxSize : ℕ) (entries : List (Usage Str)) (total : ℕ) :
    Ends P (fun _ s' => s' = s.on (s.dir.without (files (victims maxSize entries total))))
      (evictLoop maxSize entries total) s := by
  induction entries generalizing total s with
  | nil => exact .ret rfl
  | cons e rest ih =>
      obtain ⟨access, key, size⟩ := e
      unfold evictLoop victims
      split
      · exact .ret rfl
      · simp only [Io.removeFile_bind]
        refine .removeFile fun _ => .removeFile fun _ => ?_
        exact (ih (total - size)).mono fun _ s' hs' => hs'

/-- **The specification of `evict`.** -/
theorem evict_ends (cache : Cache) :
    Ends P (fun _ s' => ∃ names : List Str, names.Perm s.dir.keys ∧ s' = s.on (s.dir.without
        (files (Dir.evicted cache.maxSize (names.filterMap s.dir.usage)))))
      (evict cache) s := by
  unfold evict
  simp only [Io.readDir_bind]
  refine .readDir fun names hnames => ?_
  refine .bind (evictScan_ends names [] 0) ?_
  rintro _ _ ⟨rfl, rfl⟩
  rw [List.nil_append]
  dsimp only
  split
  · next hfits =>
    refine .ret ⟨names, hnames, ?_⟩
    unfold Dir.evicted
    rw [victims_of_fits hfits]
    rfl
  · refine (evictLoop_ends _ _ _).mono fun _ s' hs' => ⟨names, hnames, hs'⟩

section Commits

variable [Crates]

/-- The directory after both renames of a commit whose temporary file holds the data. -/
def Dir.committed (d : Dir) (w : CacheWriter) (data : FileData) (tempId : ℕ) : Dir :=
  Dir.recorded ((d.erase w.tempBody).insert (bodyPath w.entry.key) data) w.final tempId

namespace Dir

variable {d : Dir} {w : CacheWriter} {data : FileData} {tempId : ℕ}

/-- The files of the key that is committed. -/
theorem view_committed :
    (d.committed w data tempId).view w.entry.key =
      ⟨some (.json w.final.persisted), some data⟩ := by
  have hview := view_recorded ((d.erase w.tempBody).insert (bodyPath w.entry.key) data) w.final
    tempId
  refine hview.trans ?_
  unfold View.withRecord
  rw [show w.final.key = w.entry.key from rfl, view_insert_bodyPath]

/-- The files of another key. -/
theorem view_committed_of_ne {n : ℕ} (htemp : IsTemporary w.tempBody n) {key : Str}
    (h : key ≠ w.entry.key) : (d.committed w data tempId).view key = d.view key := by
  unfold committed
  rw [view_recorded_of_ne _ w.final tempId h,
    view_insert_of_ne _ _ (metaPath_ne_bodyPath _ _).symm
      (fun heq => h (bodyPath_injective heq).symm),
    view_erase_of_ne _ _ (htemp.ne_metaPath key) (htemp.ne_bodyPath key)]

end Dir

/-- The directory after an eviction, for the order in which the scan lists the files. -/
def Dir.afterEviction (d : Dir) (maxSize : ℕ) (names : List Str) : Dir :=
  d.without (files (Dir.evicted maxSize (names.filterMap d.usage)))

/-- What `finish` does: the commit and an eviction, or nothing when the temporary file is
gone. -/
inductive Finished (P : Dir → Prop) (maxSize : ℕ) (w : CacheWriter) (s : Disk) :
    Except IoError Unit → Disk → Prop
  | gone {e : IoError} (h : s.dir.lookup w.tempBody = none) : Finished P maxSize w s (.error e) s
  | done {data : FileData} {tempId : ℕ} {names : List Str}
      (h : s.dir.lookup w.tempBody = some data) (hfits : P (s.dir.committed w data tempId))
      (hnames : names.Perm (s.dir.committed w data tempId).keys) :
      Finished P maxSize w s (.ok ())
        (s.on ((s.dir.committed w data tempId).afterEviction maxSize names))

/-- **The specification of `finish`.** -/
theorem finish_ends (cache : Cache) (w : CacheWriter) :
    Ends P (Finished P cache.maxSize w s) (w.finish cache) s := by
  unfold CacheWriter.finish commit
  simp only [Io.flush_bind, Io.rename_bind]
  refine .fs nofun fun _ => ?_
  cases hdata : s.dir.lookup w.tempBody with
  | none =>
      have hrename : s.dir.performOk (.rename w.tempBody (bodyPath w.entry.key)) =
          (.error notFound, s.dir) := by
        unfold Dir.performOk
        dsimp only
        rw [hdata]
      exact .look nofun hrename (.ret (.gone hdata))
  | some data =>
      refine .rename hdata fun hfits => ?_
      refine .bind ((writeMetadata_ends _).and (.fits hfits)) ?_
      rintro _ _ ⟨⟨rfl, tempId, rfl⟩, hfits'⟩
      refine .bind (evict_ends cache) ?_
      rintro _ _ ⟨names, hnames, rfl⟩
      have hdone : Finished P cache.maxSize w s (.ok ())
          (s.on ((s.dir.committed w data tempId).afterEviction cache.maxSize names)) :=
        .done hdata hfits' hnames
      exact .ret hdone

end Commits

/-! ## Cleanup -/

namespace Dir

/-- The entry of a metadata file that the cleanup keeps: its body has the length it
records, and it is of the current version and neither stale nor to be revalidated. -/
def Fresh (d : Dir) (now : ℕ) (name : Str) (entry : CacheEntry) : Prop :=
  (d.lookup (bodyPath (fileStem name))).map FileData.len = some entry.bodyLen ∧
    ¬(entry.version ≠ cacheVersion ∨ entry.revalidate = true ∨ entry.ttl ≤ now - entry.createdAt)

instance (d : Dir) (now : ℕ) (name : Str) (entry : CacheEntry) :
    Decidable (d.Fresh now name entry) := by
  unfold Fresh
  infer_instance

/-- The files that the first scan of the cleanup removes when it comes to a name. -/
def swept (d : Dir) (now : ℕ) (name : Str) : List Str :=
  if isCacheTempFile name then [name]
  else if extension name ≠ some "json".toList then []
  else
    match d.decoded name with
    | none => [name]
    | some entry => if d.Fresh now name entry then [] else [name, bodyPath (fileStem name)]

/-- What the first scan of the cleanup collects at a name. -/
def kept (d : Dir) (now : ℕ) (name : Str) : Option (Usage Str) :=
  if isCacheTempFile name then none
  else if extension name ≠ some "json".toList then none
  else
    match d.decoded name with
    | none => none
    | some entry => if d.Fresh now name entry then some (d.use name entry) else none

end Dir

/-- A body file of none of the given keys. -/
def IsOrphan (validKeys : List Str) (name : Str) : Prop :=
  extension name = some "body".toList ∧ fileStem name ∉ validKeys

instance (validKeys : List Str) (name : Str) : Decidable (IsOrphan validKeys name) :=
  decidable_of_iff
    (extension name = some "body".toList ∧ validKeys.contains (fileStem name) = false)
    (and_congr_right' (by rw [← List.contains_iff_mem, Bool.not_eq_true]))

/-! ### Names -/

/-- An extension that does not begin like that of a temporary file makes no file
temporary. -/
theorem isCacheTempFile_append {name ext : Str} (hdot : '.' ∉ ext)
    (htmp : ¬ "tmp-".toList <+: ext) :
    isCacheTempFile (name ++ '.' :: ext) = isCacheTempFile name := by
  have hmark : ".tmp-".toList = '.' :: "tmp-".toList := by decide
  have hnot : '.' ∉ "tmp-".toList := by decide
  unfold isCacheTempFile
  refine decide_eq_decide.mpr ⟨fun h => ?_, fun h => h.trans List.infix_append_left⟩
  rw [hmark] at h ⊢
  rcases List.infix_append_iff.mp h with hname | hext | ⟨front, back, heq, hfront, hback⟩
  · exact hname
  · -- The mark begins with a dot, and there is one at the start of the extension only.
    rcases List.infix_cons_iff.mp hext with hprefix | hinner
    · exact absurd (List.cons_prefix_cons.mp hprefix).2 htmp
    · exact absurd (hinner.subset List.mem_cons_self) hdot
  · cases back with
    | nil =>
        rw [List.append_nil] at heq
        rw [heq]
        exact hfront.isInfix
    | cons c back =>
        obtain ⟨rfl, hrest⟩ := List.cons_prefix_cons.mp hback
        cases front with
        | nil =>
            obtain ⟨-, rfl⟩ := List.cons.inj heq
            exact absurd hrest htmp
        | cons c front =>
            obtain ⟨-, heq⟩ := List.cons.inj heq
            rw [heq] at hnot
            exact absurd (List.mem_append_right _ List.mem_cons_self) hnot

theorem isCacheTempFile_metaPath (key : Str) :
    isCacheTempFile (metaPath key) = isCacheTempFile key :=
  isCacheTempFile_append (by decide) (by decide)

theorem isCacheTempFile_bodyPath (key : Str) :
    isCacheTempFile (bodyPath key) = isCacheTempFile key :=
  isCacheTempFile_append (by decide) (by decide)

/-! ### The first scan -/

namespace Dir

variable {d d' : Dir} {now : ℕ} {name other path : Str}

/-- **What the first scan does at a name**, by what the name is and what its file holds. -/
inductive AtName (d : Dir) (now : ℕ) (name : Str) : Prop
  /-- A temporary file goes. -/
  | temporary (htemp : isCacheTempFile name = true) (hswept : d.swept now name = [name])
      (hkept : d.kept now name = none)
  /-- A file of another kind is left alone. -/
  | other (htemp : ¬isCacheTempFile name = true) (hext : extension name ≠ some "json".toList)
      (hswept : d.swept now name = []) (hkept : d.kept now name = none)
  /-- Metadata that do not decode go. -/
  | corrupt (htemp : ¬isCacheTempFile name = true) (hext : extension name = some "json".toList)
      (hentry : d.decoded name = none) (hswept : d.swept now name = [name])
      (hkept : d.kept now name = none)
  /-- The two files of an entry that is not fresh go. -/
  | stale (htemp : ¬isCacheTempFile name = true) (hext : extension name = some "json".toList)
      (entry : CacheEntry) (hentry : d.decoded name = some entry)
      (hstale : ¬d.Fresh now name entry)
      (hswept : d.swept now name = [name, bodyPath (fileStem name)])
      (hkept : d.kept now name = none)
  /-- An entry that is fresh stays. -/
  | fresh (htemp : ¬isCacheTempFile name = true) (hext : extension name = some "json".toList)
      (entry : CacheEntry) (hentry : d.decoded name = some entry)
      (hfresh : d.Fresh now name entry) (hswept : d.swept now name = [])
      (hkept : d.kept now name = some (d.use name entry))

theorem atName (d : Dir) (now : ℕ) (name : Str) : d.AtName now name := by
  by_cases htemp : isCacheTempFile name = true
  · exact .temporary htemp (if_pos htemp) (if_pos htemp)
  by_cases hext : extension name = some "json".toList
  · cases hentry : d.decoded name with
    | none =>
        refine .corrupt htemp hext hentry ?_ ?_
        · simp [swept, htemp, hext, hentry]
        · simp [kept, htemp, hext, hentry]
    | some entry =>
        by_cases hfresh : d.Fresh now name entry
        · refine .fresh htemp hext entry hentry hfresh ?_ ?_
          · simp [swept, htemp, hext, hentry, hfresh]
          · simp [kept, htemp, hext, hentry, hfresh]
        · refine .stale htemp hext entry hentry hfresh ?_ ?_
          · simp [swept, htemp, hext, hentry, hfresh]
          · simp [kept, htemp, hext, hentry, hfresh]
  · exact .other htemp hext ((if_neg htemp).trans (if_pos hext))
      ((if_neg htemp).trans (if_pos hext))

/-- What is swept at a name: its file, or the body of its key. -/
theorem mem_swept (h : path ∈ d.swept now name) :
    path = name ∧ (isCacheTempFile name = true ∨ extension name = some "json".toList) ∨
      path = bodyPath (fileStem name) ∧ extension name = some "json".toList := by
  cases d.atName now name with
  | temporary htemp hswept _ =>
      rw [hswept] at h
      exact .inl ⟨List.mem_singleton.mp h, .inl htemp⟩
  | other _ _ hswept _ =>
      rw [hswept] at h
      cases h
  | corrupt _ hext _ hswept _ =>
      rw [hswept] at h
      exact .inl ⟨List.mem_singleton.mp h, .inr hext⟩
  | stale _ hext _ _ _ hswept _ =>
      rw [hswept] at h
      rcases List.mem_cons.mp h with rfl | hbody
      · exact .inl ⟨rfl, .inr hext⟩
      · exact .inr ⟨List.mem_singleton.mp hbody, hext⟩
  | fresh _ _ _ _ _ hswept _ =>
      rw [hswept] at h
      cases h

/-- The scan looks at two files for a name. -/
theorem swept_congr (hname : d'.lookup name = d.lookup name)
    (hbody : d'.lookup (bodyPath (fileStem name)) = d.lookup (bodyPath (fileStem name))) :
    d'.swept now name = d.swept now name ∧ d'.kept now name = d.kept now name := by
  simp only [swept, kept, Fresh, use, decoded, fileLen, hname, hbody, and_self]

/-- **What is swept at one name does not matter to another.** -/
theorem swept_without (hne : name ≠ other) :
    (d.without (d.swept now name)).swept now other = d.swept now other ∧
      (d.without (d.swept now name)).kept now other = d.kept now other := by
  by_cases htemp : isCacheTempFile other = true
  · unfold swept kept
    simp only [htemp, if_true, and_self]
  by_cases hext : extension other = some "json".toList
  · have hother := metaPath_fileStem hext
    have htemp : isCacheTempFile (bodyPath (fileStem other)) = false := by
      rw [isCacheTempFile_bodyPath, ← isCacheTempFile_metaPath, hother]
      exact Bool.not_eq_true _ |>.mp htemp
    refine swept_congr (d.lookup_without_of_notMem fun hmem => ?_)
      (d.lookup_without_of_notMem fun hmem => ?_)
    · rcases mem_swept hmem with ⟨hsame, -⟩ | ⟨hsame, -⟩
      · exact hne hsame.symm
      · rw [← hother] at hsame
        exact metaPath_ne_bodyPath _ _ hsame
    · rcases mem_swept hmem with ⟨hsame, htemp' | hext'⟩ | ⟨hsame, hext'⟩
      · rw [← hsame, htemp] at htemp'
        cases htemp'
      · rw [← metaPath_fileStem hext'] at hsame
        exact metaPath_ne_bodyPath _ _ hsame.symm
      · have hstem := bodyPath_injective hsame
        rw [← metaPath_fileStem hext', ← hother, hstem] at hne
        exact hne rfl
  · unfold swept kept
    simp only [htemp, hext, ne_eq, not_false_eq_true, if_true, and_self]

end Dir

/-- `remove_cache_file` removes the file, if there is one. -/
theorem removeCacheFile_ends (path : Str) (summary : CacheCleanupSummary) :
    Ends P (fun _ s' => s' = s.on (s.dir.erase path)) (removeCacheFile path summary) s := by
  unfold removeCacheFile
  simp only [Io.metadata_bind, Io.removeFile_bind]
  refine .metadata ?_
  cases hdata : s.dir.lookup path with
  | none =>
      refine .ret ?_
      rw [s.dir.erase_of_lookup_eq_none hdata]
      rfl
  | some data =>
      refine .removeFile fun r => ?_
      cases r with
      | error e => exact .ret rfl
      | ok _ => exact .ret rfl

/-- What the first scan has done when it comes to its end. -/
structure Scanned (now : ℕ) (names : List Str) (s : Disk) (scan r : CleanupScan) (s' : Disk) :
    Prop where
  disk : s' = s.on (s.dir.without (names.flatMap (s.dir.swept now)))
  validKeys : r.validKeys = scan.validKeys ++ keys (names.filterMap (s.dir.kept now))
  entries : r.entries = scan.entries ++ names.filterMap (s.dir.kept now)
  total : r.total = tally (names.filterMap (s.dir.kept now)) scan.total

/-- The first scan after a name at which it has swept something and kept nothing. -/
theorem Scanned.of_swept {now : ℕ} {name : Str} {rest paths : List Str}
    {scan scan' r : CleanupScan} {s' : Disk} (hname : name ∉ rest)
    (hswept : s.dir.swept now name = paths) (hkept : s.dir.kept now name = none)
    (h : Scanned now rest (s.on (s.dir.without paths)) scan' r s')
    (hvalid : scan'.validKeys = scan.validKeys) (hentries : scan'.entries = scan.entries)
    (htotal : scan'.total = scan.total) : Scanned now (name :: rest) s scan r s' := by
  subst hswept
  have hother : ∀ other ∈ rest, name ≠ other := fun other hmem heq => hname (heq ▸ hmem)
  have hsweeps : rest.flatMap ((s.dir.without (s.dir.swept now name)).swept now) =
      rest.flatMap (s.dir.swept now) :=
    List.flatMap_congr fun other hmem => (Dir.swept_without (hother other hmem)).1
  have hkeeps : rest.filterMap ((s.dir.without (s.dir.swept now name)).kept now) =
      rest.filterMap (s.dir.kept now) :=
    List.filterMap_congr fun other hmem => (Dir.swept_without (hother other hmem)).2
  obtain ⟨hdisk, hkeys, hfound, hsum⟩ := h
  dsimp only [Disk.on_dir] at hdisk hkeys hfound hsum
  rw [hsweeps, Disk.on_on, ← Dir.without_append] at hdisk
  rw [hkeeps] at hkeys hfound hsum
  refine ⟨hdisk, ?_, ?_, ?_⟩
  · rw [List.filterMap_cons_none hkept, hkeys, hvalid]
  · rw [List.filterMap_cons_none hkept, hfound, hentries]
  · rw [List.filterMap_cons_none hkept, hsum, htotal]

/-- The first scan after a name whose entry it keeps. -/
theorem Scanned.of_kept {now : ℕ} {name : Str} {rest : List Str} {use : Usage Str}
    {scan scan' r : CleanupScan} {s' : Disk} (hswept : s.dir.swept now name = [])
    (hkept : s.dir.kept now name = some use) (h : Scanned now rest s scan' r s')
    (hvalid : scan'.validKeys = scan.validKeys ++ [use.2.1])
    (hentries : scan'.entries = scan.entries ++ [use])
    (htotal : scan'.total = saturatingAdd scan.total use.2.2) :
    Scanned now (name :: rest) s scan r s' := by
  obtain ⟨hdisk, hkeys, hfound, hsum⟩ := h
  refine ⟨?_, ?_, ?_, ?_⟩
  · rw [List.flatMap_cons, hswept]
    exact hdisk
  · rw [List.filterMap_cons_some hkept, hkeys, hvalid, List.append_assoc]
    rfl
  · rw [List.filterMap_cons_some hkept, hfound, hentries, List.append_assoc]
    rfl
  · rw [List.filterMap_cons_some hkept, hsum, htotal]
    rfl

/-- **The first scan** sweeps at every name and collects what it keeps. -/
theorem cleanupScan_ends (now : ℕ) {names : List Str} (hnodup : names.Nodup)
    (scan : CleanupScan) :
    Ends P (fun r s' => Scanned now names s scan r s')
      (cleanupScan now (names.map .ok) scan) s := by
  induction names generalizing s scan with
  | nil => exact .ret ⟨rfl, (List.append_nil _).symm, (List.append_nil _).symm, rfl⟩
  | cons name rest ih =>
      obtain ⟨hname, hrest⟩ := List.nodup_cons.mp hnodup
      have hread : (s.dir.lookup name).bind FileData.fromSlice = s.dir.decoded name := rfl
      rw [List.map_cons]
      unfold cleanupScan
      cases s.dir.atName now name with
      | temporary htemp hswept hkept =>
          rw [if_pos htemp]
          refine .bind (removeCacheFile_ends name _) ?_
          rintro summary _ rfl
          exact (ih hrest _).mono fun r s' h => .of_swept hname hswept hkept h rfl rfl rfl
      | other htemp hext hswept hkept =>
          rw [if_neg htemp, if_pos hext]
          exact (ih hrest _).mono fun r s' h => .of_swept hname hswept hkept h rfl rfl rfl
      | corrupt htemp hext hentry hswept hkept =>
          rw [if_neg htemp, if_neg (not_not.mpr hext)]
          simp only [Io.metadata_bind, Io.read_bind]
          refine .metadata (.read ?_)
          rw [toOption_found, toOption_found, hread, hentry]
          refine .bind (removeCacheFile_ends name _) ?_
          rintro summary _ rfl
          exact (ih hrest _).mono fun r s' h => .of_swept hname hswept hkept h rfl rfl rfl
      | stale htemp hext entry hentry hstale hswept hkept =>
          have hdrop : ∀ summary, Ends P (fun r s' => Scanned now (name :: rest) s scan r s') (do
              let summary ← removeCacheFile name summary
              let summary ← removeCacheFile (bodyPath (fileStem name)) summary
              cleanupScan now (rest.map .ok) { scan with summary := summary }) s := by
            intro summary
            refine .bind (removeCacheFile_ends name _) ?_
            rintro summary' _ rfl
            refine .bind (removeCacheFile_ends _ _) ?_
            rintro summary'' _ rfl
            exact (ih hrest _).mono fun r s' h => .of_swept hname hswept hkept h rfl rfl rfl
          rw [if_neg htemp, if_neg (not_not.mpr hext)]
          simp only [Io.metadata_bind, Io.read_bind]
          refine .metadata (.read ?_)
          rw [toOption_found, toOption_found, hread, hentry]
          refine .metadata ?_
          rw [toOption_found]
          -- The length of the body or the entry itself is to blame.
          split
          · exact hdrop _
          · next hlen =>
            rw [not_not] at hlen
            split
            · exact hdrop _
            · next hcurrent => exact absurd ⟨hlen, hcurrent⟩ hstale
      | fresh htemp hext entry hentry hfresh hswept hkept =>
          have hsize : s.dir.fileLen (bodyPath (fileStem name)) = entry.bodyLen := by
            unfold Dir.fileLen
            rw [hfresh.1]
            rfl
          have huse : s.dir.use name entry = (entry.lastAccess, fileStem name,
              saturatingAdd (s.dir.fileLen name) entry.bodyLen) := by
            unfold Dir.use
            rw [hsize]
          rw [huse] at hkept
          rw [if_neg htemp, if_neg (not_not.mpr hext)]
          simp only [Io.metadata_bind, Io.read_bind]
          refine .metadata (.read ?_)
          rw [toOption_found, toOption_found, hread, hentry]
          refine .metadata ?_
          rw [toOption_found, if_neg (not_not.mpr hfresh.1), if_neg hfresh.2]
          exact (ih hrest _).mono fun r s' h => .of_kept hswept hkept h rfl rfl rfl

/-! ### The rest of the cleanup -/

/-- The second scan removes the bodies that belong to no entry. -/
theorem cleanupOrphans_ends (validKeys : List Str) (names : List Str)
    (summary : CacheCleanupSummary) :
    Ends P
      (fun _ s' => s' = s.on (s.dir.without (names.filter fun name => IsOrphan validKeys name)))
      (cleanupOrphans validKeys (names.map .ok) summary) s := by
  induction names generalizing s summary with
  | nil => exact .ret rfl
  | cons name rest ih =>
      rw [List.map_cons]
      unfold cleanupOrphans
      have hskip : ¬IsOrphan validKeys name → Ends P
          (fun _ s' => s' = s.on (s.dir.without
            ((name :: rest).filter fun name => IsOrphan validKeys name)))
          (cleanupOrphans validKeys (rest.map .ok) summary) s := by
        intro hnot
        rw [List.filter_cons_of_neg (by simpa using hnot)]
        exact ih summary
      split
      · next hext => exact hskip fun h => hext h.1
      · next hext =>
        rw [not_not] at hext
        split
        · next hvalid => exact hskip fun h => h.2 (List.contains_iff_mem.mp hvalid)
        · next hvalid =>
          have horphan : IsOrphan validKeys name :=
            ⟨hext, fun hmem => hvalid (List.contains_iff_mem.mpr hmem)⟩
          refine .bind (removeCacheFile_ends name _) ?_
          rintro summary' _ rfl
          rw [List.filter_cons_of_pos (by simpa using horphan)]
          exact (ih summary').mono fun _ s' hs' => hs'

/-- The last loop removes the files of the victims. -/
theorem cleanupEvict_ends (maxSize : ℕ) (entries : List (Usage Str)) (total : ℕ)
    (summary : CacheCleanupSummary) :
    Ends P (fun _ s' => s' = s.on (s.dir.without (files (victims maxSize entries total))))
      (cleanupEvict maxSize entries total summary) s := by
  induction entries generalizing total s summary with
  | nil => exact .ret rfl
  | cons e rest ih =>
      obtain ⟨access, key, size⟩ := e
      unfold cleanupEvict victims
      split
      · exact .ret rfl
      · refine .bind (removeCacheFile_ends _ _) ?_
        rintro summary' _ rfl
        refine .bind (removeCacheFile_ends _ _) ?_
        rintro summary'' _ rfl
        exact (ih (total - size) summary'').mono fun _ s' hs' => hs'

/-- What `cleanup_startup` does to a directory at a time in seconds, for the orders in which
its two scans list the files. -/
def Cleaned (maxSize now : ℕ) (d d' : Dir) : Prop :=
  ∃ names names' : List Str, names.Perm d.keys ∧
    names'.Perm (d.without (names.flatMap (d.swept now))).keys ∧
    d' = ((d.without (names.flatMap (d.swept now))).without
      (names'.filter fun name => IsOrphan (keys (names.filterMap (d.kept now))) name)).without
        (files (Dir.evicted maxSize (names.filterMap (d.kept now))))

/-! ### What the scans leave -/

namespace Dir

variable {d d' : Dir} {now : ℕ} {name path : Str} {names names' : List Str}

theorem kept_eq_some_iff {e : Usage Str} :
    d.kept now name = some e ↔ isCacheTempFile name = false ∧
      extension name = some "json".toList ∧
        ∃ entry, d.decoded name = some entry ∧ d.Fresh now name entry ∧ e = d.use name entry := by
  cases d.atName now name with
  | temporary htemp _ hkept => simp [htemp, hkept]
  | other _ hext _ hkept =>
      rw [hkept]
      exact iff_of_false (by simp) fun h => hext h.2.1
  | corrupt _ _ hentry _ hkept => simp [hentry, hkept]
  | stale _ _ entry hentry hstale _ hkept => simp [hentry, hstale, hkept]
  | fresh htemp hext entry hentry hfresh _ hkept =>
      simp [htemp, hext, hentry, hfresh, hkept, eq_comm]

/-- What the cleanup keeps it does not sweep. -/
theorem swept_of_kept (h : (d.kept now name).isSome) : d.swept now name = [] := by
  cases d.atName now name with
  | temporary _ _ hkept => simp [hkept] at h
  | other _ _ hswept _ => exact hswept
  | corrupt _ _ _ _ hkept => simp [hkept] at h
  | stale _ _ _ _ _ _ hkept => simp [hkept] at h
  | fresh _ _ _ _ _ hswept _ => exact hswept

/-- What the cleanup has not swept it has kept. -/
theorem kept_of_not_swept {now : ℕ} (hext : extension name = some "json".toList)
    (h : name ∉ d.swept now name) :
    ∃ entry, d.decoded name = some entry ∧ (d.kept now name).isSome := by
  cases d.atName now name with
  | temporary _ hswept _ => simp [hswept] at h
  | other _ hother _ _ => exact absurd hext hother
  | corrupt _ _ _ hswept _ => simp [hswept] at h
  | stale _ _ _ _ _ hswept _ => simp [hswept] at h
  | fresh _ _ entry hentry _ _ hkept => exact ⟨entry, hentry, by simp [hkept]⟩

/-- A file that both scans leave: it is not temporary, and if it is of the kind of the files
of the cache it is one of an entry that is kept. -/
def Survives (d : Dir) (now : ℕ) (path : Str) : Prop :=
  isCacheTempFile path = false ∧
    (extension path = some "json".toList ∨ extension path = some "body".toList →
      (d.kept now (metaPath (fileStem path))).isSome)

instance (d : Dir) (now : ℕ) (path : Str) : Decidable (d.Survives now path) := by
  unfold Survives
  infer_instance

/-- The directory after both scans. -/
def scanned (d : Dir) (now : ℕ) (names names' : List Str) : Dir :=
  (d.without (names.flatMap (d.swept now))).without
    (names'.filter fun name => IsOrphan (keys (names.filterMap (d.kept now))) name)

theorem scanned_sub (path : Str) (data : FileData)
    (h : (d.scanned now names names').lookup path = some data) : d.lookup path = some data :=
  without_sub d _ _ _ (without_sub _ _ _ _ h)

/-- The keys of the entries that are kept. -/
theorem mem_keys_kept (hnames : names.Perm d.keys) {key : Str} (hkey : key ≠ []) :
    key ∈ keys (names.filterMap (d.kept now)) ↔ (d.kept now (metaPath key)).isSome := by
  constructor
  · intro hmem
    obtain ⟨e, he, rfl⟩ := List.mem_map.mp hmem
    obtain ⟨name, -, hkept⟩ := List.mem_filterMap.mp he
    obtain ⟨-, hext, entry, -, -, rfl⟩ := kept_eq_some_iff.mp hkept
    show (d.kept now (metaPath (fileStem name))).isSome
    rw [metaPath_fileStem hext, hkept]
    rfl
  · intro hsome
    obtain ⟨e, hkept⟩ := Option.isSome_iff_exists.mp hsome
    obtain ⟨-, hext, entry, hentry, -, rfl⟩ := kept_eq_some_iff.mp hkept
    obtain ⟨data, hdata, -⟩ := Option.bind_eq_some_iff.mp hentry
    have hname : metaPath key ∈ names :=
      hnames.symm.subset (d.mem_keys_iff_lookup.mpr ⟨data, hdata⟩)
    exact List.mem_map.mpr ⟨_, List.mem_filterMap.mpr ⟨_, hname, hkept⟩, fileStem_metaPath hkey⟩

/-- No scan removes a file that survives. -/
theorem lookup_scanned_of_survives (hnames : names.Perm d.keys) (h : d.Survives now path) :
    (d.scanned now names names').lookup path = d.lookup path := by
  obtain ⟨htemp, hkept⟩ := h
  unfold scanned
  rw [lookup_without_of_notMem, lookup_without_of_notMem]
  · intro hmem
    obtain ⟨other, -, hswept⟩ := List.mem_flatMap.mp hmem
    have hnil : d.swept now other = [] := by
      rcases mem_swept hswept with ⟨rfl, htemp' | hext⟩ | ⟨rfl, hext⟩
      · rw [htemp] at htemp'
        cases htemp'
      · have hsome := hkept (.inl hext)
        rw [metaPath_fileStem hext] at hsome
        exact swept_of_kept hsome
      · have hstem := (eq_of_extension hext).1
        have hsome := hkept (.inr (extension_bodyPath hstem))
        rw [fileStem_bodyPath hstem, metaPath_fileStem hext] at hsome
        exact swept_of_kept hsome
    rw [hnil] at hswept
    cases hswept
  · intro hmem
    obtain ⟨-, horphan⟩ := List.mem_filter.mp hmem
    obtain ⟨hext, hstem⟩ := of_decide_eq_true horphan
    exact hstem ((mem_keys_kept hnames (eq_of_extension hext).1).mpr (hkept (.inr hext)))

/-- **What both scans leave**, exactly. -/
theorem lookup_scanned (path : Str) (hnames : names.Perm d.keys)
    (hnames' : names'.Perm (d.without (names.flatMap (d.swept now))).keys) :
    (d.scanned now names names').lookup path =
      if d.Survives now path then d.lookup path else none := by
  by_cases hsurvives : d.Survives now path
  · rw [if_pos hsurvives, lookup_scanned_of_survives hnames hsurvives]
  · rw [if_neg hsurvives]
    by_contra hleft
    obtain ⟨data, hdata⟩ := Option.ne_none_iff_exists'.mp hleft
    have hfirst : (d.without (names.flatMap (d.swept now))).lookup path = some data :=
      without_sub _ _ _ _ hdata
    have hname : path ∈ names := hnames.symm.subset
      (d.mem_keys_iff_lookup.mpr ⟨data, without_sub _ _ _ _ hfirst⟩)
    -- It was not swept at its own name, so it is not temporary and not a metadata file.
    have hswept : path ∉ d.swept now path := by
      intro hmem
      rw [lookup_without, if_pos (List.mem_flatMap.mpr ⟨path, hname, hmem⟩)] at hfirst
      cases hfirst
    refine hsurvives ⟨?_, ?_⟩
    · by_contra htemp
      have hsweep : d.swept now path = [path] := if_pos (Bool.not_eq_false _ |>.mp htemp)
      exact hswept (hsweep ▸ List.mem_singleton_self path)
    · rintro (hext | hext)
      · obtain ⟨-, -, hkept⟩ := kept_of_not_swept hext hswept
        rwa [metaPath_fileStem hext]
      · rw [← mem_keys_kept hnames (eq_of_extension hext).1]
        by_contra hstem
        -- Nor is it an orphan.
        have horphan : path ∈ names'.filter
            fun name => IsOrphan (keys (names.filterMap (d.kept now))) name :=
          List.mem_filter.mpr
            ⟨hnames'.symm.subset ((d.without _).mem_keys_iff_lookup.mpr ⟨data, hfirst⟩),
              decide_eq_true ⟨hext, hstem⟩⟩
        unfold scanned at hdata
        rw [lookup_without, if_pos horphan] at hdata
        cases hdata

/-- Both files of an entry that is kept survive. -/
theorem survives_of_kept {key : Str} (hkey : key ≠ []) (h : (d.kept now (metaPath key)).isSome) :
    d.Survives now (metaPath key) ∧ d.Survives now (bodyPath key) := by
  obtain ⟨e, he⟩ := Option.isSome_iff_exists.mp h
  obtain ⟨htemp, -⟩ := kept_eq_some_iff.mp he
  refine ⟨⟨htemp, fun _ => ?_⟩, ?_, fun _ => ?_⟩
  · rwa [fileStem_metaPath hkey]
  · rwa [isCacheTempFile_bodyPath, ← isCacheTempFile_metaPath]
  · rwa [fileStem_bodyPath hkey]

end Dir

/-- **The specification of `cleanup_startup`.** -/
theorem cleanupStartup_ends (cache : Cache) :
    Ends P (fun _ s' => s'.clock = s.tick.clock ∧
        Cleaned cache.maxSize (s.clock 0 / 10 ^ 9) s.dir s'.dir)
      (cleanupStartup cache) s := by
  unfold cleanupStartup
  simp only [Io.nowSeconds_bind, Io.readDir_bind]
  refine .systemTime (.readDir fun names hnames => ?_)
  have hnodup : names.Nodup := hnames.nodup_iff.mpr (AList.keys_nodup _)
  refine .bind (cleanupScan_ends _ hnodup _) ?_
  rintro scan _ ⟨rfl, hkeys, hentries, htotal⟩
  rw [List.nil_append] at hkeys hentries
  refine .readDir fun names' hnames' => ?_
  refine .bind (cleanupOrphans_ends _ names' _) ?_
  rintro summary _ rfl
  refine (cleanupEvict_ends _ _ _ _).mono ?_
  rintro summary' _ rfl
  refine ⟨rfl, names, names', hnames, hnames', ?_⟩
  rw [hkeys, hentries, htotal]
  rfl

end Corsget
