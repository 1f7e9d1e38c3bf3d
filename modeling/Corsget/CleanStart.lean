import Corsget.EvictionOrder

/-!
# What a restart leaves

What `cleanup_startup` leaves of a directory, said without the program: no temporary files,
of the files of the cache those of usable entries, all other files, and of the usable
entries the ones used last, as many as fit (`LeavesUsable`).

Names come first: a file whose name contains `.tmp-` is temporary, whatever is in it, so an
entry is kept only under a key without that.  A second cleanup at the same time finds
nothing to do (`Cleaned.idempotent`).
-/

namespace Corsget

open Text Effect Lru

/-! ## What a cleanup is for -/

namespace Dir

/-- **A usable entry**: its metadata can be read, is of the current version and not to be
revalidated, it is younger than its lifetime, and its body has the length it records. -/
def Usable (d : Dir) (now : ℕ) (key : Str) : Prop :=
  key ≠ [] ∧ ∃ entry body, d.decoded (metaPath key) = some entry ∧
    entry.version = cacheVersion ∧ entry.revalidate = false ∧
      now - entry.createdAt < entry.ttl ∧
        d.lookup (bodyPath key) = some body ∧ body.len = entry.bodyLen

end Dir

/-- **Usable entries go in the order of last access**, as few as it takes.  `C` says which
entries are considered. -/
structure LeastGo (C : Str → Prop) (maxSize now : ℕ) (d : Dir) (gone : List Str) (d' : Dir) :
    Prop where
  usable : ∀ key ∈ gone, C key ∧ d.Usable now key
  kept : ∀ key, C key → d.Usable now key → key ∉ gone → d'.view key = d.view key
  removed : ∀ key ∈ gone, d'.view key = ⟨none, none⟩
  sorted : gone.Pairwise fun key other => d.lastAccess key ≤ d.lastAccess other
  order : ∀ key ∈ gone, ∀ other, C other → d.Usable now other → other ∉ gone →
    d.lastAccess key ≤ d.lastAccess other
  least : ∀ front last, gone = front ++ [last] →
    maxSize < d'.committedSize + d.entrySize (metaPath last)

/-- **What a cleanup leaves** of a directory. -/
structure LeavesUsable (C : Str → Prop) (maxSize now : ℕ) (d d' : Dir) : Prop where
  sub : ∀ path data, d'.lookup path = some data → d.lookup path = some data
  temporary : ∀ path data, d'.lookup path = some data → ¬".tmp-".toList <:+: path
  pairs : ∀ path data, d'.lookup path = some data →
    extension path = some "json".toList ∨ extension path = some "body".toList →
      d'.Usable now (fileStem path)
  evicted : ∃ gone, LeastGo C maxSize now d gone d'
  limited : d'.committedSize ≤ maxSize
  others : ∀ path, ¬".tmp-".toList <:+: path → extension path ≠ some "json".toList →
    extension path ≠ some "body".toList → d'.lookup path = d.lookup path

/-- An entry whose files are not taken for temporary ones. -/
def Named (key : Str) : Prop := ¬".tmp-".toList <:+: metaPath key

namespace Dir

variable {d d' : Dir} {now : ℕ} {key : Str}

theorem isCacheTempFile_eq_false {name : Str} :
    isCacheTempFile name = false ↔ ¬".tmp-".toList <:+: name := by
  unfold isCacheTempFile
  exact decide_eq_false_iff_not

/-- What the first scan of the cleanup keeps are the usable entries, by their names. -/
theorem kept_isSome_iff : (d.kept now (metaPath key)).isSome ↔ Named key ∧ d.Usable now key := by
  unfold Named Usable
  rw [Option.isSome_iff_exists, ← isCacheTempFile_eq_false]
  constructor
  · rintro ⟨e, he⟩
    obtain ⟨htemp, hext, entry, hentry, ⟨hbody, hfresh⟩, -⟩ := kept_eq_some_iff.mp he
    have hkey : key ≠ [] := by
      rintro rfl
      exact absurd hext (by decide)
    rw [fileStem_metaPath hkey] at hbody
    obtain ⟨body, hdata, hlen⟩ := Option.map_eq_some_iff.mp hbody
    simp only [not_or, not_not, Bool.not_eq_true, not_le] at hfresh
    exact ⟨htemp, hkey, entry, body, hentry, hfresh.1, hfresh.2.1, hfresh.2.2, hdata, hlen⟩
  · rintro ⟨htemp, hkey, entry, body, hentry, hversion, hvalid, hyoung, hdata, hlen⟩
    refine ⟨_, kept_eq_some_iff.mpr ⟨htemp, extension_metaPath hkey, entry, hentry, ⟨?_, ?_⟩, rfl⟩⟩
    · rw [fileStem_metaPath hkey, hdata, Option.map_some, hlen]
    · simp only [not_or, not_not, Bool.not_eq_true, not_le]
      exact ⟨hversion, hvalid, hyoung⟩

/-- A usable entry is usable wherever its files are. -/
theorem usable_congr (h : d'.view key = d.view key) : d'.Usable now key ↔ d.Usable now key := by
  unfold Usable
  have hbody : d'.lookup (bodyPath key) = d.lookup (bodyPath key) := congrArg View.body h
  have hentry : d'.decoded (metaPath key) = d.decoded (metaPath key) := by
    unfold decoded
    rw [show d'.lookup (metaPath key) = d.lookup (metaPath key) from congrArg View.record h]
  rw [hbody, hentry]

/-- Both scans leave the files of a usable entry as they were. -/
theorem view_scanned {names names' : List Str} (hnames : names.Perm d.keys) (hname : Named key)
    (husable : d.Usable now key) : (d.scanned now names names').view key = d.view key := by
  obtain ⟨hmeta, hbody⟩ := survives_of_kept husable.1 (kept_isSome_iff.mpr ⟨hname, husable⟩)
  unfold view
  rw [lookup_scanned_of_survives hnames hmeta, lookup_scanned_of_survives hnames hbody]

/-- What they leave of the cache is usable. -/
theorem usable_of_scanned {names names' : List Str} {path : Str} {data : FileData}
    (hnames : names.Perm d.keys)
    (hnames' : names'.Perm (d.without (names.flatMap (d.swept now))).keys)
    (hdata : (d.scanned now names names').lookup path = some data)
    (hext : extension path = some "json".toList ∨ extension path = some "body".toList) :
    Named (fileStem path) ∧ d.Usable now (fileStem path) := by
  rw [lookup_scanned path hnames hnames'] at hdata
  split at hdata
  · next hsurvives => exact kept_isSome_iff.mp (hsurvives.2 hext)
  · cases hdata

end Dir

/-! ## The cleanup -/

section Cleaned

variable {d d' d'' : Dir} {maxSize now : ℕ}

/-- An eviction from what both scans leave takes usable entries. -/
theorem leastGo_of_evicts {names names' gone : List Str} (hnames : names.Perm d.keys)
    (hnames' : names'.Perm (d.without (names.flatMap (d.swept now))).keys)
    (h : Dir.Evicts maxSize (d.scanned now names names') gone d') :
    LeastGo Named maxSize now d gone d' := by
  have husable : ∀ key, (d.scanned now names names').HasEntry key →
      Named key ∧ d.Usable now key := by
    intro key hentry
    obtain ⟨data, hdata⟩ := hentry.exists_data
    have hscanned := Dir.usable_of_scanned hnames hnames' hdata
      (.inl (extension_metaPath hentry.1))
    rwa [fileStem_metaPath hentry.1] at hscanned
  have hview : ∀ key, Named key ∧ d.Usable now key →
      (d.scanned now names names').view key = d.view key :=
    fun key hkey => Dir.view_scanned hnames hkey.1 hkey.2
  have haccess : ∀ key, Named key ∧ d.Usable now key →
      (d.scanned now names names').lastAccess key = d.lastAccess key :=
    fun key hkey => (Dir.hasEntry_congr (hview key hkey)).2
  have hgone : ∀ key ∈ gone, Named key ∧ d.Usable now key :=
    fun key hkey => husable key (h.entries key hkey)
  refine ⟨hgone, ?_, h.removed, ?_, ?_, ?_⟩
  · intro key hname hkey hnot
    rw [h.kept key hnot, hview key ⟨hname, hkey⟩]
  · refine h.sorted.imp_of_mem fun {key other} hkey hother hle => ?_
    rwa [haccess key (hgone key hkey), haccess other (hgone other hother)] at hle
  · intro key hkey other hname hother hnot
    have hentry : (d.scanned now names names').HasEntry other := by
      rw [(Dir.hasEntry_congr (hview other ⟨hname, hother⟩)).1]
      obtain ⟨hne, entry, -, hdecoded, -⟩ := hother
      exact ⟨hne, Option.isSome_of_eq_some hdecoded⟩
    have hle := h.order key hkey other hnot hentry
    rwa [haccess key (hgone key hkey), haccess other ⟨hname, hother⟩] at hle
  · intro front last hlast
    have hlt := h.lt_of_last hlast
    have hsize : (d.scanned now names names').entrySize (metaPath last) ≤
        d.entrySize (metaPath last) :=
      Dir.entrySize_le_of_sub Dir.scanned_sub
    omega

/-- **A cleanup leaves the usable entries.** -/
theorem Cleaned.leavesUsable (h : Cleaned maxSize now d d') (hfits : d.committedSize < 2 ^ 64) :
    LeavesUsable Named maxSize now d d' := by
  obtain ⟨names, names', hnames, hnames', rfl⟩ := h
  obtain ⟨hcollects, hcomplete, -⟩ := Dir.scanned_collects hnames hnames'
  have hle := Dir.committedSize_le_of_sub (@Dir.scanned_sub d now names names')
  have hevicts := Dir.evicts_evicted hcollects (hnames.nodup_iff.mpr (AList.keys_nodup d))
    (by omega) hcomplete maxSize
  have hsub := Dir.without_sub (d.scanned now names names')
    (files (Dir.evicted maxSize (names.filterMap (d.kept now))))
  refine ⟨fun path data hdata => Dir.scanned_sub path data (hsub path data hdata), ?_, ?_,
    ⟨_, leastGo_of_evicts hnames hnames' hevicts⟩, hevicts.fits, ?_⟩
  · intro path data hdata
    have hleft := hsub path data hdata
    rw [Dir.lookup_scanned path hnames hnames'] at hleft
    split at hleft
    · next hsurvives => exact Dir.isCacheTempFile_eq_false.mp hsurvives.1
    · cases hleft
  · intro path data hdata hext
    have hleft := hsub path data hdata
    obtain ⟨hname, husable⟩ := Dir.usable_of_scanned hnames hnames' hleft hext
    -- The entry has not been evicted, so both of its files are there.
    have hpath : path = metaPath (fileStem path) ∨ path = bodyPath (fileStem path) :=
      hext.imp (fun hext => (metaPath_fileStem hext).symm) fun hext => (eq_of_extension hext).2.symm
    have hstays : fileStem path ∉ keys (Dir.evicted maxSize (names.filterMap (d.kept now))) := by
      intro hgone
      have hnone := (Dir.lookup_without (d.scanned now names names') _).trans
        (if_pos (mem_files.mpr ⟨_, hgone, hpath⟩))
      exact Option.some_ne_none _ (hdata.symm.trans hnone)
    have hview := (hevicts.kept _ hstays).trans (Dir.view_scanned hnames hname husable)
    exact (Dir.usable_congr hview).mpr husable
  · intro path hname hjson hbody
    have hpath : path ∉ files (Dir.evicted maxSize (names.filterMap (d.kept now))) := by
      intro hmem
      obtain ⟨key, hkey, hfile⟩ := mem_files.mp hmem
      have hne := (hevicts.entries key hkey).1
      rcases hfile with rfl | rfl
      · exact hjson (extension_metaPath hne)
      · exact hbody (extension_bodyPath hne)
    have hsurvives : d.Survives now path :=
      ⟨Dir.isCacheTempFile_eq_false.mpr hname, fun hor => absurd hor (not_or.mpr ⟨hjson, hbody⟩)⟩
    exact (Dir.lookup_without_of_notMem _ hpath).trans
      (Dir.lookup_scanned_of_survives hnames hsurvives)

/-- Whatever is left would be left again. -/
theorem LeavesUsable.survives (h : LeavesUsable Named maxSize now d d') {name : Str}
    (hname : name ∈ d'.keys) : d'.Survives now name := by
  obtain ⟨data, hdata⟩ := d'.mem_keys_iff_lookup.mp hname
  have htemp := h.temporary name data hdata
  refine ⟨Dir.isCacheTempFile_eq_false.mpr htemp, fun hext =>
    Dir.kept_isSome_iff.mpr ⟨?_, h.pairs name data hdata hext⟩⟩
  unfold Named
  rcases hext with hext | hext
  · rwa [metaPath_fileStem hext]
  · have hbody : bodyPath (fileStem name) = name := (eq_of_extension hext).2
    rwa [← Dir.isCacheTempFile_eq_false, isCacheTempFile_metaPath, ← isCacheTempFile_bodyPath,
      hbody, Dir.isCacheTempFile_eq_false]

/-- **A second cleanup at the same time finds nothing to do.** -/
theorem Cleaned.idempotent (h : Cleaned maxSize now d' d'')
    (hclean : LeavesUsable Named maxSize now d d') (hfits : d'.committedSize < 2 ^ 64) :
    d'' = d' := by
  obtain ⟨names, names', hnames, hnames', rfl⟩ := h
  -- Nothing is swept.
  have hswept : names.flatMap (d'.swept now) = [] := by
    refine List.flatMap_eq_nil_iff.mpr fun name hname => ?_
    obtain ⟨htemp, hfiles⟩ := hclean.survives (hnames.subset hname)
    by_cases hext : extension name = some "json".toList
    · have hsome := hfiles (.inl hext)
      rw [metaPath_fileStem hext] at hsome
      exact Dir.swept_of_kept hsome
    · unfold Dir.swept
      rw [htemp, if_neg Bool.false_ne_true, if_pos hext]
  rw [hswept] at hnames'
  -- No body is an orphan.
  have horphans : (names'.filter fun name =>
      IsOrphan (keys (names.filterMap (d'.kept now))) name) = [] := by
    refine List.filter_eq_nil_iff.mpr fun name hname horphan => ?_
    obtain ⟨hext, hstem⟩ := of_decide_eq_true horphan
    refine hstem ((Dir.mem_keys_kept hnames (eq_of_extension hext).1).mpr ?_)
    exact (hclean.survives (hnames'.subset hname)).2 (.inr hext)
  -- And nothing is evicted.
  have hevicted : keys (Dir.evicted maxSize (names.filterMap (d'.kept now))) = [] := by
    have hcomplete : d'.Complete (d'.kept now) names := by
      intro name hext hsome
      obtain ⟨data, hdata⟩ := Option.isSome_iff_exists.mp hsome
      have hname := d'.mem_keys_iff_lookup.mpr ⟨data, hdata⟩
      have hmetadata := (hclean.survives hname).2 (.inl hext)
      rw [metaPath_fileStem hext] at hmetadata
      exact ⟨hnames.symm.subset hname, hmetadata⟩
    exact (Dir.evicts_evicted (d'.kept_collects now) (hnames.nodup_iff.mpr (AList.keys_nodup d'))
      hfits hcomplete maxSize).nil_of_fits hclean.limited
  rw [hswept, horphans, List.map_eq_nil_iff.mp hevicted]
  rfl

/-- **Startup cleanup leaves exactly the usable entries**, and a second one changes nothing. -/
theorem cleanup_leaves_usable (cache : Cache) {s : Disk} (hfits : s.dir.committedSize < 2 ^ 64) :
    Ends (fun _ => True)
      (fun _ s' => LeavesUsable Named cache.maxSize (s.clock 0 / 10 ^ 9) s.dir s'.dir ∧
        ∀ t : Disk, t.dir = s'.dir → t.clock 0 / 10 ^ 9 = s.clock 0 / 10 ^ 9 →
          Ends (fun _ => True) (fun _ t' => t'.dir = s'.dir) (cleanupStartup cache) t)
      (cleanupStartup cache) s := by
  refine (cleanupStartup_ends cache).mono ?_
  rintro _ s' ⟨-, hcleaned⟩
  have hclean := hcleaned.leavesUsable hfits
  refine ⟨hclean, fun t hdir hclock => (cleanupStartup_ends cache).mono ?_⟩
  rintro _ t' ⟨-, hagain⟩
  rw [hdir, hclock] at hagain
  have hle := Dir.committedSize_le_of_sub hclean.sub
  exact hagain.idempotent hclean (by omega)

end Cleaned

/-- The theorem for two entries of which one does not fit. -/
theorem cleanup_leaves_usable_twoEntries :
    Ends (fun _ => True)
      (fun _ s' => LeavesUsable Named smallCache.maxSize (twoEntries.clock 0 / 10 ^ 9)
          twoEntries.dir s'.dir ∧
        ∀ t : Disk, t.dir = s'.dir → t.clock 0 / 10 ^ 9 = twoEntries.clock 0 / 10 ^ 9 →
          Ends (fun _ => True) (fun _ t' => t'.dir = s'.dir) (cleanupStartup smallCache) t)
      (cleanupStartup smallCache) twoEntries :=
  cleanup_leaves_usable smallCache (by decide +kernel)

/-! ## An entry with the name of a temporary file -/

/-- One entry, usable but for its name. -/
def misnamedEntry : Disk where
  dir := entriesDir [("a.tmp-b".toList, plainEntry 1700000005, utf8 "new".toList)]
  clock _ := 1700000010 * 10 ^ 9

/-- It is the only entry there is. -/
theorem misnamedEntry_usable :
    misnamedEntry.dir.Usable 1700000010 "a.tmp-b".toList :=
  ⟨by decide, plainEntry 1700000005, .raw (utf8 "new".toList), by decide +kernel, rfl, rfl,
    by decide, by decide +kernel, by decide⟩

/-- **It goes although there is room for it**, so not every usable entry is kept while it
fits. -/
theorem cleanup_takes_misnamed : ¬∀ (cache : Cache) (s : Disk), s.dir.committedSize < 2 ^ 64 →
    Ends (fun _ => True)
      (fun _ s' => LeavesUsable (fun _ => True) cache.maxSize (s.clock 0 / 10 ^ 9) s.dir s'.dir ∧
        ∀ t : Disk, t.dir = s'.dir → t.clock 0 / 10 ^ 9 = s.clock 0 / 10 ^ 9 →
          Ends (fun _ => True) (fun _ t' => t'.dir = s'.dir) (cleanupStartup cache) t)
      (cleanupStartup cache) s := by
  intro hall
  have hends := hall exampleCache misnamedEntry (by decide +kernel)
  have hcalm : ∀ o s, diskEnv (fun _ => True) o s (diskCalm o s).1 (diskCalm o s).2 :=
    fun o s => diskEnv_diskCalm o s trivial
  obtain ⟨-, hclean, -⟩ := hends.value (Steps.of_exec hcalm _ _)
  have hempty : (exec diskCalm (cleanupStartup exampleCache) misnamedEntry).2.dir = ∅ :=
    AList.ext (by decide +kernel)
  rw [hempty] at hclean
  obtain ⟨gone, hgone⟩ := hclean.evicted
  -- Something has gone, and with the last of it the limit would be exceeded.
  have hmem : "a.tmp-b".toList ∈ gone := by
    by_contra hnot
    have hview := hgone.kept _ trivial misnamedEntry_usable hnot
    exact absurd hview (by decide +kernel)
  rcases List.eq_nil_or_concat gone with rfl | ⟨front, last, rfl⟩
  · cases hmem
  · have hover := hgone.least front last List.concat_eq_append
    have hle : misnamedEntry.dir.entrySize (metaPath last) ≤ misnamedEntry.dir.committedSize :=
      Dir.entrySize_le_committedSize
    have hsize : misnamedEntry.dir.committedSize ≤ exampleCache.maxSize := by decide +kernel
    have hzero : (∅ : Dir).committedSize = 0 := by decide
    omega

end Corsget
