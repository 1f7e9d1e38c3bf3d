import Corsget.EvictionOrder

/-!
# A response that does not fit

An entry larger than the limit is committed first, and then evicted like any other: in the
order of last access, until the total fits.  Everything that was used no later goes before
it, although it goes in the end whatever else has gone.

So the commit leaves the cache as it was exactly when every stored entry was used after the
new one (`oversized_undisturbed_iff`).  A tie is not enough: the sort is stable, and a scan
may list the new entry last.
-/

namespace Corsget

open Text Effect Lru

/-! ## Sizes of what a scan has collected -/

namespace Dir

variable {d : Dir} {collect : Str → Option (Usage Str)} {names : List Str}

theorem sum_entrySize_le (hnames : names.Nodup) :
    (names.map d.entrySize).sum ≤ d.committedSize := by
  have hall : ∀ name, d.entrySize name ≠ 0 → name ∈ d.keys.toFinset ∪ names.toFinset := by
    intro name hne
    obtain ⟨-, hdata⟩ := exists_of_entrySize_ne_zero hne
    exact Finset.mem_union_left _ (List.mem_toFinset.mpr (d.mem_keys_iff_lookup.mpr hdata))
  rw [← List.sum_toFinset _ hnames, committedSize_eq_sum hall]
  exact Finset.sum_le_sum_of_subset Finset.subset_union_right

/-- A scan collects no more than there is. -/
theorem Collects.size_le (h : d.Collects collect) {entries : List (Usage Str)}
    (hentries : ∀ e ∈ entries, ∃ name, collect name = some e) :
    size entries ≤ (entries.map fun e => d.entrySize (metaPath e.2.1)).sum := by
  unfold size
  refine List.sum_le_sum fun e he => ?_
  obtain ⟨name, hname⟩ := hentries e he
  rw [h.metaPath_key hname]
  obtain ⟨hext, entry, hentry, rfl⟩ := h name e hname
  obtain ⟨data, hdata, -⟩ := Option.bind_eq_some_iff.mp hentry
  have hsize : d.entrySize name = d.fileLen name + d.fileLen (bodyPath (fileStem name)) :=
    if_pos ⟨hext, Option.isSome_of_eq_some hdata⟩
  rw [hsize]
  exact Nat.min_le_left _ _

/-- A scan of an eviction finds every entry. -/
theorem HasEntry.exists_usage {key : Str} (h : d.HasEntry key) :
    ∃ e, d.usage (metaPath key) = some e ∧ e.1 = d.lastAccess key := by
  obtain ⟨entry, hentry⟩ := Option.isSome_iff_exists.mp h.2
  refine ⟨d.use (metaPath key) entry, ?_, ?_⟩
  · unfold usage
    rw [if_pos (extension_metaPath h.1), hentry]
    rfl
  · unfold lastAccess
    rw [hentry]
    rfl

end Dir

/-! ## Runs where nothing fails -/

/-- A program can come to its end with a value, in a state. -/
abbrev ComesTo {α : Type} (p : Prog Io α) (s : Disk) (a : α) (s' : Disk) : Prop :=
  Steps (diskEnv fun _ => True) (p, s) (.ret a, s')

section ComesTo

variable {α β : Type} {s s' : Disk} {a : α} {names : List Str}

theorem ComesTo.bind {p : Prog Io β} {f : β → Prog Io α} {b : β} {s₁ : Disk}
    (h : ComesTo p s b s₁) (hrest : ComesTo (f b) s₁ a s') : ComesTo (p >>= f) s a s' :=
  (Steps.bind h f).trans hrest

theorem ComesTo.fs {o : FsOp} {k : Io.Res (.fs o) → Prog Io α} (ho : o ≠ .readDir)
    (h : ComesTo (k (s.dir.performOk o).1) (s.on (s.dir.performOk o).2) a s') :
    ComesTo (.op (.fs o) k) s a s' := by
  refine .op ?_ h
  cases o with
  | readDir => exact absurd rfl ho
  | _ => exact ⟨rfl, rfl, trivial⟩

theorem ComesTo.rename {source target : Str} {data : FileData}
    {k : Io.Res (.fs (.rename source target)) → Prog Io α} (hdata : s.dir.lookup source = some data)
    (h : ComesTo (k (.ok ())) (s.on ((s.dir.erase source).insert target data)) a s') :
    ComesTo (.op (.fs (.rename source target)) k) s a s' := by
  refine .fs nofun ?_
  rw [Dir.performOk_rename hdata]
  exact h

theorem ComesTo.tempCounter {k : Io.Res .tempCounter → Prog Io α} (n : ℕ)
    (h : ComesTo (k n) s a s') : ComesTo (.op .tempCounter k) s a s' :=
  .op (show diskEnv (fun _ => True) .tempCounter s n s from rfl) h

theorem ComesTo.readDir {k : Io.Res (.fs .readDir) → Prog Io α} (hnames : names.Perm s.dir.keys)
    (h : ComesTo (k (.ok (names.map .ok))) s a s') : ComesTo (.op (.fs .readDir) k) s a s' :=
  .op (show diskEnv (fun _ => True) (.fs .readDir) s (.ok (names.map .ok)) s from
    ⟨rfl, names, hnames, rfl⟩) h

/-- A program whose end is determined comes to it. -/
theorem Ends.comesTo {p : Prog Io α}
    (h : Ends (fun _ => True) (fun b t => b = a ∧ t = s') p s) : ComesTo p s a s' := by
  have hcalm : ∀ o s, diskEnv (fun _ => True) o s (diskCalm o s).1 (diskCalm o s).2 :=
    fun o s => diskEnv_diskCalm o s trivial
  have hsteps := Steps.of_exec hcalm p s
  obtain ⟨-, hvalue, hstate⟩ := h.value hsteps
  rwa [hvalue, hstate] at hsteps

/-- An eviction may list the files in any order. -/
theorem evict_comesTo (cache : Cache) (hnames : names.Perm s.dir.keys) :
    ComesTo (evict cache) s () (s.on (s.dir.afterEviction cache.maxSize names)) := by
  unfold evict
  simp only [Io.readDir_bind]
  refine .readDir hnames (Ends.comesTo (.bind (evictScan_ends names [] 0) ?_))
  rintro _ _ ⟨rfl, rfl⟩
  rw [List.nil_append]
  dsimp only
  split
  · next hfits =>
    refine .ret ⟨rfl, ?_⟩
    unfold Dir.afterEviction Dir.evicted
    rw [victims_of_fits hfits]
    rfl
  · exact (evictLoop_ends _ _ _).mono fun _ s' hs' => ⟨rfl, hs'⟩

end ComesTo

/-! ## The commit -/

section Commit

variable [Crates] {s : Disk} {w : CacheWriter} {data : FileData} {maxSize tempId : ℕ}
  {names : List Str}

/-- **The oversized entry is gone, and what was stored is stored.** -/
structure LeavesStored (d : Dir) (key : Str) (d' : Dir) : Prop where
  gone : d'.view key = ⟨none, none⟩
  kept : ∀ other, d.HasEntry other → d'.view other = d.view other

/-- A commit, under a new key, of an entry that alone is larger than the limit, to a cache
that is within it. -/
structure OversizedCommit (maxSize : ℕ) (s : Disk) (w : CacheWriter) (data : FileData) : Prop where
  keyed : w.Keyed
  temporary : s.dir.lookup w.tempBody = some data
  fresh : s.dir.lookup (metaPath w.entry.key) = none
  limited : s.dir.committedSize ≤ maxSize
  oversized : maxSize < (FileData.json w.final.persisted).len + data.len

/-- What is stored is stored under another key. -/
theorem OversizedCommit.ne_of_hasEntry (h : OversizedCommit maxSize s w data) {other : Str}
    (hentry : s.dir.HasEntry other) : other ≠ w.entry.key := by
  rintro rfl
  obtain ⟨found, hfound⟩ := hentry.exists_data
  rw [h.fresh] at hfound
  cases hfound

/-- The commit leaves the files of the other entries as they were. -/
theorem OversizedCommit.view_of_ne (h : OversizedCommit maxSize s w data) {other : Str}
    (hother : other ≠ w.entry.key) :
    (s.dir.committed w data tempId).view other = s.dir.view other := by
  obtain ⟨n, hname⟩ := h.keyed.name
  have htemp : IsTemporary w.tempBody n := hname ▸ tempBodyPath_isTemporary _ _
  exact Dir.view_committed_of_ne htemp hother

/-- What a scan collects about the new entry. -/
def CacheWriter.newUse (w : CacheWriter) (data : FileData) : Usage Str :=
  (w.entry.lastAccess, w.entry.key,
    saturatingAdd (FileData.json w.final.persisted).len data.len)

theorem usage_committed (hkey : w.entry.key ≠ []) :
    (s.dir.committed w data tempId).usage (metaPath w.entry.key) = some (w.newUse data) := by
  have hview := @Dir.view_committed _ s.dir w data tempId
  have hmeta : (s.dir.committed w data tempId).lookup (metaPath w.entry.key) =
      some (.json w.final.persisted) := congrArg View.record hview
  have hbody : (s.dir.committed w data tempId).lookup (bodyPath w.entry.key) = some data :=
    congrArg View.body hview
  have hdecoded : (s.dir.committed w data tempId).decoded (metaPath w.entry.key) =
      some w.final.persisted.persisted := by
    rw [Dir.decoded_metaPath, hview]
    rfl
  unfold Dir.usage Dir.use
  rw [if_pos (extension_metaPath hkey), hdecoded, Option.map_some, fileStem_metaPath hkey,
    Dir.fileLen_of_lookup hmeta, Dir.fileLen_of_lookup hbody]
  unfold CacheWriter.newUse
  have haccess : w.final.persisted.persisted.lastAccess = w.entry.lastAccess := rfl
  rw [haccess]

/-- What the scan after the commit collects: the new entry, and others that were stored
before. -/
theorem found_committed (h : OversizedCommit maxSize s w data)
    (hnames : names.Perm (s.dir.committed w data tempId).keys) :
    ∃ rest, (names.filterMap (s.dir.committed w data tempId).usage).Perm
        (w.newUse data :: rest) ∧ size rest ≤ s.dir.committedSize ∧
      ∀ e ∈ rest, e.2.1 ≠ w.entry.key ∧ s.dir.HasEntry e.2.1 ∧
        e.1 = s.dir.lastAccess e.2.1 := by
  set d := s.dir.committed w data tempId with hd
  have hcollects : d.Collects d.usage := d.usage_collects
  have husage : d.usage (metaPath w.entry.key) = some (w.newUse data) :=
    usage_committed h.keyed.key.nonempty
  have hmem : w.newUse data ∈ names.filterMap d.usage := by
    have hlookup : d.lookup (metaPath w.entry.key) = some (.json w.final.persisted) :=
      congrArg View.record Dir.view_committed
    have hin : metaPath w.entry.key ∈ names :=
      hnames.symm.subset (d.mem_keys_iff_lookup.mpr ⟨_, hlookup⟩)
    exact List.mem_filterMap.mpr ⟨_, hin, husage⟩
  have hperm := List.perm_cons_erase hmem
  have hdistinct :=
    hcollects.nodup (hnames.nodup_iff.mpr (AList.keys_nodup d)) hperm.symm
  rw [List.map_cons, List.nodup_cons] at hdistinct
  obtain ⟨hnew, hrest⟩ := hdistinct
  have hother : ∀ e ∈ (names.filterMap d.usage).erase (w.newUse data),
      e.2.1 ≠ w.entry.key := by
    intro e he hkey
    exact hnew (List.mem_map.mpr ⟨e, he, congrArg metaPath hkey⟩)
  have hview : ∀ e ∈ (names.filterMap d.usage).erase (w.newUse data),
      d.view e.2.1 = s.dir.view e.2.1 :=
    fun e he => h.view_of_ne (hother e he)
  refine ⟨_, hperm, ?_, fun e he => ⟨hother e he, ?_⟩⟩
  · have hcollected : ∀ e ∈ (names.filterMap d.usage).erase (w.newUse data),
        ∃ name, d.usage name = some e :=
      fun e he => Dir.exists_collected (List.mem_of_mem_erase he)
    refine (hcollects.size_le hcollected).trans ?_
    have hsame : ((names.filterMap d.usage).erase (w.newUse data)).map
        (fun e => d.entrySize (metaPath e.2.1)) =
        (((names.filterMap d.usage).erase (w.newUse data)).map
          fun e => metaPath e.2.1).map s.dir.entrySize := by
      rw [List.map_map]
      refine List.map_congr_left fun e he => Dir.entrySize_of_view fun hext => ?_
      rw [metaPath_injective (metaPath_fileStem hext)]
      exact hview e he
    rw [hsame]
    exact Dir.sum_entrySize_le hrest
  · obtain ⟨hentry, haccess⟩ := hcollects.use (List.mem_of_mem_erase he)
    obtain ⟨hiff, heq⟩ := Dir.hasEntry_congr (hview e he)
    exact ⟨hiff.mp hentry, haccess.trans heq⟩

/-! ## The order in which entries go -/

/-- The total of the scan is more than the limit, unless the limit is the largest number. -/
theorem tally_oversized {found rest : List (Usage Str)} (h : OversizedCommit maxSize s w data)
    (hperm : found.Perm (w.newUse data :: rest)) (hmax : maxSize < 2 ^ 64 - 1) :
    maxSize < tally found 0 := by
  have hover := h.oversized
  have hnew : (w.newUse data).2.2 =
      min ((FileData.json w.final.persisted).len + data.len) (2 ^ 64 - 1) := rfl
  rw [tally_eq found (by omega), size_perm hperm, size_cons]
  omega

/-- When every stored entry was used later, the new one goes first, and it goes alone. -/
theorem evicted_of_later (h : OversizedCommit maxSize s w data) (hmax : maxSize < 2 ^ 64 - 1)
    (hnames : names.Perm (s.dir.committed w data tempId).keys)
    (hlater : ∀ other, s.dir.HasEntry other → w.entry.lastAccess < s.dir.lastAccess other) :
    Dir.evicted maxSize (names.filterMap (s.dir.committed w data tempId).usage) =
      [w.newUse data] := by
  obtain ⟨rest, hperm, hsize, hrest⟩ := found_committed h hnames
  generalize names.filterMap (s.dir.committed w data tempId).usage = found at hperm ⊢
  have hsortedPerm : (sortByLastAccess found).Perm (w.newUse data :: rest) :=
    (List.perm_insertionSort _ _).trans hperm
  have hsorted : (sortByLastAccess found).Pairwise fun a b : Usage Str => a.1 ≤ b.1 :=
    List.pairwise_insertionSort _ _
  have htally := tally_oversized h hperm hmax
  have htotal : tally found 0 ≤ (w.newUse data).2.2 + size rest := by
    rw [tally_eq found (by omega), size_perm hperm, size_cons]
    omega
  unfold Dir.evicted
  generalize sortByLastAccess found = sorted at hsortedPerm hsorted
  cases sorted with
  | nil => exact absurd hsortedPerm.length_eq (by simp)
  | cons first others =>
      -- A stored entry cannot come before the new one.
      obtain rfl : first = w.newUse data := by
        rcases List.mem_cons.mp (hsortedPerm.subset List.mem_cons_self) with hnew | hstored
        · exact hnew
        · obtain ⟨-, hentry, haccess⟩ := hrest first hstored
          have hless := hlater first.2.1 hentry
          rw [← haccess] at hless
          rcases List.mem_cons.mp (hsortedPerm.symm.subset List.mem_cons_self) with hnew | hmem
          · exact hnew.symm
          · have hle : first.1 ≤ w.entry.lastAccess := (List.pairwise_cons.mp hsorted).1 _ hmem
            omega
      have hothers : size others = size rest := size_perm hsortedPerm.cons_inv
      have hlimited := h.limited
      unfold victims
      rw [if_neg (by omega), victims_of_fits (by omega)]

/-- When some stored entry was used no later and is listed before the new one, a stored entry
goes first. -/
theorem evicted_of_earlier {rest : List (Usage Str)} (h : OversizedCommit maxSize s w data)
    (hmax : maxSize < 2 ^ 64 - 1) (hrest : ∀ e ∈ rest, e.2.1 ≠ w.entry.key)
    {e : Usage Str} (he : e ∈ rest) (hle : e.1 ≤ w.entry.lastAccess) :
    ∃ first ∈ rest, first ∈ Dir.evicted maxSize (rest ++ [w.newUse data]) := by
  have hperm : (rest ++ [w.newUse data]).Perm (w.newUse data :: rest) :=
    List.perm_append_comm
  have htally := tally_oversized h hperm hmax
  have hsortedPerm : (sortByLastAccess (rest ++ [w.newUse data])).Perm (w.newUse data :: rest) :=
    (List.perm_insertionSort _ _).trans hperm
  -- The sort is stable.
  have hbefore : [e, w.newUse data].Sublist (sortByLastAccess (rest ++ [w.newUse data])) :=
    List.pair_sublist_insertionSort hle
      ((List.singleton_sublist.mpr he).append (.refl [w.newUse data]))
  have hnew : w.newUse data ∉ rest := fun hmem => hrest _ hmem rfl
  unfold Dir.evicted
  generalize sortByLastAccess (rest ++ [w.newUse data]) = sorted at hsortedPerm hbefore
  cases sorted with
  | nil => exact absurd hsortedPerm.length_eq (by simp)
  | cons first others =>
      refine ⟨first, ?_, ?_⟩
      · rcases List.mem_cons.mp (hsortedPerm.subset List.mem_cons_self) with rfl | hstored
        · -- The new entry would be in the list twice.
          have hsecond : w.newUse data ∈ others := by
            rcases List.sublist_cons_iff.mp hbefore with hsub | ⟨tail, hsplit, hsub⟩
            · exact hsub.subset (List.mem_cons_of_mem _ List.mem_cons_self)
            · obtain ⟨-, rfl⟩ := List.cons.inj hsplit
              exact hsub.subset List.mem_cons_self
          exact absurd (hsortedPerm.cons_inv.subset hsecond) hnew
        · exact hstored
      · unfold victims
        rw [if_neg (by omega)]
        exact List.mem_cons_self

/-- A commit may come to its end with the files listed in any order, whatever number the
temporary file of the metadata gets. -/
theorem finish_comesTo (cache : Cache) (hdata : s.dir.lookup w.tempBody = some data)
    (hnames : names.Perm (s.dir.committed w data tempId).keys) :
    ComesTo (w.finish cache) s (.ok ())
      (s.on ((s.dir.committed w data tempId).afterEviction cache.maxSize names)) := by
  have hmetadata : ComesTo (writeMetadata { w.final with bodyPath := bodyPath w.entry.key })
      (s.on ((s.dir.erase w.tempBody).insert (bodyPath w.entry.key) data)) (.ok ())
      (s.on (s.dir.committed w data tempId)) := by
    unfold writeMetadata
    simp only [Io.fetchAdd_bind, Io.write_bind]
    exact .tempCounter tempId (.fs nofun (.rename (AList.lookup_insert _) .refl))
  unfold CacheWriter.finish commit
  simp only [Io.flush_bind, Io.rename_bind]
  refine .fs nofun (.rename hdata (.bind hmetadata ?_))
  exact .bind (evict_comesTo cache hnames) .refl

/-! ## The result -/

/-- When the new entry goes alone, everything else is as it was. -/
theorem leavesStored_of_later (h : OversizedCommit maxSize s w data) (hmax : maxSize < 2 ^ 64 - 1)
    (hnames : names.Perm (s.dir.committed w data tempId).keys)
    (hlater : ∀ other, s.dir.HasEntry other → w.entry.lastAccess < s.dir.lastAccess other) :
    LeavesStored s.dir w.entry.key
      ((s.dir.committed w data tempId).afterEviction maxSize names) := by
  unfold Dir.afterEviction
  rw [evicted_of_later h hmax hnames hlater]
  refine ⟨Dir.view_without_of_mem (List.mem_singleton_self w.entry.key), fun other hentry => ?_⟩
  have hother := h.ne_of_hasEntry hentry
  have hview : (s.dir.committed w data tempId).view other = s.dir.view other :=
    h.view_of_ne hother
  rw [← hview]
  exact Dir.view_without_of_notMem fun hmem => hother (List.mem_singleton.mp hmem)

/-- With the largest number as the limit, nothing goes. -/
theorem maxSize_lt_of_leavesStored
    (hall : ∀ tempId names, names.Perm (s.dir.committed w data tempId).keys →
      LeavesStored s.dir w.entry.key
        ((s.dir.committed w data tempId).afterEviction maxSize names)) :
    maxSize < 2 ^ 64 - 1 := by
  by_contra hmax
  have hgone := congrArg View.record (hall 0 _ (.refl _)).gone
  have hfits : ∀ found : List (Usage Str), tally found 0 ≤ maxSize := by
    intro found
    rw [tally_eq found (by omega)]
    omega
  unfold Dir.afterEviction Dir.evicted at hgone
  rw [victims_of_fits (hfits _)] at hgone
  have hstays : (s.dir.committed w data 0).lookup (metaPath w.entry.key) =
      some (.json w.final.persisted) := congrArg View.record Dir.view_committed
  exact Option.some_ne_none _ (hstays.symm.trans hgone)

/-- A scan may list the new entry last. -/
theorem exists_names_newUse_last (hkey : w.entry.key ≠ []) :
    ∃ names : List Str, names.Perm (s.dir.committed w data tempId).keys ∧
      ∃ rest, names.filterMap (s.dir.committed w data tempId).usage = rest ++ [w.newUse data] ∧
        ∀ name e, name ≠ metaPath w.entry.key →
          (s.dir.committed w data tempId).usage name = some e → e ∈ rest := by
  set d := s.dir.committed w data tempId with hd
  have hnew : d.lookup (metaPath w.entry.key) = some (.json w.final.persisted) :=
    congrArg View.record Dir.view_committed
  have hin : metaPath w.entry.key ∈ d.keys := d.mem_keys_iff_lookup.mpr ⟨_, hnew⟩
  have hlast : [metaPath w.entry.key].filterMap d.usage = [w.newUse data] := by
    rw [List.filterMap_cons_some (usage_committed hkey), List.filterMap_nil]
  refine ⟨d.keys.erase (metaPath w.entry.key) ++ [metaPath w.entry.key],
    List.perm_append_comm.trans (List.perm_cons_erase hin).symm,
    (d.keys.erase (metaPath w.entry.key)).filterMap d.usage, ?_, fun name e hne he => ?_⟩
  · rw [List.filterMap_append, hlast]
  · obtain ⟨-, entry, hentry, -⟩ := d.usage_collects name e he
    obtain ⟨found, hfound, -⟩ := Option.bind_eq_some_iff.mp hentry
    exact List.mem_filterMap.mpr ⟨name, (List.mem_erase_of_ne hne).mpr
      (d.mem_keys_iff_lookup.mpr ⟨found, hfound⟩), he⟩

/-- A stored entry that was used no later can be listed before the new one, and then a stored
entry goes. -/
theorem lastAccess_lt_of_leavesStored (h : OversizedCommit maxSize s w data)
    (hmax : maxSize < 2 ^ 64 - 1)
    (hall : ∀ tempId names, names.Perm (s.dir.committed w data tempId).keys →
      LeavesStored s.dir w.entry.key
        ((s.dir.committed w data tempId).afterEviction maxSize names))
    {other : Str} (hentry : s.dir.HasEntry other) :
    w.entry.lastAccess < s.dir.lastAccess other := by
  by_contra hle
  have hother := h.ne_of_hasEntry hentry
  obtain ⟨names, hnames, rest, hfound, hrest⟩ :=
    @exists_names_newUse_last _ s w data 0 h.keyed.key.nonempty
  obtain ⟨stored, hperm, -, hstored⟩ := found_committed h hnames
  rw [hfound] at hperm
  have hsame : rest.Perm stored := (List.perm_append_comm.trans hperm).cons_inv
  -- The scan has found the other entry before.
  have hview : (s.dir.committed w data 0).view other = s.dir.view other :=
    h.view_of_ne hother
  obtain ⟨hiff, haccess⟩ := Dir.hasEntry_congr hview
  obtain ⟨e, husage, hvalue⟩ := (hiff.mpr hentry).exists_usage
  have hmem : e ∈ rest := hrest _ e (fun heq => hother (metaPath_injective heq)) husage
  obtain ⟨first, hfirst, hevicted⟩ := evicted_of_earlier h hmax
    (fun e he => (hstored e (hsame.subset he)).1) hmem (by omega)
  obtain ⟨-, hlost, -⟩ := hstored first (hsame.subset hfirst)
  obtain ⟨lost, hdata⟩ := hlost.exists_data
  have hkept := congrArg View.record ((hall 0 names hnames).kept first.2.1 hlost)
  have hkey : first.2.1 ∈ keys (Dir.evicted maxSize (rest ++ [w.newUse data])) :=
    List.mem_map_of_mem hevicted
  have hremoved : ((s.dir.committed w data 0).afterEviction maxSize names).view first.2.1 =
      ⟨none, none⟩ := by
    unfold Dir.afterEviction
    rw [hfound]
    exact Dir.view_without_of_mem hkey
  have hnone : s.dir.lookup (metaPath first.2.1) = none :=
    hkept.symm.trans (congrArg View.record hremoved)
  rw [hdata] at hnone
  cases hnone

/-- **An oversized commit leaves the cache as it was exactly when every stored entry was used
after it.** -/
theorem oversized_undisturbed_iff (cache : Cache) (h : OversizedCommit cache.maxSize s w data) :
    Ends (fun _ => True) (fun _ s' => LeavesStored s.dir w.entry.key s'.dir) (w.finish cache) s ↔
      cache.maxSize < 2 ^ 64 - 1 ∧
        ∀ other, s.dir.HasEntry other → w.entry.lastAccess < s.dir.lastAccess other := by
  constructor
  · intro hends
    have hall : ∀ tempId names, names.Perm (s.dir.committed w data tempId).keys →
        LeavesStored s.dir w.entry.key
          ((s.dir.committed w data tempId).afterEviction cache.maxSize names) :=
      fun tempId names hnames => (hends.value (finish_comesTo cache h.temporary hnames)).2
    have hmax := maxSize_lt_of_leavesStored hall
    exact ⟨hmax, fun other hentry => lastAccess_lt_of_leavesStored h hmax hall hentry⟩
  · rintro ⟨hmax, hlater⟩
    refine (finish_ends cache w).mono ?_
    intro result s' hfinished
    cases hfinished with
    | gone hnone =>
        rw [h.temporary] at hnone
        cases hnone
    | done hdata _ hnames =>
        obtain rfl := Option.some.inj (h.temporary.symm.trans hdata)
        exact leavesStored_of_later h hmax hnames hlater

end Commit

/-! ## A stored entry that goes for nothing -/

/-- The writer of a response that was requested after the stored entry was used. -/
def oversizedWriter : CacheWriter where
  entry := { plainEntry 1700000009 with key := "k".toList }
  tempBody := @tempBodyPath reference "k".toList 0
  bodyLen := 40

/-- One entry is stored, and there is a temporary body of forty bytes. -/
def oversizedDisk : Disk where
  dir := (entriesDir [("a".toList, plainEntry 1700000005, utf8 "new".toList)]).insert
    oversizedWriter.tempBody (.raw (List.replicate 40 0))
  clock _ := 1700000010 * 10 ^ 9

/-- In a cache of 220 bytes that response does not fit. -/
theorem oversizedDisk_oversized :
    @OversizedCommit reference smallCache.maxSize oversizedDisk oversizedWriter
      (.raw (List.replicate 40 0)) :=
  @OversizedCommit.mk reference _ _ _ _
    (@CacheWriter.Keyed.mk reference _ ⟨by decide, by decide⟩ ⟨0, rfl⟩)
    (by decide +kernel) (by decide +kernel) (by decide +kernel) (by decide +kernel)

/-- The theorem at that response. -/
theorem oversized_undisturbed_iff_oversizedDisk :
    Ends (fun _ => True)
        (fun _ s' => LeavesStored oversizedDisk.dir oversizedWriter.entry.key s'.dir)
        (@CacheWriter.finish reference smallCache oversizedWriter) oversizedDisk ↔
      smallCache.maxSize < 2 ^ 64 - 1 ∧ ∀ other, oversizedDisk.dir.HasEntry other →
        oversizedWriter.entry.lastAccess < oversizedDisk.dir.lastAccess other :=
  @oversized_undisturbed_iff reference _ _ _ smallCache oversizedDisk_oversized

/-- **The stored entry is gone** after the commit. -/
theorem oversized_disturbs : ¬∀ (crates : Crates) (cache : Cache) (s : Disk) (w : CacheWriter)
    (data : FileData), @OversizedCommit crates cache.maxSize s w data →
      Ends (fun _ => True) (fun _ s' => LeavesStored s.dir w.entry.key s'.dir)
        (@CacheWriter.finish crates cache w) s := by
  intro hall
  have hends := hall reference smallCache oversizedDisk oversizedWriter _ oversizedDisk_oversized
  have hcalm : ∀ o s, diskEnv (fun _ => True) o s (diskCalm o s).1 (diskCalm o s).2 :=
    fun o s => diskEnv_diskCalm o s trivial
  obtain ⟨-, hleaves⟩ := hends.value (Steps.of_exec hcalm _ _)
  have hentry : oversizedDisk.dir.HasEntry "a".toList := ⟨by decide, by decide +kernel⟩
  have hkept := hleaves.kept "a".toList hentry
  have hgone : ((exec diskCalm (@CacheWriter.finish reference smallCache oversizedWriter)
      oversizedDisk).2.dir.view "a".toList).record = none := by
    decide +kernel
  have hstored : (oversizedDisk.dir.view "a".toList).record ≠ none := by decide +kernel
  exact hstored (by rw [← hkept]; exact hgone)

end Corsget
