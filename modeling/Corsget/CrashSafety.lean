import Corsget.StoreRuns
import Corsget.Reference

/-!
# Committing an entry and crashes

`CacheWriter::finish` puts the body in place before the metadata.  Between the
two renames the directory holds the previous metadata with the new body, and
the only thing that keeps a lookup from returning that pair is the length of
the body.

The module header of the source promises that incomplete writes are ignored.
`commit_atomic_iff` says when they are: the commit is all or nothing, for every
fault, cut and recovery, exactly when the previous metadata does not happen to
record the length of the new body.
-/

namespace Corsget

open Text Effect

/-! ## The statement -/

section Commit

variable [Crates]

/-- A writer whose whole body is in its temporary file, as `begin_write` and the
writes after it leave it. -/
structure CacheWriter.Filled (w : CacheWriter) (body : Bytes) (d : Dir) : Prop where
  name : ∃ tempId, w.tempBody = tempBodyPath w.entry.key tempId
  file : d.lookup w.tempBody = some (.raw body)
  length : w.bodyLen = body.length

/-- **`begin_write` opens such a writer**, with an empty body. -/
theorem beginWrite_filled (plan : CachePlan) (status : ℕ) (headers requestHeaders : HeaderMap)
    (d : Dir) :
    Safe storeEnv (fun _ => True) (fun result d' => ∀ w, result = some w → w.Filled [] d')
      (beginWrite plan status headers requestHeaders) d := by
  have hnone : ∀ d', Safe storeEnv (fun _ => True)
      (fun result d' => ∀ w : CacheWriter, result = some w → w.Filled [] d') (.ret none) d' :=
    fun d' => ⟨trivial, fun w h => by cases h⟩
  rcases beginWrite_cases plan status headers requestHeaders with
    ⟨hrefused, -⟩ | ⟨vary, hopens, -⟩
  · rw [hrefused]
    exact hnone d
  · rw [hopens]
    refine ⟨trivial, fun created d₁ _ => ⟨trivial, fun accessed d₂ _ =>
      ⟨trivial, fun now d₃ _ => ?_⟩⟩⟩
    dsimp only
    split
    · exact hnone d₃
    · refine ⟨trivial, fun tempId d₄ _ => ⟨trivial, fun r d₅ hcreate => ?_⟩⟩
      cases r with
      | error e => exact hnone d₅
      | ok _ =>
          refine ⟨trivial, fun w h => ?_⟩
          cases h
          refine ⟨⟨tempId, rfl⟩, ?_, rfl⟩
          rw [storeEnv_create hcreate rfl]
          exact AList.lookup_insert _

/-- **A write extends its body**, as long as the length fits in 64 bits. -/
theorem write_filled {w : CacheWriter} {body bytes : Bytes} {d : Dir} (hw : w.Filled body d)
    (hfits : body.length + bytes.length < 2 ^ 64) :
    Safe storeEnv (fun _ => True)
      (fun result d' => result.2 = .ok () → result.1.Filled (body ++ bytes) d')
      (w.write bytes) d := by
  unfold CacheWriter.write
  simp only [Io.writeAll_bind]
  refine ⟨trivial, fun r d₁ hwrite => ?_⟩
  cases r with
  | error e => exact ⟨trivial, fun h => by cases h⟩
  | ok _ =>
      refine ⟨trivial, fun _ => ⟨hw.name, ?_, ?_⟩⟩
      · rw [storeEnv_writeAll hwrite hw.file rfl]
        exact AList.lookup_insert _
      · show saturatingAdd w.bodyLen bytes.length = (body ++ bytes).length
        unfold saturatingAdd
        rw [hw.length, List.length_append]
        omega

/-- An entry and a body are the previous ones: complete, and together. -/
def IsPrevious (old : View) (entry : CacheEntry) (bytes : Bytes) : Prop :=
  ∃ previous file, old.Admits previous file ∧ entry.response = previous.response ∧
    bytes = file.bytes

/-- An entry and a body are the new ones. -/
def IsNew (w : CacheWriter) (body : Bytes) (entry : CacheEntry) (bytes : Bytes) : Prop :=
  entry.response = w.final.response ∧ bytes = body

/-- What may happen to the directory after the process stopped or a step
failed: lookups, each of them possibly cut off as well, and cleanups at
startup. -/
inductive Recovers : Dir → Dir → Prop
  | rest (d : Dir) : Recovers d d
  | lookup {d d₁ d₂ : Dir} (plan : CachePlan) (now : ℕ) {p : Prog Io (Option CacheEntry)}
      (before : Recovers d d₁) (run : Steps storeEnv (Corsget.lookup plan now, d₁) (p, d₂)) :
      Recovers d d₂
  | cleanup {d d₁ d₂ : Dir} (cache : Cache) {p : Prog Io CacheCleanupSummary}
      (before : Recovers d d₁) (run : Steps storeEnv (cleanupStartup cache, d₁) (p, d₂)) :
      Recovers d d₂

/-- **All or nothing**: however far `finish` came and whatever failed on the
way, an entry that a later lookup of its key returns is the previous one with
the previous body or the new one with the new body. -/
def CommitAtomic (cache : Cache) (w : CacheWriter) (body : Bytes) (d : Dir) : Prop :=
  ∀ p d₁, Steps storeEnv (w.finish cache, d) (p, d₁) →
    ∀ d₂, Recovers d₁ d₂ →
      ∀ (plan : CachePlan) (now : ℕ) (entry : CacheEntry) (d₃ : Dir),
        plan.key = w.entry.key →
        Steps storeEnv (lookup plan now, d₂) (.ret (some entry), d₃) →
        ∃ file, d₃.lookup entry.bodyPath = some file ∧
          (IsPrevious (d.view w.entry.key) entry file.bytes ∨ IsNew w body entry file.bytes)

/-- The previous metadata cannot be mistaken for that of the new body: if it
records the length of the new body, then it also agrees with the new metadata,
or the previous body is the same as the new one. -/
def LengthTellsApart (w : CacheWriter) (body : Bytes) (old : View) : Prop :=
  ∀ previous, old.record.bind FileData.fromSlice = some previous →
    previous.version = cacheVersion → previous.bodyLen = body.length →
      previous.response = w.final.response ∨ ∃ file, old.body = some file ∧ file.bytes = body

/-! ## The invariant -/

/-- Every entry a lookup would return from a view is one of the two. -/
def Sound (w : CacheWriter) (body : Bytes) (old v : View) : Prop :=
  ∀ entry file, v.Admits entry file →
    IsPrevious old entry file.bytes ∨ IsNew w body entry file.bytes

variable {w : CacheWriter} {body : Bytes} {old v v' : View}

omit [Crates] in
theorem Sound.of_shrinks (h : Sound w body old v) (hv : v.Shrinks v') : Sound w body old v' :=
  fun entry file hadmits => h entry file (hadmits.of_shrinks hv)

omit [Crates] in
theorem IsPrevious.congr {entry entry' : CacheEntry} {bytes : Bytes}
    (h : IsPrevious old entry bytes) (heq : entry'.response = entry.response) :
    IsPrevious old entry' bytes := by
  obtain ⟨previous, file, hadmits, hresponse, hbytes⟩ := h
  exact ⟨previous, file, hadmits, heq.trans hresponse, hbytes⟩

omit [Crates] in
theorem IsNew.congr {entry entry' : CacheEntry} {bytes : Bytes} (h : IsNew w body entry bytes)
    (heq : entry'.response = entry.response) : IsNew w body entry' bytes :=
  ⟨heq.trans h.1, h.2⟩

omit [Crates] in
/-- A lookup keeps the invariant: it writes back what it read. -/
theorem Sound.of_looked {plan : CachePlan} {now : ℕ} {key : Str} (h : Sound w body old v)
    (hv : Looked plan now key v v') : Sound w body old v' := by
  intro entry file hadmits
  obtain ⟨previous, hprevious, hresponse⟩ := hadmits.of_looked hv
  rcases h previous file hprevious with hold | hnew
  · exact .inl (hold.congr hresponse)
  · exact .inr (hnew.congr hresponse)

/-- Recovering keeps the invariant. -/
theorem Sound.of_recovers {key : Str} {d d' : Dir} (h : Sound w body old (d.view key))
    (hrun : Recovers d d') : Sound w body old (d'.view key) := by
  induction hrun with
  | rest => exact h
  | lookup plan now before run ih =>
      exact ih.of_looked ((lookup_safe plan now key _).crash run)
  | cleanup cache before run ih =>
      have hsafe := Safe.of_meets (E := storeEnv)
        (I := fun d => Sound w body old (d.view key)) (cleanupStartup_removesOnly cache)
        (by
          rintro o d r d' (rfl | ho) hd hstep
          · obtain rfl : d' = d := hstep
            exact hd
          · exact RemovesOnly.keeps (fun _ _ hv hs => hs.of_shrinks hv) o d r d' ho hd hstep) ih
      exact hsafe.crash run

/-! ## Committing -/

omit [Crates] in
/-- After the body is in place, the rest of `commit` keeps the invariant: its
metadata is the new one. -/
theorem Sound.of_written {key : Str} {d d' : Dir} (h : Sound w body old (d.view key))
    (hbody : ∀ file, (d.view key).body = some file → file.bytes = body)
    (hview : d'.view key = d.view key ∨ d'.view key = (d.view key).withRecord w.final) :
    Sound w body old (d'.view key) := by
  rcases hview with hsame | hnew
  · exact hsame ▸ h
  · intro entry file hadmits
    rw [hnew] at hadmits
    refine .inr ⟨?_, hbody file hadmits.body⟩
    rw [← Option.some.inj hadmits.record]
    rfl

/-- The view after the first rename: the previous metadata with the new body. -/
theorem CacheWriter.Filled.view_replaced {d : Dir} (hw : w.Filled body d) :
    Dir.view ((d.erase w.tempBody).insert (bodyPath w.entry.key) (.raw body)) w.entry.key =
      { d.view w.entry.key with body := some (.raw body) } := by
  obtain ⟨tempId, hname⟩ := hw.name
  have htemp : IsTemporary w.tempBody tempId := hname ▸ tempBodyPath_isTemporary _ _
  rw [Dir.view_insert_bodyPath,
    Dir.view_erase_of_ne _ _ (htemp.ne_metaPath _) (htemp.ne_bodyPath _)]

/-- **The commit keeps the invariant** at every cut and with every fault, when
the previous metadata can be told apart. -/
theorem finish_sound {d : Dir} (cache : Cache) (hw : w.Filled body d)
    (hapart : LengthTellsApart w body (d.view w.entry.key)) :
    Safe storeEnv (fun d' => Sound w body (d.view w.entry.key) (d'.view w.entry.key))
      (fun _ _ => True) (w.finish cache) d := by
  set key := w.entry.key with hkey
  have hstart : Sound w body (d.view key) (d.view key) :=
    fun entry file hadmits => .inl ⟨entry, file, hadmits, rfl, rfl⟩
  unfold CacheWriter.finish
  simp only [Io.flush_bind]
  refine ⟨hstart, fun r d₁ hflush => ?_⟩
  obtain rfl := storeEnv_flush hflush
  cases r with
  | error e => exact ⟨hstart, trivial⟩
  | ok _ =>
      unfold commit
      simp only [Io.rename_bind]
      refine ⟨hstart, fun r d₂ hrename => ?_⟩
      rcases storeEnv_rename hrename with ⟨rfl, e, rfl⟩ | ⟨rfl, data, hdata, rfl⟩
      · exact ⟨hstart, trivial⟩
      · obtain rfl : data = .raw body := by
          rw [hw.file, Option.some.injEq] at hdata
          exact hdata.symm
        have hview := hw.view_replaced
        -- Previous metadata with the new body: this is where its length decides.
        have hmixed : Sound w body (d₁.view key)
            (Dir.view ((d₁.erase w.tempBody).insert (bodyPath key) (.raw body)) key) := by
          rw [hview]
          intro entry file hadmits
          obtain rfl : FileData.raw body = file := Option.some.inj hadmits.body
          rcases hapart entry hadmits.record hadmits.version hadmits.length.symm with
            hresponse | ⟨file, hfile, rfl⟩
          · exact .inr ⟨hresponse, rfl⟩
          · exact .inl ⟨entry, file, ⟨hadmits.record, hadmits.version, hfile, hadmits.length⟩,
              rfl, rfl⟩
        have hbody : ∀ file, (Dir.view ((d₁.erase w.tempBody).insert (bodyPath key)
            (.raw body)) key).body = some file → file.bytes = body := by
          intro file hfile
          rw [hview] at hfile
          rw [← Option.some.inj hfile]
          rfl
        refine Safe.bind ((writeMetadata_safe _ key _).weaken ?_) ?_
        · intro d₃ hd₃
          exact hmixed.of_written hbody (hd₃.imp_right And.right)
        · intro r d₃ hd₃ _
          cases r with
          | error e => exact ⟨hd₃, trivial⟩
          | ok _ =>
              refine Safe.bind (Safe.of_meets (evict_removesOnly cache) ?_ hd₃) ?_
              · exact RemovesOnly.keeps fun _ _ hv hs => hs.of_shrinks hv
              · intro _ d₄ hd₄ _
                exact ⟨hd₄, trivial⟩

/-! ## When the commit is atomic -/

/-- Where nothing fails, a lookup returns the complete entry that it finds. -/
theorem exec_calm_lookup {plan : CachePlan} {d : Dir} {entry : CacheEntry} {file : FileData}
    (h : (d.view plan.key).Admits entry file) (now : ℕ) :
    (exec calm (lookup plan now) d).1 = some (entry.touched plan.key now) := by
  obtain ⟨data, hdata, hentry⟩ := Option.bind_eq_some_iff.mp h.record
  have hread : calm (.fs (.read (metaPath plan.key))) d = (.ok data, d) := by
    show (_, _) = _
    rw [show AList.lookup (metaPath plan.key) d = some data from hdata]
  have hstat : calm (.fs (.metadata (bodyPath plan.key))) d = (.ok file.len, d) := by
    show (_, _) = _
    rw [show AList.lookup (bodyPath plan.key) d = some file from h.body]
  unfold lookup
  simp only [Io.read_bind, Io.metadata_bind]
  rw [exec_op, hread]
  dsimp only
  rw [hentry]
  dsimp only
  rw [exec_op, hstat]
  dsimp only
  rw [if_neg (by
    rw [not_or, not_not, not_not]
    exact ⟨h.version, congrArg some h.length⟩), exec_bind]
  rfl

/-- If the commit is atomic then the length tells the entries apart: otherwise
the process may stop between the two renames. -/
theorem lengthTellsApart_of_commitAtomic {cache : Cache} {d : Dir} (hw : w.Filled body d)
    (h : CommitAtomic cache w body d) : LengthTellsApart w body (d.view w.entry.key) := by
  intro previous hrecord hversion hlength
  -- The process stops after `flush` and the first rename.
  obtain ⟨p, hfinish⟩ := Steps.of_execFor storeEnv_calm 2 (w.finish cache) d
  have hview : (execFor calm 2 (w.finish cache) d).view w.entry.key =
      { d.view w.entry.key with body := some (.raw body) } := by
    have hrename : calm (.fs (.rename w.tempBody (bodyPath w.entry.key))) d =
        (.ok (), (d.erase w.tempBody).insert (bodyPath w.entry.key) (.raw body)) := by
      unfold calm Dir.performOk
      dsimp only
      rw [hw.file]
    unfold CacheWriter.finish commit
    simp only [Io.flush_bind, Io.rename_bind]
    rw [execFor_succ_op]
    show (execFor calm 1 (Prog.op (.fs (.rename w.tempBody (bodyPath w.entry.key))) _) d).view
      w.entry.key = _
    rw [execFor_succ_op, hrename, execFor_zero]
    exact hw.view_replaced
  have hadmits : ((execFor calm 2 (w.finish cache) d).view w.entry.key).Admits previous
      (.raw body) := by
    rw [hview]
    exact ⟨hrecord, hversion, rfl, hlength.symm⟩
  have hlookup := Steps.of_exec storeEnv_calm (lookup ⟨w.entry.key, 0⟩ 0)
    (execFor calm 2 (w.finish cache) d)
  rw [exec_calm_lookup hadmits] at hlookup
  obtain ⟨file, hfile, hwhole⟩ := h _ _ hfinish _ (.rest _) _ _ _ _ rfl hlookup
  obtain rfl : FileData.raw body = file := by
    have hlooked := ((lookup_safe ⟨w.entry.key, 0⟩ 0 w.entry.key _).crash hlookup).body
    rw [hview] at hlooked
    exact Option.some.inj (hlooked.symm.trans hfile)
  rcases hwhole with ⟨found, file, hfound, -, hbytes⟩ | hnew
  · exact .inr ⟨file, hfound.body, hbytes.symm⟩
  · exact .inl hnew.1

/-- **When committing is atomic.**  Whatever fails and wherever `finish` is cut
off, later lookups return the previous entry or the new one or nothing, exactly
when the length of the body tells the previous metadata from the new. -/
theorem commit_atomic_iff (cache : Cache) {w : CacheWriter} {body : Bytes} {d : Dir}
    (hw : w.Filled body d) :
    CommitAtomic cache w body d ↔ LengthTellsApart w body (d.view w.entry.key) := by
  refine ⟨lengthTellsApart_of_commitAtomic hw, ?_⟩
  intro hapart p d₁ hfinish d₂ hrecovers plan now entry d₃ hkey hlookup
  have hsound := ((finish_sound cache hw hapart).crash hfinish).of_recovers hrecovers
  obtain ⟨hlooked, hresult⟩ := (lookup_safe plan now plan.key d₂).value hlookup
  obtain ⟨found, file, hadmits, rfl⟩ := hresult entry rfl
  refine ⟨file, hlooked.body.trans hadmits.body, ?_⟩
  rw [← hkey] at hsound ⊢
  rcases hsound found file hadmits with hprevious | hnew
  · exact .inl (hprevious.congr rfl)
  · exact .inr (hnew.congr rfl)

end Commit

/-! ## A concrete commit -/

/-- An entry under the key `k` with the given validator and a body of three
bytes. -/
def versionEntry (etag : Str) : CacheEntry where
  version := cacheVersion
  status := 200
  headers := [("etag".toList, etag)]
  bodyLen := 3
  createdAt := 0
  lastAccess := 0
  ttl := 60
  revalidate := false
  etag := some etag
  lastModified := none
  vary := []
  requestVariants := []
  key := "k".toList
  bodyPath := bodyPath "k".toList

/-- A writer of the second version, whose body `new` is in its temporary file. -/
def secondWriter : CacheWriter where
  entry := versionEntry "\"v2\"".toList
  tempBody := @tempBodyPath reference "k".toList 0
  bodyLen := 3

/-- A directory with that temporary file. -/
def pendingDir : Dir :=
  AList.insert secondWriter.tempBody (.raw (utf8 "new".toList)) ∅

/-- The same with the first version in place, whose body is `old`. -/
def occupiedDir : Dir :=
  (pendingDir.insert (metaPath "k".toList) (.json (versionEntry "\"v1\"".toList).persisted)).insert
    (bodyPath "k".toList) (.raw (utf8 "old".toList))

theorem pendingDir_filled :
    @CacheWriter.Filled reference secondWriter (utf8 "new".toList) pendingDir :=
  @CacheWriter.Filled.mk reference _ _ _ ⟨0, rfl⟩ (AList.lookup_insert _) (by decide)

theorem occupiedDir_filled :
    @CacheWriter.Filled reference secondWriter (utf8 "new".toList) occupiedDir :=
  @CacheWriter.Filled.mk reference _ _ _ ⟨0, rfl⟩ (by decide) (by decide)

/-- The commit into a directory without a previous entry is atomic. -/
theorem commit_atomic_pendingDir :
    @CommitAtomic reference exampleCache secondWriter (utf8 "new".toList) pendingDir :=
  (@commit_atomic_iff reference exampleCache _ _ _ pendingDir_filled).mpr
    fun previous h => by cases h

/-- **The previous metadata is served with the new body**: the bodies `old` and
`new` have the same length. -/
theorem old_metadata_gets_new_body :
    ¬ @CommitAtomic reference exampleCache secondWriter (utf8 "new".toList) occupiedDir := by
  intro h
  have hapart := @lengthTellsApart_of_commitAtomic reference _ _ _ _ occupiedDir_filled h
  rcases hapart (versionEntry "\"v1\"".toList).persisted (by decide) rfl rfl with
    hresponse | ⟨file, hfile, hbytes⟩
  · have hetag := congrArg CacheEntry.etag hresponse
    exact absurd hetag (by decide)
  · obtain rfl : FileData.raw (utf8 "old".toList) = file := Option.some.inj hfile
    exact absurd hbytes (by decide)

end Corsget
