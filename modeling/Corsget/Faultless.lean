import Corsget.StoreRuns
import Corsget.Storing

/-!
# The store where nothing fails

Where no operation fails, the programs of the store leave a directory that can be said
exactly.  `diskEnv` is such an environment: the files change as `Dir.performOk` says, a scan
lists every file once, in any order, and the clock has readings to come.

`Ends P Q p s` says what holds when program `p` has come to its end.  There is one
specification for each program that reads or writes the files of one key; the programs that
scan the directory have theirs elsewhere.
-/

namespace Corsget

open Text Effect

/-! ## The environment -/

/-- The directory, and the readings of the clock to come. -/
structure Disk where
  dir : Dir
  clock : ℕ → ℕ

/-- The state after a reading of the clock. -/
def Disk.tick (s : Disk) : Disk := { s with clock := fun n => s.clock (n + 1) }

/-- The state with another directory. -/
def Disk.on (s : Disk) (d : Dir) : Disk := { s with dir := d }

@[simp] theorem Disk.on_dir (s : Disk) (d : Dir) : (s.on d).dir = d := rfl

@[simp] theorem Disk.on_on (s : Disk) (d d' : Dir) : (s.on d).on d' = s.on d' := rfl

/-- Nothing fails, and a scan lists every file once, in any order.  The directories that
come about satisfy `P`, which says what fits on the disk. -/
def diskEnv (P : Dir → Prop) : Env Io Disk
  | .fs .readDir, s, r, s' => s' = s ∧
      ∃ names : List Str, names.Perm s.dir.keys ∧ r = .ok (names.map .ok)
  | .fs o, s, r, s' =>
      r = (s.dir.performOk o).1 ∧ s' = s.on (s.dir.performOk o).2 ∧ P s'.dir
  | .systemTime, s, t, s' => t = s.clock 0 ∧ s' = s.tick
  | _, s, _, s' => s' = s

/-- The answer about a file that may be there. -/
def found {α : Type} : Option α → Except IoError α
  | some a => .ok a
  | none => .error notFound

@[simp] theorem toOption_found {α : Type} (a : Option α) : (found a).toOption = a := by
  cases a <;> rfl

theorem Dir.performOk_read (d : Dir) (path : Str) :
    d.performOk (.read path) = (found (d.lookup path), d) := by
  unfold performOk
  dsimp only
  cases d.lookup path with
  | none => rfl
  | some data => rfl

theorem Dir.performOk_rename {d : Dir} {source target : Str} {data : FileData}
    (h : d.lookup source = some data) :
    d.performOk (.rename source target) = (.ok (), (d.erase source).insert target data) := by
  unfold performOk
  dsimp only
  rw [h]

theorem Dir.performOk_metadata (d : Dir) (path : Str) :
    d.performOk (.metadata path) = (found ((d.lookup path).map FileData.len), d) := by
  unfold performOk
  dsimp only
  cases d.lookup path with
  | none => rfl
  | some data => rfl

variable {α β : Type} {P : Dir → Prop} {s : Disk}

/-- When the program has come to its end, `Q` holds. -/
abbrev Ends (P : Dir → Prop) (Q : α → Disk → Prop) (p : Prog Io α) (s : Disk) : Prop :=
  Safe (diskEnv P) (fun _ => True) Q p s

namespace Ends

variable {Q : α → Disk → Prop}

theorem ret {a : α} (h : Q a s) : Ends P Q (.ret a) s := ⟨trivial, h⟩

/-- A file operation. -/
theorem fs {o : FsOp} {k : Io.Res (.fs o) → Prog Io α} (ho : o ≠ .readDir)
    (h : P (s.dir.performOk o).2 →
      Ends P Q (k (s.dir.performOk o).1) (s.on (s.dir.performOk o).2)) :
    Ends P Q (.op (.fs o) k) s := by
  refine ⟨trivial, fun r s' hstep => ?_⟩
  cases o with
  | readDir => exact absurd rfl ho
  | _ =>
      obtain ⟨rfl, rfl, hfits⟩ := hstep
      exact h hfits

/-- A file is looked at. -/
theorem look {o : FsOp} {answer : o.Res} {k : Io.Res (.fs o) → Prog Io α} (ho : o ≠ .readDir)
    (hperform : s.dir.performOk o = (answer, s.dir)) (h : Ends P Q (k answer) s) :
    Ends P Q (.op (.fs o) k) s := by
  refine .fs ho fun _ => ?_
  rw [hperform]
  exact h

theorem read {path : Str} {k : Io.Res (.fs (.read path)) → Prog Io α}
    (h : Ends P Q (k (found (s.dir.lookup path))) s) : Ends P Q (.op (.fs (.read path)) k) s :=
  .look nofun (s.dir.performOk_read path) h

theorem metadata {path : Str} {k : Io.Res (.fs (.metadata path)) → Prog Io α}
    (h : Ends P Q (k (found ((s.dir.lookup path).map FileData.len))) s) :
    Ends P Q (.op (.fs (.metadata path)) k) s :=
  .look nofun (s.dir.performOk_metadata path) h

/-- A file that is there is renamed. -/
theorem rename {source target : Str} {data : FileData}
    {k : Io.Res (.fs (.rename source target)) → Prog Io α} (hdata : s.dir.lookup source = some data)
    (h : P ((s.dir.erase source).insert target data) →
      Ends P Q (k (.ok ())) (s.on ((s.dir.erase source).insert target data))) :
    Ends P Q (.op (.fs (.rename source target)) k) s := by
  refine .fs nofun ?_
  rw [Dir.performOk_rename hdata]
  exact h

theorem readDir {k : Io.Res (.fs .readDir) → Prog Io α}
    (h : ∀ names : List Str, names.Perm s.dir.keys → Ends P Q (k (.ok (names.map .ok))) s) :
    Ends P Q (.op (.fs .readDir) k) s := by
  refine ⟨trivial, ?_⟩
  rintro r s' ⟨rfl, names, hnames, rfl⟩
  exact h names hnames

theorem systemTime {k : Io.Res .systemTime → Prog Io α} (h : Ends P Q (k (s.clock 0)) s.tick) :
    Ends P Q (.op .systemTime k) s := by
  refine ⟨trivial, ?_⟩
  rintro t s' ⟨rfl, rfl⟩
  exact h

theorem tempCounter {k : Io.Res .tempCounter → Prog Io α} (h : ∀ n, Ends P Q (k n) s) :
    Ends P Q (.op .tempCounter k) s := by
  refine ⟨trivial, ?_⟩
  rintro n s' rfl
  exact h n

theorem bind {T : β → Disk → Prop} {p : Prog Io α} {f : α → Prog Io β} (h : Ends P Q p s)
    (hf : ∀ a s', Q a s' → Ends P T (f a) s') : Ends P T (p >>= f) s :=
  Safe.bind h fun a s' _ ha => hf a s' ha

theorem mono {R : α → Disk → Prop} {p : Prog Io α} (h : Ends P Q p s)
    (hQ : ∀ a s, Q a s → R a s) : Ends P R p s :=
  Safe.mono h (fun _ => id) fun a s _ ha => hQ a s ha

end Ends

/-! ## Removing files -/

namespace Dir

/-- The directory without some files. -/
def without (d : Dir) (paths : List Str) : Dir := paths.foldl (fun d path => d.erase path) d

variable (d : Dir) (paths : List Str) {path : Str}

theorem without_cons (path : Str) :
    d.without (path :: paths) = without (d.erase path) paths := rfl

theorem without_append (more : List Str) :
    d.without (paths ++ more) = (d.without paths).without more := List.foldl_append

theorem lookup_without :
    (d.without paths).lookup path = if path ∈ paths then none else d.lookup path := by
  induction paths generalizing d with
  | nil => rfl
  | cons p paths ih =>
      rw [without_cons, ih]
      by_cases hp : path = p
      · subst hp
        rw [AList.lookup_erase, ite_self, if_pos List.mem_cons_self]
      · rw [AList.lookup_erase_ne hp]
        simp only [List.mem_cons, hp, false_or]

theorem lookup_without_of_notMem {paths : List Str} (h : path ∉ paths) :
    (d.without paths).lookup path = d.lookup path := by
  rw [lookup_without, if_neg h]

theorem without_sub (path : Str) (data : FileData)
    (h : (d.without paths).lookup path = some data) : d.lookup path = some data := by
  rw [lookup_without] at h
  split at h
  · cases h
  · exact h

theorem mem_keys_iff_lookup : path ∈ d.keys ↔ ∃ data, d.lookup path = some data := by
  rw [← AList.mem_keys, ← AList.lookup_isSome, Option.isSome_iff_exists]

/-- Removing a file that is not there changes nothing. -/
theorem erase_of_lookup_eq_none (h : d.lookup path = none) : d.erase path = d :=
  AList.ext (List.kerase_of_notMem_keys (AList.lookup_eq_none.mp h))

theorem performOk_removeFile (path : Str) : (d.performOk (.removeFile path)).2 = d.erase path := by
  unfold performOk
  dsimp only
  cases h : d.lookup path with
  | none => exact (d.erase_of_lookup_eq_none h).symm
  | some data => rfl

/-- The length of a file, `0` when there is none. -/
def fileLen (path : Str) : ℕ := ((d.lookup path).map FileData.len).getD 0

variable {d} in
theorem fileLen_of_lookup {data : FileData} (h : d.lookup path = some data) :
    d.fileLen path = data.len := by
  unfold fileLen
  rw [h]
  rfl

/-- The entry of a metadata file. -/
def decoded (name : Str) : Option CacheEntry := (d.lookup name).bind FileData.fromSlice

end Dir

/-- A file that is to go is gone. -/
theorem Ends.removeFile {Q : α → Disk → Prop} {path : Str}
    {k : Io.Res (.fs (.removeFile path)) → Prog Io α}
    (h : ∀ r, Ends P Q (k r) (s.on (s.dir.erase path))) :
    Ends P Q (.op (.fs (.removeFile path)) k) s := by
  refine .fs nofun fun _ => ?_
  rw [Dir.performOk_removeFile]
  exact h _

/-- What fits at the start still fits at the end. -/
theorem Ends.fits {p : Prog Io α} (h : P s.dir) : Ends P (fun _ s' => P s'.dir) p s := by
  induction p generalizing s with
  | ret a => exact .ret h
  | op o k ih =>
      refine ⟨trivial, fun r s' hstep => ih r ?_⟩
      cases o with
      | fs o =>
          cases o with
          | readDir =>
              obtain ⟨rfl, -⟩ := hstep
              exact h
          | _ => exact hstep.2.2
      | systemTime =>
          obtain ⟨-, rfl⟩ := hstep
          exact h
      | _ =>
          obtain rfl : s' = s := hstep
          exact h

theorem Ends.and {Q R : α → Disk → Prop} {p : Prog Io α} (h : Ends P Q p s) (h' : Ends P R p s) :
    Ends P (fun a s => Q a s ∧ R a s) p s :=
  Safe.mono (Safe.and h h') (fun _ _ => trivial) fun _ _ _ hQ => hQ

section Programs

variable [Crates]

/-! ## Metadata -/

/-- The directory after the metadata of an entry has been written by way of a temporary
file. -/
def Dir.recorded (d : Dir) (entry : CacheEntry) (tempId : ℕ) : Dir :=
  ((d.insert (tempMetaPath entry.key tempId) (.json entry.persisted)).erase
    (tempMetaPath entry.key tempId)).insert (metaPath entry.key) (.json entry.persisted)

namespace Dir

variable (d : Dir) (entry : CacheEntry) (tempId : ℕ)

theorem lookup_recorded :
    (d.recorded entry tempId).lookup (metaPath entry.key) = some (.json entry.persisted) :=
  AList.lookup_insert _

theorem lookup_recorded_ne {path : Str} (hmeta : path ≠ metaPath entry.key)
    (htemp : path ≠ tempMetaPath entry.key tempId) :
    (d.recorded entry tempId).lookup path = d.lookup path := by
  unfold recorded
  rw [AList.lookup_insert_ne hmeta, AList.lookup_erase_ne htemp, AList.lookup_insert_ne htemp]

theorem eq_or_lookup_of_recorded {path : Str} {data : FileData}
    (h : (d.recorded entry tempId).lookup path = some data) :
    path = metaPath entry.key ∨ d.lookup path = some data := by
  by_cases hmeta : path = metaPath entry.key
  · exact .inl hmeta
  by_cases htemp : path = tempMetaPath entry.key tempId
  · unfold recorded at h
    rw [AList.lookup_insert_ne hmeta, htemp, AList.lookup_erase] at h
    cases h
  · exact .inr ((d.lookup_recorded_ne entry tempId hmeta htemp).symm.trans h)

theorem view_recorded :
    (d.recorded entry tempId).view entry.key = (d.view entry.key).withRecord entry := by
  have htemp := tempMetaPath_isTemporary entry.key tempId
  unfold recorded
  rw [view_insert_metaPath, view_erase_of_ne _ _ (htemp.ne_metaPath _) (htemp.ne_bodyPath _),
    view_insert_of_ne _ _ (htemp.ne_metaPath _) (htemp.ne_bodyPath _)]
  rfl

theorem view_recorded_of_ne {key : Str} (h : key ≠ entry.key) :
    (d.recorded entry tempId).view key = d.view key := by
  have htemp := tempMetaPath_isTemporary entry.key tempId
  unfold recorded
  rw [view_insert_of_ne _ _ (fun heq => h (metaPath_injective heq).symm) (metaPath_ne_bodyPath _ _),
    view_erase_of_ne _ _ (htemp.ne_metaPath _) (htemp.ne_bodyPath _),
    view_insert_of_ne _ _ (htemp.ne_metaPath _) (htemp.ne_bodyPath _)]

end Dir

/-- **The specification of `write_metadata`.** -/
theorem writeMetadata_ends (entry : CacheEntry) :
    Ends P (fun r s' => r = .ok () ∧ ∃ tempId, s' = s.on (s.dir.recorded entry tempId))
      (writeMetadata entry) s := by
  unfold writeMetadata
  simp only [Io.fetchAdd_bind, Io.write_bind]
  refine .tempCounter fun tempId => .fs nofun fun _ => ?_
  refine .rename (AList.lookup_insert _) fun _ => ?_
  exact .ret ⟨rfl, tempId, rfl⟩

/-! ## Lookups and refreshes -/

/-- What a lookup does: it returns the complete entry that it finds and writes it back,
or it returns nothing and leaves no metadata of the key. -/
inductive Consulted (plan : CachePlan) (now : ℕ) (s : Disk) : Option CacheEntry → Disk → Prop
  | missed (h : ∀ entry file, ¬(s.dir.view plan.key).Admits entry file) :
      Consulted plan now s none (s.on (s.dir.erase (metaPath plan.key)))
  | found {entry : CacheEntry} {file : FileData} (tempId : ℕ)
      (h : (s.dir.view plan.key).Admits entry file) :
      Consulted plan now s (some (entry.touched plan.key now))
        (s.on (s.dir.recorded (entry.touched plan.key now) tempId))

/-- **The specification of `lookup`.** -/
theorem lookup_ends (plan : CachePlan) (now : ℕ) :
    Ends P (Consulted plan now s) (lookup plan now) s := by
  unfold lookup
  simp only [Io.read_bind, Io.metadata_bind, Io.removeFile_bind]
  refine .read ?_
  -- Metadata without an entry, or of an entry that is not complete.
  have hundecoded : (s.dir.view plan.key).record.bind FileData.fromSlice = none →
      ∀ entry file, ¬(s.dir.view plan.key).Admits entry file := by
    intro hnone entry file h
    have hrecord := h.record
    rw [hnone] at hrecord
    cases hrecord
  cases hdata : s.dir.lookup (metaPath plan.key) with
  | none =>
      refine .ret ?_
      have herase := s.dir.erase_of_lookup_eq_none hdata
      have hmissed : Consulted plan now s none (s.on (s.dir.erase (metaPath plan.key))) := by
        refine .missed (hundecoded ?_)
        show (s.dir.lookup (metaPath plan.key)).bind _ = none
        rw [hdata]
        rfl
      rw [herase] at hmissed
      exact hmissed
  | some data =>
      have hrecord : (s.dir.view plan.key).record.bind FileData.fromSlice = data.fromSlice := by
        show (s.dir.lookup (metaPath plan.key)).bind _ = _
        rw [hdata]
        rfl
      dsimp only [found]
      cases hentry : data.fromSlice with
      | none => exact .removeFile fun _ => .ret (.missed (hundecoded (hrecord.trans hentry)))
      | some entry =>
          refine .metadata ?_
          rw [toOption_found]
          split
          · next hcheck =>
            refine .removeFile fun _ => .ret (.missed fun entry' file h => ?_)
            obtain rfl : entry = entry' := by
              have hsame := h.record
              rw [hrecord, hentry] at hsame
              exact Option.some.inj hsame
            rcases hcheck with hversion | hlen
            · exact hversion h.version
            · refine hlen ?_
              rw [show s.dir.lookup (bodyPath plan.key) = some file from h.body]
              exact congrArg some h.length
          · next hcheck =>
            rw [not_or, not_not, not_not] at hcheck
            obtain ⟨file, hfile, hlen⟩ := Option.map_eq_some_iff.mp hcheck.2
            have hadmits : (s.dir.view plan.key).Admits entry file :=
              ⟨hrecord.trans hentry, hcheck.1, hfile, hlen⟩
            refine .bind (writeMetadata_ends (entry.touched plan.key now)) ?_
            rintro _ _ ⟨-, tempId, rfl⟩
            exact .ret (.found tempId hadmits)

/-- The entry that a refresh writes, with the next two readings of the clock. -/
def Disk.refreshed (s : Disk) (entry : CacheEntry) (confirmed : HeaderMap) (ttl : ℕ) : CacheEntry :=
  entry.refreshed confirmed ttl (s.clock 0 / 10 ^ 9) (s.clock 1)

/-- **The specification of `refresh`.** -/
theorem refresh_ends (entry : CacheEntry) (confirmed : HeaderMap) (ttl : ℕ) :
    Ends P (fun r s' => r = (s.refreshed entry confirmed ttl, .ok ()) ∧
        ∃ tempId, s' = s.tick.tick.on (s.dir.recorded (s.refreshed entry confirmed ttl) tempId))
      (refresh entry confirmed ttl) s := by
  unfold refresh
  simp only [Io.nowSeconds_bind, Io.systemTime_bind]
  refine .systemTime (.systemTime ?_)
  refine .bind (writeMetadata_ends (s.refreshed entry confirmed ttl)) ?_
  rintro _ _ ⟨rfl, tempId, rfl⟩
  exact .ret ⟨rfl, tempId, rfl⟩

/-! ## Writers -/

/-- **The specification of `begin_write`**: there is a writer exactly when the response is
accepted. -/
theorem beginWrite_ends (plan : CachePlan) (status : ℕ) (headers requestHeaders : HeaderMap) :
    Ends P
      (fun r s' =>
        r = none ∧ s'.dir = s.dir ∧
            (∃ now, ∀ vary, ¬Accepts plan status headers requestHeaders vary now) ∨
          ∃ vary created accessed now tempId,
            Accepts plan status headers requestHeaders vary now ∧
              r = some (newWriter plan status headers requestHeaders vary created accessed now
                tempId) ∧
              s'.dir = s.dir.insert (tempBodyPath plan.key tempId) (.raw []))
      (beginWrite plan status headers requestHeaders) s := by
  rcases beginWrite_cases plan status headers requestHeaders with
    ⟨hnone, hrefused⟩ | ⟨vary, hopens, haccepts⟩
  · rw [hnone]
    exact .ret (.inl ⟨rfl, rfl, 0, fun vary => hrefused vary 0⟩)
  · rw [hopens]
    refine .systemTime (.systemTime (.systemTime ?_))
    dsimp only
    split
    · next httl => exact .ret (.inl ⟨rfl, rfl, s.clock 2, fun vary h => h.lifetime httl⟩)
    · next httl =>
      refine .tempCounter fun tempId => .fs (by simp) fun _ => ?_
      exact .ret (.inr ⟨vary, _, _, _, tempId, (haccepts _ _).mpr ⟨rfl, httl⟩, rfl, rfl⟩)

end Programs

/-- **The specification of `write`.** -/
theorem write_ends (w : CacheWriter) (bytes : Bytes) :
    Ends P (fun r s' =>
        r = ({ w with bodyLen := saturatingAdd w.bodyLen bytes.length }, .ok ()) ∧
          s' = s.on (s.dir.performOk (.writeAll w.tempBody bytes)).2)
      (w.write bytes) s := by
  unfold CacheWriter.write
  simp only [Io.writeAll_bind]
  exact .fs nofun fun _ => .ret ⟨rfl, rfl⟩

/-- **The specification of `discard`.** -/
theorem discard_ends (w : CacheWriter) :
    Ends P (fun _ s' => s' = s.on (s.dir.erase w.tempBody)) w.discard s := by
  unfold CacheWriter.discard
  simp only [Io.removeFile_bind]
  exact .removeFile fun _ => .ret rfl

/-! ## One such environment -/

/-- The clock goes on as it is given, and every temporary file has the same number. -/
def diskCalm : Handler Io Disk
  | .fs .readDir, s => (.ok (s.dir.keys.map .ok), s)
  | .fs o, s => ((s.dir.performOk o).1, s.on (s.dir.performOk o).2)
  | .tempCounter, s => ((0 : ℕ), s)
  | .systemTime, s => (s.clock 0, s.tick)
  | .checkLimit _ _, s => ((.error [] : Except Str Snapshot), s)
  | .send _, s => ((.error ⟨false, false, []⟩ : Except ClientError UpstreamResponse), s)
  | .charge _ _, s => ((.ok () : Except BandwidthError Unit), s)
  | .yield _, s => (((), s) : Unit × Disk)

theorem diskEnv_diskCalm {P : Dir → Prop} (o : IoOp) (s : Disk) (h : P (diskCalm o s).2.dir) :
    diskEnv P o s (diskCalm o s).1 (diskCalm o s).2 := by
  cases o with
  | fs o =>
      cases o with
      | readDir => exact ⟨rfl, _, .refl _, rfl⟩
      | _ => exact ⟨rfl, rfl, h⟩
  | systemTime => exact ⟨rfl, rfl⟩
  | _ => exact rfl

/-- An empty directory, in November 2023. -/
def emptyDisk : Disk := ⟨∅, fun _ => 1700000000 * 10 ^ 9⟩

end Corsget
