import Corsget.StoreRuns
import Corsget.Library.Interleaving

/-!
# The cache directory between tasks

Several tasks of one process work on one cache directory, one file step at a
time and in any order; no step fails, but a file may be missing.

Next to the directory and the temporary-file counter the state keeps a record
that no task can see: for every file the commit it comes from, how often the
file has been replaced, and for every task the commit whose files it handles.
The record only follows the file steps, so it says of any pair of files whether
they were committed together.
-/

namespace Corsget

open Text Effect

/-- One commit: the entry and the body that `finish` puts in place. -/
structure Commit where
  entry : CacheEntry
  body : Bytes
deriving DecidableEq

/-- What the record keeps of one task. -/
structure Task where
  /-- The commit of the metadata it has read, or of the file it has put in
  place. -/
  current : Option Commit
  /-- The generation in which it last asked for a file's length. -/
  checked : Str → ℕ

/-- The directory, the counter and the record. -/
structure Shared (ι : Type) where
  dir : Dir
  counter : ℕ
  /-- The task that a temporary-file number was given to. -/
  owner : ℕ → Option ι
  /-- The commit a file comes from. -/
  origin : Str → Option Commit
  /-- How often a file has been replaced. -/
  generation : Str → ℕ
  /-- The commits whose files have been put in place. -/
  committed : List Commit
  task : ι → Task

variable {ι : Type} [DecidableEq ι]

namespace Shared

/-- The state after a change of one task's record. -/
def setTask (s : Shared ι) (i : ι) (task : Task) : Shared ι :=
  { s with task := Function.update s.task i task }

@[simp] theorem setTask_task (s : Shared ι) (i : ι) (task : Task) :
    (s.setTask i task).task i = task := Function.update_self _ _ _

/-- The state after task `i` has renamed a file of commit `c`. -/
def place (s : Shared ι) (i : ι) (c : Commit) (source target : Str) (data : FileData) :
    Shared ι :=
  { s with
    dir := (s.dir.erase source).insert target data
    origin := Function.update s.origin target (some c)
    generation := Function.update s.generation target (s.generation target + 1)
    committed := c :: s.committed
    task := Function.update s.task i { s.task i with current := some c } }

/-- The state after a file step of task `i` without a fault. -/
def perform (i : ι) (o : FsOp) (s : Shared ι) : Shared ι :=
  let s' := { s with dir := (s.dir.performOk o).2 }
  match o with
  | .read path =>
      match s.dir.lookup path with
      | none => s'
      | some _ => s'.setTask i { s.task i with current := s.origin path }
  | .metadata path =>
      s'.setTask i
        { s.task i with checked := Function.update (s.task i).checked path (s.generation path) }
  | .rename source target =>
      match s.dir.lookup source with
      | none => s'
      | some _ =>
          { s' with
            origin := Function.update s.origin target (s.origin source)
            generation := Function.update s.generation target (s.generation target + 1)
            committed := (s.origin source).toList ++ s.committed
            task := Function.update s.task i { s.task i with current := s.origin source } }
  | .write path _ => { s' with origin := Function.update s.origin path (s.task i).current }
  | _ => s'

end Shared

/-- What may happen at an operation of task `i`. -/
def sharedEnv (i : ι) : Env Io (Shared ι)
  | .fs .readDir, s, _, s' => s' = s
  | .fs o, s, r, s' => r = (s.dir.performOk o).1 ∧ s' = s.perform i o
  | .tempCounter, s, n, s' => n = s.counter ∧
      s' = { s with
        counter := s.counter + 1
        owner := Function.update s.owner s.counter (some i) }
  | _, s, _, s' => s' = s

/-- One environment of the tasks: the clock stands still. -/
def sharedCalm (i : ι) : Handler Io (Shared ι)
  | .fs o, s => ((s.dir.performOk o).1, s.perform i o)
  | .tempCounter, s => (s.counter, { s with
      counter := s.counter + 1
      owner := Function.update s.owner s.counter (some i) })
  | .systemTime, s => ((0 : ℕ), s)
  | .checkLimit _ _, s => ((.error [] : Except Str Snapshot), s)
  | .send _, s => ((.error ⟨false, false, []⟩ : Except ClientError UpstreamResponse), s)
  | .charge _ _, s => ((.ok () : Except BandwidthError Unit), s)
  | .yield _, s => (((), s) : Unit × Shared ι)

theorem sharedEnv_sharedCalm (i : ι) (o : IoOp) (s : Shared ι) :
    sharedEnv i o s (sharedCalm i o s).1 (sharedCalm i o s).2 := by
  cases o with
  | fs o =>
      cases o with
      | readDir => exact rfl
      | _ => exact ⟨rfl, rfl⟩
  | tempCounter => exact ⟨rfl, rfl⟩
  | _ => exact rfl

/-- The part of an entry that lookups and refreshes leave alone. -/
def CacheEntry.lasting (entry : CacheEntry) : CacheEntry :=
  { entry with
    createdAt := 0
    lastAccess := 0
    ttl := 0
    etag := none
    lastModified := none
    key := []
    bodyPath := [] }

/-! ## What the tasks agree on -/

/-- Every file of the cache is part of a commit: metadata up to what lookups and
refreshes change, bodies to the byte. -/
structure Coherent (s : Shared ι) : Prop where
  fresh : ∀ n, s.counter ≤ n → s.owner n = none
  record : ∀ key data entry, s.dir.lookup (metaPath key) = some data →
    data.fromSlice = some entry →
      ∃ c ∈ s.committed, s.origin (metaPath key) = some c ∧ entry.lasting = c.entry.lasting
  body : ∀ key data, s.dir.lookup (bodyPath key) = some data →
    ∃ c ∈ s.committed, s.origin (bodyPath key) = some c ∧ data.bytes = c.body

/-- What the other tasks leave alone: the record of task `i`, its temporary
files, and the origin of a body that they do not replace. -/
structure Undisturbed (i : ι) (s s' : Shared ι) : Prop where
  task : s'.task i = s.task i
  committed : s.committed ⊆ s'.committed
  owner : ∀ n, s.owner n = some i → s'.owner n = some i
  temporary : ∀ n path, s.owner n = some i → IsTemporary path n →
    s'.dir.lookup path = s.dir.lookup path ∧ s'.origin path = s.origin path
  generation : ∀ key, s.generation (bodyPath key) ≤ s'.generation (bodyPath key)
  origin : ∀ key, s'.generation (bodyPath key) = s.generation (bodyPath key) →
    s'.origin (bodyPath key) = s.origin (bodyPath key)

/-- The agreement of the tasks. -/
def sharing : Agreement ι (Shared ι) := ⟨Coherent, Undisturbed⟩

section Steps

variable {s : Shared ι} {i : ι}

/-- A task may change its own record. -/
theorem keeps_setTask (h : Coherent s) (task : Task) :
    sharing.Keeps i s (s.setTask i task) := by
  refine ⟨⟨h.fresh, h.record, h.body⟩, fun j hj => ⟨?_, fun _ hc => hc, fun _ hn => hn, ?_, ?_, ?_⟩⟩
  · exact Function.update_of_ne hj _ _
  · exact fun _ _ _ _ => ⟨rfl, rfl⟩
  · exact fun _ => le_rfl
  · exact fun _ _ => rfl

theorem keeps_refl (h : Coherent s) : sharing.Keeps i s s := by
  have hkeeps := keeps_setTask h (s.task i) (i := i)
  unfold Shared.setTask at hkeeps
  rwa [Function.update_eq_self] at hkeeps

omit [DecidableEq ι] in
/-- A task may take a temporary-file number. -/
theorem keeps_count (h : Coherent s) :
    sharing.Keeps i s { s with
      counter := s.counter + 1
      owner := Function.update s.owner s.counter (some i) } := by
  refine ⟨⟨?_, h.record, h.body⟩, fun j hj => ⟨rfl, fun _ hc => hc, ?_, ?_, ?_, ?_⟩⟩
  · intro n hn
    dsimp only at hn ⊢
    rw [Function.update_of_ne (by omega)]
    exact h.fresh n (by omega)
  · intro n hn
    -- The number is fresh, so it is nobody else's.
    have hne : n ≠ s.counter := by
      rintro rfl
      rw [h.fresh _ le_rfl] at hn
      cases hn
    exact (Function.update_of_ne hne _ _).trans hn
  · exact fun _ _ _ _ => ⟨rfl, rfl⟩
  · exact fun _ => le_rfl
  · exact fun _ _ => rfl

omit [DecidableEq ι] in
/-- A task may remove the files of an entry. -/
theorem keeps_erase (h : Coherent s) {path : Str}
    (hpath : ∃ key, path = metaPath key ∨ path = bodyPath key) :
    sharing.Keeps i s { s with dir := s.dir.erase path } := by
  refine ⟨⟨h.fresh,
    fun key data entry hdata => h.record key data entry (Dir.lookup_of_erase hdata),
    fun key data hdata => h.body key data (Dir.lookup_of_erase hdata)⟩,
    fun j hj => ⟨rfl, fun _ hc => hc, fun _ hn => hn, ?_, fun _ => le_rfl, fun _ _ => rfl⟩⟩
  intro n name hn htemp
  obtain ⟨key, rfl | rfl⟩ := hpath
  · exact ⟨AList.lookup_erase_ne (htemp.ne_metaPath key), rfl⟩
  · exact ⟨AList.lookup_erase_ne (htemp.ne_bodyPath key), rfl⟩

omit [DecidableEq ι] in
/-- A task may write to a temporary file of its own. -/
theorem keeps_write (h : Coherent s) {n : ℕ} {path : Str} (hn : s.owner n = some i)
    (htemp : IsTemporary path n) (data : FileData) (c : Option Commit) :
    sharing.Keeps i s { s with
      dir := s.dir.insert path data
      origin := Function.update s.origin path c } := by
  refine ⟨⟨h.fresh, ?_, ?_⟩, fun j hj => ⟨rfl, fun _ hc => hc, fun _ hn => hn, ?_, fun _ => le_rfl,
    fun key _ => Function.update_of_ne (htemp.ne_bodyPath key).symm _ _⟩⟩
  · intro key found entry hfound
    have hne := (htemp.ne_metaPath key).symm
    dsimp only at hfound ⊢
    rw [AList.lookup_insert_ne hne] at hfound
    rw [Function.update_of_ne hne]
    exact h.record key found entry hfound
  · intro key found hfound
    have hne := (htemp.ne_bodyPath key).symm
    dsimp only at hfound ⊢
    rw [AList.lookup_insert_ne hne] at hfound
    rw [Function.update_of_ne hne]
    exact h.body key found hfound
  · intro m name hm hname
    have hne : name ≠ path := by
      refine hname.ne_of_ne htemp ?_
      rintro rfl
      exact hj (Option.some.inj (hm.symm.trans hn))
    exact ⟨AList.lookup_insert_ne hne, Function.update_of_ne hne _ _⟩

omit [DecidableEq ι] in
/-- After a rename every file but the target is what it was, or gone. -/
theorem lookup_renamed {d : Dir} {source target name : Str} {data found : FileData}
    (hname : name ≠ target)
    (h : ((d.erase source).insert target data).lookup name = some found) :
    d.lookup name = some found := by
  rw [AList.lookup_insert_ne hname] at h
  exact Dir.lookup_of_erase h

/-- What may be put in place: metadata of commit `c`, or its body. -/
def Fits (c : Commit) (target : Str) (data : FileData) : Prop :=
  (∃ key, target = metaPath key ∧
      ∀ entry, data.fromSlice = some entry → entry.lasting = c.entry.lasting) ∨
    ∃ key, target = bodyPath key ∧ data.bytes = c.body

section Place

variable {source target : Str} {data : FileData} {c : Commit}

theorem Coherent.place (h : Coherent s) (htarget : Fits c target data) :
    Coherent (s.place i c source target data) := by
  refine ⟨h.fresh, ?_, ?_⟩
  · intro key found entry hfound hentry
    unfold Shared.place at hfound ⊢
    dsimp only at hfound ⊢
    by_cases hkey : metaPath key = target
    · subst hkey
      rw [AList.lookup_insert, Option.some.injEq] at hfound
      subst hfound
      refine ⟨c, List.mem_cons_self, Function.update_self _ _ _, ?_⟩
      rcases htarget with ⟨_, -, hlasting⟩ | ⟨key', heq, -⟩
      · exact hlasting entry hentry
      · exact absurd heq (metaPath_ne_bodyPath key key')
    · obtain ⟨c', hc', horigin, hlasting⟩ :=
        h.record key found entry (lookup_renamed hkey hfound) hentry
      exact ⟨c', List.mem_cons_of_mem _ hc', (Function.update_of_ne hkey _ _).trans horigin,
        hlasting⟩
  · intro key found hfound
    unfold Shared.place at hfound ⊢
    dsimp only at hfound ⊢
    by_cases hkey : bodyPath key = target
    · subst hkey
      rw [AList.lookup_insert, Option.some.injEq] at hfound
      subst hfound
      refine ⟨c, List.mem_cons_self, Function.update_self _ _ _, ?_⟩
      rcases htarget with ⟨key', heq, -⟩ | ⟨_, -, hbytes⟩
      · exact absurd heq.symm (metaPath_ne_bodyPath key' key)
      · exact hbytes
    · obtain ⟨c', hc', horigin, hbytes⟩ := h.body key found (lookup_renamed hkey hfound)
      exact ⟨c', List.mem_cons_of_mem _ hc', (Function.update_of_ne hkey _ _).trans horigin, hbytes⟩

theorem Undisturbed.place {j : ι} (hj : j ≠ i) {n : ℕ} (hn : s.owner n = some i)
    (htemp : IsTemporary source n) (htarget : Fits c target data) :
    Undisturbed j s (s.place i c source target data) := by
  refine ⟨Function.update_of_ne hj _ _, fun _ hc => List.mem_cons_of_mem _ hc, fun _ hn => hn,
    ?_, ?_, ?_⟩
  · intro m name hm hname
    -- A temporary file of task `j` is neither the source nor the target.
    have hsource : name ≠ source := by
      refine hname.ne_of_ne htemp ?_
      rintro rfl
      exact hj (Option.some.inj (hm.symm.trans hn))
    have hplace : name ≠ target := by
      rcases htarget with ⟨key, rfl, -⟩ | ⟨key, rfl, -⟩
      · exact hname.ne_metaPath key
      · exact hname.ne_bodyPath key
    refine ⟨?_, Function.update_of_ne hplace _ _⟩
    unfold Shared.place
    dsimp only
    rw [AList.lookup_insert_ne hplace, AList.lookup_erase_ne hsource]
  · intro key
    unfold Shared.place
    dsimp only
    by_cases hkey : bodyPath key = target
    · rw [← hkey, Function.update_self]
      exact Nat.le_succ _
    · rw [Function.update_of_ne hkey]
  · intro key hgeneration
    unfold Shared.place at hgeneration ⊢
    dsimp only at hgeneration ⊢
    by_cases hkey : bodyPath key = target
    · rw [← hkey, Function.update_self] at hgeneration
      omega
    · exact Function.update_of_ne hkey _ _

/-- A task may put a temporary file of its own in place where it fits. -/
theorem keeps_place (h : Coherent s) {n : ℕ} (hn : s.owner n = some i)
    (htemp : IsTemporary source n) (htarget : Fits c target data) :
    sharing.Keeps i s (s.place i c source target data) :=
  ⟨h.place htarget, fun _ hj => .place hj hn htemp htarget⟩

end Place

end Steps

/-! ## What a task knows -/

section Knowledge

variable {i : ι} {c : Commit} {keys : List Str} {n : ℕ} {path : Str} {data : FileData}
  {s s' : Shared ι}

/-- Task `i` handles files of commit `c`.  For each of the `keys` it has asked for
the length of the body, and as long as the body is not replaced its bytes are
those of the commit. -/
structure Handles (i : ι) (c : Commit) (keys : List Str) (s : Shared ι) : Prop where
  current : (s.task i).current = some c
  committed : c ∈ s.committed
  checked : ∀ key ∈ keys, (s.task i).checked (bodyPath key) ≤ s.generation (bodyPath key) ∧
    (s.generation (bodyPath key) = (s.task i).checked (bodyPath key) →
      ∃ c', s.origin (bodyPath key) = some c' ∧ c'.body = c.body)

/-- Task `i` has a temporary file of commit `c`. -/
structure Staged (i : ι) (c : Commit) (n : ℕ) (path : Str) (data : FileData) (s : Shared ι) :
    Prop where
  owner : s.owner n = some i
  temporary : IsTemporary path n
  file : s.dir.lookup path = some data
  origin : s.origin path = some c

/-- A task that has renamed a file of a commit handles it. -/
theorem handles_place (s : Shared ι) (i : ι) (c : Commit) (source target : Str) (data : FileData) :
    Handles i c [] (s.place i c source target data) := by
  refine ⟨?_, List.mem_cons_self, fun key hkey => (nomatch hkey)⟩
  unfold Shared.place
  dsimp only
  rw [Function.update_self]

/-- Putting metadata in place replaces no body. -/
theorem Handles.place_metaPath (h : Handles i c keys s) {source key : Str} {data : FileData} :
    Handles i c keys (s.place i c source (metaPath key) data) := by
  refine ⟨(handles_place s i c source _ data).current, List.mem_cons_self, ?_⟩
  intro key' hkey
  have hne := (metaPath_ne_bodyPath key key').symm
  unfold Shared.place
  dsimp only
  rw [Function.update_self, Function.update_of_ne hne, Function.update_of_ne hne]
  exact h.checked key' hkey

omit [DecidableEq ι] in
theorem Handles.stable (h : Handles i c keys s) (hs : Undisturbed i s s') :
    Handles i c keys s' := by
  refine ⟨?_, hs.committed h.committed, fun key hkey => ?_⟩
  · rw [hs.task]
    exact h.current
  · obtain ⟨hle, horigin⟩ := h.checked key hkey
    have hgeneration := hs.generation key
    rw [hs.task]
    refine ⟨hle.trans hgeneration, fun heq => ?_⟩
    rw [hs.origin key (by omega)]
    exact horigin (by omega)

omit [DecidableEq ι] in
theorem Staged.stable (h : Staged i c n path data s) (hs : Undisturbed i s s') :
    Staged i c n path data s' := by
  obtain ⟨hfile, horigin⟩ := hs.temporary n path h.owner h.temporary
  exact ⟨hs.owner n h.owner, h.temporary, hfile.trans h.file, horigin.trans h.origin⟩

end Knowledge

/-! ## The file steps -/

section Operations

variable {i : ι} {c : Commit} {n : ℕ} {path source target : Str} {data : FileData}
  {s s' : Shared ι}

theorem perform_read (hfile : s.dir.lookup path = some data) :
    s.perform i (.read path) = s.setTask i { s.task i with current := s.origin path } := by
  unfold Shared.perform
  dsimp only
  rw [hfile]
  rfl

theorem perform_read_missing (hfile : s.dir.lookup path = none) : s.perform i (.read path) = s := by
  unfold Shared.perform
  dsimp only
  rw [hfile]
  rfl

theorem perform_removeFile (s : Shared ι) (i : ι) (path : Str) :
    s.perform i (.removeFile path) = s ∨
      s.perform i (.removeFile path) = { s with dir := s.dir.erase path } := by
  unfold Shared.perform Dir.performOk
  dsimp only
  cases s.dir.lookup path with
  | none => exact .inl rfl
  | some data => exact .inr rfl

theorem perform_rename (h : Staged i c n source data s) :
    s.perform i (.rename source target) = s.place i c source target data := by
  unfold Shared.perform Dir.performOk
  dsimp only
  rw [h.file, h.origin]
  rfl

/-- **A removal keeps the agreement.** -/
theorem RemovesEntries.keeps (o : IoOp) (s : Shared ι) (r : Io.Res o) (s' : Shared ι)
    (ho : RemovesEntries o) (h : Coherent s) (hE : sharedEnv i o s r s') :
    sharing.Keeps i s s' := by
  cases o with
  | fs o =>
      cases o with
      | read path =>
          obtain ⟨-, rfl⟩ := hE
          cases hfile : s.dir.lookup path with
          | none =>
              rw [perform_read_missing hfile]
              exact keeps_refl h
          | some data =>
              rw [perform_read hfile]
              exact keeps_setTask h _
      | metadata path =>
          obtain ⟨-, rfl⟩ := hE
          exact keeps_setTask h _
      | removeFile path =>
          obtain ⟨-, rfl⟩ := hE
          rcases perform_removeFile s i path with heq | heq
          · rw [heq]
            exact keeps_refl h
          · rw [heq]
            exact keeps_erase h ho
      | readDir =>
          obtain rfl : s' = s := hE
          exact keeps_refl h
      | _ => cases ho
  | _ => cases ho

end Operations

end Corsget
