import Corsget.CrashSafety
import Corsget.Library.Interleaving

/-!
# Commits that other tasks undo

A lookup reads the metadata of its key and then removes it or writes it back, and a
refresh writes what an earlier lookup has read; a commit puts new metadata in
place.  When the commit comes in between, the other task removes or replaces metadata
that it has not read.

`commit_survives` is about any number of lookups and refreshes of one key next to one
commit of it, one file step at a time and in any order.  Next to the directory and
the counter the state keeps a record that no task can see: whether the commit's
metadata is in place, and which tasks have read the metadata since then.
-/

namespace Corsget

open Text Effect

/-- The directory, the counter and the record: the task that a temporary-file number
was given to, whether the commit's metadata has been put in place, and which tasks have
read the metadata after that and not removed or replaced it since. -/
structure Contest (ι : Type) where
  dir : Dir
  counter : ℕ
  owner : ℕ → Option ι
  placed : Bool
  upToDate : ι → Bool

variable {ι : Type} [DecidableEq ι]

/-- The state after a file step of task `i` without a fault; task `c` commits under the
key. -/
def Contest.perform (c : ι) (key : Str) (i : ι) (o : FsOp) (s : Contest ι) : Contest ι :=
  let s' := { s with dir := (s.dir.performOk o).2 }
  match o with
  | .read path =>
      if path = metaPath key then
        { s' with upToDate := Function.update s.upToDate i s.placed }
      else s'
  | .removeFile path =>
      if path = metaPath key then { s' with upToDate := Function.update s.upToDate i false }
      else s'
  | .rename _ target =>
      if target = metaPath key then
        { s' with
          placed := s.placed || decide (i = c)
          upToDate := Function.update s.upToDate i false }
      else s'
  | _ => s'

/-- What may happen at an operation of task `i`. -/
def contestEnv (c : ι) (key : Str) (i : ι) : Env Io (Contest ι)
  | .fs .readDir, s, _, s' => s' = s
  | .fs o, s, r, s' => r = (s.dir.performOk o).1 ∧ s' = s.perform c key i o
  | .tempCounter, s, n, s' => n = s.counter ∧
      s' = { s with
        counter := s.counter + 1
        owner := Function.update s.owner s.counter (some i) }
  | _, s, _, s' => s' = s

/-- One environment of the tasks: the clock stands still. -/
def contestCalm (c : ι) (key : Str) (i : ι) : Handler Io (Contest ι)
  | .fs .readDir, s => (.ok (s.dir.keys.map .ok), s)
  | .fs o, s => ((s.dir.performOk o).1, s.perform c key i o)
  | .tempCounter, s => (s.counter, { s with
      counter := s.counter + 1
      owner := Function.update s.owner s.counter (some i) })
  | .systemTime, s => ((0 : ℕ), s)
  | .checkLimit _ _, s => ((.error [] : Except Str Snapshot), s)
  | .send _, s => ((.error ⟨false, false, []⟩ : Except ClientError UpstreamResponse), s)
  | .charge _ _, s => ((.ok () : Except BandwidthError Unit), s)
  | .yield _, s => (((), s) : Unit × Contest ι)

theorem contestEnv_contestCalm (c : ι) (key : Str) (i : ι) (o : IoOp) (s : Contest ι) :
    contestEnv c key i o s (contestCalm c key i o s).1 (contestCalm c key i o s).2 := by
  cases o with
  | fs o =>
      cases o with
      | readDir => exact rfl
      | _ => exact ⟨rfl, rfl⟩
  | tempCounter => exact ⟨rfl, rfl⟩
  | _ => exact rfl

section Visits

variable [Crates]

/-! ## Tasks -/

/-- A task on the files of one key. -/
inductive Visit where
  /-- A lookup. -/
  | lookup (plan : CachePlan) (now : ℕ)
  /-- A refresh of an entry that was found before. -/
  | refresh (entry : CacheEntry) (confirmed : HeaderMap) (ttl : ℕ)
  /-- A lookup, and a refresh of what it finds. -/
  | revalidate (plan : CachePlan) (now : ℕ) (confirmed : HeaderMap)
  /-- The end of a live response. -/
  | commit (cache : Cache) (w : CacheWriter)

/-- What a task does. -/
def Visit.prog : Visit → Prog Io (Except IoError Unit)
  | lookup plan now => do
      let _ ← Corsget.lookup plan now
      return .ok ()
  | refresh entry confirmed ttl => do
      let (_, written) ← Corsget.refresh entry confirmed ttl
      return written
  | revalidate plan now confirmed => do
      match ← Corsget.lookup plan now with
      | none => return .ok ()
      | some entry =>
          let (_, written) ← Corsget.refresh entry confirmed plan.ttl
          return written
  | commit cache w => w.finish cache

/-- A lookup or a refresh of the key. -/
def Visit.Reads (key : Str) : Visit → Prop
  | lookup plan _ => plan.key = key
  | refresh entry _ _ => entry.key = key
  | revalidate plan _ _ => plan.key = key
  | commit _ _ => False

/-! ## The statement -/

/-- The operations that remove or replace the metadata of the key. -/
def IoOp.changes (key : Str) : IoOp → Bool
  | .fs (.removeFile path) => path == metaPath key
  | .fs (.rename _ target) => target == metaPath key
  | _ => false

/-- The operations that remove a file. -/
def IoOp.removes : IoOp → Bool
  | .fs (.removeFile _) => true
  | _ => false

/-- The commit evicts nothing. -/
def NoEviction (c : ι) (i : ι) (_s : Contest ι) (o : IoOp) (_r : Io.Res o) : Prop :=
  i = c → o.removes = false

/-- **The condition on a step.**  Once the commit's metadata is in place, another task
removes or replaces it only if it has read it after that and not removed or replaced it
since. -/
def Timely (c : ι) (key : Str) (i : ι) (s : Contest ι) (o : IoOp) (r : Io.Res o) : Prop :=
  NoEviction c i s o r ∧
    (i ≠ c → o.changes key = true → s.placed = true → s.upToDate i = true)

instance (c : ι) (i : ι) (s : Contest ι) (o : IoOp) (r : Io.Res o) :
    Decidable (NoEviction c i s o r) := by
  unfold NoEviction
  infer_instance

instance (c : ι) (key : Str) (i : ι) (s : Contest ι) (o : IoOp) (r : Io.Res o) :
    Decidable (Timely c key i s o r) := by
  unfold Timely
  infer_instance

/-- Lookups and refreshes of the key next to a commit of it, whose writer has its whole
body in a temporary file. -/
structure Contested (job : ι → Visit) (c : ι) (cache : Cache) (w : CacheWriter) (body : Bytes)
    (s : Contest ι) : Prop where
  committer : job c = .commit cache w
  others : ∀ i, i ≠ c → (job i).Reads w.entry.key
  version : w.entry.version = cacheVersion
  length : w.bodyLen = body.length
  staged : ∃ tempId, w.tempBody = tempBodyPath w.entry.key tempId ∧ s.owner tempId = some c
  file : s.dir.lookup w.tempBody = some (.raw body)
  fresh : ∀ n, s.counter ≤ n → s.owner n = none
  unplaced : s.placed = false
  unread : ∀ i, s.upToDate i = false

/-- **The commit survives** in every run whose steps meet `C`: when `finish` has returned
`Ok` and the other tasks are done, a lookup on its own returns the committed entry, up to
the last access. -/
def CommitSurvives (C : (i : ι) → Contest ι → (o : IoOp) → Io.Res o → Prop) (job : ι → Visit)
    (c : ι) (w : CacheWriter) (s : Contest ι) : Prop :=
  ∀ pool s', Relation.ReflTransGen (Interleave (contestEnv c w.entry.key) C)
      (fun i => (job i).prog, s) (pool, s') →
    pool c = .ret (.ok ()) → (∀ i, ∃ r, pool i = .ret r) →
      ∀ plan now, plan.key = w.entry.key → ∃ entry,
        (exec calm (lookup plan now) s'.dir).1 = some entry ∧ entry.response = w.final.response

/-! ## What the tasks agree on -/

/-- Once the commit's metadata is in place, the files of the key are the commit's, up to
the last access. -/
structure Contest.Sound (w : CacheWriter) (body : Bytes) (s : Contest ι) : Prop where
  fresh : ∀ n, s.counter ≤ n → s.owner n = none
  record : s.placed = true → ∃ entry, s.dir.lookup (metaPath w.entry.key) = some (.json entry) ∧
    entry.response = w.final.response
  body : s.placed = true → s.dir.lookup (bodyPath w.entry.key) = some (.raw body)
  read : ∀ i, s.upToDate i = true → s.placed = true

/-- What the other tasks leave alone: the record and the temporary files of task `i`; and
of the committing task, the body it has put in place. -/
structure Unhindered (c : ι) (key : Str) (i : ι) (s s' : Contest ι) : Prop where
  upToDate : s'.upToDate i = s.upToDate i
  owner : ∀ n, s.owner n = some i → s'.owner n = some i
  temporary : ∀ n path, s.owner n = some i → IsTemporary path n →
    s'.dir.lookup path = s.dir.lookup path
  commit : i = c → s'.placed = s.placed ∧
    s'.dir.lookup (bodyPath key) = s.dir.lookup (bodyPath key)

/-- The agreement of the tasks. -/
def contest (c : ι) (w : CacheWriter) (body : Bytes) : Agreement ι (Contest ι) :=
  ⟨Contest.Sound w body, Unhindered c w.entry.key⟩

/-- The specification of a task's program among the others. -/
abbrev Visiting {α : Type} (c : ι) (w : CacheWriter) (body : Bytes) (i : ι)
    (Q : α → Contest ι → Prop) (p : Prog Io α) (s : Contest ι) : Prop :=
  Upholds (contestEnv c w.entry.key) (Timely c w.entry.key) (contest c w body) i Q p s

variable {c i : ι} {w : CacheWriter} {body : Bytes} {s : Contest ι}

omit [Crates] in
/-- A step that looks at the files. -/
theorem keeps_reading (h : s.Sound w body) (upToDate : Bool)
    (hread : upToDate = true → s.placed = true) :
    (contest c w body).Keeps i s
      { s with upToDate := Function.update s.upToDate i upToDate } := by
  refine ⟨⟨h.fresh, h.record, h.body, fun j hj => ?_⟩, fun j hj => ⟨?_, fun _ hn => hn,
    fun _ _ _ _ => rfl, fun _ => ⟨rfl, rfl⟩⟩⟩
  · dsimp only at hj
    by_cases hji : j = i
    · subst hji
      rw [Function.update_self] at hj
      exact hread hj
    · rw [Function.update_of_ne hji] at hj
      exact h.read j hj
  · exact Function.update_of_ne hj _ _

omit [Crates] in
theorem Contest.keeps_refl (h : s.Sound w body) : (contest c w body).Keeps i s s := by
  have hkeeps := @keeps_reading _ _ c i w body s h (s.upToDate i) (h.read i)
  rwa [Function.update_eq_self] at hkeeps

omit [DecidableEq ι] [Crates] in
/-- A task may take a temporary-file number. -/
theorem Contest.keeps_count (h : s.Sound w body) :
    (contest c w body).Keeps i s { s with
      counter := s.counter + 1
      owner := Function.update s.owner s.counter (some i) } := by
  refine ⟨⟨?_, h.record, h.body, h.read⟩, fun j hj => ⟨rfl, ?_, fun _ _ _ _ => rfl,
    fun _ => ⟨rfl, rfl⟩⟩⟩
  · intro n hn
    dsimp only at hn ⊢
    rw [Function.update_of_ne (by omega)]
    exact h.fresh n (by omega)
  · intro n hn
    -- The number is fresh, so it is nobody else's.
    have hne : n ≠ s.counter := by
      rintro rfl
      rw [h.fresh _ le_rfl] at hn
      cases hn
    exact (Function.update_of_ne hne _ _).trans hn

omit [DecidableEq ι] [Crates] in
/-- A task may write to a temporary file of its own. -/
theorem Contest.keeps_write (h : s.Sound w body) {n : ℕ} {path : Str} (hn : s.owner n = some i)
    (htemp : IsTemporary path n) (data : FileData) :
    (contest c w body).Keeps i s { s with dir := s.dir.insert path data } := by
  have hmeta := (htemp.ne_metaPath w.entry.key).symm
  have hbody := (htemp.ne_bodyPath w.entry.key).symm
  refine ⟨⟨h.fresh, fun hplaced => ?_, fun hplaced => ?_, h.read⟩, fun j hj => ⟨rfl, fun _ hn => hn,
    ?_, fun _ => ⟨rfl, AList.lookup_insert_ne hbody⟩⟩⟩
  · obtain ⟨entry, hentry, hresponse⟩ := h.record hplaced
    exact ⟨entry, (AList.lookup_insert_ne hmeta).trans hentry, hresponse⟩
  · exact (AList.lookup_insert_ne hbody).trans (h.body hplaced)
  · intro m name hm hname
    refine AList.lookup_insert_ne (hname.ne_of_ne htemp ?_)
    rintro rfl
    exact hj (Option.some.inj (hm.symm.trans hn))

/-- Task `i` has a temporary file. -/
structure Contest.Temporary (i : ι) (n : ℕ) (path : Str) (data : FileData) (s : Contest ι) :
    Prop where
  owner : s.owner n = some i
  temporary : IsTemporary path n
  file : s.dir.lookup path = some data

omit [DecidableEq ι] [Crates] in
theorem Contest.Temporary.stable {n : ℕ} {path key : Str} {data : FileData} {s' : Contest ι}
    (h : s.Temporary i n path data) (hs : Unhindered c key i s s') :
    s'.Temporary i n path data :=
  ⟨hs.owner n h.owner, h.temporary, (hs.temporary n path h.owner h.temporary).trans h.file⟩

omit [DecidableEq ι] [Crates] in
/-- A temporary file of task `i` goes to a place where no temporary file is: the files of
the others stay. -/
theorem Contest.Temporary.renamed {n : ℕ} {source target : Str} {data : FileData}
    (h : s.Temporary i n source data) {key : Str}
    (htarget : target = metaPath key ∨ target = bodyPath key) {j : ι} (hj : j ≠ i) {m : ℕ}
    {name : Str} (hm : s.owner m = some j) (hname : IsTemporary name m) :
    ((s.dir.erase source).insert target data).lookup name = s.dir.lookup name := by
  have hsource : name ≠ source := by
    refine hname.ne_of_ne h.temporary ?_
    rintro rfl
    exact hj (Option.some.inj (hm.symm.trans h.owner))
  have hne : name ≠ target := by
    rcases htarget with rfl | rfl
    · exact hname.ne_metaPath key
    · exact hname.ne_bodyPath key
  rw [AList.lookup_insert_ne hne, AList.lookup_erase_ne hsource]

omit [Crates] in
theorem Contest.perform_rename {n : ℕ} {source : Str} {data : FileData} {key : Str}
    (h : s.Temporary i n source data) (target : Str) :
    (s.dir.performOk (.rename source target)).1 = .ok () ∧
      s.perform c key i (.rename source target) =
        (if target = metaPath key then
          { s with
            dir := (s.dir.erase source).insert target data
            placed := s.placed || decide (i = c)
            upToDate := Function.update s.upToDate i false }
        else { s with dir := (s.dir.erase source).insert target data }) := by
  unfold Contest.perform Dir.performOk
  dsimp only
  rw [h.file]
  exact ⟨rfl, rfl⟩

omit [Crates] in
/-- A task may put metadata in place: the commit's, or before the commit any. -/
theorem Contest.keeps_place (h : s.Sound w body) {n : ℕ} {source : Str} {entry : CacheEntry}
    (hstaged : s.Temporary i n source (.json entry))
    (hentry : s.placed = true ∨ i = c → entry.response = w.final.response)
    (hbody : i = c → s.dir.lookup (bodyPath w.entry.key) = some (.raw body)) :
    (contest c w body).Keeps i s
      (s.perform c w.entry.key i (.rename source (metaPath w.entry.key))) := by
  rw [(Contest.perform_rename hstaged _).2, if_pos rfl]
  have hkept : ((s.dir.erase source).insert (metaPath w.entry.key) (.json entry)).lookup
      (bodyPath w.entry.key) = s.dir.lookup (bodyPath w.entry.key) :=
    (AList.lookup_insert_ne (metaPath_ne_bodyPath _ _).symm).trans
      (AList.lookup_erase_ne (hstaged.temporary.ne_bodyPath _).symm)
  refine ⟨⟨h.fresh, fun hplaced => ?_, fun hplaced => ?_, fun j hj => ?_⟩,
    fun j hj => ⟨Function.update_of_ne hj _ _, fun _ hn => hn, fun m name hm hname =>
      hstaged.renamed (.inl rfl) hj hm hname, fun hjc => ⟨?_, hkept⟩⟩⟩
  · refine ⟨entry, AList.lookup_insert _, hentry ?_⟩
    simpa using hplaced
  · have hplaced : s.placed = true ∨ i = c := by simpa using hplaced
    exact hkept.trans (hplaced.elim h.body hbody)
  · by_cases hji : j = i
    · subst hji
      have hfalse : false = true := (Function.update_self _ _ _).symm.trans hj
      cases hfalse
    · have hread : s.upToDate j = true := (Function.update_of_ne hji _ _).symm.trans hj
      show (s.placed || decide (i = c)) = true
      rw [h.read j hread]
      rfl
  · subst hjc
    show (s.placed || decide (i = j)) = s.placed
    rw [decide_eq_false hj.symm, Bool.or_false]

omit [Crates] in
/-- Before the commit's metadata is in place, its body may be put in place. -/
theorem Contest.keeps_body (h : s.Sound w body) {n : ℕ} {source : Str}
    (hstaged : s.Temporary c n source (.raw body)) (hunplaced : s.placed = false) :
    (contest c w body).Keeps c s
      (s.perform c w.entry.key c (.rename source (bodyPath w.entry.key))) := by
  rw [(Contest.perform_rename hstaged _).2, if_neg (metaPath_ne_bodyPath _ _).symm]
  have hnot : ∀ {P : Prop}, s.placed = true → P := by
    intro P hplaced
    rw [hunplaced] at hplaced
    cases hplaced
  exact ⟨⟨h.fresh, hnot, hnot, h.read⟩, fun j hj => ⟨rfl, fun _ hn => hn, fun m name hm hname =>
    hstaged.renamed (.inr rfl) hj hm hname, fun hjc => absurd hjc hj⟩⟩

omit [Crates] in
/-- Before that, another task may remove the metadata. -/
theorem Contest.keeps_erase (h : s.Sound w body) (hi : i ≠ c) (hunplaced : s.placed = false) :
    (contest c w body).Keeps i s
      (s.perform c w.entry.key i (.removeFile (metaPath w.entry.key))) := by
  have hnot : ∀ {P : Prop}, s.placed = true → P := by
    intro P hplaced
    rw [hunplaced] at hplaced
    cases hplaced
  have hkept : ∀ name, name ≠ metaPath w.entry.key →
      (s.dir.performOk (.removeFile (metaPath w.entry.key))).2.lookup name = s.dir.lookup name := by
    intro name hname
    have htouched : name ∉ (FsOp.removeFile (metaPath w.entry.key)).touched := by
      simpa [FsOp.touched] using hname
    exact Dir.lookup_perform htouched none s.dir
  unfold Contest.perform
  dsimp only
  rw [if_pos rfl]
  refine ⟨⟨h.fresh, hnot, hnot, fun j hj => ?_⟩, fun j hj => ⟨Function.update_of_ne hj _ _,
    fun _ hn => hn, fun m name _ hname => hkept name (hname.ne_metaPath _),
    fun _ => ⟨rfl, hkept _ (metaPath_ne_bodyPath _ _).symm⟩⟩⟩
  by_cases hji : j = i
  · subst hji
    have hfalse : false = true := (Function.update_self _ _ _).symm.trans hj
    cases hfalse
  · exact h.read j ((Function.update_of_ne hji _ _).symm.trans hj)

/-! ## Lookups and refreshes -/

omit [DecidableEq ι] [Crates] in
/-- A task that has read the commit's metadata knows what this implies; the others do not
undo it. -/
theorem Visiting.known {P : Prop} {s s' : Contest ι} (h : s.upToDate i = true → P)
    (hs : Unhindered c w.entry.key i s s') : s'.upToDate i = true → P := by
  rw [hs.upToDate]
  exact h

/-- Metadata that another task writes: if it has read the commit's, then it writes the
commit's. -/
theorem writeMetadata_visiting {entry : CacheEntry} (hi : i ≠ c) (hkey : entry.key = w.entry.key)
    (hentry : s.upToDate i = true → entry.response = w.final.response) :
    Visiting c w body i (fun _ s' => s'.upToDate i = false) (writeMetadata entry) s := by
  unfold writeMetadata
  rw [hkey]
  simp only [Io.fetchAdd_bind, Io.write_bind]
  refine .op (fun s => s.upToDate i = true → entry.response = w.final.response) hentry
    (fun _ _ h hs => Visiting.known h hs) ?_
  rintro s₁ h₁ hinv tempId s₂ ⟨rfl, rfl⟩ -
  refine ⟨Contest.keeps_count hinv, ?_⟩
  have htemp := tempMetaPath_isTemporary w.entry.key s₁.counter
  refine .op (fun s => (s.upToDate i = true → entry.response = w.final.response) ∧
      s.owner s₁.counter = some i) ⟨h₁, Function.update_self _ _ _⟩
    (fun _ _ h hs => ⟨Visiting.known h.1 hs, hs.owner _ h.2⟩) ?_
  rintro s₃ ⟨h₃, howner⟩ hinv r s₄ ⟨rfl, rfl⟩ -
  refine ⟨Contest.keeps_write hinv howner htemp _, ?_⟩
  refine .op (fun s => (s.upToDate i = true → entry.response = w.final.response) ∧
      s.Temporary i s₁.counter (tempMetaPath w.entry.key s₁.counter) (.json entry.persisted))
    ⟨h₃, howner, htemp, AList.lookup_insert _⟩
    (fun _ _ h hs => ⟨Visiting.known h.1 hs, h.2.stable hs⟩) ?_
  rintro s₅ ⟨h₅, hstaged⟩ hinv r s₆ ⟨rfl, rfl⟩ htimely
  refine ⟨Contest.keeps_place hinv hstaged ?_ fun hic => absurd hic hi, ?_⟩
  · intro hplaced
    have hread := htimely.2 hi (beq_self_eq_true _) (hplaced.resolve_right hi)
    exact h₅ hread
  · refine .ret (fun _ _ h hs => hs.upToDate.trans h) ?_
    rw [(Contest.perform_rename hstaged _).2, if_pos rfl]
    exact Function.update_self _ _ _

omit [Crates] in
/-- The metadata is removed by a task that has not read the commit's. -/
theorem removeFile_visiting {α : Type} {Q : α → Contest ι → Prop} {a : α} (hi : i ≠ c)
    (hunread : s.upToDate i = true → False) (hQ : ∀ s, Q a s) :
    Visiting c w body i Q (do let _ ← Io.removeFile (metaPath w.entry.key); return a) s := by
  refine .op (fun s => s.upToDate i = true → False) hunread (fun _ _ h hs => Visiting.known h hs) ?_
  rintro s₁ h₁ hinv r s₂ ⟨-, rfl⟩ htimely
  refine ⟨Contest.keeps_erase hinv hi ?_, .ret (fun _ s' _ _ => hQ s') (hQ _)⟩
  rw [← Bool.not_eq_true]
  exact fun hplaced => h₁ (htimely.2 hi (beq_self_eq_true _) hplaced)

/-- **A lookup**: one that has read the commit's metadata finds the commit's body, and
writes the commit's metadata back. -/
theorem lookup_visiting {plan : CachePlan} (hi : i ≠ c) (hkey : plan.key = w.entry.key)
    (hversion : w.entry.version = cacheVersion) (hlength : w.bodyLen = body.length) (now : ℕ) :
    Visiting c w body i
      (fun result s' => ∀ entry, result = some entry →
        entry.key = w.entry.key ∧ s'.upToDate i = false)
      (lookup plan now) s := by
  have hnone : ∀ s' : Contest ι, ∀ entry : CacheEntry, none = some entry →
      entry.key = w.entry.key ∧ s'.upToDate i = false := by
    intro s' entry h
    cases h
  unfold lookup
  rw [hkey]
  simp only [Io.read_bind, Io.metadata_bind]
  refine .op (fun _ => True) trivial (fun _ _ _ _ => trivial) ?_
  rintro s₁ - hinv r s₂ ⟨rfl, rfl⟩ -
  have hperform : s₁.perform c w.entry.key i (.read (metaPath w.entry.key)) =
      { s₁ with upToDate := Function.update s₁.upToDate i s₁.placed } := if_pos rfl
  rw [hperform]
  refine ⟨keeps_reading hinv _ id, ?_⟩
  have hread : Function.update s₁.upToDate i s₁.placed i = s₁.placed := Function.update_self _ _ _
  unfold Dir.performOk
  dsimp only
  cases hdata : s₁.dir.lookup (metaPath w.entry.key) with
  | none => exact .ret (fun _ s' _ _ => hnone s') (hnone _)
  | some data =>
      -- What has been read is the commit's, if that is in place.
      have hrecord : Function.update s₁.upToDate i s₁.placed i = true →
          ∃ entry, data = .json entry ∧ entry.response = w.final.response := by
        intro hplaced
        obtain ⟨entry, hentry, hresponse⟩ := hinv.record (hread.symm.trans hplaced)
        exact ⟨entry, Option.some.inj (hdata.symm.trans hentry), hresponse⟩
      dsimp only
      cases hentry : data.fromSlice with
      | none =>
          refine removeFile_visiting hi (fun hplaced => ?_) hnone
          obtain ⟨entry, rfl, -⟩ := hrecord hplaced
          cases hentry
      | some entry =>
          have hresponse : Function.update s₁.upToDate i s₁.placed i = true →
              entry.response = w.final.response := by
            intro hplaced
            obtain ⟨found, rfl, hfound⟩ := hrecord hplaced
            obtain rfl := Option.some.inj hentry
            exact hfound
          refine .op (fun s => s.upToDate i = true → entry.response = w.final.response) hresponse
            (fun _ _ h hs => Visiting.known h hs) ?_
          rintro s₃ h₃ hinv r s₄ ⟨rfl, rfl⟩ -
          refine ⟨Contest.keeps_refl hinv, ?_⟩
          split
          · next hcheck =>
            -- The commit's entry passes the check.
            refine removeFile_visiting hi (fun hplaced => ?_) hnone
            have hfile := hinv.body (hinv.read i hplaced)
            have hsame := h₃ hplaced
            have hentryVersion : entry.version = cacheVersion :=
              (congrArg CacheEntry.version hsame).trans hversion
            have hbodyLen : entry.bodyLen = body.length :=
              (congrArg CacheEntry.bodyLen hsame).trans hlength
            rcases hcheck with hne | hne
            · exact hne hentryVersion
            · refine hne ?_
              unfold Dir.performOk
              dsimp only
              rw [hfile, hbodyLen]
              rfl
          · refine .bind (writeMetadata_visiting hi rfl h₃) ?_
            intro _ s₅ h₅
            refine .ret ?_ ?_
            · intro s s' h hs entry hentry
              exact ⟨(h entry hentry).1, hs.upToDate.trans (h entry hentry).2⟩
            · intro found hfound
              obtain rfl := Option.some.inj hfound
              exact ⟨rfl, h₅⟩

/-- **A refresh** by a task that has not read the commit's metadata. -/
theorem refresh_visiting {entry : CacheEntry} (hi : i ≠ c) (hkey : entry.key = w.entry.key)
    (hunread : s.upToDate i = false) (confirmed : HeaderMap) (ttl : ℕ) :
    Visiting c w body i (fun _ _ => True) (refresh entry confirmed ttl) s := by
  unfold refresh
  simp only [Io.nowSeconds_bind, Io.systemTime_bind]
  refine .op (fun s => s.upToDate i = false) hunread (fun _ _ h hs => hs.upToDate.trans h) ?_
  rintro s₁ h₁ hinv created s₂ rfl -
  refine ⟨Contest.keeps_refl hinv, ?_⟩
  refine .op (fun s => s.upToDate i = false) h₁ (fun _ _ h hs => hs.upToDate.trans h) ?_
  rintro s₃ h₃ hinv now s₄ rfl -
  refine ⟨Contest.keeps_refl hinv, ?_⟩
  refine .bind (writeMetadata_visiting hi hkey fun hread => ?_) ?_
  · rw [h₃] at hread
    cases hread
  · exact fun _ s₅ _ => .ret (fun _ _ _ _ => trivial) trivial

/-! ## The commit -/

omit [Crates] in
/-- The eviction of the commit, which removes nothing. -/
theorem removesOnly_visiting {α : Type} {T : α → Prop} {p : Prog Io α} (hp : Meets RemovesOnly T p)
    (hplaced : s.placed = true) :
    Visiting c w body c (fun _ s' => s'.placed = true) p s := by
  induction p generalizing s with
  | ret a => exact .ret (fun _ _ h hs => (hs.commit rfl).1.trans h) hplaced
  | op o k ih =>
      obtain ⟨ho, hk⟩ := hp
      refine .op (fun s => s.placed = true) hplaced (fun _ _ h hs => (hs.commit rfl).1.trans h) ?_
      intro s₁ h₁ hinv r s₂ hstep htimely
      suffices hkeeps : (contest c w body).Keeps c s₁ s₂ ∧ s₂.placed = true from
        ⟨hkeeps.1, ih r (hk r) hkeeps.2⟩
      cases o with
      | fs o =>
          cases o with
          | read path =>
              obtain ⟨-, rfl⟩ := hstep
              unfold Contest.perform
              dsimp only
              split
              · exact ⟨keeps_reading hinv _ id, h₁⟩
              · exact ⟨Contest.keeps_refl hinv, h₁⟩
          | metadata path =>
              obtain ⟨-, rfl⟩ := hstep
              exact ⟨Contest.keeps_refl hinv, h₁⟩
          | removeFile path => exact absurd (htimely.1 rfl) Bool.noConfusion
          | readDir =>
              obtain rfl : s₂ = s₁ := hstep
              exact ⟨Contest.keeps_refl hinv, h₁⟩
          | _ => exact ho.elim
      | _ => exact ho.elim

/-- The metadata of the commit. -/
theorem writeMetadata_placed
    (hbody : s.dir.lookup (bodyPath w.entry.key) = some (.raw body)) :
    Visiting c w body c (fun _ s' => s'.placed = true)
      (writeMetadata { w.final with bodyPath := bodyPath w.entry.key }) s := by
  unfold writeMetadata
  simp only [Io.fetchAdd_bind, Io.write_bind]
  refine .op (fun s => s.dir.lookup (bodyPath w.entry.key) = some (.raw body)) hbody
    (fun _ _ h hs => (hs.commit rfl).2.trans h) ?_
  rintro s₁ h₁ hinv tempId s₂ ⟨rfl, rfl⟩ -
  refine ⟨Contest.keeps_count hinv, ?_⟩
  have htemp := tempMetaPath_isTemporary w.entry.key s₁.counter
  refine .op (fun s => s.dir.lookup (bodyPath w.entry.key) = some (.raw body) ∧
      s.owner s₁.counter = some c) ⟨h₁, Function.update_self _ _ _⟩
    (fun _ _ h hs => ⟨(hs.commit rfl).2.trans h.1, hs.owner _ h.2⟩) ?_
  rintro s₃ ⟨h₃, howner⟩ hinv r s₄ ⟨rfl, rfl⟩ -
  refine ⟨Contest.keeps_write hinv howner htemp _, ?_⟩
  refine .op (fun s => s.dir.lookup (bodyPath w.entry.key) = some (.raw body) ∧
      s.Temporary c s₁.counter (tempMetaPath w.entry.key s₁.counter) (.json w.final.persisted))
    ⟨(AList.lookup_insert_ne (htemp.ne_bodyPath _).symm).trans h₃, howner, htemp,
      AList.lookup_insert _⟩
    (fun _ _ h hs => ⟨(hs.commit rfl).2.trans h.1, h.2.stable hs⟩) ?_
  rintro s₅ ⟨h₅, hstaged⟩ hinv r s₆ ⟨rfl, rfl⟩ -
  refine ⟨Contest.keeps_place hinv hstaged (fun _ => rfl) fun _ => h₅, ?_⟩
  refine .ret (fun _ _ h hs => (hs.commit rfl).1.trans h) ?_
  have hperform := @Contest.perform_rename _ _ c c s₅ _ _ _ w.entry.key hstaged
    (metaPath w.entry.key)
  rw [show (w.final).key = w.entry.key from rfl, hperform.2, if_pos rfl]
  simp

/-- **The commit** puts its metadata in place. -/
theorem finish_visiting {cache : Cache} {tempId : ℕ} (hunplaced : s.placed = false)
    (hstaged : s.Temporary c tempId w.tempBody (.raw body)) :
    Visiting c w body c (fun result s' => result = .ok () → s'.placed = true) (w.finish cache)
      s := by
  unfold CacheWriter.finish commit
  simp only [Io.flush_bind, Io.rename_bind]
  refine .op (fun s => s.placed = false ∧ s.Temporary c tempId w.tempBody (.raw body))
    ⟨hunplaced, hstaged⟩
    (fun _ _ h hs => ⟨(hs.commit rfl).1.trans h.1, h.2.stable hs⟩) ?_
  rintro s₁ h₁ hinv r s₂ ⟨rfl, rfl⟩ -
  refine ⟨Contest.keeps_refl hinv, ?_⟩
  refine .op (fun s => s.placed = false ∧ s.Temporary c tempId w.tempBody (.raw body)) h₁
    (fun _ _ h hs => ⟨(hs.commit rfl).1.trans h.1, h.2.stable hs⟩) ?_
  rintro s₃ ⟨hunplaced₃, hstaged₃⟩ hinv r s₄ ⟨rfl, rfl⟩ -
  refine ⟨Contest.keeps_body hinv hstaged₃ hunplaced₃, ?_⟩
  have hrename := @Contest.perform_rename _ _ c c s₃ _ _ _ w.entry.key hstaged₃
    (bodyPath w.entry.key)
  rw [hrename.1, hrename.2, if_neg (metaPath_ne_bodyPath _ _).symm]
  refine .bind (writeMetadata_placed (AList.lookup_insert _)) ?_
  intro written s₅ h₅
  cases written with
  | error e => exact .ret (fun _ _ _ _ hnot => nomatch hnot) fun hnot => nomatch hnot
  | ok _ =>
      refine .bind (removesOnly_visiting (evict_removesOnly cache) h₅) ?_
      intro _ s₆ h₆
      exact .ret (fun _ _ h hs hok => (hs.commit rfl).1.trans (h hok)) fun _ => h₆

/-! ## The pool -/

/-- What a task has when it is done: of the committing task, its metadata in place. -/
def Visit.Done (c : ι) (i : ι) (result : Except IoError Unit) (s : Contest ι) : Prop :=
  i = c → result = .ok () → s.placed = true

/-- **Every task upholds the agreement.** -/
theorem visit_visiting {job : ι → Visit} {cache : Cache}
    (h : Contested job c cache w body s) (i : ι) :
    Visiting c w body i (Visit.Done c i) (job i).prog s := by
  by_cases hi : i = c
  · subst hi
    obtain ⟨tempId, hpath, howner⟩ := h.staged
    rw [h.committer]
    refine (finish_visiting h.unplaced ⟨howner, ?_, h.file⟩).mono fun _ _ hdone _ => hdone
    rw [hpath]
    exact tempBodyPath_isTemporary _ _
  · -- The others have nothing to show when they are done.
    have hdone : ∀ {p : Prog Io (Except IoError Unit)},
        Visiting c w body i (fun _ _ => True) p s → Visiting c w body i (Visit.Done c i) p s :=
      fun hp => hp.mono fun _ _ _ hic => absurd hic hi
    have hreads := h.others i hi
    cases hjob : job i with
    | lookup plan now =>
        rw [hjob] at hreads
        refine hdone (.bind (lookup_visiting hi hreads h.version h.length now) ?_)
        exact fun _ _ _ => .ret (fun _ _ _ _ => trivial) trivial
    | refresh entry confirmed ttl =>
        rw [hjob] at hreads
        refine hdone (.bind (refresh_visiting hi hreads (h.unread i) confirmed ttl) ?_)
        exact fun _ _ _ => .ret (fun _ _ _ _ => trivial) trivial
    | revalidate plan now confirmed =>
        rw [hjob] at hreads
        refine hdone (.bind (lookup_visiting hi hreads h.version h.length now) ?_)
        rintro (_ | entry) s₁ hfound
        · exact .ret (fun _ _ _ _ => trivial) trivial
        · obtain ⟨hkey, hunread⟩ := hfound entry rfl
          refine .bind (refresh_visiting hi hkey hunread confirmed plan.ttl) ?_
          exact fun _ _ _ => .ret (fun _ _ _ _ => trivial) trivial
    | commit cache' w' =>
        rw [hjob] at hreads
        exact hreads.elim

omit [DecidableEq ι] in
theorem Contested.sound {job : ι → Visit} {cache : Cache} (h : Contested job c cache w body s) :
    s.Sound w body := by
  have hnot : ∀ {P : Prop}, s.placed = true → P := by
    intro P hplaced
    rw [h.unplaced] at hplaced
    cases hplaced
  refine ⟨h.fresh, hnot, hnot, fun i hi => ?_⟩
  rw [h.unread i] at hi
  cases hi

/-- **A commit survives** when, once its metadata is in place, the lookups and refreshes
remove or replace only what they have read after that. -/
theorem commit_survives {job : ι → Visit} {c : ι} {cache : Cache} {w : CacheWriter} {body : Bytes}
    {s : Contest ι} (h : Contested job c cache w body s) :
    CommitSurvives (Timely c w.entry.key) job c w s := by
  intro pool s' hrun hcommitted _ plan now hkey
  obtain ⟨hsound, hpool⟩ := Upholds.interleaved hrun h.sound (visit_visiting h)
  have hdone := hpool c
  dsimp only at hdone hsound
  rw [hcommitted] at hdone
  have hplaced := hdone.returned rfl rfl
  obtain ⟨entry, hrecord, hresponse⟩ := hsound.record hplaced
  have hadmits : (s'.dir.view plan.key).Admits entry.persisted (.raw body) := by
    rw [hkey]
    have hmeta : (s'.dir.view w.entry.key).record.bind FileData.fromSlice =
        some entry.persisted := by
      show (s'.dir.lookup (metaPath w.entry.key)).bind FileData.fromSlice = some entry.persisted
      rw [hrecord]
      rfl
    exact ⟨hmeta, (congrArg CacheEntry.version hresponse).trans h.version, hsound.body hplaced,
      ((congrArg CacheEntry.bodyLen hresponse).trans h.length).symm⟩
  exact ⟨_, exec_calm_lookup hadmits now, hresponse⟩

end Visits

/-! ## A lookup and a commit -/

/-- A lookup of the key `k`, and the second commit under it. -/
def contestJob : Bool → Visit
  | false => .lookup ⟨"k".toList, 60⟩ 0
  | true => .commit exampleCache secondWriter

/-- The first version is in place and the second commit about to begin. -/
def contestStart : Contest Bool where
  dir := occupiedDir
  counter := 1
  owner n := if n = 0 then some true else none
  placed := false
  upToDate _ := false

theorem contestStart_contested :
    @Contested Bool reference contestJob true exampleCache secondWriter (utf8 "new".toList)
      contestStart := by
  refine @Contested.mk Bool reference _ _ _ _ _ _ rfl ?_ (by decide) (by decide)
    ⟨0, rfl, rfl⟩ (by decide) ?_ rfl (fun _ => rfl)
  · rintro (_ | _) hi
    · exact rfl
    · exact absurd rfl hi
  · intro n hn
    have hn : 1 ≤ n := hn
    exact if_neg (by omega)

/-- The programs of the two tasks at the start. -/
def contestPool : (Bool → Prog Io (Except IoError Unit)) × Contest Bool :=
  (fun i => @Visit.prog reference (contestJob i), contestStart)

/-- Both tasks have come to their end. -/
theorem returned_of_values {pool : Bool → Prog Io (Except IoError Unit)}
    {committed looked : Except IoError Unit} (hcommitted : (pool true).value = some committed)
    (hlooked : (pool false).value = some looked) (i : Bool) : ∃ r, pool i = .ret r := by
  cases i with
  | false => exact ⟨_, Prog.eq_ret_of_value hlooked⟩
  | true => exact ⟨_, Prog.eq_ret_of_value hcommitted⟩

/-- The commit runs to its end, and the lookup after it. -/
theorem commit_survives_contestStart : ∃ pool s' entry,
    Relation.ReflTransGen (Interleave (contestEnv true secondWriter.entry.key)
        (Timely true secondWriter.entry.key)) contestPool (pool, s') ∧
      (exec calm (@lookup reference ⟨secondWriter.entry.key, 60⟩ 0) s'.dir).1 = some entry ∧
      entry.response = secondWriter.final.response := by
  set order := List.replicate 9 true ++ List.replicate 5 false with horder
  set final := schedule (contestCalm true secondWriter.entry.key) order contestPool with hfinal
  have hrun : Relation.ReflTransGen (Interleave (contestEnv true secondWriter.entry.key)
      (Timely true secondWriter.entry.key)) contestPool final :=
    schedule_interleaved (contestEnv_contestCalm true secondWriter.entry.key) (by decide +kernel)
  have hcommitted : (final.1 true).value = some (.ok ()) := by decide +kernel
  have hlooked : (final.1 false).value = some (.ok ()) := by decide +kernel
  have hret := Prog.eq_ret_of_value hcommitted
  have hdone := returned_of_values hcommitted hlooked
  clear_value final
  obtain ⟨entry, hentry, hresponse⟩ := @commit_survives Bool _ reference _ _ _ _ _ _
    contestStart_contested _ _ hrun hret hdone ⟨secondWriter.entry.key, 60⟩ 0 rfl
  exact ⟨final.1, final.2, entry, hrun, hentry, hresponse⟩

/-- **A commit is undone.**  The lookup reads the first version, the commit runs to its
end, and the lookup writes the first version's metadata back: the next lookup finds
these, and the second version's body of the same length. -/
theorem stale_lookup_undoes_commit :
    @Contested Bool reference contestJob true exampleCache secondWriter (utf8 "new".toList)
        contestStart ∧
      ¬ @CommitSurvives Bool _ reference (NoEviction true) contestJob true secondWriter
        contestStart := by
  refine ⟨contestStart_contested, fun h => ?_⟩
  set order := List.replicate 2 false ++ List.replicate 9 true ++ List.replicate 3 false with horder
  set final := schedule (contestCalm true secondWriter.entry.key) order contestPool with hfinal
  have hrun : Relation.ReflTransGen (Interleave (contestEnv true secondWriter.entry.key)
      (NoEviction true)) contestPool final :=
    schedule_interleaved (contestEnv_contestCalm true secondWriter.entry.key) (by decide +kernel)
  have hcommitted : (final.1 true).value = some (.ok ()) := by decide +kernel
  have hlooked : (final.1 false).value = some (.ok ()) := by decide +kernel
  have hret := Prog.eq_ret_of_value hcommitted
  have hdone := returned_of_values hcommitted hlooked
  have hfirst : ((exec calm (@lookup reference ⟨secondWriter.entry.key, 60⟩ 0) final.2.dir).1.map
      CacheEntry.etag) = some (some "\"v1\"".toList) := by
    decide +kernel
  clear_value final
  obtain ⟨entry, hentry, hresponse⟩ := h _ _ hrun hret hdone ⟨secondWriter.entry.key, 60⟩ 0 rfl
  rw [hentry] at hfirst
  have hetag : entry.etag = some "\"v2\"".toList := congrArg CacheEntry.etag hresponse
  have hsame := (Option.some.inj hfirst).symm.trans hetag
  exact absurd hsame (by decide)

end Corsget
