import Corsget.Supersede

/-!
# Failing cache writes

One request, run twice: with any pattern of failing writes to the cache, and with
none.  Everything else is the same in both runs: what the upstream, the clock and
the limiters do (`world`), and which of the other file steps fail (`others`).

The two runs go side by side (`Paired`).  What a write changes, the metadata file
and the temporary files, is read again by nothing that the consumer sees; so the
runs stay alongside each other, up to the writer of a live body, until a refresh
fails.  That is the one failure that becomes an answer
(`write_faults_invisible_iff`).
-/

namespace Corsget

open Text Effect

/-! ## The two runs -/

/-- The steps that write to the cache. -/
def FsOp.isWrite : FsOp → Bool
  | .rename _ _ | .write _ _ | .create _ | .writeAll _ _ | .flush _ => true
  | _ => false

/-- The steps that write metadata. -/
def FsOp.WritesMetadata : FsOp → Prop
  | .rename _ _ | .write _ _ => True
  | _ => False

/-- The state around one request: the directory, the counter, the rest of the world,
the number of file steps so far, whether the upstream has been asked, what the
consumer has been handed, and the writes that failed after the upstream was
asked. -/
structure Site (σ : Type) where
  dir : Dir
  counter : ℕ
  outer : σ
  step : ℕ
  asked : Bool
  sent : List (Except Str Bytes)
  failed : List FsOp

variable {σ : Type}

/-- The site after a file step with this fault. -/
def Site.afterFs (s : Site σ) (o : FsOp) (fault : Option Fault) : Site σ :=
  { s with
    dir := (s.dir.perform o fault).2
    step := s.step + 1
    failed := if o.isWrite && fault.isSome && s.asked then o :: s.failed else s.failed }

/-- What happens at an operation: the writes fail by the pattern `faults`, the other
file steps as `others` says, and `world` answers the rest. -/
def Site.run (world : Handler Io σ) (others : FsOp → Option Fault)
    (faults : ℕ → FsOp → Option Fault) : Handler Io (Site σ)
  | .fs o, s =>
      let fault := if o.isWrite then faults s.step o else others o
      ((s.dir.perform o fault).1, s.afterFs o fault)
  | .tempCounter, s => (s.counter, { s with counter := s.counter + 1 })
  | .send request, s =>
      let (answer, outer) := world (.send request) s.outer
      (answer, { s with outer := outer, asked := true })
  | .yield item, s =>
      let (answer, outer) := world (.yield item) s.outer
      (answer, { s with outer := outer, sent := s.sent ++ [item] })
  | o, s => ((world o s.outer).1, { s with outer := (world o s.outer).2 })

/-- No write fails. -/
def noFaults : ℕ → FsOp → Option Fault := fun _ _ => none

/-- The text of an `AppError` response. -/
def AppError.message : AppError → Str
  | badUrl message | denied message | tooLarge message | upstream message
  | limitBackend message => message

/-- The body of an `AppError` response, as `into_response` makes it. -/
def AppError.body (e : AppError) : Bytes :=
  utf8 ("\x7b\"error\":".toList ++ jsonString e.message ++ "\x7d".toList)

/-- What the consumer gets: the status, and the items of the body. -/
def delivery (result : Except AppError Response) (s : Site σ) : ℕ × List (Except Str Bytes) :=
  match result with
  | .error e => (e.status, [.ok e.body])
  | .ok response => (response.status, s.sent)

/-- A write of metadata failed after the upstream was asked. -/
def Site.MetadataFault (s : Site σ) : Prop := ∃ o ∈ s.failed, o.WritesMetadata

/-- The site when a request arrives. -/
structure Site.Fresh (s : Site σ) : Prop where
  asked : s.asked = false
  sent : s.sent = []
  failed : s.failed = []

section Runs

variable [Crates]

/-- **The failing writes are invisible**: the consumer gets the same as without
them, and no response becomes an error. -/
def WriteFaultsInvisible (world : Handler Io σ) (others : FsOp → Option Fault)
    (faults : ℕ → FsOp → Option Fault) (state : AppState) (uri : OriginalUri)
    (key : RateLimitKey) (requestHeaders : HeaderMap) (s : Site σ) : Prop :=
  let failing := exec (Site.run world others faults) (serve state uri key requestHeaders) s
  let clean := exec (Site.run world others noFaults) (serve state uri key requestHeaders) s
  delivery failing.1 failing.2 = delivery clean.1 clean.2 ∧
    (clean.1.isOk = true → failing.1.isOk = true)

end Runs

/-! ## Side by side -/

/-- Two sites that look the same from outside the cache. -/
structure Alongside (s t : Site σ) : Prop where
  outer : s.outer = t.outer
  asked : s.asked = t.asked
  sent : s.sent = t.sent

/-- Two sites with the same bodies as well, and no failed write of metadata on the
left. -/
structure SameBodies (s t : Site σ) : Prop extends Alongside s t where
  bodies : ∀ key, s.dir.lookup (bodyPath key) = t.dir.lookup (bodyPath key)
  faultless : ¬ s.MetadataFault

/-- An operation that has nothing to do with the cache. -/
def IoOp.IsOuter : IoOp → Prop
  | .fs _ | .tempCounter => False
  | _ => True

/-- The operations of writing metadata. -/
def IoOp.IsMetadata : IoOp → Prop
  | .fs (.write path _) => ∀ key, path ≠ bodyPath key
  | .fs (.rename source target) => ∀ key, source ≠ bodyPath key ∧ target ≠ bodyPath key
  | .tempCounter => True
  | _ => False

/-- The operations on the cache that write no metadata. -/
def IoOp.LeavesMetadata : IoOp → Prop
  | .fs o => ¬ o.WritesMetadata
  | .tempCounter => True
  | _ => False

/-- A check of the request limits. -/
def IoOp.IsLimit : IoOp → Prop
  | .checkLimit _ _ => True
  | _ => False

theorem IoOp.LeavesMetadata.isCacheOp {o : IoOp} (h : o.LeavesMetadata) : IsCacheOp o := by
  cases o with
  | fs o => trivial
  | tempCounter => trivial
  | _ => exact h.elim

section Steps

variable {world : Handler Io σ} {others : FsOp → Option Fault}
  {faults : ℕ → FsOp → Option Fault} {s t : Site σ}

/-- An outer operation goes the same way on both sides. -/
theorem Alongside.outer_step {faults' : ℕ → FsOp → Option Fault} (h : Alongside s t) {o : IoOp}
    (ho : o.IsOuter) :
    (Site.run world others faults o s).1 = (Site.run world others faults' o t).1 ∧
      Alongside (Site.run world others faults o s).2 (Site.run world others faults' o t).2 := by
  obtain ⟨houter, hasked, hsent⟩ := h
  cases o with
  | fs o => exact ho.elim
  | tempCounter => exact ho.elim
  | send request =>
      unfold Site.run
      dsimp only
      rw [houter]
      exact ⟨rfl, rfl, rfl, hsent⟩
  | yield item =>
      unfold Site.run
      dsimp only
      rw [houter, hsent]
      exact ⟨rfl, rfl, hasked, rfl⟩
  | _ =>
      unfold Site.run
      dsimp only
      rw [houter]
      exact ⟨rfl, rfl, hasked, hsent⟩

theorem Site.outer_dir {o : IoOp} (ho : o.IsOuter) (s : Site σ) :
    (Site.run world others faults o s).2.dir = s.dir ∧
      (Site.run world others faults o s).2.failed = s.failed := by
  cases o with
  | fs o => exact ho.elim
  | tempCounter => exact ho.elim
  | _ => exact ⟨rfl, rfl⟩

theorem SameBodies.outer_step {faults' : ℕ → FsOp → Option Fault} (h : SameBodies s t) {o : IoOp}
    (ho : o.IsOuter) :
    (Site.run world others faults o s).1 = (Site.run world others faults' o t).1 ∧
      SameBodies (Site.run world others faults o s).2 (Site.run world others faults' o t).2 := by
  obtain ⟨hanswer, halong⟩ := h.toAlongside.outer_step ho
  refine ⟨hanswer, halong, ?_, ?_⟩
  · rw [(Site.outer_dir ho s).1, (Site.outer_dir ho t).1]
    exact h.bodies
  · unfold Site.MetadataFault
    rw [(Site.outer_dir ho s).2]
    exact h.faultless

/-- What is outside the cache does not see its steps. -/
theorem Site.inner_step {o : IoOp} (ho : IsCacheOp o) (s : Site σ) :
    (Site.run world others faults o s).2.outer = s.outer ∧
      (Site.run world others faults o s).2.asked = s.asked ∧
      (Site.run world others faults o s).2.sent = s.sent := by
  cases o with
  | fs o => exact ⟨rfl, rfl, rfl⟩
  | tempCounter => exact ⟨rfl, rfl, rfl⟩
  | _ => exact ho.elim

/-- The steps of one side leave it alongside the other. -/
theorem Alongside.inner_left {o : IoOp} (h : Alongside s t) (ho : IsCacheOp o) :
    Alongside (Site.run world others faults o s).2 t := by
  obtain ⟨houter, hasked, hsent⟩ := Site.inner_step ho s
  exact ⟨houter.trans h.outer, hasked.trans h.asked, hsent.trans h.sent⟩

theorem Alongside.inner_right {o : IoOp} (h : Alongside s t) (ho : IsCacheOp o) :
    Alongside s (Site.run world others faults o t).2 := by
  obtain ⟨houter, hasked, hsent⟩ := Site.inner_step ho t
  exact ⟨h.outer.trans houter.symm, h.asked.trans hasked.symm, h.sent.trans hsent.symm⟩

/-- Writing metadata leaves the bodies. -/
theorem Site.metadata_bodies {o : IoOp} (ho : o.IsMetadata) (s : Site σ) (key : Str) :
    (Site.run world others faults o s).2.dir.lookup (bodyPath key) =
      s.dir.lookup (bodyPath key) := by
  cases o with
  | tempCounter => rfl
  | fs o =>
      refine Dir.lookup_perform ?_ _ s.dir
      cases o with
      | write path data => simpa [FsOp.touched] using (ho key).symm
      | rename source target =>
          simpa [FsOp.touched] using ⟨(ho key).1.symm, (ho key).2.symm⟩
      | _ => exact ho.elim
  | _ => exact ho.elim

theorem IoOp.IsMetadata.isCacheOp {o : IoOp} (h : o.IsMetadata) : IsCacheOp o := by
  cases o with
  | fs o => trivial
  | tempCounter => trivial
  | _ => exact h.elim

/-- Before the upstream is asked nothing is recorded. -/
theorem Site.failed_of_unasked (hasked : s.asked = false) {o : IoOp} (ho : IsCacheOp o) :
    (Site.run world others faults o s).2.failed = s.failed := by
  cases o with
  | fs o =>
      show (if o.isWrite && _ && s.asked then _ else s.failed) = s.failed
      rw [hasked, Bool.and_false]
      rfl
  | tempCounter => rfl
  | _ => exact ho.elim

/-- Only a write of metadata makes a fault of one. -/
theorem Site.faultless_step {o : IoOp} (ho : o.LeavesMetadata) (hs : ¬ s.MetadataFault) :
    ¬ (Site.run world others faults o s).2.MetadataFault := by
  cases o with
  | fs o =>
      show ¬ (s.afterFs o _).MetadataFault
      generalize (if o.isWrite then faults s.step o else others o) = fault
      rintro ⟨o', ho', hmetadata⟩
      unfold Site.afterFs at ho'
      dsimp only at ho'
      split at ho'
      · rcases List.mem_cons.mp ho' with rfl | hmem
        · exact ho hmetadata
        · exact hs ⟨o', hmem, hmetadata⟩
      · exact hs ⟨o', ho', hmetadata⟩
  | _ => exact hs

/-- Steps that do not write go the same way on equal directories. -/
theorem Site.read_step {o : FsOp} (ho : o.isWrite = false) (hdir : s.dir = t.dir) :
    (Site.run world others faults (.fs o) s).1 = (Site.run world others noFaults (.fs o) t).1 ∧
      (Site.run world others faults (.fs o) s).2.dir =
        (Site.run world others noFaults (.fs o) t).2.dir := by
  unfold Site.run Site.afterFs
  dsimp only
  rw [ho, hdir]
  exact ⟨rfl, rfl⟩

/-- Two sites at the beginning of a lookup. -/
structure SameDirectory (s t : Site σ) : Prop extends Alongside s t where
  dir : s.dir = t.dir
  unasked : s.asked = false
  faultless : ¬ s.MetadataFault

theorem SameDirectory.sameBodies (h : SameDirectory s t) : SameBodies s t :=
  ⟨h.toAlongside, fun key => by rw [h.dir], h.faultless⟩

theorem SameDirectory.read_step (h : SameDirectory s t) {o : FsOp} (ho : o.isWrite = false) :
    (Site.run world others faults (.fs o) s).1 = (Site.run world others noFaults (.fs o) t).1 ∧
      SameDirectory (Site.run world others faults (.fs o) s).2
        (Site.run world others noFaults (.fs o) t).2 := by
  obtain ⟨hanswer, hdir⟩ := @Site.read_step _ world others faults s t o ho h.dir
  have hinner : IsCacheOp (.fs o) := trivial
  refine ⟨hanswer, (h.toAlongside.inner_left hinner).inner_right hinner, hdir, h.unasked, ?_⟩
  unfold Site.MetadataFault
  rw [Site.failed_of_unasked h.unasked hinner]
  exact h.faultless

theorem SameDirectory.limit_step (h : SameDirectory s t) {o : IoOp} (ho : o.IsLimit) :
    (Site.run world others faults o s).1 = (Site.run world others noFaults o t).1 ∧
      SameDirectory (Site.run world others faults o s).2
        (Site.run world others noFaults o t).2 := by
  cases o with
  | checkLimit key quota =>
      obtain ⟨hanswer, houter⟩ := h.toAlongside.outer_step (o := .checkLimit key quota) trivial
      exact ⟨hanswer, houter, h.dir, h.unasked, h.faultless⟩
  | _ => exact ho.elim

/-- Opening a body goes the same way. -/
theorem SameBodies.open_step (h : SameBodies s t) (key : Str) :
    (Site.run world others faults (.fs (.openFile (bodyPath key))) s).1 =
        (Site.run world others noFaults (.fs (.openFile (bodyPath key))) t).1 ∧
      Alongside (Site.run world others faults (.fs (.openFile (bodyPath key))) s).2
        (Site.run world others noFaults (.fs (.openFile (bodyPath key))) t).2 := by
  have hinner : IsCacheOp (.fs (.openFile (bodyPath key))) := trivial
  refine ⟨?_, (h.toAlongside.inner_left hinner).inner_right hinner⟩
  show (s.dir.perform _ (others _)).1 = (t.dir.perform _ (others _)).1
  unfold Dir.perform Dir.performOk Dir.answerFault
  cases others (.openFile (bodyPath key)) with
  | some fault =>
      dsimp only
      rw [h.bodies key]
  | none =>
      dsimp only
      rw [h.bodies key]

/-! ## The programs -/

/-- Two programs that only use the cache. -/
theorem inner_paired {α β : Type} {T : α → Prop} {T' : β → Prop} {p : Prog Io α} {p' : Prog Io β}
    (hp : Meets IsCacheOp T p) (hp' : Meets IsCacheOp T' p') (h : Alongside s t) :
    Paired (Site.run world others faults) (Site.run world others noFaults)
      (fun _ s _ t => Alongside s t) p p' s t := by
  have hleft : Alongside (exec (Site.run world others faults) p s).2 t :=
    exec_keeps _ (I := fun s => Alongside s t) hp (fun _ _ ho hs => hs.inner_left ho) h
  exact exec_keeps _ (I := fun t => Alongside _ t) hp' (fun _ _ ho ht => ht.inner_right ho) hleft

/-- A program that uses the cache without writing metadata. -/
theorem leavesMetadata_paired {α : Type} {T : α → Prop} {p : Prog Io α}
    (hp : Meets IoOp.LeavesMetadata T p) (h : Alongside s t) (hs : ¬ s.MetadataFault) :
    Paired (Site.run world others faults) (Site.run world others noFaults)
      (fun _ s _ t => Alongside s t ∧ ¬ s.MetadataFault) p p s t := by
  have hinner : Meets IsCacheOp T p := hp.mono (fun _ ho => ho.isCacheOp) fun _ ha => ha
  exact ⟨inner_paired hinner hinner h,
    exec_keeps _ (I := fun s => ¬ Site.MetadataFault s) hp
      (fun _ _ ho hs => Site.faultless_step ho hs) hs⟩

/-- Handing an item over. -/
theorem yield_paired {α β : Type} {a : α} {b : β} (h : Alongside s t) (item : Except Str Bytes) :
    Paired (Site.run world others faults) (Site.run world others noFaults)
      (fun _ s _ t => Alongside s t) (Io.yield item >>= fun _ => .ret a)
      (Io.yield item >>= fun _ => .ret b) s t := by
  obtain ⟨hanswer, hnext⟩ := h.outer_step (o := .yield item) trivial
  exact Paired.op hanswer fun _ => hnext

section Programs

variable [Crates]

theorem writeMetadata_isMetadata (entry : CacheEntry) :
    Meets IoOp.IsMetadata (fun _ => True) (writeMetadata entry) := by
  unfold writeMetadata
  simp only [Io.fetchAdd_bind, Io.write_bind]
  refine ⟨trivial, fun tempId => ?_⟩
  have htemp := fun key => (tempMetaPath_isTemporary entry.key tempId).ne_bodyPath key
  refine ⟨htemp, fun r => ?_⟩
  cases r with
  | error e => trivial
  | ok _ => exact ⟨fun key => ⟨htemp key, metaPath_ne_bodyPath entry.key key⟩, fun _ => trivial⟩

/-- Writing metadata before the upstream is asked: the outcome plays no part. -/
theorem writeMetadata_unasked {entry : CacheEntry} (h : SameBodies s t)
    (hasked : s.asked = false) :
    Paired (Site.run world others faults) (Site.run world others noFaults)
      (fun _ s _ t => SameBodies s t ∧ s.asked = false) (writeMetadata entry)
      (writeMetadata entry) s t := by
  have hmetadata := writeMetadata_isMetadata entry
  have hleft : ∀ o s, o.IsMetadata → SameBodies s t ∧ s.asked = false →
      SameBodies (Site.run world others faults o s).2 t ∧
        (Site.run world others faults o s).2.asked = false := by
    rintro o s ho ⟨hs, hasked⟩
    refine ⟨⟨hs.toAlongside.inner_left ho.isCacheOp, fun key => ?_, ?_⟩,
      (Site.inner_step ho.isCacheOp s).2.1.trans hasked⟩
    · exact (Site.metadata_bodies ho s key).trans (hs.bodies key)
    · unfold Site.MetadataFault
      rw [Site.failed_of_unasked hasked ho.isCacheOp]
      exact hs.faultless
  obtain ⟨hs, hasked'⟩ := exec_keeps _ (I := fun s => SameBodies s t ∧ s.asked = false) hmetadata
    hleft ⟨h, hasked⟩
  refine ⟨?_, hasked'⟩
  refine exec_keeps _ (I := fun t => SameBodies _ t) hmetadata (fun o t ho ht => ?_) hs
  exact ⟨ht.toAlongside.inner_right ho.isCacheOp, fun key =>
    (ht.bodies key).trans (Site.metadata_bodies ho t key).symm, ht.faultless⟩

/-- Without faults metadata is written. -/
theorem exec_writeMetadata_clean (entry : CacheEntry) (t : Site σ) :
    (exec (Site.run world others noFaults) (writeMetadata entry) t).1 = .ok () := by
  unfold writeMetadata
  simp only [Io.fetchAdd_bind, Io.write_bind, exec_op]
  generalize hid : (Site.run world others noFaults IoOp.tempCounter t).1 = tempId
  generalize (Site.run world others noFaults IoOp.tempCounter t).2 = t₁
  show (exec _ (Io.rename _ _) _).1 = _
  show ((Dir.performOk (.rename _ _) (t₁.dir.insert _ _))).1 = _
  unfold Dir.performOk
  dsimp only
  rw [AList.lookup_insert]

omit [Crates] in
/-- A step of writing metadata after the upstream was asked: it works, or the fault is
recorded. -/
theorem Site.metadata_step {o : FsOp} (ho : o.WritesMetadata) (hasked : s.asked = true) :
    ((Site.run world others faults (.fs o) s).1 = (s.dir.performOk o).1 ∧
      (Site.run world others faults (.fs o) s).2.dir = (s.dir.performOk o).2 ∧
      (Site.run world others faults (.fs o) s).2.failed = s.failed) ∨
    (∃ e, (Site.run world others faults (.fs o) s).1 = .error e) ∧
      (Site.run world others faults (.fs o) s).2.MetadataFault := by
  have hwrite : o.isWrite = true := by
    cases o with
    | rename source target => rfl
    | write path data => rfl
    | _ => exact ho.elim
  cases hfault : faults s.step o with
  | none =>
      refine .inl ?_
      unfold Site.run Site.afterFs
      dsimp only
      rw [hwrite, if_pos rfl, hfault]
      exact ⟨rfl, rfl, rfl⟩
  | some f =>
      refine .inr ⟨⟨f.error, ?_⟩, o, ?_, ho⟩
      · unfold Site.run
        dsimp only
        rw [hwrite, if_pos rfl, hfault]
        cases o with
        | rename source target => rfl
        | write path data => rfl
        | _ => exact ho.elim
      · unfold Site.run Site.afterFs
        dsimp only
        rw [hwrite, if_pos rfl, hfault, hasked]
        exact List.mem_cons_self

/-- With faults it is written, or the fault is recorded. -/
theorem exec_writeMetadata_asked (entry : CacheEntry) (hasked : s.asked = true)
    (hs : ¬ s.MetadataFault) :
    let written := exec (Site.run world others faults) (writeMetadata entry) s
    (written.1 = .ok () ∧ ¬ written.2.MetadataFault) ∨
      (∃ e, written.1 = .error e) ∧ written.2.MetadataFault := by
  unfold writeMetadata
  simp only [Io.fetchAdd_bind, Io.write_bind, exec_op]
  generalize htempId : (Site.run world others faults IoOp.tempCounter s).1 = tempId
  have hs₁ : (Site.run world others faults IoOp.tempCounter s).2.asked = true ∧
      ¬ (Site.run world others faults IoOp.tempCounter s).2.MetadataFault := ⟨hasked, hs⟩
  generalize (Site.run world others faults IoOp.tempCounter s).2 = s₁ at hs₁
  obtain ⟨hasked₁, hfaultless₁⟩ := hs₁
  set temp := tempMetaPath entry.key tempId
  rcases @Site.metadata_step _ world others faults s₁ (.write temp (.json entry.persisted)) trivial
    hasked₁ with ⟨hok, hdir, hfailed⟩ | ⟨⟨e, herror⟩, hfault⟩
  · rw [hok]
    have hs₂ : (Site.run world others faults (.fs (.write temp (.json entry.persisted))) s₁).2.asked
        = true := hasked₁
    generalize (Site.run world others faults (.fs (.write temp (.json entry.persisted))) s₁).2 = s₂
      at hdir hfailed hs₂
    -- The temporary file is there to be renamed.
    rcases @Site.metadata_step _ world others faults s₂ (.rename temp (metaPath entry.key)) trivial
      hs₂ with ⟨hok', -, hfailed'⟩ | hfault'
    · refine .inl ⟨hok'.trans ?_, ?_⟩
      · rw [hdir]
        unfold Dir.performOk
        dsimp only
        rw [AList.lookup_insert]
      · show ¬ (Site.run world others faults (.fs (.rename temp (metaPath entry.key)))
          s₂).2.MetadataFault
        unfold Site.MetadataFault
        rw [hfailed', hfailed]
        exact hfaultless₁
    · exact .inr hfault'
  · rw [herror]
    exact .inr ⟨⟨e, rfl⟩, hfault⟩

/-! ## The handler -/

/-- What a lookup finds on the two sides: the same, with the body file of its key. -/
structure LookedUp (key : Str) (found : Option CacheEntry) (s : Site σ)
    (found' : Option CacheEntry) (t : Site σ) : Prop where
  same : found = found'
  path : ∀ entry, found = some entry → entry.bodyPath = bodyPath key
  bodies : SameBodies s t

/-- A lookup finds the same on both sides. -/
theorem lookup_paired (plan : CachePlan) (now : ℕ) (h : SameDirectory s t) :
    Paired (Site.run world others faults) (Site.run world others noFaults) (LookedUp plan.key)
      (lookup plan now) (lookup plan now) s t := by
  have hnone : ∀ {s t : Site σ}, SameDirectory s t →
      Paired (Site.run world others faults) (Site.run world others noFaults) (LookedUp plan.key)
        (.ret none) (.ret none) s t := by
    intro s t h
    exact LookedUp.mk rfl (fun _ hnone => nomatch hnone) h.sameBodies
  have hremove : ∀ {s t : Site σ}, SameDirectory s t →
      Paired (Site.run world others faults) (Site.run world others noFaults) (LookedUp plan.key)
        (Io.removeFile (metaPath plan.key) >>= fun _ => .ret none)
        (Io.removeFile (metaPath plan.key) >>= fun _ => .ret none) s t := by
    intro s t h
    have hstep := @SameDirectory.read_step _ world others faults s t h
      (.removeFile (metaPath plan.key)) rfl
    exact Paired.op hstep.1 fun _ => hnone hstep.2
  unfold lookup
  simp only [Io.read_bind]
  obtain ⟨hread, h₁⟩ := @SameDirectory.read_step _ world others faults s t h
    (.read (metaPath plan.key)) rfl
  refine Paired.op hread fun r => ?_
  cases r with
  | error e => exact hnone h₁
  | ok data =>
      dsimp only
      cases data.fromSlice with
      | none => exact hremove h₁
      | some entry =>
          simp only [Io.metadata_bind]
          obtain ⟨hmetadata, h₂⟩ := h₁.read_step (o := .metadata (bodyPath plan.key)) rfl
          refine Paired.op hmetadata fun bodyLen => ?_
          split
          · exact hremove h₂
          · refine (writeMetadata_unasked h₂.sameBodies h₂.unasked).bind ?_
            rintro _ s _ t ⟨hst, -⟩
            refine LookedUp.mk rfl (fun found hfound => ?_) hst
            obtain rfl := Option.some.inj hfound
            rfl

/-- The error of a refresh that could not write. -/
def refreshFailed (e : IoError) : AppError :=
  .upstream ("failed to refresh cache metadata: ".toList ++ e)

/-- A response that uses the cache, if at all, by a body file. -/
inductive Response.IsPlain (response : Response) : Prop
  | full (bytes : Bytes) (hbody : response.body = .full bytes)
  | cached (key bucket : Str) (guard : ResultSizeGuard)
      (hbody : response.body = .cached (bodyPath key) bucket guard)

omit [Crates] in
theorem cachedResponse_isPlain {state : AppState} {entry : CacheEntry} {key bucket : Str}
    {resultMax : ℕ} {cacheStatus : HeaderValue} {target : Url} {response : Response}
    (hentry : entry.bodyPath = bodyPath key)
    (h : cachedResponse state entry bucket resultMax cacheStatus target = .ok response) :
    response.IsPlain := by
  refine .cached key bucket (ResultSizeGuard.new resultMax) ?_
  rw [cachedResponse_body h, hentry]

/-- How the redirect loop ends on the two sides: alike, or with a failed refresh on
the left. -/
inductive FetchedAlike (state : AppState) (result : Except AppError Fetched) (s : Site σ)
    (result' : Except AppError Fetched) (t : Site σ) : Prop
  | same (hresult : result = result')
      (hplain : ∀ response, result = .ok (.confirmed response) → response.IsPlain)
      (h : SameBodies s t)
  | fault (hfault : s.MetadataFault) (e : IoError) (entry : CacheEntry) (bucket : Str)
      (target : Url) (hresult : result = .error (refreshFailed e))
      (hresult' : result' = (cachedResponse state entry bucket state.resultMax cacheRevalidated
        target).map .confirmed)

variable {state : AppState} {requestHeaders : HeaderMap} {bucket : Str} {target : Url}

/-- The outcome of a refresh. -/
theorem refresh_paired {entry : CacheEntry} {key : Str} (hentry : entry.bodyPath = bodyPath key)
    (confirmed : HeaderMap) (ttl : ℕ) (h : SameBodies s t) (hasked : s.asked = true) :
    Paired (Site.run world others faults) (Site.run world others noFaults)
      (fun r s r' t => r'.2 = .ok () ∧
        ((r = r' ∧ r.1.bodyPath = bodyPath key ∧ SameBodies s t) ∨
          (∃ e, r.2 = .error e) ∧ s.MetadataFault))
      (refresh entry confirmed ttl) (refresh entry confirmed ttl) s t := by
  unfold refresh
  simp only [Io.nowSeconds_bind, Io.systemTime_bind]
  obtain ⟨hclock₁, h₁⟩ := h.outer_step (o := .systemTime) trivial
  refine Paired.op hclock₁ fun created => ?_
  obtain ⟨hclock₂, h₂⟩ := h₁.outer_step (o := .systemTime) trivial
  refine Paired.op hclock₂ fun now => ?_
  have hasked₂ : (Site.run world others faults .systemTime
      (Site.run world others faults .systemTime s).2).2.asked = true := hasked
  generalize (Site.run world others faults .systemTime
    (Site.run world others faults .systemTime s).2).2 = s₂ at h₂ hasked₂
  generalize (Site.run world others noFaults .systemTime
    (Site.run world others noFaults .systemTime t).2).2 = t₂ at h₂
  set entry' := entry.refreshed confirmed ttl (created / 10 ^ 9) now
  have hmetadata := writeMetadata_isMetadata entry'
  have hclean := @exec_writeMetadata_clean _ world others _ entry' t₂
  have halong : Paired (Site.run world others faults) (Site.run world others noFaults)
      (fun _ s _ t => Alongside s t) (writeMetadata entry') (writeMetadata entry') s₂ t₂ :=
    inner_paired (hmetadata.mono (fun _ h => h.isCacheOp) fun _ h => h)
      (hmetadata.mono (fun _ h => h.isCacheOp) fun _ h => h) h₂.toAlongside
  have hbodies : ∀ key, (exec (Site.run world others faults) (writeMetadata entry')
      s₂).2.dir.lookup (bodyPath key) = (exec (Site.run world others noFaults)
        (writeMetadata entry') t₂).2.dir.lookup (bodyPath key) := by
    intro key
    have hleft := exec_keeps (Site.run world others faults)
      (I := fun s => s.dir.lookup (bodyPath key) = s₂.dir.lookup (bodyPath key)) hmetadata
      (fun o s ho hs => (Site.metadata_bodies ho s key).trans hs) rfl
    have hright := exec_keeps (Site.run world others noFaults)
      (I := fun t => t.dir.lookup (bodyPath key) = t₂.dir.lookup (bodyPath key)) hmetadata
      (fun o t ho ht => (Site.metadata_bodies ho t key).trans ht) rfl
    exact hleft.trans ((h₂.bodies key).trans hright.symm)
  have hwritten := @exec_writeMetadata_asked _ world others faults s₂ _ entry' hasked₂ h₂.faultless
  unfold Paired
  rw [exec_bind, exec_bind]
  show (exec _ (writeMetadata entry') t₂).1 = .ok () ∧ _
  refine ⟨hclean, ?_⟩
  rcases hwritten with ⟨hok, hfaultless⟩ | hfault
  · refine .inl ⟨?_, hentry, halong, hbodies, hfaultless⟩
    show (entry', (exec _ (writeMetadata entry') s₂).1) =
      (entry', (exec _ (writeMetadata entry') t₂).1)
    rw [hok, hclean]
  · exact .inr hfault

/-- How a confirmation ends. -/
theorem confirmEntry_paired {plan : CachePlan} {entry : CacheEntry} {key : Str}
    (hentry : entry.bodyPath = bodyPath key) (confirmed : HeaderMap) (h : SameBodies s t)
    (hasked : s.asked = true) :
    Paired (Site.run world others faults) (Site.run world others noFaults) (FetchedAlike state)
      (confirmEntry state bucket target plan entry confirmed)
      (confirmEntry state bucket target plan entry confirmed) s t := by
  unfold confirmEntry
  refine (refresh_paired hentry confirmed plan.ttl h hasked).bind ?_
  rintro ⟨entry', written⟩ s ⟨entry'', written'⟩ t ⟨rfl, hcase⟩
  rcases hcase with ⟨hsame, hpath, hst⟩ | ⟨⟨e, rfl⟩, hfault⟩
  · obtain ⟨rfl, rfl⟩ := Prod.mk.inj hsame
    refine FetchedAlike.same rfl (fun response hresult => ?_) hst
    replace hresult : (cachedResponse state entry' bucket state.resultMax cacheRevalidated
      target).map Fetched.confirmed = .ok (.confirmed response) := hresult
    cases hcached : cachedResponse state entry' bucket state.resultMax cacheRevalidated target with
    | error e =>
        rw [hcached] at hresult
        cases hresult
    | ok response' =>
        rw [hcached] at hresult
        obtain rfl := Fetched.confirmed.inj (Except.ok.inj hresult)
        exact cachedResponse_isPlain hpath hcached
  · exact FetchedAlike.fault hfault e entry'' bucket target rfl rfl

/-- One turn of the redirect loop. -/
theorem redirectTurn_paired {plan : Option CachePlan} {cachedEntry : Option CacheEntry}
    {key : Str} {url : Url} {onward : UpstreamResponse → Prog Io (Except AppError Fetched)}
    (hcached : ∀ entry, cachedEntry = some entry → entry.bodyPath = bodyPath key)
    (honward : ∀ {resp s t}, SameBodies s t →
      Paired (Site.run world others faults) (Site.run world others noFaults) (FetchedAlike state)
        (onward resp) (onward resp) s t)
    (h : SameBodies s t) :
    Paired (Site.run world others faults) (Site.run world others noFaults) (FetchedAlike state)
      (redirectTurn state requestHeaders bucket target plan cachedEntry url onward)
      (redirectTurn state requestHeaders bucket target plan cachedEntry url onward) s t := by
  unfold redirectTurn
  simp only [Io.send_bind]
  obtain ⟨hanswer, hsent⟩ := h.outer_step (o := .send _) trivial
  have hasked : ∀ request, (Site.run world others faults (.send request) s).2.asked = true :=
    fun request => rfl
  refine Paired.op hanswer fun answer => ?_
  have herror : ∀ {e : AppError} {s t : Site σ}, SameBodies s t →
      FetchedAlike state (.error e) s (.error e) t := by
    intro e s t h
    exact FetchedAlike.same rfl (fun response hresult => nomatch hresult) h
  cases answer with
  | error e => exact herror hsent
  | ok resp =>
      dsimp only
      split
      · next entry _ _ => exact confirmEntry_paired (hcached _ rfl) resp.headers hsent (hasked _)
      · split
        · exact FetchedAlike.same rfl (fun response hresult => nomatch hresult) hsent
        · split
          · exact herror hsent
          · exact honward hsent

theorem followRedirects_paired {origin : Origin} {plan : Option CachePlan}
    {cachedEntry : Option CacheEntry} {key : Str}
    (hcached : ∀ entry, cachedEntry = some entry → entry.bodyPath = bodyPath key) (left : ℕ) :
    ∀ {url} {s t : Site σ}, SameBodies s t →
      Paired (Site.run world others faults) (Site.run world others noFaults) (FetchedAlike state)
        (followRedirects state origin requestHeaders bucket target plan cachedEntry left url)
        (followRedirects state origin requestHeaders bucket target plan cachedEntry left url)
        s t := by
  have herror : ∀ {e : AppError} {s t : Site σ}, SameBodies s t →
      FetchedAlike state (.error e) s (.error e) t := by
    intro e s t h
    exact FetchedAlike.same rfl (fun response hresult => nomatch hresult) h
  induction left with
  | zero =>
      intro url s t h
      exact redirectTurn_paired hcached (fun h => herror h) h
  | succ left ih =>
      intro url s t h
      refine redirectTurn_paired hcached (fun {resp s t} h => ?_) h
      cases hnext : nextHop state origin url resp.headers with
      | error e => exact herror h
      | ok nextUrl => exact ih h

/-- How the handler ends on the two sides: with the same response, with a live
response up to its writer, or with a failed refresh on the left. -/
inductive Alike (state : AppState) (result : Except AppError Response) (s : Site σ)
    (result' : Except AppError Response) (t : Site σ) : Prop
  | same (hresult : result = result')
      (hplain : ∀ response, result = .ok response → response.IsPlain) (h : SameBodies s t)
  | live (status : ℕ) (headers : HeaderMap) (items : List (Except Str Bytes)) (bucket : Str)
      (guard : ResultSizeGuard) (cache : Option Cache) (writer writer' : Option CacheWriter)
      (hresult : result = .ok ⟨status, headers, .live items bucket guard cache writer⟩)
      (hresult' : result' = .ok ⟨status, headers, .live items bucket guard cache writer'⟩)
      (h : Alongside s t) (hfaultless : ¬ s.MetadataFault)
  | fault (hfault : s.MetadataFault) (e : IoError) (entry : CacheEntry) (bucket : Str)
      (target : Url) (hresult : result = .error (refreshFailed e))
      (hresult' : result' = cachedResponse state entry bucket state.resultMax cacheRevalidated
        target)

omit [Crates] in
/-- An error of its own is the same on both sides. -/
theorem Alike.error {e : AppError} (h : SameBodies s t) :
    Alike state (.error e) s (.error e) t :=
  .same rfl (fun _ hresult => nomatch hresult) h

/-- A writer begins, or does not, with no metadata written. -/
theorem beginWrite_paired {plan : CachePlan} {status : ℕ} {headers : HeaderMap}
    (h : SameBodies s t) :
    Paired (Site.run world others faults) (Site.run world others noFaults)
      (fun _ s _ t => Alongside s t ∧ ¬ s.MetadataFault)
      (beginWrite plan status headers requestHeaders)
      (beginWrite plan status headers requestHeaders) s t := by
  have hnone : ∀ {s t : Site σ}, SameBodies s t →
      Paired (Site.run world others faults) (Site.run world others noFaults)
        (fun _ s _ t => Alongside s t ∧ ¬ s.MetadataFault)
        (.ret (none : Option CacheWriter)) (.ret (none : Option CacheWriter)) s t :=
    fun h => ⟨h.toAlongside, h.faultless⟩
  rcases beginWrite_cases plan status headers requestHeaders with
    ⟨hrefused, -⟩ | ⟨vary, hopens, -⟩
  · rw [hrefused]
    exact hnone h
  · rw [hopens]
    obtain ⟨hcreated, h₁⟩ := h.outer_step (o := .systemTime) trivial
    refine Paired.op hcreated fun created => ?_
    obtain ⟨haccessed, h₂⟩ := h₁.outer_step (o := .systemTime) trivial
    refine Paired.op haccessed fun accessed => ?_
    obtain ⟨hnow, h₃⟩ := h₂.outer_step (o := .systemTime) trivial
    refine Paired.op hnow fun now => ?_
    dsimp only
    split
    · exact hnone h₃
    · refine @leavesMetadata_paired _ world others faults _ _ _ (fun _ => True) _ ?_
        h₃.toAlongside h₃.faultless
      refine ⟨trivial, fun tempId => ⟨id, fun r => ?_⟩⟩
      cases r with
      | error e => trivial
      | ok _ => trivial

theorem liveResponse_paired {finalUrl : Url} {plan : Option CachePlan} {revalidated : Bool}
    {upstreamResponse : UpstreamResponse} (h : SameBodies s t) :
    Paired (Site.run world others faults) (Site.run world others noFaults) (Alike state)
      (liveResponse state requestHeaders bucket target finalUrl plan revalidated upstreamResponse)
      (liveResponse state requestHeaders bucket target finalUrl plan revalidated upstreamResponse)
      s t := by
  have hwriter : Paired (Site.run world others faults) (Site.run world others noFaults)
      (fun _ s _ t => Alongside s t ∧ ¬ s.MetadataFault)
      (beginWritePlanned state plan upstreamResponse requestHeaders)
      (beginWritePlanned state plan upstreamResponse requestHeaders) s t := by
    unfold beginWritePlanned
    split
    · exact beginWrite_paired h
    · exact ⟨h.toAlongside, h.faultless⟩
  unfold liveResponse
  dsimp only
  split
  · exact Alike.error h
  · refine hwriter.bind ?_
    rintro writer s writer' t ⟨hst, hs⟩
    exact Alike.live _ _ _ _ _ _ writer writer' rfl rfl hst hs

theorem fetchUpstream_paired {key : RateLimitKey} {plan : Option CachePlan}
    {cachedEntry : Option CacheEntry} {force : Bool} {entryKey : Str}
    (hcached : ∀ entry, cachedEntry = some entry → entry.bodyPath = bodyPath entryKey)
    (h : SameBodies s t) :
    Paired (Site.run world others faults) (Site.run world others noFaults) (Alike state)
      (fetchUpstream state key requestHeaders target plan cachedEntry force)
      (fetchUpstream state key requestHeaders target plan cachedEntry force) s t := by
  unfold fetchUpstream
  refine (followRedirects_paired hcached state.maxRedirects h).bind ?_
  rintro result s result' t (⟨rfl, hplain, hst⟩ | ⟨hfault, e, entry, bucket, target, rfl, rfl⟩)
  · cases result with
    | error e => exact Alike.error hst
    | ok fetched =>
        cases fetched with
        | final upstreamResponse finalUrl => exact liveResponse_paired hst
        | confirmed response =>
            refine Alike.same rfl (fun response' hresult => ?_) hst
            obtain rfl := Except.ok.inj hresult
            exact hplain response rfl
  · refine Alike.fault hfault e entry bucket target rfl ?_
    cases cachedResponse state entry bucket state.resultMax cacheRevalidated target with
    | error e => rfl
    | ok response => rfl

theorem lookupPlanned_paired {plan : Option CachePlan} (h : SameDirectory s t) :
    Paired (Site.run world others faults) (Site.run world others noFaults)
      (fun found s found' t => ∃ key, LookedUp key found s found' t)
      (lookupPlanned state plan) (lookupPlanned state plan) s t := by
  unfold lookupPlanned
  split
  · next plan _ =>
    simp only [Io.nowSeconds_bind]
    obtain ⟨hclock, houter⟩ := h.toAlongside.outer_step (o := .systemTime) trivial
    refine Paired.op hclock fun now => ?_
    exact (lookup_paired plan _ ⟨houter, h.dir, h.unasked, h.faultless⟩).mono fun _ _ _ _ hfound =>
      ⟨plan.key, hfound⟩
  · exact ⟨[], rfl, fun _ hnone => (nomatch hnone), h.sameBodies⟩

theorem answerAdmitted_paired {key : RateLimitKey} (h : SameDirectory s t) :
    Paired (Site.run world others faults) (Site.run world others noFaults) (Alike state)
      (answerAdmitted state key requestHeaders target)
      (answerAdmitted state key requestHeaders target) s t := by
  unfold answerAdmitted
  dsimp only
  refine (lookupPlanned_paired h).bind ?_
  rintro found s _ t ⟨entryKey, rfl, hpath, hst⟩
  split
  · next entry _ _ =>
    simp only [Io.nowSeconds_bind]
    obtain ⟨hclock, hst'⟩ := hst.outer_step (o := .systemTime) trivial
    refine Paired.op hclock fun now => ?_
    split
    · refine Alike.same rfl (fun response hresult => ?_) hst'
      exact cachedResponse_isPlain (hpath entry rfl) hresult
    · exact fetchUpstream_paired hpath hst'
  · exact fetchUpstream_paired hpath hst

omit [Crates] in
/-- The tiers only check limits, and answer with a text. -/
theorem checkTiers_isLimit (key : RateLimitKey) (tiers : List LimitTier) :
    Meets IoOp.IsLimit (fun result => ∀ response, result = .ok (some response) → response.IsPlain)
      (checkTiers key tiers) := by
  induction tiers with
  | nil => exact fun response hresult => nomatch hresult
  | cons tier rest ih =>
      unfold checkTiers
      simp only [Io.checkLimit_bind]
      refine ⟨trivial, fun r => ?_⟩
      cases r with
      | error e => exact fun response hresult => nomatch hresult
      | ok snapshot =>
          dsimp only
          split
          · exact ih
          · intro response hresult
            obtain rfl := Option.some.inj (Except.ok.inj hresult)
            exact .full _ rfl

/-- **The handler on the two sides.** -/
theorem proxyHandler_paired {uri : OriginalUri} {key : RateLimitKey} (h : SameDirectory s t) :
    Paired (Site.run world others faults) (Site.run world others noFaults) (Alike state)
      (proxyHandler state uri key requestHeaders) (proxyHandler state uri key requestHeaders)
      s t := by
  unfold proxyHandler
  split
  · exact Alike.error h.sameBodies
  · split
    · exact Alike.error h.sameBodies
    · split
      · exact Alike.error h.sameBodies
      · refine (Paired.of_meets (R := SameDirectory) (checkTiers_isLimit key state.rateLimit)
          (fun _ _ _ ho hst => hst.limit_step ho) h).bind ?_
        rintro result s _ t ⟨rfl, hplain, hst⟩
        cases result with
        | error e => exact Alike.error hst.sameBodies
        | ok limited =>
            cases limited with
            | none => exact answerAdmitted_paired hst
            | some response =>
                refine Alike.same rfl (fun response' hresult => ?_) hst.sameBodies
                obtain rfl := Except.ok.inj hresult
                exact hplain response rfl

/-! ## The bodies -/

/-- A text or a cached body is streamed alike. -/
theorem stream_plain_paired {response : Response} (hplain : response.IsPlain)
    (h : SameBodies s t) :
    Paired (Site.run world others faults) (Site.run world others noFaults)
      (fun _ s _ t => Alongside s t) response.body.stream response.body.stream s t := by
  cases hplain with
  | full bytes hbody =>
      rw [hbody]
      have hyield := @Alongside.outer_step _ world others faults s t noFaults h.toAlongside
        (.yield (.ok bytes)) trivial
      exact hyield.2
  | cached key bucket guard hbody =>
      rw [hbody]
      have houter : ∀ items, Meets IoOp.IsOuter (fun _ => True) (meteredStream bucket
          (fun _ item => Io.yield (item.mapError MeteredError.toText)) guard items ()) :=
        fun items => meteredStream_meets (fun _ => trivial)
          (fun _ item _ => by exact ⟨trivial, fun _ => trivial⟩) items trivial
      obtain ⟨hopen, hopened⟩ := @SameBodies.open_step _ world others faults s t h key
      unfold Body.stream fileStream
      simp only [Io.openFile_bind, Prog.op_bind]
      refine Paired.op hopen fun opened => ?_
      have hitems : ∀ items, Paired (Site.run world others faults)
          (Site.run world others noFaults) (fun _ s _ t => Alongside s t)
          (meteredStream bucket (fun _ item => Io.yield (item.mapError MeteredError.toText)) guard
            items ())
          (meteredStream bucket (fun _ item => Io.yield (item.mapError MeteredError.toText)) guard
            items ()) _ _ :=
        fun items => (Paired.of_meets (houter items) (fun _ _ _ ho hst => hst.outer_step ho)
          hopened).mono fun _ _ _ _ hst => hst.2.2
      cases opened with
      | error e => exact hitems _
      | ok bytes => exact hitems _

omit [Crates] in
theorem discard_isCacheOp (w : CacheWriter) : Meets IsCacheOp (fun _ => True) w.discard :=
  ⟨trivial, fun _ => trivial⟩

omit [Crates] in
theorem teeDiscard_isCacheOp (writer : Option CacheWriter) :
    Meets IsCacheOp (fun _ => True) (teeDiscard writer) := by
  cases writer with
  | none => trivial
  | some w => exact discard_isCacheOp w

omit [Crates] in
theorem teeWrite_isCacheOp (bytes : Bytes) (writer : Option CacheWriter) :
    Meets IsCacheOp (fun _ => True) (teeWrite bytes writer) := by
  cases writer with
  | none => trivial
  | some w =>
      unfold teeWrite CacheWriter.write
      simp only [Io.writeAll_bind, Prog.op_bind]
      refine ⟨trivial, fun r => ?_⟩
      cases r with
      | error e => exact (discard_isCacheOp w).bind fun _ _ => trivial
      | ok _ => trivial

theorem finish_isCacheOp (cache : Cache) (w : CacheWriter) :
    Meets IsCacheOp (fun _ => True) (w.finish cache) := by
  have hevict : Meets IsCacheOp (fun _ => True) (evict cache) := by
    refine (evict_removesOnly cache).mono (fun o ho => ?_) fun _ _ => trivial
    cases o with
    | fs o => trivial
    | _ => exact ho.elim
  unfold CacheWriter.finish commit
  simp only [Io.flush_bind, Io.rename_bind]
  refine ⟨trivial, fun flushed => ?_⟩
  cases flushed with
  | error e => trivial
  | ok _ =>
      refine ⟨trivial, fun renamed => ?_⟩
      cases renamed with
      | error e => trivial
      | ok _ =>
          refine ((writeMetadata_isMetadata _).mono (fun _ ho => ho.isCacheOp)
            fun _ ha => ha).bind fun written _ => ?_
          cases written with
          | error e => trivial
          | ok _ => exact hevict.bind fun _ _ => trivial

omit [Crates] in
/-- One item of a live body, whatever became of the two writers. -/
theorem teeItem_paired (writer writer' : Option CacheWriter) (item : Except MeteredError Bytes)
    (h : Alongside s t) :
    Paired (Site.run world others faults) (Site.run world others noFaults)
      (fun _ s _ t => Alongside s t) (teeItem writer item) (teeItem writer' item) s t := by
  cases item with
  | error e =>
      refine (inner_paired (teeDiscard_isCacheOp writer) (teeDiscard_isCacheOp writer') h).bind ?_
      intro _ s _ t hst
      exact yield_paired hst _
  | ok bytes =>
      have hwrites := teeWrite_isCacheOp bytes
      refine (inner_paired (hwrites writer) (hwrites writer') h).bind ?_
      intro writer s writer' t hst
      exact yield_paired hst _

omit [Crates] in
/-- A live body is streamed alike. -/
theorem meteredStream_paired (items : List (Except Str Bytes)) :
    ∀ {guard writer writer'} {s t : Site σ}, Alongside s t →
      Paired (Site.run world others faults) (Site.run world others noFaults)
        (fun _ s _ t => Alongside s t) (meteredStream bucket teeItem guard items writer)
        (meteredStream bucket teeItem guard items writer') s t := by
  induction items with
  | nil =>
      intro guard writer writer' s t h
      exact h
  | cons item rest ih =>
      intro guard writer writer' s t h
      cases item with
      | error e => exact teeItem_paired writer writer' _ h
      | ok chunk =>
          unfold meteredStream
          split
          · exact teeItem_paired writer writer' _ h
          · simp only [Io.charge_bind]
            obtain ⟨hcharge, hcharged⟩ := h.outer_step (o := .charge bucket chunk.length) trivial
            refine Paired.op hcharge fun _ => ?_
            refine (teeItem_paired writer writer' _ hcharged).bind ?_
            intro writer s writer' t hst
            exact ih hst

theorem stream_live_paired {items : List (Except Str Bytes)} {guard : ResultSizeGuard}
    {cache : Option Cache} (writer writer' : Option CacheWriter) (h : Alongside s t) :
    Paired (Site.run world others faults) (Site.run world others noFaults)
      (fun _ s _ t => Alongside s t) (Body.live items bucket guard cache writer).stream
      (Body.live items bucket guard cache writer').stream s t := by
  unfold Body.stream
  refine (meteredStream_paired items h).bind ?_
  intro writer s writer' t hst
  refine @inner_paired _ _ _ _ _ _ _ _ (fun _ => True) (fun _ => True) _ _ ?_ ?_ hst
  · split
    · exact (finish_isCacheOp _ _).bind fun _ _ => trivial
    · trivial
  · split
    · exact (finish_isCacheOp _ _).bind fun _ _ => trivial
    · trivial

/-- What the consumer gets of two responses that are alike. -/
theorem deliver_paired {result result' : Except AppError Response}
    (h : Alike state result s result' t) (hs : ¬ s.MetadataFault) :
    Paired (Site.run world others faults) (Site.run world others noFaults)
      (fun a s b t => delivery a s = delivery b t ∧ (b.isOk = true → a.isOk = true))
      (deliver result) (deliver result') s t := by
  cases h with
  | fault hfault => exact absurd hfault hs
  | same hresult hplain h =>
      subst hresult
      cases result with
      | error e => exact ⟨rfl, id⟩
      | ok response =>
          refine (stream_plain_paired (hplain response rfl) h).bind ?_
          intro _ s _ t hst
          exact ⟨congrArg (Prod.mk response.status) hst.sent, id⟩
  | live status headers items bucket guard cache writer writer' hresult hresult' h =>
      subst hresult hresult'
      refine (stream_live_paired writer writer' h).bind ?_
      intro _ s _ t hst
      exact ⟨congrArg (Prod.mk status) hst.sent, fun _ => rfl⟩

end Programs

end Steps

/-! ## The errors -/

/-- The body of an error determines the text, as it is escaped. -/
theorem AppError.jsonString_of_body {e e' : AppError} (h : e.body = e'.body) :
    jsonString e.message = jsonString e'.message :=
  List.append_cancel_left (List.append_cancel_right (utf8_injective h))

/-- The first character of a text, read off its JSON string. -/
theorem tail_jsonString {message : Str} {c : Char} (h : message.head? = some c)
    (hc : jsonChar c = [c]) : (jsonString message).tail.head? = some c := by
  cases message with
  | nil => cases h
  | cons c' rest =>
      obtain rfl := Option.some.inj h
      unfold jsonString
      rw [List.flatMap_cons, hc]
      rfl

/-- A failed refresh is told apart from the answers of a cached entry. -/
theorem refreshFailed_ne_cachedResponse [Crates] {state : AppState} {entry : CacheEntry}
    {bucket : Str} {target : Url} {e : IoError} {e' : AppError}
    (h : cachedResponse state entry bucket state.resultMax cacheRevalidated target = .error e') :
    (refreshFailed e).status ≠ e'.status ∨ (refreshFailed e).body ≠ e'.body := by
  unfold cachedResponse at h
  split at h
  · obtain rfl := Except.error.inj h
    refine .inr fun hbody => ?_
    have hjson := AppError.jsonString_of_body hbody
    have hleft : (jsonString (refreshFailed e).message).tail.head? = some 'f' := by
      refine tail_jsonString ?_ (by decide)
      show ("failed to refresh cache metadata: ".toList ++ e).head? = some 'f'
      rw [List.head?_append_of_ne_nil _ (by decide)]
      decide
    rw [hjson] at hleft
    have hright : (jsonString "invalid cached status: invalid status code".toList).tail.head? =
        some 'i' := tail_jsonString (by decide) (by decide)
    exact absurd (hright.symm.trans hleft) (by decide)
  · dsimp only at h
    split at h
    · obtain rfl := Except.error.inj h
      refine .inl ?_
      show 502 ≠ 413
      decide
    · cases h

/-! ## The main theorem -/

/-- **Failing cache writes are invisible until a refresh fails.**  The consumer gets
the same as without them, and no error for it, exactly when no write of metadata
fails between the upstream's answer and the handler's. -/
theorem write_faults_invisible_iff [Crates] (world : Handler Io σ) (others : FsOp → Option Fault)
    (faults : ℕ → FsOp → Option Fault) (state : AppState) (uri : OriginalUri)
    (key : RateLimitKey) (requestHeaders : HeaderMap) (s : Site σ) (hs : s.Fresh) :
    WriteFaultsInvisible world others faults state uri key requestHeaders s ↔
      ¬ (exec (Site.run world others faults) (proxyHandler state uri key requestHeaders)
        s).2.MetadataFault := by
  have hstart : SameDirectory s s := by
    refine ⟨⟨rfl, rfl, rfl⟩, rfl, hs.asked, ?_⟩
    rintro ⟨o, ho, -⟩
    rw [hs.failed] at ho
    exact List.not_mem_nil ho
  have halike :=
    @proxyHandler_paired _ world others faults s s _ state requestHeaders uri key hstart
  constructor
  · rintro ⟨hdelivery, hok⟩ hfault
    unfold serve at hdelivery hok
    rw [exec_bind, exec_bind] at hdelivery hok
    cases halike with
    | same hresult hplain h => exact h.faultless hfault
    | live _ _ _ _ _ _ _ _ hresult hresult' h hfaultless => exact hfaultless hfault
    | fault _ e entry bucket target hresult hresult' =>
        rw [hresult, hresult'] at hdelivery hok
        cases hcached : cachedResponse state entry bucket state.resultMax cacheRevalidated
            target with
        | ok response =>
            have hclean : ∀ t : Site σ, (exec (Site.run world others noFaults)
                (deliver (.ok response)) t).1 = .ok response := by
              intro t
              unfold deliver
              dsimp only
              rw [exec_bind]
              rfl
            rw [hcached, hclean] at hok
            cases hok rfl
        | error e' =>
            rw [hcached] at hdelivery
            obtain ⟨hstatus, hbody⟩ := Prod.mk.inj hdelivery
            rcases refreshFailed_ne_cachedResponse (e := e) hcached with hne | hne
            · exact hne hstatus
            · exact hne (Except.ok.inj (List.cons.inj hbody).1)
  · intro hfaultless
    unfold WriteFaultsInvisible serve
    dsimp only
    rw [exec_bind, exec_bind]
    exact deliver_paired halike hfaultless

/-! ## A full disk -/

/-- One environment: it is a minute and a half after the epoch, nothing is limited,
and the upstream confirms every entry. -/
def confirmingWorld : Handler Io Unit
  | .fs _, _ => (.error notFound, ())
  | .tempCounter, _ => ((0 : ℕ), ())
  | .systemTime, _ => ((90 * 10 ^ 9 : ℕ), ())
  | .checkLimit _ _, _ => ((.ok ⟨true, []⟩ : Except Str Snapshot), ())
  | .send _, _ => ((.ok ⟨304, [], none, []⟩ : Except ClientError UpstreamResponse), ())
  | .charge _ _, _ => ((.ok () : Except BandwidthError Unit), ())
  | .yield _, _ => (((), ()) : Unit × Unit)

/-- An entry that was stored at the epoch for a minute. -/
def expiredEntry : CacheEntry where
  version := cacheVersion
  status := 200
  headers := []
  bodyLen := 1
  createdAt := 0
  lastAccess := 0
  ttl := 60
  revalidate := false
  etag := some "v1".toList
  lastModified := none
  vary := []
  requestVariants := []
  key := exampleDigest
  bodyPath := bodyPath exampleDigest

/-- The site with its two files. -/
def expiredSite : Site Unit where
  dir := (AList.insert (metaPath exampleDigest) (.json expiredEntry) ∅).insert
    (bodyPath exampleDigest) (.raw [0])
  counter := 0
  outer := ()
  step := 0
  asked := false
  sent := []
  failed := []

/-- The disk is full at one step. -/
def fullAt (step : ℕ) : ℕ → FsOp → Option Fault := fun n _ =>
  if n = step then some ⟨"No space left on device (os error 28)".toList, 0⟩ else none

/-- What the consumer gets for the entry. -/
def expiredDelivery (faults : ℕ → FsOp → Option Fault) : ℕ × List (Except Str Bytes) :=
  let served := exec (Site.run confirmingWorld (fun _ => none) faults)
    (@serve reference exampleState plainRequest.uri exampleKey []) expiredSite
  delivery served.1 served.2

theorem expiredSite_fresh : expiredSite.Fresh := ⟨rfl, rfl, rfl⟩

/-- The theorem where the lookup cannot write: it finds the entry all the same. -/
theorem write_faults_invisible_lookup :
    @WriteFaultsInvisible _ reference confirmingWorld (fun _ => none) (fullAt 2) exampleState
      plainRequest.uri exampleKey [] expiredSite := by
  refine (@write_faults_invisible_iff _ reference confirmingWorld (fun _ => none) (fullAt 2)
    exampleState plainRequest.uri exampleKey [] expiredSite expiredSite_fresh).mpr ?_
  have hfailed : (exec (Site.run confirmingWorld (fun _ => none) (fullAt 2))
      (@proxyHandler reference exampleState plainRequest.uri exampleKey [])
      expiredSite).2.failed = [] := by
    decide +kernel
  rintro ⟨o, ho, -⟩
  rw [hfailed] at ho
  exact List.not_mem_nil ho

/-- **A full disk becomes an answer.**  The upstream confirms the entry, the refresh
cannot be written, and the consumer gets a 502 instead of the body. -/
theorem failed_refresh_is_visible :
    expiredDelivery noFaults = (200, [.ok [0]]) ∧ (expiredDelivery (fullAt 4)).1 = 502 ∧
      ¬ @WriteFaultsInvisible _ reference confirmingWorld (fun _ => none) (fullAt 4) exampleState
        plainRequest.uri exampleKey [] expiredSite := by
  refine ⟨by decide +kernel, by decide +kernel, ?_⟩
  rintro ⟨hdelivery, -⟩
  exact absurd (congrArg Prod.fst hdelivery) (by decide +kernel)

end Corsget
