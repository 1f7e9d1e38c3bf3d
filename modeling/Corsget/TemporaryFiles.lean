import Corsget.Supersede

/-!
# The temporary file of a body

A writer's temporary file leaves the directory in two ways: the stream renames it
into place when it finishes, or removes it when it gives the writer up.  Both are
steps of the stream itself.  A consumer that drops the stream before leaves the
file behind, and so does a finish whose flush or rename fails, and a removal that
fails.

`temp_body_gone_iff` says that these are all the ways.  It speaks about every
point at which a stream can be cut: what is left of the program shows whether it
still had a writer.
-/

namespace Corsget

open Text Effect

/-! ## The file -/

/-- An operation that does nothing to the file at `path` but read it. -/
def Avoids (path : Str) : IoOp → Prop
  | .fs (.removeFile p) | .fs (.write p _) | .fs (.create p) | .fs (.writeAll p _)
  | .fs (.flush p) => p ≠ path
  | .fs (.rename source target) => source ≠ path ∧ target ≠ path
  | _ => True

/-- A program all of whose operations do. -/
abbrev LeavesFile {α : Type} (path : Str) (p : Prog Io α) : Prop :=
  Meets (Avoids path) (fun _ => True) p

/-- The steps by which a writer is finished or given up. -/
def FsOp.Releases (path : Str) : FsOp → Prop
  | .flush p | .removeFile p => p = path
  | .rename source _ => source = path
  | _ => False

/-- The file is there, and no step of releasing it has failed. -/
structure Pending (path : Str) (w : World) : Prop where
  file : ∃ data, w.dir.lookup path = some data
  faultless : ∀ o ∈ w.faults, ¬ o.Releases path

/-- The file is there because a step of releasing it has failed. -/
structure Stuck (path : Str) (w : World) : Prop where
  file : ∃ data, w.dir.lookup path = some data
  fault : ∃ o ∈ w.faults, o.Releases path

/-- The file is not there. -/
structure Released (path : Str) (w : World) : Prop where
  file : w.dir.lookup path = none
  faultless : ∀ o ∈ w.faults, ¬ o.Releases path

/-- **Where a program can be cut**: with the file still to be released, stuck, or
released. -/
inductive Accounted {α : Type} (path : Str) (rest : Prog Io α) (w : World) : Prop
  | pending (h : Pending path w) (hrest : ¬ LeavesFile path rest)
  | stuck (h : Stuck path w)
  | released (h : Released path w) (hrest : LeavesFile path rest)

/-- The writer was released, or could not be. -/
def Resolved (path : Str) (w : World) : Prop := Stuck path w ∨ Released path w

section World

variable {path : Str} {w w' : World}

theorem Accounted.gone_iff {α : Type} {rest : Prog Io α} (h : Accounted path rest w) :
    w.dir.lookup path = none ↔ LeavesFile path rest ∧ ∀ o ∈ w.faults, ¬ o.Releases path := by
  cases h with
  | pending h hrest =>
      obtain ⟨data, hfile⟩ := h.file
      simp [hfile, hrest]
  | stuck h =>
      obtain ⟨data, hfile⟩ := h.file
      obtain ⟨o, ho, hreleases⟩ := h.fault
      simp only [hfile, reduceCtorEq, false_iff, not_and]
      exact fun _ hnone => hnone o ho hreleases
  | released h hrest => exact iff_of_true h.file ⟨hrest, h.faultless⟩

/-- The directory and the failed steps after a file step. -/
theorem worldEnv_fs {o : FsOp} (ho : o ≠ .readDir) {r : o.Res} (h : worldEnv (.fs o) w r w') :
    ∃ fault, (w.dir.perform o fault).1 = r ∧ w'.dir = (w.dir.perform o fault).2 ∧
      w'.faults = if fault.isSome then o :: w.faults else w.faults := by
  cases o with
  | readDir => exact absurd rfl ho
  | _ =>
      obtain ⟨fault, hr, rfl⟩ := h
      exact ⟨fault, hr, rfl, rfl⟩

/-- Failing steps of other files do not count. -/
theorem releases_cons_iff {o : FsOp} (ho : ¬ o.Releases path) (faults : List FsOp) (b : Bool) :
    (∃ o' ∈ (if b then o :: faults else faults), o'.Releases path) ↔
      ∃ o' ∈ faults, o'.Releases path := by
  cases b with
  | false => exact Iff.rfl
  | true =>
      rw [if_pos rfl]
      exact (List.exists_mem_cons_iff _ _ _).trans (or_iff_right ho)

/-- **Frame**: an operation that avoids the file. -/
theorem Avoids.frame {o : IoOp} {r : Io.Res o} (ho : Avoids path o) (h : worldEnv o w r w') :
    w'.dir.lookup path = w.dir.lookup path ∧
      ((∃ o ∈ w'.faults, o.Releases path) ↔ ∃ o ∈ w.faults, o.Releases path) := by
  cases o with
  | fs o =>
      by_cases hdir : o = .readDir
      · subst hdir
        obtain rfl : w' = w := h
        exact ⟨rfl, Iff.rfl⟩
      · have hreleases : ¬ o.Releases path := by
          cases o with
          | rename source target => exact ho.1
          | removeFile p => exact ho
          | flush p => exact ho
          | _ => exact id
        have htouched : path ∉ o.touched := by
          cases o with
          | rename source target => simpa [FsOp.touched] using ⟨Ne.symm ho.1, Ne.symm ho.2⟩
          | removeFile p => simpa [FsOp.touched] using Ne.symm ho
          | write p data => simpa [FsOp.touched] using Ne.symm ho
          | create p => simpa [FsOp.touched] using Ne.symm ho
          | writeAll p bytes => simpa [FsOp.touched] using Ne.symm ho
          | _ => exact List.not_mem_nil
        obtain ⟨fault, -, hdir, hfaults⟩ := worldEnv_fs hdir h
        rw [hdir, hfaults]
        exact ⟨Dir.lookup_perform htouched fault _, releases_cons_iff hreleases _ _⟩
  | systemTime =>
      obtain rfl : w' = { w with clock := r } := h
      exact ⟨rfl, Iff.rfl⟩
  | send request =>
      obtain rfl : w' = { w with upstream := (Except.toOption r).or w.upstream } := h
      exact ⟨rfl, Iff.rfl⟩
  | yield item =>
      obtain rfl : w' = { w with sent := w.sent ++ [item] } := h
      exact ⟨rfl, Iff.rfl⟩
  | _ =>
      obtain rfl : w' = w := h
      exact ⟨rfl, Iff.rfl⟩

theorem Pending.of_avoids {o : IoOp} {r : Io.Res o} (hw : Pending path w) (ho : Avoids path o)
    (h : worldEnv o w r w') : Pending path w' := by
  obtain ⟨hfile, hfaults⟩ := ho.frame h
  refine ⟨hfile ▸ hw.file, fun o' ho' hreleases => ?_⟩
  obtain ⟨o'', ho'', hreleases⟩ := hfaults.mp ⟨o', ho', hreleases⟩
  exact hw.faultless o'' ho'' hreleases

theorem Resolved.of_avoids {o : IoOp} {r : Io.Res o} (hw : Resolved path w) (ho : Avoids path o)
    (h : worldEnv o w r w') : Resolved path w' := by
  obtain ⟨hfile, hfaults⟩ := ho.frame h
  rcases hw with hw | hw
  · exact .inl ⟨hfile ▸ hw.file, hfaults.mpr hw.fault⟩
  · refine .inr ⟨hfile.trans hw.file, fun o' ho' hreleases => ?_⟩
    obtain ⟨o'', ho'', hreleases⟩ := hfaults.mp ⟨o', ho', hreleases⟩
    exact hw.faultless o'' ho'' hreleases

/-- A resolved program that leaves the file alone is accounted for throughout. -/
theorem Resolved.atCuts {α : Type} {p : Prog Io α} (hw : Resolved path w) (hp : LeavesFile path p) :
    AtCuts worldEnv (Accounted path) (fun a => Accounted path (.ret a)) p w := by
  have haccounted : ∀ {q : Prog Io α} {w}, LeavesFile path q → Resolved path w →
      Accounted path q w := by
    rintro q w hq (hstuck | hreleased)
    · exact .stuck hstuck
    · exact .released hreleased hq
  refine AtCuts.of_safe hp ((Safe.of_meets hp (fun o s r s' ho hs hE => hs.of_avoids ho hE)
    hw).mono (fun _ h => h) fun a s hs _ => ?_) fun _ _ => haccounted
  exact haccounted trivial hs

end World

/-! ## The programs that leave it alone -/

section Programs

variable [Crates]

/-- A temporary body is not a temporary metadata file. -/
theorem tempBodyPath_ne_tempMetaPath (key key' : Str) (m n : ℕ) :
    tempBodyPath key m ≠ tempMetaPath key' n := by
  intro h
  have hhyphen : ∀ n, '-' ∉ decimal n := by
    intro n hmem
    exact absurd (isDigit_of_mem_decimal hmem) (by decide)
  -- Read from the right: the counter, the process id, and the kind of the file.
  have hfront : ∀ (key kind : Str), '.' :: key ++ (kind ++ ['-']) ++ decimal Crates.processId =
      ('.' :: key ++ kind) ++ '-' :: decimal Crates.processId := by
    intro key kind
    simp only [List.append_assoc, List.cons_append, List.nil_append]
  have hid : '.' :: key ++ (".body.tmp".toList ++ ['-']) ++ decimal Crates.processId =
      '.' :: key' ++ (".meta.tmp".toList ++ ['-']) ++ decimal Crates.processId :=
    (snoc_segment_inj (hhyphen m) (hhyphen n) h).1
  rw [hfront, hfront] at hid
  have hkind := (snoc_segment_inj (hhyphen _) (hhyphen _) hid).1
  have hlength : ".body.tmp".toList.length = ".meta.tmp".toList.length := by decide
  exact absurd (List.append_inj_right' hkind hlength) (by decide)

theorem writeMetadata_leavesFile (entry : CacheEntry) (key : Str) (tempId : ℕ) :
    LeavesFile (tempBodyPath key tempId) (writeMetadata entry) := by
  have hne : ∀ n, tempMetaPath entry.key n ≠ tempBodyPath key tempId := fun n =>
    (tempBodyPath_ne_tempMetaPath key entry.key tempId n).symm
  unfold writeMetadata
  simp only [Io.fetchAdd_bind, Io.write_bind]
  refine ⟨trivial, fun n => ⟨hne n, fun r => ?_⟩⟩
  cases r with
  | error e => trivial
  | ok _ =>
      exact ⟨⟨hne n, ((tempBodyPath_isTemporary key tempId).ne_metaPath _).symm⟩, fun _ => trivial⟩

theorem evict_leavesFile (cache : Cache) (key : Str) (tempId : ℕ) :
    LeavesFile (tempBodyPath key tempId) (evict cache) := by
  refine (evict_removesEntries cache).mono (fun o ho => ?_) fun _ _ => trivial
  cases o with
  | fs o =>
      cases o with
      | removeFile path =>
          obtain ⟨key', rfl | rfl⟩ := ho
          · exact ((tempBodyPath_isTemporary key tempId).ne_metaPath key').symm
          · exact ((tempBodyPath_isTemporary key tempId).ne_bodyPath key').symm
      | read path => trivial
      | metadata path => trivial
      | readDir => trivial
      | _ => cases ho
  | _ => cases ho

omit [Crates] in
/-- A stream without a writer. -/
theorem meteredStream_leavesFile (path bucket : Str) (items : List (Except Str Bytes))
    (guard : ResultSizeGuard) :
    Meets (Avoids path) (fun writer => writer = none)
      (meteredStream bucket teeItem guard items none) := by
  refine meteredStream_meets (fun _ => trivial) (fun writer item hwriter => ?_) items rfl
  subst hwriter
  cases item with
  | error e => exact ⟨trivial, fun _ => rfl⟩
  | ok bytes => exact ⟨trivial, fun _ => rfl⟩

/-! ## The programs that have it -/

omit [Crates] in
/-- A program whose next operation is on the file. -/
theorem Pending.at_op {α : Type} {path : Str} {w : World} (hw : Pending path w) {o : IoOp}
    {k : Io.Res o → Prog Io α} (ho : ¬ Avoids path o) : Accounted path (.op o k) w :=
  .pending hw fun h => ho h.1

omit [Crates] in
/-- Flushing, or removing, a pending file: it worked, or the fault is recorded. -/
theorem Pending.removeFile {path : Str} {w w' : World} {r : Except IoError Unit}
    (hw : Pending path w) (h : worldEnv (.fs (.removeFile path)) w r w') : Resolved path w' := by
  obtain ⟨data, hfile⟩ := hw.file
  obtain ⟨fault, -, hdir, hfaults⟩ := worldEnv_fs (by simp) h
  cases fault with
  | some f =>
      refine .inl ⟨⟨data, by rw [hdir]; exact hfile⟩, ?_⟩
      rw [hfaults]
      exact ⟨_, List.mem_cons_self, rfl⟩
  | none =>
      refine .inr ⟨?_, by rw [hfaults]; exact hw.faultless⟩
      rw [hdir]
      unfold Dir.perform Dir.performOk
      dsimp only
      rw [hfile]
      exact AList.lookup_erase _ _

omit [Crates] in
theorem Pending.flush {path : Str} {w w' : World} {r : Except IoError Unit}
    (hw : Pending path w) (h : worldEnv (.fs (.flush path)) w r w') :
    (r = .ok () ∧ Pending path w') ∨ ((∃ e, r = .error e) ∧ Resolved path w') := by
  obtain ⟨data, hfile⟩ := hw.file
  obtain ⟨fault, hr, hdir, hfaults⟩ := worldEnv_fs (by simp) h
  cases fault with
  | some f =>
      refine .inr ⟨⟨f.error, hr.symm⟩, .inl ⟨⟨data, by rw [hdir]; exact hfile⟩, ?_⟩⟩
      rw [hfaults]
      exact ⟨_, List.mem_cons_self, rfl⟩
  | none =>
      exact .inl ⟨hr.symm, ⟨data, by rw [hdir]; exact hfile⟩, by rw [hfaults]; exact hw.faultless⟩

omit [Crates] in
theorem Pending.rename {path target : Str} {w w' : World} {r : Except IoError Unit}
    (hw : Pending path w) (htarget : path ≠ target)
    (h : worldEnv (.fs (.rename path target)) w r w') : Resolved path w' := by
  obtain ⟨data, hfile⟩ := hw.file
  obtain ⟨fault, -, hdir, hfaults⟩ := worldEnv_fs (by simp) h
  cases fault with
  | some f =>
      refine .inl ⟨⟨data, by rw [hdir]; exact hfile⟩, ?_⟩
      rw [hfaults]
      exact ⟨_, List.mem_cons_self, rfl⟩
  | none =>
      refine .inr ⟨?_, by rw [hfaults]; exact hw.faultless⟩
      rw [hdir]
      unfold Dir.perform Dir.performOk
      dsimp only
      rw [hfile]
      exact (AList.lookup_insert_ne htarget).trans (AList.lookup_erase _ _)

omit [Crates] in
theorem Pending.writeAll {path : Str} {bytes : Bytes} {w w' : World} {r : Except IoError Unit}
    (hw : Pending path w) (h : worldEnv (.fs (.writeAll path bytes)) w r w') :
    Pending path w' := by
  obtain ⟨data, hfile⟩ := hw.file
  obtain ⟨fault, -, hdir, hfaults⟩ := worldEnv_fs (by simp) h
  constructor
  · rw [hdir]
    cases fault with
    | some f =>
        unfold Dir.perform Dir.performFault
        dsimp only
        rw [hfile]
        exact ⟨_, AList.lookup_insert _⟩
    | none =>
        unfold Dir.perform Dir.performOk
        dsimp only
        rw [hfile]
        exact ⟨_, AList.lookup_insert _⟩
  · intro o ho hreleases
    have hsome := (releases_cons_iff id w.faults fault.isSome).mp ⟨o, hfaults ▸ ho, hreleases⟩
    obtain ⟨o', ho', hreleases'⟩ := hsome
    exact hw.faultless o' ho' hreleases'

variable {key : Str} {tempId : ℕ} {wr : CacheWriter} {w : World}

/-- What follows the metered stream of a live body. -/
def finishing (cache : Cache) : Option CacheWriter → Prog Io Unit
  | none => return ()
  | some wr => do
      let _ ← wr.finish cache
      return ()

/-- **Finishing** a writer: flush and rename, then nothing more. -/
theorem finishing_atCuts (cache : Cache) (hname : wr.tempBody = tempBodyPath key tempId)
    (hw : Pending wr.tempBody w) :
    AtCuts worldEnv (Accounted wr.tempBody) (fun a => Accounted wr.tempBody (.ret a))
      (finishing cache (some wr)) w := by
  unfold finishing CacheWriter.finish commit
  simp only [Io.flush_bind, Prog.op_bind]
  refine ⟨hw.at_op fun h => h rfl, fun r w₁ hflush => ?_⟩
  rcases hw.flush hflush with ⟨rfl, hw₁⟩ | ⟨⟨e, rfl⟩, hw₁⟩
  · simp only [Io.rename_bind, Prog.op_bind]
    refine ⟨hw₁.at_op fun h => h.1 rfl, fun r w₂ hrename => ?_⟩
    have hne : wr.tempBody ≠ bodyPath wr.entry.key := by
      rw [hname]
      exact (tempBodyPath_isTemporary key tempId).ne_bodyPath _
    have hw₂ := hw₁.rename hne hrename
    cases r with
    | error e => exact hw₂.atCuts trivial
    | ok _ =>
        refine hw₂.atCuts (Meets.bind (Q := fun _ => True) ?_ fun _ _ => trivial)
        rw [hname]
        refine (writeMetadata_leavesFile _ key tempId).bind fun written _ => ?_
        cases written with
        | error e => trivial
        | ok _ => exact (evict_leavesFile cache key tempId).bind fun _ _ => trivial
  · exact hw₁.atCuts trivial

omit [Crates] in
/-- **Giving a writer up.** -/
theorem discard_atCuts {α : Type} {rest : Prog Io α} (hw : Pending wr.tempBody w)
    (hrest : LeavesFile wr.tempBody rest) :
    AtCuts worldEnv (Accounted wr.tempBody) (fun a => Accounted wr.tempBody (.ret a))
      (wr.discard >>= fun _ => rest) w :=
  ⟨hw.at_op fun h => h rfl, fun _ _ hremove => (hw.removeFile hremove).atCuts hrest⟩

omit [Crates] in
/-- While the file is pending, what is left of a program still has its writer. -/
theorem Accounted.not_leavesFile {α : Type} {path : Str} {rest : Prog Io α}
    (h : Accounted path rest w) (hw : Pending path w) : ¬ LeavesFile path rest := by
  obtain ⟨data, hfile⟩ := hw.file
  cases h with
  | pending h hrest => exact hrest
  | stuck h =>
      obtain ⟨o, ho, hreleases⟩ := h.fault
      exact absurd hreleases (hw.faultless o ho)
  | released h hrest => exact absurd (hfile.symm.trans h.file) (Option.some_ne_none data)

/-- A live body is its metered stream and what follows. -/
theorem live_stream_eq (items : List (Except Str Bytes)) (bucket : Str) (guard : ResultSizeGuard)
    (cache : Cache) (writer : Option CacheWriter) :
    (Body.live items bucket guard (some cache) writer).stream =
      meteredStream bucket teeItem guard items writer >>= finishing cache := by
  unfold Body.stream
  show (meteredStream bucket teeItem guard items writer >>= _) = _
  refine congrArg _ (funext fun writer => ?_)
  cases writer with
  | none => rfl
  | some wr => rfl

/-- Without a writer the rest of the stream leaves the file alone. -/
theorem rest_leavesFile (path bucket : Str) (cache : Cache) (items : List (Except Str Bytes))
    (guard : ResultSizeGuard) :
    LeavesFile path (meteredStream bucket teeItem guard items none >>= finishing cache) := by
  refine (meteredStream_leavesFile path bucket items guard).bind fun writer hwriter => ?_
  subst hwriter
  trivial

/-- An item that ends the stream. -/
theorem teeItem_error_atCuts (cache : Cache) (hw : Pending wr.tempBody w) (e : MeteredError) :
    AtCuts worldEnv (Accounted wr.tempBody) (fun a => Accounted wr.tempBody (.ret a))
      (teeItem (some wr) (.error e) >>= finishing cache) w := by
  have hrest : LeavesFile wr.tempBody
      (Io.yield (.error e.toText) >>= fun _ => finishing cache none) := ⟨trivial, fun _ => trivial⟩
  exact discard_atCuts hw hrest

/-- **The stream of a body with a writer**, wherever it is cut. -/
theorem stream_atCuts (bucket : Str) (cache : Cache) (items : List (Except Str Bytes)) :
    ∀ {guard : ResultSizeGuard} {wr : CacheWriter} {w : World},
      wr.tempBody = tempBodyPath key tempId → Pending wr.tempBody w →
      AtCuts worldEnv (Accounted wr.tempBody) (fun a => Accounted wr.tempBody (.ret a))
        (meteredStream bucket teeItem guard items (some wr) >>= finishing cache) w := by
  induction items with
  | nil =>
      intro guard wr w hname hw
      exact finishing_atCuts cache hname hw
  | cons item rest ih =>
      intro guard wr w hname hw
      cases item with
      | error e => exact teeItem_error_atCuts cache hw _
      | ok chunk =>
          unfold meteredStream
          split
          · exact teeItem_error_atCuts cache hw _
          · next guard' _ =>
            -- The chunk is charged, written and handed over.
            refine ⟨.pending hw fun h => (h.2 (.ok ())).1 rfl, fun verdict w₁ hcharge => ?_⟩
            obtain rfl : w₁ = w := hcharge
            refine ⟨hw.at_op fun h => h rfl, fun r w₂ hwrite => ?_⟩
            have hw₂ := hw.writeAll hwrite
            cases r with
            | error e =>
                have hrest : LeavesFile wr.tempBody (Io.yield (.ok chunk) >>= fun _ =>
                    meteredStream bucket teeItem guard' rest none >>= finishing cache) :=
                  ⟨trivial, fun _ => rest_leavesFile wr.tempBody bucket cache rest guard'⟩
                exact discard_atCuts hw₂ hrest
            | ok _ =>
                have hnext : ∀ w, Pending wr.tempBody w →
                    AtCuts worldEnv (Accounted wr.tempBody)
                      (fun a => Accounted wr.tempBody (.ret a))
                      (meteredStream bucket teeItem guard' rest
                        (some { wr with bodyLen := saturatingAdd wr.bodyLen chunk.length }) >>=
                          finishing cache) w :=
                  fun w hw => @ih guard' { wr with
                    bodyLen := saturatingAdd wr.bodyLen chunk.length } w hname hw
                refine ⟨.pending hw₂ fun h => ?_, fun _ w₃ hyield => ?_⟩
                · have haccounted := (hnext w₂ hw₂).steps (fun _ _ h => h) .refl
                  exact haccounted.not_leavesFile hw₂ (h.2 ())
                · have havoids : Avoids wr.tempBody (.yield (.ok chunk)) := trivial
                  exact hnext w₃ (hw₂.of_avoids havoids hyield)

/-- **What `begin_write` leaves**: a writer whose temporary file is there. -/
theorem beginWrite_pending (plan : CachePlan) (status : ℕ) (headers requestHeaders : HeaderMap)
    (hw : w.faults = []) :
    Safe worldEnv (fun _ => True) (fun writer w' => ∀ wr, writer = some wr →
        (∃ tempId, wr.tempBody = tempBodyPath plan.key tempId) ∧ Pending wr.tempBody w')
      (beginWrite plan status headers requestHeaders) w := by
  have hnone : ∀ w, Safe worldEnv (fun _ => True) (fun (writer : Option CacheWriter) w' =>
      ∀ wr, writer = some wr → (∃ tempId, wr.tempBody = tempBodyPath plan.key tempId) ∧
        Pending wr.tempBody w') (.ret none) w :=
    fun w => ⟨trivial, fun wr h => absurd h (by simp)⟩
  rcases beginWrite_cases plan status headers requestHeaders with
    ⟨hrefused, -⟩ | ⟨vary, hopens, -⟩
  · rw [hrefused]
    exact hnone w
  · rw [hopens]
    refine ⟨trivial, fun created w₁ h₁ => ⟨trivial, fun accessed w₂ h₂ =>
      ⟨trivial, fun now w₃ h₃ => ?_⟩⟩⟩
    obtain rfl : w₁ = { w with clock := created } := h₁
    obtain rfl : w₂ = { w with clock := accessed } := h₂
    obtain rfl : w₃ = { w with clock := now } := h₃
    dsimp only
    split
    · exact hnone _
    · refine ⟨trivial, fun tempId w₄ h₄ => ⟨trivial, fun r w₅ hcreate => ?_⟩⟩
      obtain rfl : w₄ = { w with clock := now } := h₄
      cases r with
      | error e => exact hnone _
      | ok _ =>
          refine ⟨trivial, fun wr hwr => ?_⟩
          obtain rfl := Option.some.inj hwr
          refine ⟨⟨tempId, rfl⟩, ?_⟩
          obtain ⟨fault, hr, hdir, hfaults⟩ := worldEnv_fs (by simp) hcreate
          cases fault with
          | some f => cases hr
          | none =>
              refine ⟨⟨.raw [], by rw [hdir]; exact AList.lookup_insert _⟩, ?_⟩
              rw [hfaults]
              show ∀ o ∈ w.faults, _
              rw [hw]
              exact fun o h => absurd h List.not_mem_nil

/-- **When the temporary file of a body is gone.**  For every writer that
`begin_write` returned, every upstream body and cap, every fault and every point
at which its stream is cut: the file is gone exactly when what was left of the
stream had no writer any more, and neither the flush nor the rename nor the
removal of the file had failed. -/
theorem temp_body_gone_iff {plan : CachePlan} {status : ℕ} {headers requestHeaders : HeaderMap}
    {w w₁ w₂ : World} (hfaults : w.faults = [])
    (hbegin : Steps worldEnv (beginWrite plan status headers requestHeaders, w)
      (.ret (some wr), w₁))
    {items : List (Except Str Bytes)} {bucket : Str} {guard : ResultSizeGuard} {cache : Cache}
    {rest : Prog Io Unit}
    (hstream : Steps worldEnv
      ((Body.live items bucket guard (some cache) (some wr)).stream, w₁) (rest, w₂)) :
    w₂.dir.lookup wr.tempBody = none ↔
      LeavesFile wr.tempBody rest ∧ ∀ o ∈ w₂.faults, ¬ o.Releases wr.tempBody := by
  obtain ⟨⟨tempId, hname⟩, hpending⟩ :=
    ((beginWrite_pending plan status headers requestHeaders hfaults).value hbegin).2 wr rfl
  rw [live_stream_eq] at hstream
  have hcuts := @stream_atCuts _ plan.key tempId bucket cache items guard wr w₁ hname hpending
  exact (hcuts.steps (fun _ _ h => h) hstream).gone_iff

/-- **No temporary body outlives its stream**, wherever the stream is cut. -/
def NoTemporaryOutlives : Prop :=
  ∀ (plan : CachePlan) (status : ℕ) (headers requestHeaders : HeaderMap) (w w₁ w₂ : World)
    (wr : CacheWriter) (items : List (Except Str Bytes)) (bucket : Str) (guard : ResultSizeGuard)
    (cache : Cache) (rest : Prog Io Unit), w.faults = [] →
      Steps worldEnv (beginWrite plan status headers requestHeaders, w) (.ret (some wr), w₁) →
      Steps worldEnv ((Body.live items bucket guard (some cache) (some wr)).stream, w₁)
        (rest, w₂) →
      w₂.dir.lookup wr.tempBody = none

end Programs

/-! ## A stream that is dropped -/

/-- The writer of a plain response. -/
def plainWriter : CacheWriter :=
  @newWriter reference ⟨exampleDigest, 60⟩ 200 [] [] [] 0 0 0 0

/-- The world after `begin_write` has returned it. -/
def plainWriterWorld : World :=
  (exec (World.calm firstAnswer) (@beginWrite reference ⟨exampleDigest, 60⟩ 200 [] [])
    emptyWorld).2

theorem plainWriter_begins :
    Steps worldEnv (@beginWrite reference ⟨exampleDigest, 60⟩ 200 [] [], emptyWorld)
      (.ret (some plainWriter), plainWriterWorld) := by
  have hrun := Steps.of_exec (worldEnv_calm firstAnswer)
    (@beginWrite reference ⟨exampleDigest, 60⟩ 200 [] []) emptyWorld
  have hwriter : (exec (World.calm firstAnswer)
      (@beginWrite reference ⟨exampleDigest, 60⟩ 200 [] []) emptyWorld).1 = some plainWriter := by
    decide +kernel
  rw [hwriter] at hrun
  exact hrun

/-- The stream of its body. -/
def plainStream : Prog Io Unit :=
  @Body.stream reference
    (.live firstAnswer.body [] ⟨0, 0⟩ (some exampleCache) (some plainWriter))

/-- The theorem where the stream is polled to its end. -/
theorem temp_body_gone_plainStream :
    (exec (World.calm firstAnswer) plainStream plainWriterWorld).2.dir.lookup
      plainWriter.tempBody = none := by
  have hrun := Steps.of_exec (worldEnv_calm firstAnswer) plainStream plainWriterWorld
  refine (@temp_body_gone_iff reference plainWriter ⟨exampleDigest, 60⟩ 200 [] [] emptyWorld
    plainWriterWorld _ rfl plainWriter_begins firstAnswer.body [] ⟨0, 0⟩ exampleCache _ hrun).mpr
    ⟨trivial, ?_⟩
  have hnone : (exec (World.calm firstAnswer) plainStream plainWriterWorld).2.faults = [] := by
    decide +kernel
  rw [hnone]
  exact fun _ h => nomatch h

/-- **A dropped stream leaves its file**: the consumer goes away before the first
poll. -/
theorem dropped_stream_leaves_file : ¬ @NoTemporaryOutlives reference := by
  intro h
  have hgone := h ⟨exampleDigest, 60⟩ 200 [] [] emptyWorld plainWriterWorld plainWriterWorld
    plainWriter firstAnswer.body [] ⟨0, 0⟩ exampleCache plainStream rfl plainWriter_begins .refl
  exact absurd hgone (by decide +kernel)

end Corsget
