import Corsget.StoreRuns
import Corsget.Storing

/-!
# The world of a request

A `World` is the cache directory together with a record of the request being
served: its number, the last reading of the clock, the last answer of the
upstream, what the consumer has been handed, and the file steps that failed.
`origin` is the one field that no part of the program can see: for every file,
the number of the request whose upstream body it holds.

The environment `worldEnv` lets the upstream, the clock, the limiters and the
faults of the file system do anything.
-/

namespace Corsget

open Text Effect

/-- The state around a request. -/
structure World where
  dir : Dir
  /-- The request whose upstream body a file holds. -/
  origin : Str → ℕ
  /-- The number of the request. -/
  turn : ℕ
  /-- The last reading of the clock. -/
  clock : ℕ
  /-- The last answer of the upstream to this request. -/
  upstream : Option UpstreamResponse
  /-- What the consumer has been handed. -/
  sent : List (Except Str Bytes)
  /-- The origin of the file that was opened to be streamed. -/
  opened : Option ℕ
  /-- The file steps of this request that failed. -/
  faults : List FsOp

namespace World

/-- The origins after a file step that succeeded. -/
def originAfter (w : World) : FsOp → Str → ℕ
  | .create path => Function.update w.origin path w.turn
  | .rename source target => Function.update w.origin target (w.origin source)
  | _ => w.origin

/-- The origin of the last file opened. -/
def openedAfter (w : World) : FsOp → Option ℕ
  | .openFile path => some (w.origin path)
  | _ => w.opened

/-- The world after a file step with this fault. -/
def afterFs (w : World) (o : FsOp) (fault : Option Fault) : World :=
  let (r, dir) := w.dir.perform o fault
  { w with
    dir := dir
    origin := if r.isOk then w.originAfter o else w.origin
    opened := if r.isOk then w.openedAfter o else w.opened
    faults := if fault.isSome then o :: w.faults else w.faults }

/-- The world when the next request arrives. -/
def next (w : World) : World :=
  { w with
    turn := w.turn + 1
    upstream := none
    sent := []
    opened := none
    faults := [] }

end World

/-- What may happen at an operation. -/
def worldEnv : Env Io World
  | .fs .readDir, w, _, w' => w' = w
  | .fs o, w, r, w' => ∃ fault, (w.dir.perform o fault).1 = r ∧ w' = w.afterFs o fault
  | .systemTime, w, now, w' => w' = { w with clock := now }
  | .send _, w, r, w' => w' = { w with upstream := (Except.toOption r).or w.upstream }
  | .yield item, w, _, w' => w' = { w with sent := w.sent ++ [item] }
  | _, w, _, w' => w' = w

/-- The directory of a world changes as that of the store. -/
theorem storeEnv_of_worldEnv (o : IoOp) (w : World) (r : Io.Res o) (w' : World)
    (h : worldEnv o w r w') : storeEnv o w.dir r w'.dir := by
  cases o with
  | fs o =>
      cases o with
      | readDir => exact congrArg World.dir h
      | _ =>
          obtain ⟨fault, rfl, rfl⟩ := h
          exact ⟨fault, rfl⟩
  | systemTime =>
      obtain rfl : w' = { w with clock := r } := h
      exact rfl
  | send request =>
      obtain rfl : w' = { w with upstream := (Except.toOption r).or w.upstream } := h
      exact rfl
  | yield item =>
      obtain rfl : w' = { w with sent := w.sent ++ [item] } := h
      exact rfl
  | tempCounter => exact congrArg World.dir h
  | checkLimit key quota => exact congrArg World.dir h
  | charge bucket n => exact congrArg World.dir h

/-- What is known of a program on the directory holds on the world. -/
theorem safe_world {α : Type} {I : Dir → Prop} {Q : α → Dir → Prop} {p : Prog Io α} {w : World}
    (h : Safe storeEnv I Q p w.dir) :
    Safe worldEnv (fun w' => I w'.dir) (fun a w' => Q a w'.dir) p w :=
  Safe.comap storeEnv_of_worldEnv h

/-- One environment: nothing fails, the clock stands still and every upstream
request gets the same answer. -/
def World.calm (answer : UpstreamResponse) : Handler Io World
  | .fs .readDir, w => (.ok (w.dir.keys.map .ok), w)
  | .fs o, w => ((w.dir.perform o none).1, w.afterFs o none)
  | .tempCounter, w => (w.turn, w)
  | .systemTime, w => ((0 : ℕ), { w with clock := 0 })
  | .checkLimit _ _, w => ((.error [] : Except Str Snapshot), w)
  | .send _, w =>
      ((.ok answer : Except ClientError UpstreamResponse), { w with upstream := some answer })
  | .charge _ _, w => ((.ok () : Except BandwidthError Unit), w)
  | .yield item, w => (((), { w with sent := w.sent ++ [item] }) : Unit × World)

theorem worldEnv_calm (answer : UpstreamResponse) (o : IoOp) (w : World) :
    worldEnv o w (World.calm answer o w).1 (World.calm answer o w).2 := by
  cases o with
  | fs o =>
      cases o with
      | readDir => exact rfl
      | _ => exact ⟨none, rfl, rfl⟩
  | _ => exact rfl

/-! ## What store programs leave alone -/

/-- `w'` is a later state of the same request as `w`, from before a body is
opened, with the same bodies in place as far as their origin goes. -/
structure SameRequest (w w' : World) : Prop where
  turn : w'.turn = w.turn
  opened : w'.opened = w.opened
  bodies : ∀ key, w'.origin (bodyPath key) = w.origin (bodyPath key)

/-- `w'` is a later state of the same request as `w`, from after the last answer
of the upstream. -/
structure SameAnswer (w w' : World) : Prop where
  turn : w'.turn = w.turn
  clock : w'.clock = w.clock
  upstream : w'.upstream = w.upstream
  sent : w.sent ⊆ w'.sent
  faults : w.faults ⊆ w'.faults

theorem SameRequest.refl (w : World) : SameRequest w w := ⟨rfl, rfl, fun _ => rfl⟩

theorem SameRequest.trans {w w' w'' : World} (h : SameRequest w w') (h' : SameRequest w' w'') :
    SameRequest w w'' where
  turn := h'.turn.trans h.turn
  opened := h'.opened.trans h.opened
  bodies key := (h'.bodies key).trans (h.bodies key)

theorem SameAnswer.refl (w : World) : SameAnswer w w :=
  ⟨rfl, rfl, rfl, fun _ h => h, fun _ h => h⟩

theorem SameAnswer.trans {w w' w'' : World} (h : SameAnswer w w') (h' : SameAnswer w' w'') :
    SameAnswer w w'' where
  turn := h'.turn.trans h.turn
  clock := h'.clock.trans h.clock
  upstream := h'.upstream.trans h.upstream
  sent := fun _ hitem => h'.sent (h.sent hitem)
  faults := fun _ ho => h'.faults (h.faults ho)

theorem World.afterFs_faults (w : World) (o : FsOp) (fault : Option Fault) :
    w.faults ⊆ (w.afterFs o fault).faults := by
  intro o' ho'
  unfold afterFs
  dsimp only
  split
  · exact List.mem_cons_of_mem _ ho'
  · exact ho'

theorem World.sameAnswer_afterFs (w : World) (o : FsOp) (fault : Option Fault) :
    SameAnswer w (w.afterFs o fault) :=
  ⟨rfl, rfl, rfl, fun _ h => h, w.afterFs_faults o fault⟩

/-- A file step that puts nothing under a body's name. -/
theorem World.sameRequest_afterFs {w : World} {o : FsOp} (ho : KeepsBodies (.fs o))
    (fault : Option Fault) : SameRequest w (w.afterFs o fault) := by
  have hkeys : ∀ key, w.originAfter o (bodyPath key) = w.origin (bodyPath key) := by
    cases o with
    | rename source target => exact fun key => Function.update_of_ne (ho key).symm _ _
    | create path => cases ho
    | _ => exact fun _ => rfl
  have hopened : w.openedAfter o = w.opened := by
    cases o with
    | openFile path => cases ho
    | _ => rfl
  unfold afterFs
  dsimp only
  rw [hopened]
  refine ⟨rfl, ite_self _, fun key => ?_⟩
  dsimp only
  split
  · exact hkeys key
  · rfl

/-- **Frame**: what a program that keeps the bodies leaves alone. -/
theorem keepsBodies_frame {α : Type} {p : Prog Io α} {Q : α → Prop} (hp : Meets KeepsBodies Q p)
    (w : World) :
    Safe worldEnv (fun w' => SameRequest w w' ∧ SameAnswer w w') (fun a _ => Q a) p w := by
  refine Safe.of_meets hp ?_ ⟨.refl w, .refl w⟩
  intro o w₁ r w₂ ho hw hstep
  have hone : SameRequest w₁ w₂ ∧ SameAnswer w₁ w₂ := by
    cases o with
    | fs o =>
        cases o with
        | readDir =>
            obtain rfl : w₂ = w₁ := hstep
            exact ⟨.refl w₂, .refl w₂⟩
        | _ =>
            obtain ⟨fault, -, rfl⟩ := hstep
            exact ⟨World.sameRequest_afterFs ho fault, w₁.sameAnswer_afterFs _ fault⟩
    | tempCounter =>
        obtain rfl : w₂ = w₁ := hstep
        exact ⟨.refl w₂, .refl w₂⟩
    | _ => cases ho
  exact ⟨hw.1.trans hone.1, hw.2.trans hone.2⟩

/-- A write to a file that is there changes that file only, and fails only by a
fault. -/
theorem worldEnv_writeAll {w w' : World} {path : Str} {bytes : Bytes} {data : FileData}
    {r : Except IoError Unit} (hfile : w.dir.lookup path = some data)
    (h : worldEnv (.fs (.writeAll path bytes)) w r w') :
    (∃ found, w'.dir = w.dir.insert path found) ∧ w'.origin = w.origin ∧ SameAnswer w w' ∧
      (r = .ok () ∨ (∃ e, r = .error e) ∧ FsOp.writeAll path bytes ∈ w'.faults) := by
  obtain ⟨fault, rfl, rfl⟩ := h
  refine ⟨?_, ite_self _, w.sameAnswer_afterFs _ fault, ?_⟩
  · cases fault with
    | some f =>
        refine ⟨.raw (data.bytes ++ bytes.take f.written), ?_⟩
        unfold World.afterFs Dir.perform Dir.performFault
        dsimp only
        rw [hfile]
    | none =>
        refine ⟨.raw (data.bytes ++ bytes), ?_⟩
        unfold World.afterFs Dir.perform Dir.performOk
        dsimp only
        rw [hfile]
  · cases fault with
    | some f => exact .inr ⟨⟨f.error, rfl⟩, List.mem_cons_self⟩
    | none => exact .inl rfl

/-- A rename of a file that is there moves the file and its origin, or fails by
a fault. -/
theorem worldEnv_rename {w w' : World} {source target : Str} {data : FileData}
    {r : Except IoError Unit} (hfile : w.dir.lookup source = some data)
    (h : worldEnv (.fs (.rename source target)) w r w') :
    SameAnswer w w' ∧
      ((r = .ok () ∧ w'.origin target = w.origin source) ∨
        (∃ e, r = .error e) ∧ FsOp.rename source target ∈ w'.faults ∧
          w'.dir = w.dir ∧ w'.origin = w.origin) := by
  obtain ⟨fault, rfl, rfl⟩ := h
  refine ⟨w.sameAnswer_afterFs _ fault, ?_⟩
  cases fault with
  | some f => exact .inr ⟨⟨f.error, rfl⟩, List.mem_cons_self, rfl, rfl⟩
  | none =>
      have hperform : w.dir.perform (.rename source target) none =
          (.ok (), (w.dir.erase source).insert target data) := by
        unfold Dir.perform Dir.performOk
        dsimp only
        rw [hfile]
      refine .inl ⟨congrArg Prod.fst hperform, ?_⟩
      unfold World.afterFs
      dsimp only
      rw [hperform]
      exact Function.update_self _ _ _

end Corsget
