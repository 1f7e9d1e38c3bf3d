import Corsget.MeteredStream
import Corsget.TemporaryFiles

/-!
# The tee of a live body

While a live body is streamed, each of its chunks is also written to the temporary file
of a cache writer.  `Teed` says what that does, item by item: as long as every write
succeeds the writer stays, and the first failing write or the first error gives it up.

What is left of the writer at the end of the stream is finished.  So exactly the complete
bodies are committed, with all of their bytes (`tee_commits_complete`).
-/

namespace Corsget

open Text Effect

/-! ## What happens to the writer -/

/-- The writer after one more chunk. -/
def CacheWriter.wrote (w : CacheWriter) (chunk : Bytes) : CacheWriter :=
  { w with bodyLen := saturatingAdd w.bodyLen chunk.length }

@[simp] theorem CacheWriter.wrote_tempBody (w : CacheWriter) (chunk : Bytes) :
    (w.wrote chunk).tempBody = w.tempBody := rfl

/-- **What the tee does**, item by item: the operations with their answers, and what is
left of the writer. -/
inductive Teed (bucket : Str) : CacheWriter → List (Except MeteredError Bytes) →
    List (Event Io) → Option CacheWriter → Prop
  /-- The end of the stream. -/
  | done (w : CacheWriter) : Teed bucket w [] [] (some w)
  /-- A chunk is written. -/
  | written {w : CacheWriter} {chunk : Bytes} {rest : List (Except MeteredError Bytes)}
      {es : List (Event Io)} {left : Option CacheWriter} (verdict : Except BandwidthError Unit)
      (h : Teed bucket (w.wrote chunk) rest es left) :
      Teed bucket w (.ok chunk :: rest)
        (⟨.charge bucket chunk.length, verdict⟩ ::
          ⟨.fs (.writeAll w.tempBody chunk), (.ok () : Except IoError Unit)⟩ ::
            ⟨.yield (.ok chunk), ()⟩ :: es) left
  /-- A write fails, and the writer is given up. -/
  | broken {w : CacheWriter} {chunk : Bytes} {rest : List (Except MeteredError Bytes)}
      {es : List (Event Io)} (verdict : Except BandwidthError Unit) (e : IoError)
      (removed : Except IoError Unit)
      (h : es.map Sigma.fst = rest.flatMap (itemOps bucket)) :
      Teed bucket w (.ok chunk :: rest)
        (⟨.charge bucket chunk.length, verdict⟩ ::
          ⟨.fs (.writeAll w.tempBody chunk), (.error e : Except IoError Unit)⟩ ::
            ⟨.fs (.removeFile w.tempBody), removed⟩ :: ⟨.yield (.ok chunk), ()⟩ :: es) none
  /-- The stream ends with an error, and the writer is given up. -/
  | failed {w : CacheWriter} (e : MeteredError) {rest : List (Except MeteredError Bytes)}
      {es : List (Event Io)} (removed : Except IoError Unit)
      (h : es.map Sigma.fst = rest.flatMap (itemOps bucket)) :
      Teed bucket w (.error e :: rest)
        (⟨.fs (.removeFile w.tempBody), removed⟩ :: ⟨.yield (.error e.toText), ()⟩ :: es) none

/-- Without a writer the items are handed over. -/
theorem handOver_tee_none {bucket : Str} (items : List (Except MeteredError Bytes))
    {es : List (Event Io)} {left : Option CacheWriter}
    (h : Trace (handOver bucket teeItem items none) es left) :
    left = none ∧ es.map Sigma.fst = items.flatMap (itemOps bucket) := by
  have hyields : ∀ (writer : Option CacheWriter) (item : Except MeteredError Bytes),
      writer = none → teeItem writer item = do
        Io.yield (item.mapError MeteredError.toText)
        return none := by
    rintro _ (_ | _) rfl
    · rfl
    · rfl
  obtain ⟨hleft, hops⟩ :=
    @handOver_trace _ bucket teeItem (fun _ _ => none) (fun writer => writer = none)
      (fun _ _ _ => rfl) hyields items _ _ _ rfl h
  exact ⟨hleft.trans (List.foldl_fixed' (fun _ => rfl) items), hops⟩

/-- **Every trace of the tee is of this kind.** -/
theorem teed_of_trace {bucket : Str} (items : List (Except MeteredError Bytes)) :
    ∀ {w es left}, Trace (handOver bucket teeItem items (some w)) es left →
      Teed bucket w items es left := by
  induction items with
  | nil =>
      intro w es left h
      obtain ⟨rfl, rfl⟩ := Trace.ret_iff.mp h
      exact .done w
  | cons item rest ih =>
      intro w es left h
      cases item with
      | error e =>
          obtain ⟨removed, _, rfl, hyield⟩ := Trace.op_iff.mp h
          obtain ⟨_, es', rfl, hrest⟩ := Trace.op_iff.mp hyield
          obtain ⟨rfl, hops⟩ := handOver_tee_none rest hrest
          exact .failed e removed hops
      | ok chunk =>
          obtain ⟨verdict, _, rfl, hwrite⟩ := Trace.op_iff.mp h
          obtain ⟨r, _, rfl, hnext⟩ := Trace.op_iff.mp hwrite
          cases r with
          | ok _ =>
              obtain ⟨_, es', rfl, hrest⟩ := Trace.op_iff.mp hnext
              exact .written verdict (ih hrest)
          | error e =>
              obtain ⟨removed, _, rfl, hyield⟩ := Trace.op_iff.mp hnext
              obtain ⟨_, es', rfl, hrest⟩ := Trace.op_iff.mp hyield
              obtain ⟨rfl, hops⟩ := handOver_tee_none rest hrest
              exact .broken verdict e removed hops

/-! ## Events of interest -/

/-- The item that an operation hands over. -/
def IoOp.handed : IoOp → Option (Except Str Bytes)
  | .yield item => some item
  | _ => none

/-- An operation that writes to the file at `path`, or takes it for a commit. -/
def Uses (path : Str) : IoOp → Prop
  | .fs (.writeAll p _) | .fs (.flush p) => p = path
  | .fs (.rename source _) => source = path
  | _ => False

/-- What ends the writing of a body: a write that fails, or an item that is an error. -/
inductive Fatal (path : Str) : Event Io → Prop
  | write (bytes : Bytes) (e : IoError) :
      Fatal path ⟨.fs (.writeAll path bytes), (.error e : Except IoError Unit)⟩
  | item (text : Str) (u : Unit) : Fatal path ⟨.yield (.error text), u⟩

/-- A chunk that is written is no such event. -/
theorem Fatal.mem_of_written {path bucket : Str} {chunk : Bytes} {n : ℕ} {e : Event Io}
    {es : List (Event Io)} {verdict : Except BandwidthError Unit} (h : Fatal path e)
    (he : e ∈ ⟨.charge bucket n, verdict⟩ ::
      ⟨.fs (.writeAll path chunk), (.ok () : Except IoError Unit)⟩ ::
        ⟨.yield (.ok chunk), ()⟩ :: es) : e ∈ es := by
  simp only [List.mem_cons] at he
  rcases he with rfl | rfl | rfl | he
  · cases h
  · cases h
  · cases h
  · exact he

/-- An operation of handing items over. -/
def IsHandOver : IoOp → Prop
  | .charge _ _ | .yield _ => True
  | _ => False

/-- The operations for items are for handing them over. -/
theorem isHandOver_of_itemOps {bucket : Str} {items : List (Except MeteredError Bytes)}
    {es : List (Event Io)} (h : es.map Sigma.fst = items.flatMap (itemOps bucket)) :
    ∀ e ∈ es, IsHandOver e.1 := by
  intro e he
  have hmem : e.1 ∈ items.flatMap (itemOps bucket) := h ▸ List.mem_map_of_mem he
  obtain ⟨item, -, hop⟩ := List.mem_flatMap.mp hmem
  cases item with
  | error e' =>
      rw [List.mem_singleton.mp hop]
      trivial
  | ok chunk =>
      simp only [itemOps, List.mem_cons, List.not_mem_nil, or_false] at hop
      rcases hop with h | h
      · rw [h]
        trivial
      · rw [h]
        trivial

/-- The items handed over by the operations for some items. -/
theorem handed_itemOps (bucket : Str) (items : List (Except MeteredError Bytes)) :
    (items.flatMap (itemOps bucket)).filterMap IoOp.handed =
      items.map (Except.mapError MeteredError.toText) := by
  induction items with
  | nil => rfl
  | cons item rest ih =>
      rw [List.flatMap_cons, List.filterMap_append, ih]
      cases item with
      | error e => rfl
      | ok chunk => rfl

namespace Teed

variable {bucket : Str} {w : CacheWriter} {items : List (Except MeteredError Bytes)}
  {es : List (Event Io)} {left : Option CacheWriter}

/-- **The consumer gets every item**, whatever becomes of the writer. -/
theorem handed (h : Teed bucket w items es left) :
    (es.map Sigma.fst).filterMap IoOp.handed =
      items.map (Except.mapError MeteredError.toText) := by
  induction h with
  | done w => rfl
  | written verdict h ih => exact congrArg (_ :: ·) ih
  | broken verdict e removed h =>
      rw [← handed_itemOps bucket, List.flatMap_cons, ← h]
      rfl
  | failed e removed h =>
      rw [← handed_itemOps bucket, List.flatMap_cons, ← h]
      rfl

/-- While items are handed over, nothing is flushed. -/
theorem not_flush (h : Teed bucket w items es left) {path : Str} {r : Except IoError Unit} :
    (⟨.fs (.flush path), r⟩ : Event Io) ∉ es := by
  induction h with
  | done w => exact List.not_mem_nil
  | written verdict h ih => simpa using ih
  | broken verdict e removed h =>
      simp only [List.mem_cons, Sigma.mk.injEq, reduceCtorEq, IoOp.fs.injEq, false_and, false_or]
      exact fun hmem => (isHandOver_of_itemOps h _ hmem).elim
  | failed e removed h =>
      simp only [List.mem_cons, Sigma.mk.injEq, reduceCtorEq, IoOp.fs.injEq, false_and, false_or]
      exact fun hmem => (isHandOver_of_itemOps h _ hmem).elim

/-- **The writer is left exactly when nothing fatal happened**: no item is an error and
every write has succeeded. -/
theorem isSome_iff (h : Teed bucket w items es left) :
    left.isSome = true ↔ (∀ item ∈ items, item.isOk = true) ∧
      ∀ bytes (r : Except IoError Unit),
        (⟨.fs (.writeAll w.tempBody bytes), r⟩ : Event Io) ∈ es → r.isOk = true := by
  induction h with
  | done w => simp
  | @written w chunk rest es left verdict h ih =>
      rw [ih]
      have hsame : (w.wrote chunk).tempBody = w.tempBody := rfl
      constructor
      · rintro ⟨hitems, hwrites⟩
        refine ⟨List.forall_mem_cons.mpr ⟨rfl, hitems⟩, fun bytes r hmem => ?_⟩
        simp only [List.mem_cons, Sigma.mk.injEq, reduceCtorEq, false_and, false_or] at hmem
        rcases hmem with ⟨hop, hr⟩ | hmem
        · obtain rfl : bytes = chunk := by simpa using hop
          obtain rfl : r = .ok () := by simpa using hr
          rfl
        · exact hwrites bytes r hmem
      · rintro ⟨hitems, hwrites⟩
        refine ⟨fun item hitem => hitems item (List.mem_cons_of_mem _ hitem),
          fun bytes r hmem => hwrites bytes r ?_⟩
        exact List.mem_cons_of_mem _ (List.mem_cons_of_mem _ (List.mem_cons_of_mem _ hmem))
  | broken verdict e removed h =>
      refine ⟨fun hsome => absurd hsome (by simp), fun ⟨_, hwrites⟩ => ?_⟩
      exact absurd (hwrites _ _ (List.mem_cons_of_mem _ List.mem_cons_self)) Bool.false_ne_true
  | failed e removed h =>
      refine ⟨fun hsome => absurd hsome (by simp), fun ⟨hitems, _⟩ => ?_⟩
      exact absurd (hitems _ List.mem_cons_self) Bool.false_ne_true

/-- **What the writer has written** when it is left: all the chunks, one after the
other. -/
theorem file (h : Teed bucket w items es left) {d d' : Dir} {bytes : Bytes} {w' : CacheWriter}
    (hrun : Happens storeEnv d es d') (hleft : left = some w')
    (hfile : d.lookup w.tempBody = some (.raw bytes))
    (hlen : w.bodyLen = min bytes.length (2 ^ 64 - 1)) :
    ∃ chunks : List Bytes, items = chunks.map .ok ∧
      d'.lookup w.tempBody = some (.raw (bytes ++ chunks.flatten)) ∧
      w' = { w with bodyLen := min (bytes ++ chunks.flatten).length (2 ^ 64 - 1) } := by
  induction h generalizing d bytes with
  | done w =>
      obtain rfl := Option.some.inj hleft
      cases hrun
      refine ⟨[], rfl, by simpa using hfile, ?_⟩
      rw [List.flatten_nil, List.append_nil, ← hlen]
  | @written w chunk rest es left verdict h ih =>
      obtain ⟨d₁, hcharge, hrun₁⟩ := Happens.cons_iff.mp hrun
      obtain ⟨d₂, hwrite, hrun₂⟩ := Happens.cons_iff.mp hrun₁
      obtain ⟨d₃, hyield, hrun₃⟩ := Happens.cons_iff.mp hrun₂
      obtain rfl : d₁ = d := hcharge
      obtain rfl : d₃ = d₂ := hyield
      obtain rfl : d₃ = d₁.insert w.tempBody (.raw (bytes ++ chunk)) :=
        storeEnv_writeAll hwrite hfile rfl
      have hlen' : (w.wrote chunk).bodyLen = min (bytes ++ chunk).length (2 ^ 64 - 1) := by
        show saturatingAdd w.bodyLen chunk.length = _
        unfold saturatingAdd
        rw [hlen, List.length_append]
        omega
      obtain ⟨chunks, rfl, hfile', hw'⟩ := ih hrun₃ hleft (AList.lookup_insert _) hlen'
      rw [List.append_assoc] at hfile' hw'
      exact ⟨chunk :: chunks, rfl, hfile', hw'⟩
  | broken verdict e removed h => cases hleft
  | failed e removed h => cases hleft

/-- Where the writer is left, nothing fatal happened. -/
theorem not_fatal (h : Teed bucket w items es left) (hleft : left.isSome = true) :
    ∀ e ∈ es, ¬Fatal w.tempBody e := by
  induction h with
  | done w => exact fun e he => nomatch he
  | written verdict h ih =>
      intro e he hfatal
      exact ih hleft e (hfatal.mem_of_written he) hfatal
  | broken verdict e removed h => cases hleft
  | failed e removed h => cases hleft

/-- **The writer is discarded** when something fatal happens. -/
theorem discarded (h : Teed bucket w items es left) (hfatal : ∃ e ∈ es, Fatal w.tempBody e) :
    ∃ removed : Except IoError Unit,
      (⟨.fs (.removeFile w.tempBody), removed⟩ : Event Io) ∈ es := by
  induction h with
  | done w =>
      obtain ⟨e, he, -⟩ := hfatal
      cases he
  | @written w chunk rest es left verdict h ih =>
      obtain ⟨e, he, hfatal⟩ := hfatal
      obtain ⟨removed, hremoved⟩ := ih ⟨e, hfatal.mem_of_written he, hfatal⟩
      rw [CacheWriter.wrote_tempBody] at hremoved
      exact ⟨removed, by simp [hremoved]⟩
  | broken verdict e removed h => exact ⟨removed, by simp⟩
  | failed e removed h => exact ⟨removed, by simp⟩

/-- Handing items over uses no file. -/
theorem not_uses {path : Str} {o : IoOp} (h : IsHandOver o) : ¬Uses path o := by
  cases o with
  | fs o => exact h.elim
  | _ => exact id

/-- **After something fatal the writer's file is not used.** -/
theorem unused (h : Teed bucket w items es left) :
    es.Pairwise fun e f => Fatal w.tempBody e → ¬Uses w.tempBody f.1 := by
  -- Once the writer is given up, items are handed over and nothing else.
  have hrest : ∀ (path : Str) {rest : List (Except MeteredError Bytes)} {es : List (Event Io)},
      es.map Sigma.fst = rest.flatMap (itemOps bucket) → ∀ f ∈ es, ¬Uses path f.1 :=
    fun path _ _ hops f hf => not_uses (isHandOver_of_itemOps hops f hf)
  have hpair : ∀ (path : Str) {es : List (Event Io)}, (∀ f ∈ es, ¬Uses path f.1) →
      es.Pairwise fun e f => Fatal path e → ¬Uses path f.1 :=
    fun path _ hes => List.pairwise_of_forall_mem_list fun _ _ f hf _ => hes f hf
  induction h with
  | done w => exact .nil
  | written verdict h ih =>
      refine .cons ?_ (.cons ?_ (.cons ?_ ih))
      · exact fun f _ hfatal => nomatch hfatal
      · exact fun f _ hfatal => nomatch hfatal
      · exact fun f _ hfatal => nomatch hfatal
  | @broken w chunk rest es verdict e removed h =>
      have hafter : ∀ f ∈ (⟨.fs (.removeFile w.tempBody), removed⟩ : Event Io) ::
          ⟨.yield (.ok chunk), ()⟩ :: es, ¬Uses w.tempBody f.1 :=
        List.forall_mem_cons.mpr ⟨id, List.forall_mem_cons.mpr ⟨id, hrest w.tempBody h⟩⟩
      refine .cons ?_ (.cons ?_ (hpair w.tempBody hafter))
      · exact fun f _ hfatal => nomatch hfatal
      · exact fun f hf _ => hafter f hf
  | @failed w e rest es removed h =>
      have hafter : ∀ f ∈ (⟨.fs (.removeFile w.tempBody), removed⟩ : Event Io) ::
          ⟨.yield (.error e.toText), ()⟩ :: es, ¬Uses w.tempBody f.1 :=
        List.forall_mem_cons.mpr ⟨id, List.forall_mem_cons.mpr ⟨id, hrest w.tempBody h⟩⟩
      exact hpair w.tempBody hafter

end Teed

/-! ## The end of the stream -/

/-- An operation that writes no chunk and hands nothing over. -/
def IsCommitOp : IoOp → Prop
  | .fs (.writeAll _ _) | .yield _ => False
  | _ => True

/-- Such an operation is nothing fatal. -/
theorem not_fatal_of_isCommitOp {path : Str} {e : Event Io} (h : IsCommitOp e.1) :
    ¬Fatal path e := by
  rintro (_ | _)
  · exact h
  · exact h

/-- Such operations hand no item over. -/
theorem handed_eq_nil {es : List (Event Io)} (h : ∀ e ∈ es, IsCommitOp e.1) :
    (es.map Sigma.fst).filterMap IoOp.handed = [] := by
  refine List.filterMap_eq_nil_iff.mpr fun o ho => ?_
  obtain ⟨e, he, rfl⟩ := List.mem_map.mp ho
  have hop := h e he
  generalize e.1 = o at hop
  cases o with
  | yield item => exact hop.elim
  | _ => rfl

section Programs

variable [Crates]

/-- Finishing a writer does neither. -/
theorem finish_isCommitOp (cache : Cache) (w : CacheWriter) :
    Meets IsCommitOp (fun _ => True) (w.finish cache) := by
  have hkeeps : ∀ o, KeepsBodies o → IsCommitOp o := by
    intro o h
    cases o with
    | fs o =>
        cases o with
        | writeAll path bytes => exact h.elim
        | _ => trivial
    | yield item => exact h.elim
    | _ => trivial
  have hevict : Meets IsCommitOp (fun _ => True) (evict cache) :=
    (evict_removesOnly cache).mono (fun o h => hkeeps o (h.keepsBodies o)) fun _ h => h
  unfold CacheWriter.finish commit
  simp only [Io.flush_bind, Io.rename_bind]
  refine ⟨trivial, fun r => ?_⟩
  cases r with
  | error e => trivial
  | ok _ =>
      refine ⟨trivial, fun r => ?_⟩
      cases r with
      | error e => trivial
      | ok _ =>
          refine ((writeMetadata_keepsBodies _).mono hkeeps fun _ h => h).bind fun written _ => ?_
          cases written with
          | error e => trivial
          | ok _ => exact hevict.bind fun _ _ => trivial

/-- The writer is finished: its file is flushed. -/
def Finishes (w : CacheWriter) (es : List (Event Io)) : Prop :=
  ∃ r : Except IoError Unit, (⟨.fs (.flush w.tempBody), r⟩ : Event Io) ∈ es

/-- **Only complete bodies are committed**: what the events of a live body are like, when
its stream yields the given items. -/
structure CommitsComplete (cache : Cache) (w : CacheWriter)
    (yielded : List (Except MeteredError Bytes)) (d : Dir) (es : List (Event Io)) : Prop where
  /-- The consumer gets the items. -/
  handed : (es.map Sigma.fst).filterMap IoOp.handed =
    yielded.map (Except.mapError MeteredError.toText)
  /-- The writer is finished exactly when no item is an error and every write succeeds. -/
  finishes_iff : Finishes w es ↔ (∀ item ∈ yielded, item.isOk = true) ∧
    ∀ bytes (r : Except IoError Unit),
      (⟨.fs (.writeAll w.tempBody bytes), r⟩ : Event Io) ∈ es → r.isOk = true
  /-- It is finished with all the chunks in its file, and with their length. -/
  committed : Finishes w es → ∃ (chunks : List Bytes) (before after : List (Event Io)) (d₁ : Dir),
    yielded = chunks.map .ok ∧ es = before ++ after ∧ Happens storeEnv d before d₁ ∧
      d₁.lookup w.tempBody = some (.raw chunks.flatten) ∧
      ∃ r, Trace
        (CacheWriter.finish cache { w with bodyLen := min chunks.flatten.length (2 ^ 64 - 1) })
        after r
  /-- Otherwise it is discarded, -/
  discarded : (∃ e ∈ es, Fatal w.tempBody e) → ∃ removed : Except IoError Unit,
    (⟨.fs (.removeFile w.tempBody), removed⟩ : Event Io) ∈ es
  /-- and its file is neither written nor committed from then on. -/
  unused : es.Pairwise fun e f => Fatal w.tempBody e → ¬Uses w.tempBody f.1

variable {bucket : Str} {cache : Cache} {w : CacheWriter}
  {yielded : List (Except MeteredError Bytes)} {d d₁ : Dir} {es finished : List (Event Io)}

/-- Where the writer has been given up, nothing follows. -/
theorem Teed.commitsComplete_of_none (h : Teed bucket w yielded es none) :
    CommitsComplete cache w yielded d es := by
  have hunfinished : ¬Finishes w es := fun ⟨_, hmem⟩ => h.not_flush hmem
  exact {
    handed := h.handed
    finishes_iff := iff_of_false hunfinished
      fun hgood => absurd (h.isSome_iff.mpr hgood) Bool.false_ne_true
    committed := fun hfinishes => absurd hfinishes hunfinished
    discarded := h.discarded
    unused := h.unused }

/-- Where the writer is left, it is finished, and nothing fatal happens at all. -/
theorem Teed.commitsComplete_of_some {w' : CacheWriter} {r : Except IoError Unit}
    (h : Teed bucket w yielded es (some w')) (hfile : d.lookup w.tempBody = some (.raw []))
    (hlen : w.bodyLen = 0) (hrun : Happens storeEnv d es d₁)
    (hfinish : Trace (w'.finish cache) finished r) :
    CommitsComplete cache w yielded d (es ++ finished) := by
  have hgood := h.isSome_iff.mp rfl
  obtain ⟨chunks, hitems, hfile', rfl⟩ := h.file hrun rfl hfile (by simpa using hlen)
  rw [List.nil_append] at hfile'
  have hops := ((finish_isCommitOp cache _).of_trace hfinish).1
  have hcalm : ∀ e ∈ es ++ finished, ¬Fatal w.tempBody e := by
    intro e he
    rcases List.mem_append.mp he with he | he
    · exact h.not_fatal rfl e he
    · exact not_fatal_of_isCommitOp (hops e he)
  have hflush : Finishes w (es ++ finished) := by
    obtain ⟨flushed, _, rfl, -⟩ := Trace.op_iff.mp hfinish
    exact ⟨flushed, List.mem_append_right _ List.mem_cons_self⟩
  have hwrites : ∀ bytes (r : Except IoError Unit),
      (⟨.fs (.writeAll w.tempBody bytes), r⟩ : Event Io) ∈ es ++ finished → r.isOk = true := by
    intro bytes r hmem
    rcases List.mem_append.mp hmem with hmem | hmem
    · exact hgood.2 bytes r hmem
    · exact (hops _ hmem).elim
  exact {
    handed := by
      rw [List.map_append, List.filterMap_append, handed_eq_nil hops, List.append_nil]
      exact h.handed
    finishes_iff := iff_of_true hflush ⟨hgood.1, hwrites⟩
    committed := fun _ => ⟨chunks, es, finished, d₁, hitems, rfl, hrun, hfile', r, hfinish⟩
    discarded := fun ⟨e, he, hfatal⟩ => absurd hfatal (hcalm e he)
    unused := List.pairwise_of_forall_mem_list
      fun e he _ _ hfatal => absurd hfatal (hcalm e he) }

/-- **The tee commits complete bodies, and only these**, for every pattern of failing
steps. -/
theorem tee_commits_complete {items : List (Except Str Bytes)} {bucket : Str}
    {guard : ResultSizeGuard} {cache : Cache} {w : CacheWriter} {d d' : Dir}
    {es : List (Event Io)} (hfile : d.lookup w.tempBody = some (.raw [])) (hlen : w.bodyLen = 0)
    (htrace : Trace (Body.live items bucket guard (some cache) (some w)).stream es ())
    (hrun : Happens storeEnv d es d') :
    CommitsComplete cache w (meteredItems guard items) d es := by
  rw [live_stream_eq, meteredStream_eq_handOver] at htrace
  obtain ⟨before, left, after, rfl, htee, hend⟩ := Trace.bind_iff.mp htrace
  have hteed := teed_of_trace _ htee
  obtain ⟨d₁, hbefore, -⟩ := Happens.append_iff.mp hrun
  cases left with
  | none =>
      obtain ⟨rfl, -⟩ := Trace.ret_iff.mp hend
      rw [List.append_nil]
      exact hteed.commitsComplete_of_none
  | some w' =>
      obtain ⟨finished, r, rest, rfl, hfinish, hrest⟩ := Trace.bind_iff.mp hend
      obtain ⟨rfl, -⟩ := Trace.ret_iff.mp hrest
      rw [List.append_nil]
      exact hteed.commitsComplete_of_some hfile hlen hbefore hfinish

end Programs

/-! ## A body of two chunks -/

/-- The directory where `plainWriter` begins. -/
def plainWriterDir : Dir := (∅ : Dir).insert plainWriter.tempBody (.raw [])

/-- The stream of a body of two chunks. -/
def twoChunkStream : Prog Io Unit :=
  @Body.stream reference (.live [.ok [104], .ok [105]] "bucket".toList (.new 0)
    (some exampleCache) (some plainWriter))

/-- The theorem where nothing fails. -/
theorem tee_commits_complete_twoChunkStream :
    @CommitsComplete reference exampleCache plainWriter
      (meteredItems (.new 0) [.ok [104], .ok [105]]) plainWriterDir
      (execEvents calm twoChunkStream plainWriterDir) := by
  have hfile : plainWriterDir.lookup plainWriter.tempBody = some (.raw []) :=
    AList.lookup_insert _
  have hunit : ∀ u : Unit, Trace twoChunkStream (execEvents calm twoChunkStream plainWriterDir) u →
      Trace twoChunkStream (execEvents calm twoChunkStream plainWriterDir) () := fun _ h => h
  have htrace := hunit _ (trace_exec calm twoChunkStream plainWriterDir)
  have hrun := Happens.of_exec storeEnv_calm twoChunkStream plainWriterDir
  exact @tee_commits_complete reference _ _ _ _ _ _ _ _ hfile rfl htrace hrun

end Corsget
