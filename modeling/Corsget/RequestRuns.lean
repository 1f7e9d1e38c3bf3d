import Corsget.World

/-!
# A request on the world

What a whole request does to one key of the cache, for every behaviour of the
upstream, of the clock and of the file system and wherever the request is cut
off.  Two facts are carried through every program of the store and every branch
of the handler:

* `NoOlder`: no entry that may be a hit has a body from before a given request.
  Every branch keeps it, since a body is only ever replaced by that of the
  current request.
* `Teeing`: while a live response is streamed, its cache writer is there unless
  a file step failed, an error was handed to the consumer, or the response may
  not be stored.  At the end the writer puts the new body in place.

`serve_world` is the result.
-/

namespace Corsget

open Text Effect

/-! ## The two facts -/

/-- No complete entry of the key that may be a hit has a body from before
request `since`. -/
def NoOlder (since : ℕ) (key : Str) (w : World) : Prop :=
  ∀ entry file, (w.dir.view key).Admits entry file → entry.revalidate = false →
    since ≤ w.origin (bodyPath key)

/-- The file steps that storing a response under a key depends on. -/
def FsOp.Stores (key : Str) : FsOp → Prop
  | .create _ | .writeAll _ _ | .flush _ => True
  | .rename _ target => target = bodyPath key
  | _ => False

/-- One of these steps failed, or the consumer was handed an error. -/
def Broken (key : Str) (w : World) : Prop :=
  (∃ o ∈ w.faults, o.Stores key) ∨ ∃ e, .error e ∈ w.sent

/-- A writer of the key with its temporary file in place, holding the body of
the current request. -/
structure Writing (key : Str) (wr : CacheWriter) (w : World) : Prop where
  key : wr.entry.key = key
  name : ∃ tempId, IsTemporary wr.tempBody tempId
  file : ∃ data, w.dir.lookup wr.tempBody = some data
  origin : w.origin wr.tempBody = w.turn

/-- A cached entry of the key whose body, if the entry may be a hit, is not from
before request `since`. -/
structure Found (since : ℕ) (key : Str) (w : World) (entry : CacheEntry) : Prop where
  path : entry.bodyPath = bodyPath key
  fresh : entry.revalidate = false → since ≤ w.origin (bodyPath key)

/-- The writer of a live response: it is there unless something went wrong or the
response may not be stored. -/
structure Teeing (key : Str) (storable : Prop) (writer : Option CacheWriter) (w : World) :
    Prop where
  writing : ∀ wr, writer = some wr → Writing key wr w
  broken : writer = none → storable → Broken key w

section Steps

variable {since : ℕ} {key : Str} {w w' : World} {wr : CacheWriter}

theorem Broken.later (h : Broken key w) (hw : SameAnswer w w') : Broken key w' := by
  rcases h with ⟨o, ho, hstores⟩ | ⟨e, he⟩
  · exact .inl ⟨o, hw.faults ho, hstores⟩
  · exact .inr ⟨e, hw.sent he⟩

theorem NoOlder.of_shrinks (h : NoOlder since key w)
    (hview : (w.dir.view key).Shrinks (w'.dir.view key))
    (horigin : w'.origin (bodyPath key) = w.origin (bodyPath key)) : NoOlder since key w' := by
  intro entry file hadmits hrevalidate
  rw [horigin]
  exact h entry file (hadmits.of_shrinks hview) hrevalidate

theorem NoOlder.of_origin (h : since ≤ w.origin (bodyPath key)) : NoOlder since key w :=
  fun _ _ _ _ => h

end Steps

/-! ## The store -/

section Programs

variable [Crates] {since : ℕ} {key : Str} {w : World}

/-- A lookup keeps what is servable and returns it. -/
theorem lookup_world {plan : CachePlan} (hkey : plan.key = key) (now : ℕ)
    (h : NoOlder since key w) :
    Safe worldEnv (fun w' => NoOlder since key w' ∧ SameRequest w w' ∧ SameAnswer w w')
      (fun result _ => ∀ found, result = some found → Found since key w found)
      (lookup plan now) w := by
  have hlookup := safe_world (lookup_safe plan now key w.dir)
  refine (hlookup.and (keepsBodies_frame (lookup_keepsBodies plan now) w)).mono ?_ ?_
  · rintro w' ⟨hlooked, hrequest, hanswer⟩
    refine ⟨fun entry file hadmits hrevalidate => ?_, hrequest, hanswer⟩
    obtain ⟨previous, hprevious, hresponse⟩ := hadmits.of_looked hlooked
    rw [hrequest.bodies]
    exact h previous file hprevious ((congrArg CacheEntry.revalidate hresponse).symm.trans
      hrevalidate)
  · rintro result w' - ⟨hresult, -⟩ found hfound
    obtain ⟨entry, file, hadmits, rfl⟩ := hresult found hfound
    subst hkey
    exact ⟨rfl, h entry file hadmits⟩

omit [Crates] in
/-- Removals keep what is servable. -/
theorem removesOnly_world {α : Type} {p : Prog Io α} {Q : α → Prop} (hp : Meets RemovesOnly Q p)
    (h : NoOlder since key w) :
    Safe worldEnv (fun w' => NoOlder since key w' ∧ SameRequest w w' ∧ SameAnswer w w')
      (fun _ _ => True) p w := by
  have hview : Safe storeEnv (fun d => (w.dir.view key).Shrinks (d.view key)) (fun a _ => Q a) p
      w.dir :=
    Safe.of_meets hp (RemovesOnly.keeps fun _ _ hv hs => hs.trans hv) (.refl _)
  have hframe := keepsBodies_frame (hp.mono RemovesOnly.keepsBodies fun _ h => h) w
  refine ((safe_world hview).and hframe).mono ?_ fun _ _ _ _ => trivial
  rintro w' ⟨hshrinks, hrequest, hanswer⟩
  exact ⟨h.of_shrinks hshrinks (hrequest.bodies key), hrequest, hanswer⟩

/-- Writing metadata whose body is not too old. -/
theorem writeMetadata_world {entry : CacheEntry}
    (hentry : entry.revalidate = false → since ≤ w.origin (bodyPath key))
    (h : NoOlder since key w) :
    Safe worldEnv (fun w' => NoOlder since key w' ∧ SameRequest w w' ∧ SameAnswer w w')
      (fun _ _ => True) (writeMetadata entry) w := by
  have hwrite := safe_world (writeMetadata_safe entry key w.dir)
  refine (hwrite.and (keepsBodies_frame (writeMetadata_keepsBodies entry) w)).mono ?_
    fun _ _ _ _ => trivial
  rintro w' ⟨hview, hrequest, hanswer⟩
  refine ⟨?_, hrequest, hanswer⟩
  rcases hview with hsame | ⟨-, hnew⟩
  · exact h.of_shrinks (hsame ▸ .refl _) (hrequest.bodies key)
  · intro found file hadmits hrevalidate
    rw [hnew] at hadmits
    rw [hrequest.bodies]
    refine hentry ?_
    rw [← hrevalidate, ← Option.some.inj hadmits.record]
    rfl

/-- A refresh keeps what is servable: it writes back the entry it was given. -/
theorem refresh_world {entry : CacheEntry}
    (hentry : entry.revalidate = false → since ≤ w.origin (bodyPath key))
    (h : NoOlder since key w) (responseHeaders : HeaderMap) (ttl : ℕ) :
    Safe worldEnv (fun w' => NoOlder since key w' ∧ SameRequest w w' ∧ w'.upstream = w.upstream)
      (fun result _ => result.1.bodyPath = entry.bodyPath)
      (refresh entry responseHeaders ttl) w := by
  unfold refresh
  simp only [Io.nowSeconds_bind, Io.systemTime_bind]
  refine ⟨⟨h, .refl w, rfl⟩, fun created w₁ hw₁ => ?_⟩
  obtain rfl : w₁ = { w with clock := created } := hw₁
  refine ⟨⟨h, ⟨rfl, rfl, fun _ => rfl⟩, rfl⟩, fun now w₂ hw₂ => ?_⟩
  obtain rfl : w₂ = { w with clock := now } := hw₂
  have hwrite := @writeMetadata_world _ since key { w with clock := now }
    (entry.refreshed responseHeaders ttl (created / 10 ^ 9) now) hentry h
  refine Safe.bind (hwrite.weaken ?_) ?_
  · rintro w' ⟨hfresh, hrequest, hanswer⟩
    exact ⟨hfresh, ⟨hrequest.turn, hrequest.opened, hrequest.bodies⟩, hanswer.upstream⟩
  · rintro written w' hw' -
    exact ⟨hw', rfl⟩

/-- **What `begin_write` returns**: a writer of the current request, or nothing
for a response it does not accept or after a failed step. -/
theorem beginWrite_world {plan : CachePlan} (hkey : plan.key = key) (h : NoOlder since key w)
    (status : ℕ) (headers requestHeaders : HeaderMap) :
    Safe worldEnv (fun w' => NoOlder since key w' ∧ SameRequest w w' ∧ w'.upstream = w.upstream)
      (fun writer w' => Teeing key
        (∃ vary, Accepts plan status headers requestHeaders vary w'.clock) writer w')
      (beginWrite plan status headers requestHeaders) w := by
  have hrefuse : ∀ now, (∀ vary, ¬ Accepts plan status headers requestHeaders vary now) →
      Safe worldEnv (fun w' => NoOlder since key w' ∧ SameRequest w w' ∧ w'.upstream = w.upstream)
        (fun writer w' => Teeing key
          (∃ vary, Accepts plan status headers requestHeaders vary w'.clock) writer w')
        (.ret none) { w with clock := now } := by
    intro now hnot
    refine ⟨⟨h, ⟨rfl, rfl, fun _ => rfl⟩, rfl⟩, ⟨fun wr hwr => (nomatch hwr), ?_⟩⟩
    rintro - ⟨vary, haccepts⟩
    exact absurd haccepts (hnot vary)
  rcases beginWrite_cases plan status headers requestHeaders with
    ⟨hnone, hrefused⟩ | ⟨vary, hopens, -⟩
  · rw [hnone]
    exact hrefuse w.clock fun vary => hrefused vary w.clock
  · rw [hopens]
    refine ⟨⟨h, .refl w, rfl⟩, fun created w₁ hw₁ => ?_⟩
    obtain rfl : w₁ = { w with clock := created } := hw₁
    refine ⟨⟨h, ⟨rfl, rfl, fun _ => rfl⟩, rfl⟩, fun accessed w₂ hw₂ => ?_⟩
    obtain rfl : w₂ = { w with clock := accessed } := hw₂
    refine ⟨⟨h, ⟨rfl, rfl, fun _ => rfl⟩, rfl⟩, fun now w₃ hw₃ => ?_⟩
    obtain rfl : w₃ = { w with clock := now } := hw₃
    dsimp only
    split
    · next httl => exact hrefuse now fun vary' haccepted => haccepted.lifetime httl
    · refine ⟨⟨h, ⟨rfl, rfl, fun _ => rfl⟩, rfl⟩, fun tempId w₄ hw₄ => ?_⟩
      obtain rfl : w₄ = { w with clock := now } := hw₄
      refine ⟨⟨h, ⟨rfl, rfl, fun _ => rfl⟩, rfl⟩, fun r w₅ hw₅ => ?_⟩
      have htemp := tempBodyPath_isTemporary plan.key tempId
      obtain ⟨fault, rfl, rfl⟩ := hw₅
      -- The new file is of the current request, or creating it has failed.
      cases fault with
      | some f =>
          refine ⟨⟨h, ⟨rfl, rfl, fun _ => rfl⟩, rfl⟩, ⟨fun wr hwr => (nomatch hwr), ?_⟩⟩
          exact fun _ _ => .inl ⟨_, List.mem_cons_self, trivial⟩
      | none =>
          refine ⟨⟨h.of_shrinks ?_ ?_, ⟨rfl, rfl, fun key => ?_⟩, rfl⟩, ⟨?_, ?_⟩⟩
          · exact Dir.view_insert_of_ne w.dir key (htemp.ne_metaPath key)
              (htemp.ne_bodyPath key) _ ▸ .refl _
          · exact Function.update_of_ne (htemp.ne_bodyPath key).symm _ _
          · exact Function.update_of_ne (htemp.ne_bodyPath key).symm _ _
          · intro wr hwr
            cases hwr
            exact ⟨hkey, ⟨tempId, htemp⟩, ⟨_, AList.lookup_insert _⟩,
              Function.update_self _ _ _⟩
          · intro hnone
            cases hnone

/-! ## Streaming a live response -/

variable {storable : Prop} {writer : Option CacheWriter} {wr : CacheWriter}

omit [Crates] in
theorem discard_removesOnly (wr : CacheWriter) : Meets RemovesOnly (fun _ => True) wr.discard :=
  ⟨trivial, fun _ => trivial⟩

omit [Crates] in
/-- A chunk is written to the temporary file, or the writer is given up because
the write failed. -/
theorem teeWrite_world (hwriter : Teeing key storable writer w) (h : NoOlder since key w)
    (bytes : Bytes) :
    Safe worldEnv (fun w' => NoOlder since key w' ∧ SameAnswer w w')
      (fun writer' w' => Teeing key storable writer' w') (teeWrite bytes writer) w := by
  cases writer with
  | none => exact ⟨⟨h, .refl w⟩, hwriter⟩
  | some wr =>
      have hwr := hwriter.writing wr rfl
      obtain ⟨tempId, htemp⟩ := hwr.name
      obtain ⟨data, hdata⟩ := hwr.file
      unfold teeWrite CacheWriter.write
      simp only [Io.writeAll_bind]
      refine ⟨⟨h, .refl w⟩, fun r w₁ hw₁ => ?_⟩
      obtain ⟨⟨found, hdir⟩, horigin, hanswer, hr⟩ := worldEnv_writeAll hdata hw₁
      have hfresh : NoOlder since key w₁ := by
        refine h.of_shrinks ?_ (congrFun horigin _)
        rw [hdir, Dir.view_insert_of_ne _ _ (htemp.ne_metaPath key) (htemp.ne_bodyPath key)]
        exact .refl _
      -- A chunk is written, or the failure is on record and the writer is given up.
      rcases hr with rfl | ⟨⟨e, rfl⟩, hfault⟩
      · refine ⟨⟨hfresh, hanswer⟩, ⟨fun wr' hwr' => ?_, fun hnone => nomatch hnone⟩⟩
        obtain rfl := Option.some.inj hwr'
        refine ⟨hwr.key, ⟨tempId, htemp⟩, ⟨found, ?_⟩, ?_⟩
        · show w₁.dir.lookup wr.tempBody = some found
          rw [hdir]
          exact AList.lookup_insert _
        · show w₁.origin wr.tempBody = w₁.turn
          rw [horigin, hanswer.turn]
          exact hwr.origin
      · have hbroken : Broken key w₁ := .inl ⟨_, hfault, trivial⟩
        show Safe worldEnv _ _ (wr.discard >>= fun _ => .ret none) w₁
        refine (removesOnly_world (discard_removesOnly wr) hfresh).seq ?_ ?_
        · rintro w₂ ⟨hfresh₂, -, hanswer₂⟩
          exact ⟨hfresh₂, hanswer.trans hanswer₂⟩
        · rintro _ w₂ ⟨hfresh₂, -, hanswer₂⟩ -
          exact ⟨⟨hfresh₂, hanswer.trans hanswer₂⟩,
            ⟨fun _ hwr' => (nomatch hwr'), fun _ _ => hbroken.later hanswer₂⟩⟩

omit [Crates] in
/-- Handing an item over changes nothing else. -/
theorem yield_world (since : ℕ) (key : Str) {item : Except Str Bytes} {w w₀ : World} {r : Unit}
    (h : worldEnv (.yield item) w₀ r w) :
    (NoOlder since key w₀ → NoOlder since key w) ∧ SameAnswer w₀ w ∧ item ∈ w.sent ∧
      ∀ wr, Writing key wr w₀ → Writing key wr w := by
  obtain rfl : w = { w₀ with sent := w₀.sent ++ [item] } := h
  refine ⟨id, ⟨rfl, rfl, rfl, fun _ h => List.mem_append_left _ h, fun _ h => h⟩, ?_, ?_⟩
  · exact List.mem_append_right _ (List.mem_singleton_self item)
  · intro wr hwr
    exact ⟨hwr.key, hwr.name, hwr.file, hwr.origin⟩

omit [Crates] in
/-- One item of a live stream. -/
theorem teeItem_world (hwriter : Teeing key storable writer w) (h : NoOlder since key w)
    (item : Except MeteredError Bytes) :
    Safe worldEnv (fun w' => NoOlder since key w' ∧ SameAnswer w w')
      (fun writer' w' => Teeing key storable writer' w') (teeItem writer item) w := by
  cases item with
  | ok bytes =>
      unfold teeItem
      refine Safe.bind (teeWrite_world hwriter h bytes) ?_
      intro writer' w₁ hw₁ hteeing
      refine ⟨hw₁, fun r w₂ hw₂ => ?_⟩
      obtain ⟨hfresh, hanswer, -, hwriting⟩ := yield_world since key hw₂
      refine ⟨⟨hfresh hw₁.1, hw₁.2.trans hanswer⟩, ⟨fun wr hwr => ?_, fun hnone hstore => ?_⟩⟩
      · exact hwriting wr (hteeing.writing wr hwr)
      · exact (hteeing.broken hnone hstore).later hanswer
  | error e =>
      have hdiscard : Meets RemovesOnly (fun _ => True) (teeDiscard writer) := by
        cases writer with
        | none => trivial
        | some wr => exact discard_removesOnly wr
      unfold teeItem
      refine Safe.bind ((removesOnly_world hdiscard h).weaken ?_) ?_
      · rintro w₁ ⟨hfresh, -, hanswer⟩
        exact ⟨hfresh, hanswer⟩
      · intro _ w₁ hw₁ _
        refine ⟨hw₁, fun r w₂ hw₂ => ?_⟩
        obtain ⟨hfresh, hanswer, hitem, -⟩ := yield_world since key hw₂
        refine ⟨⟨hfresh hw₁.1, hw₁.2.trans hanswer⟩, ⟨fun _ hwr => (nomatch hwr), fun _ _ => ?_⟩⟩
        exact .inr ⟨_, hitem⟩

omit [Crates] in
/-- **The live stream**: at its end the writer is there unless something went
wrong. -/
theorem meteredStream_world (bucket : Str) (items : List (Except Str Bytes)) :
    ∀ (guard : ResultSizeGuard) (writer : Option CacheWriter) (w : World),
      Teeing key storable writer w → NoOlder since key w →
        Safe worldEnv (fun w' => NoOlder since key w' ∧ SameAnswer w w')
          (fun writer' w' => Teeing key storable writer' w')
          (meteredStream bucket teeItem guard items writer) w := by
  induction items with
  | nil =>
      intro guard writer w hwriter h
      exact ⟨⟨h, .refl w⟩, hwriter⟩
  | cons item rest ih =>
      intro guard writer w hwriter h
      cases item with
      | error e => exact teeItem_world hwriter h _
      | ok chunk =>
          unfold meteredStream
          split
          · exact teeItem_world hwriter h _
          · next guard' _ =>
            simp only [Io.charge_bind]
            refine ⟨⟨h, .refl w⟩, fun r w₁ hw₁ => ?_⟩
            obtain rfl : w₁ = w := hw₁
            refine Safe.bind (teeItem_world hwriter h (.ok chunk)) ?_
            intro writer' w₂ hw₂ hteeing
            refine (ih guard' writer' w₂ hteeing hw₂.1).weaken ?_
            rintro w₃ ⟨hfresh, hanswer⟩
            exact ⟨hfresh, hw₂.2.trans hanswer⟩

/-! ## Committing -/

/-- **A commit puts the body of the current request in place**, or a step of it
failed. -/
theorem finish_world (cache : Cache) (hwr : Writing key wr w) (hsince : since ≤ w.turn)
    (h : NoOlder since key w) :
    Safe worldEnv (fun w' => NoOlder since key w' ∧ SameAnswer w w')
      (fun _ w' => Broken key w' ∨ w'.turn ≤ w'.origin (bodyPath key)) (wr.finish cache) w := by
  unfold CacheWriter.finish
  simp only [Io.flush_bind]
  refine ⟨⟨h, .refl w⟩, fun r w₁ hw₁ => ?_⟩
  obtain ⟨fault, rfl, rfl⟩ := hw₁
  cases fault with
  | some f => exact ⟨⟨h, w.sameAnswer_afterFs _ _⟩, .inl (.inl ⟨_, List.mem_cons_self, trivial⟩)⟩
  | none =>
      obtain ⟨data, hdata⟩ := hwr.file
      show Safe worldEnv _ _ (commit cache { wr.entry with bodyLen := wr.bodyLen } wr.tempBody) w
      unfold commit
      simp only [Io.rename_bind]
      refine ⟨⟨h, .refl w⟩, fun r w₂ hw₂ => ?_⟩
      obtain ⟨hanswer, ⟨rfl, horigin⟩ | ⟨⟨e, rfl⟩, hfault, hdir, horigin⟩⟩ :=
        worldEnv_rename hdata hw₂
      · rw [hwr.key, hwr.origin, ← hanswer.turn] at horigin
        have hfresh : since ≤ w₂.origin (bodyPath key) := by
          rw [horigin, hanswer.turn]
          exact hsince
        -- The body is in place; neither the metadata nor an eviction replaces it.
        refine (writeMetadata_world (fun _ => hfresh) (.of_origin hfresh)).seq ?_ ?_
        · rintro w₃ ⟨hfresh₃, -, hanswer₃⟩
          exact ⟨hfresh₃, hanswer.trans hanswer₃⟩
        · rintro r w₃ ⟨hfresh₃, hrequest₃, hanswer₃⟩ -
          have hturn₃ : w₃.turn ≤ w₃.origin (bodyPath key) := by
            rw [hrequest₃.turn, hrequest₃.bodies, horigin]
          cases r with
          | error e => exact ⟨⟨hfresh₃, hanswer.trans hanswer₃⟩, .inr hturn₃⟩
          | ok _ =>
              refine (removesOnly_world (evict_removesOnly cache) hfresh₃).seq ?_ ?_
              · rintro w₄ ⟨hfresh₄, -, hanswer₄⟩
                exact ⟨hfresh₄, (hanswer.trans hanswer₃).trans hanswer₄⟩
              · rintro _ w₄ ⟨hfresh₄, hrequest₄, hanswer₄⟩ -
                refine ⟨⟨hfresh₄, (hanswer.trans hanswer₃).trans hanswer₄⟩, .inr ?_⟩
                rw [hrequest₄.turn, hrequest₄.bodies]
                exact hturn₃
      -- A rename that failed has moved nothing.
      · refine ⟨⟨h.of_shrinks ?_ (congrFun horigin _), hanswer⟩, .inl (.inl ⟨_, hfault, ?_⟩)⟩
        · rw [hdir]
          exact .refl _
        · exact congrArg bodyPath hwr.key

/-- **A live response**: when it has been streamed to its end, its body is in
place, or something went wrong, or it may not be stored. -/
theorem live_stream_world (cache : Cache) (hwriter : Teeing key storable writer w)
    (hsince : since ≤ w.turn) (h : NoOlder since key w)
    (items : List (Except Str Bytes)) (bucket : Str) (guard : ResultSizeGuard) :
    Safe worldEnv (fun w' => NoOlder since key w' ∧ SameAnswer w w')
      (fun _ w' => storable → Broken key w' ∨ w'.turn ≤ w'.origin (bodyPath key))
      (Body.live items bucket guard (some cache) writer).stream w := by
  unfold Body.stream
  refine Safe.bind (meteredStream_world bucket items guard writer w hwriter h) ?_
  rintro writer' w₁ ⟨hfresh₁, hanswer₁⟩ hteeing
  cases writer' with
  | none =>
      refine ⟨⟨hfresh₁, hanswer₁⟩, fun hstore => .inl (hteeing.broken rfl hstore)⟩
  | some wr =>
      have hwr := hteeing.writing wr rfl
      have hsince₁ : since ≤ w₁.turn := hanswer₁.turn ▸ hsince
      refine Safe.bind ((finish_world cache hwr hsince₁ hfresh₁).weaken ?_) ?_
      · rintro w₂ ⟨hfresh₂, hanswer₂⟩
        exact ⟨hfresh₂, hanswer₁.trans hanswer₂⟩
      · intro _ w₂ hw₂ hplaced
        exact ⟨hw₂, fun _ => hplaced⟩

/-- The operations of a stream whose items go to the consumer. -/
def HandsOver : IoOp → Prop
  | .charge _ _ | .yield _ => True
  | _ => False

/-- Streaming a cached body opens it and hands its bytes over. -/
theorem cached_stream_world (h : NoOlder since key w) (path bucket : Str)
    (guard : ResultSizeGuard) :
    Safe worldEnv (fun w' => NoOlder since key w' ∧ SameAnswer w w')
      (fun _ w' => w'.opened = w.opened ∨ w'.opened = some (w.origin path))
      (Body.cached path bucket guard).stream w := by
  -- Once the file is open, items are handed over and nothing else happens.
  have hrest : ∀ (items : List (Except Str Bytes)) (w₁ : World),
      (NoOlder since key w₁ ∧ SameAnswer w w₁) ∧
        (w₁.opened = w.opened ∨ w₁.opened = some (w.origin path)) →
      Safe worldEnv (fun w' => NoOlder since key w' ∧ SameAnswer w w')
        (fun _ w' => w'.opened = w.opened ∨ w'.opened = some (w.origin path))
        (meteredStream bucket (fun _ item => Io.yield (item.mapError MeteredError.toText)) guard
          items ()) w₁ := by
    intro items w₁ hw₁
    have hmeets : Meets HandsOver (fun _ => True) (meteredStream bucket
        (fun _ item => Io.yield (item.mapError MeteredError.toText)) guard items ()) := by
      refine meteredStream_meets (I := fun _ => True) (fun _ => trivial) ?_ items trivial
      exact fun _ item _ => ⟨trivial, fun _ => trivial⟩
    refine Safe.mono (I := fun w' => (NoOlder since key w' ∧ SameAnswer w w') ∧
      (w'.opened = w.opened ∨ w'.opened = some (w.origin path))) (Safe.of_meets hmeets ?_ hw₁)
      (fun _ hw => hw.1) fun _ _ hw _ => hw.2
    intro o w₂ r w₃ ho hw₂ hstep
    cases o with
    | charge bucket n =>
        obtain rfl : w₃ = w₂ := hstep
        exact hw₂
    | yield item =>
        obtain ⟨hfresh, hanswer, -, -⟩ := yield_world since key hstep
        obtain rfl : w₃ = { w₂ with sent := w₂.sent ++ [item] } := hstep
        exact ⟨⟨hfresh hw₂.1.1, hw₂.1.2.trans hanswer⟩, hw₂.2⟩
    | _ => cases ho
  unfold Body.stream fileStream
  simp only [Io.openFile_bind]
  refine ⟨⟨h, .refl w⟩, fun r w₁ hw₁ => ?_⟩
  have hopen : (NoOlder since key w₁ ∧ SameAnswer w w₁) ∧
      (w₁.opened = w.opened ∨ w₁.opened = some (w.origin path)) := by
    obtain ⟨fault, rfl, rfl⟩ := hw₁
    refine ⟨⟨h.of_shrinks ?_ ?_, w.sameAnswer_afterFs _ fault⟩, ?_⟩
    · cases fault with
      | some f => exact .refl _
      | none => exact .refl _
    · exact congrFun (ite_self _) _
    · unfold World.afterFs
      dsimp only
      split
      · exact .inr rfl
      · exact .inl rfl
  cases r with
  | error e => exact hrest _ w₁ hopen
  | ok bytes => exact hrest _ w₁ hopen

/-! ## The handler -/

section Handling

variable {state : AppState} {limitKey : RateLimitKey} {requestHeaders : HeaderMap} {target : Url}
  {plan : CachePlan} {cache : Cache} {w₀ : World}

/-- What the redirect loop leaves behind. -/
def Fetches (key : Str) : Except AppError Fetched → World → Prop
  | .error _, _ => True
  | .ok (.confirmed response), w =>
      (∃ bucket guard, response.body = .cached (bodyPath key) bucket guard) ∧ w.upstream ≠ none
  | .ok (.final upstream _), w => w.upstream = some upstream

/-- A body the handler leaves behind: a cached one that is fresh enough unless
the upstream has been asked, or a live one with its writer. -/
def PreparesBody (since : ℕ) (key : Str) (plan : CachePlan) (requestHeaders : HeaderMap)
    (cache : Cache) (w : World) : Body → Prop
  | .full _ => True
  | .cached path _ _ => path = bodyPath key ∧ (w.upstream = none → since ≤ w.origin (bodyPath key))
  | .live _ _ _ cache' writer => cache' = some cache ∧ ∃ upstream, w.upstream = some upstream ∧
      Teeing key (∃ vary, Accepts plan upstream.status upstream.headers requestHeaders vary w.clock)
        writer w

/-- The same of the handler's result. -/
def Prepares (since : ℕ) (key : Str) (plan : CachePlan) (requestHeaders : HeaderMap)
    (cache : Cache) (result : Except AppError Response) (w : World) : Prop :=
  ∀ response, result = .ok response →
    PreparesBody since key plan requestHeaders cache w response.body

/-- Confirming an entry keeps what is servable. -/
theorem confirmEntry_world {entry : CacheEntry} (hentry : Found since key w entry)
    (hupstream : w.upstream ≠ none) (h : NoOlder since key w) (bucket : Str)
    (confirmed : HeaderMap) :
    Safe worldEnv (fun w' => NoOlder since key w' ∧ SameRequest w w')
      (fun result w' => Fetches key result w')
      (confirmEntry state bucket target plan entry confirmed) w := by
  unfold confirmEntry
  refine (refresh_world hentry.fresh h confirmed plan.ttl).seq ?_ ?_
  · rintro w' ⟨hfresh, hrequest, -⟩
    exact ⟨hfresh, hrequest⟩
  · rintro ⟨entry', written⟩ w' ⟨hfresh, hrequest, hsame⟩ hrefreshed
    have hpath : entry'.bodyPath = bodyPath key := hrefreshed.trans hentry.path
    cases written with
    | error e => exact ⟨⟨hfresh, hrequest⟩, trivial⟩
    | ok _ =>
        refine ⟨⟨hfresh, hrequest⟩, ?_⟩
        cases hresponse : cachedResponse state entry' bucket state.resultMax cacheRevalidated
            target with
        | error e => trivial
        | ok response =>
            have hbody := cachedResponse_body hresponse
            exact ⟨⟨bucket, _, hpath ▸ hbody⟩, hsame ▸ hupstream⟩

omit [Crates] in
theorem Found.later {entry : CacheEntry} {w' : World} (h : Found since key w entry)
    (hw : SameRequest w w') : Found since key w' entry :=
  ⟨h.path, fun hrevalidate => hw.bodies key ▸ h.fresh hrevalidate⟩

/-- One turn of the redirect loop. -/
theorem redirectTurn_world {cachedEntry : Option CacheEntry} {bucket : Str} {url : Url}
    {onward : UpstreamResponse → Prog Io (Except AppError Fetched)}
    (hcached : ∀ entry, cachedEntry = some entry → Found since key w entry)
    (h : NoOlder since key w)
    (honward : ∀ resp w', NoOlder since key w' → SameRequest w w' →
      Safe worldEnv (fun w' => NoOlder since key w' ∧ SameRequest w w')
        (fun result w' => Fetches key result w') (onward resp) w') :
    Safe worldEnv (fun w' => NoOlder since key w' ∧ SameRequest w w')
      (fun result w' => Fetches key result w')
      (redirectTurn state requestHeaders bucket target (some plan) cachedEntry url onward) w := by
  unfold redirectTurn
  simp only [Io.send_bind]
  refine ⟨⟨h, .refl w⟩, fun r w₁ hw₁ => ?_⟩
  obtain rfl : w₁ = { w with upstream := (Except.toOption r).or w.upstream } := hw₁
  have hrequest : SameRequest w { w with upstream := (Except.toOption r).or w.upstream } :=
    ⟨rfl, rfl, fun _ => rfl⟩
  cases r with
  | error e => exact ⟨⟨h, hrequest⟩, trivial⟩
  | ok resp =>
      dsimp only
      split
      · next entry _ _ _ =>
        refine (confirmEntry_world ((hcached entry rfl).later hrequest) ?_ h bucket
          resp.headers).weaken ?_
        · exact Option.some_ne_none resp
        · rintro w₂ ⟨hfresh, hrequest₂⟩
          exact ⟨hfresh, hrequest.trans hrequest₂⟩
      · split
        · exact ⟨⟨h, hrequest⟩, rfl⟩
        · split
          · exact ⟨⟨h, hrequest⟩, trivial⟩
          · exact honward resp _ h hrequest

/-- **The redirect loop** keeps what is servable. -/
theorem followRedirects_world {cachedEntry : Option CacheEntry} {origin : Origin} {bucket : Str}
    (redirectsLeft : ℕ) :
    ∀ {url : Url} {w : World}, (∀ entry, cachedEntry = some entry → Found since key w entry) →
      NoOlder since key w →
        Safe worldEnv (fun w' => NoOlder since key w' ∧ SameRequest w w')
          (fun result w' => Fetches key result w')
          (followRedirects state origin requestHeaders bucket target (some plan) cachedEntry
            redirectsLeft url) w := by
  -- Every turn starts with the entry that the lookup found.
  induction redirectsLeft with
  | zero =>
      intro url w hcached h
      refine redirectTurn_world hcached h fun resp w' h' hrequest => ?_
      exact ⟨⟨h', hrequest⟩, trivial⟩
  | succ n ih =>
      intro url w hcached h
      refine redirectTurn_world hcached h fun resp w' h' hrequest => ?_
      split
      · exact ⟨⟨h', hrequest⟩, trivial⟩
      · refine (ih (fun entry hentry => (hcached entry hentry).later hrequest) h').weaken ?_
        rintro w'' ⟨hfresh, hrequest'⟩
        exact ⟨hfresh, hrequest.trans hrequest'⟩

/-- The response to the last answer of the upstream. -/
theorem liveResponse_world {upstream : UpstreamResponse} (hcache : state.cache = some cache)
    (hkey : plan.key = key) (hupstream : w.upstream = some upstream) (h : NoOlder since key w)
    (bucket : Str) (finalUrl : Url) (revalidated : Bool) :
    Safe worldEnv (fun w' => NoOlder since key w' ∧ SameRequest w w')
      (fun result w' => Prepares since key plan requestHeaders cache result w')
      (liveResponse state requestHeaders bucket target finalUrl (some plan) revalidated upstream)
      w := by
  unfold liveResponse
  dsimp only
  split
  · exact ⟨⟨h, .refl w⟩, fun response hresponse => nomatch hresponse⟩
  · unfold beginWritePlanned
    rw [hcache]
    dsimp only
    refine (beginWrite_world hkey h upstream.status upstream.headers requestHeaders).seq ?_ ?_
    · rintro w' ⟨hfresh, hrequest, -⟩
      exact ⟨hfresh, hrequest⟩
    · rintro writer w' ⟨hfresh, hrequest, hsame⟩ hteeing
      refine ⟨⟨hfresh, hrequest⟩, fun response hresponse => ?_⟩
      obtain rfl := Except.ok.inj hresponse
      exact ⟨rfl, upstream, hsame.trans hupstream, hteeing⟩

/-- Everything after the cache. -/
theorem fetchUpstream_world {cachedEntry : Option CacheEntry} (hcache : state.cache = some cache)
    (hkey : plan.key = key)
    (hcached : ∀ entry, cachedEntry = some entry → Found since key w entry)
    (h : NoOlder since key w) (forceRevalidation : Bool) :
    Safe worldEnv (fun w' => NoOlder since key w' ∧ SameRequest w w')
      (fun result w' => Prepares since key plan requestHeaders cache result w')
      (fetchUpstream state limitKey requestHeaders target (some plan) cachedEntry
        forceRevalidation) w := by
  unfold fetchUpstream
  refine Safe.bind (followRedirects_world state.maxRedirects hcached h) ?_
  rintro result w₁ ⟨h₁, hrequest₁⟩ hfetches
  cases result with
  | error e => exact ⟨⟨h₁, hrequest₁⟩, fun response hresponse => nomatch hresponse⟩
  | ok fetched =>
      cases fetched with
      -- A confirmed entry is no hit: the upstream has been asked.
      | confirmed response =>
          obtain ⟨⟨bucket, guard, hbody⟩, hupstream⟩ := hfetches
          refine ⟨⟨h₁, hrequest₁⟩, fun response' hresponse' => ?_⟩
          obtain rfl := Except.ok.inj hresponse'
          rw [hbody]
          exact ⟨rfl, fun hnone => absurd hnone hupstream⟩
      | final upstream finalUrl =>
          refine (liveResponse_world hcache hkey hfetches h₁ limitKey.bucket finalUrl _).weaken ?_
          rintro w₂ ⟨h₂, hrequest₂⟩
          exact ⟨h₂, hrequest₁.trans hrequest₂⟩

/-- The handler from the lookup on. -/
theorem answerAdmitted_world (hcache : state.cache = some cache)
    (hplan : cache.plan target requestHeaders = some plan) (hkey : plan.key = key)
    (h : NoOlder since key w) :
    Safe worldEnv (fun w' => NoOlder since key w' ∧ SameRequest w w')
      (fun result w' => Prepares since key plan requestHeaders cache result w')
      (answerAdmitted state limitKey requestHeaders target) w := by
  have hlookup : Safe worldEnv (fun w' => NoOlder since key w' ∧ SameRequest w w')
      (fun result _ => ∀ found, result = some found → Found since key w found)
      (lookupPlanned state (some plan)) w := by
    unfold lookupPlanned
    rw [hcache]
    simp only [Io.nowSeconds_bind]
    refine ⟨⟨h, .refl w⟩, fun now w₁ hw₁ => ?_⟩
    obtain rfl : w₁ = { w with clock := now } := hw₁
    refine Safe.mono (@lookup_world _ since key { w with clock := now } _ hkey _ h) ?_ ?_
    · rintro w' ⟨hfresh, hrequest, -⟩
      exact ⟨hfresh, ⟨hrequest.turn, hrequest.opened, hrequest.bodies⟩⟩
    · intro result w' _ hresult found hfound
      exact ⟨(hresult found hfound).path, (hresult found hfound).fresh⟩
  unfold answerAdmitted
  rw [hcache]
  simp only [Option.bind_some]
  rw [hplan]
  refine Safe.bind hlookup ?_
  rintro cachedEntry w₁ ⟨h₁, hrequest₁⟩ hresult
  have hcached : ∀ entry, cachedEntry = some entry → Found since key w₁ entry :=
    fun entry hentry => (hresult entry hentry).later hrequest₁
  have hfetch : ∀ (w₂ : World), NoOlder since key w₂ → SameRequest w₁ w₂ →
      Safe worldEnv (fun w' => NoOlder since key w' ∧ SameRequest w w')
        (fun result w' => Prepares since key plan requestHeaders cache result w')
        (fetchUpstream state limitKey requestHeaders target (some plan) cachedEntry
          (requestRequiresRevalidation requestHeaders)) w₂ := by
    intro w₂ h₂ hrequest₂
    refine (fetchUpstream_world hcache hkey
      (fun entry hentry => (hcached entry hentry).later hrequest₂) h₂ _).weaken ?_
    rintro w₃ ⟨h₃, hrequest₃⟩
    exact ⟨h₃, hrequest₁.trans (hrequest₂.trans hrequest₃)⟩
  -- Only a fresh entry that need not be revalidated is served without the upstream.
  split
  · next entry _ _ =>
    simp only [Io.nowSeconds_bind]
    refine ⟨⟨h₁, hrequest₁⟩, fun now w₂ hw₂ => ?_⟩
    obtain rfl : w₂ = { w₁ with clock := now } := hw₂
    have hrequest₂ : SameRequest w₁ { w₁ with clock := now } := ⟨rfl, rfl, fun _ => rfl⟩
    dsimp only
    split
    · next hfresh =>
      refine ⟨⟨h₁, hrequest₁.trans hrequest₂⟩, fun response hresponse => ?_⟩
      have hbody := cachedResponse_body hresponse
      have hentry := hcached entry rfl
      have hrevalidate : entry.revalidate = false := by
        unfold isFresh at hfresh
        simp only [Bool.and_eq_true, Bool.not_eq_true'] at hfresh
        exact hfresh.1
      rw [hbody]
      exact ⟨hentry.path, fun _ => hentry.fresh hrevalidate⟩
    · exact hfetch _ h₁ hrequest₂
  · exact hfetch w₁ h₁ (.refl w₁)

omit [Crates] in
/-- The request limits touch nothing, and a response of theirs is a text. -/
theorem checkTiers_world (h : NoOlder since key w) (tiers : List LimitTier) :
    Safe worldEnv (fun w' => NoOlder since key w' ∧ SameRequest w w')
      (fun result _ => ∀ response, result = .ok (some response) → ∃ bytes,
        response.body = .full bytes)
      (checkTiers limitKey tiers) w := by
  induction tiers with
  | nil => exact ⟨⟨h, .refl w⟩, fun response hresponse => nomatch hresponse⟩
  | cons tier rest ih =>
      unfold checkTiers
      simp only [Io.checkLimit_bind]
      refine ⟨⟨h, .refl w⟩, fun r w₁ hw₁ => ?_⟩
      obtain rfl : w₁ = w := hw₁
      cases r with
      | error e => exact ⟨⟨h, .refl w₁⟩, fun response hresponse => nomatch hresponse⟩
      | ok snapshot =>
          dsimp only
          split
          · exact ih
          · refine ⟨⟨h, .refl w₁⟩, fun response hresponse => ?_⟩
            cases hresponse
            exact ⟨_, rfl⟩

/-- **The handler** keeps what is servable and prepares a body. -/
theorem proxyHandler_world {uri : OriginalUri} (htarget : parseTargetUrl uri = .ok target)
    (hcache : state.cache = some cache) (hplan : cache.plan target requestHeaders = some plan)
    (hkey : plan.key = key) (h : NoOlder since key w) :
    Safe worldEnv (fun w' => NoOlder since key w' ∧ SameRequest w w')
      (fun result w' => Prepares since key plan requestHeaders cache result w')
      (proxyHandler state uri limitKey requestHeaders) w := by
  have herror : ∀ (e : AppError) (w₁ : World), NoOlder since key w₁ ∧ SameRequest w w₁ →
      Safe worldEnv (fun w' => NoOlder since key w' ∧ SameRequest w w')
        (fun result w' => Prepares since key plan requestHeaders cache result w')
        (.ret (.error e)) w₁ :=
    fun e w₁ hw₁ => ⟨hw₁, fun response hresponse => nomatch hresponse⟩
  unfold proxyHandler
  rw [htarget]
  dsimp only
  split
  · exact herror _ w ⟨h, .refl w⟩
  · split
    · exact herror _ w ⟨h, .refl w⟩
    · refine Safe.bind (checkTiers_world h state.rateLimit) ?_
      rintro admitted w₁ ⟨h₁, hrequest₁⟩ hfull
      cases admitted with
      | error e => exact herror e w₁ ⟨h₁, hrequest₁⟩
      | ok limited =>
          cases limited with
          | some response =>
              refine ⟨⟨h₁, hrequest₁⟩, fun response' hresponse' => ?_⟩
              obtain rfl := Except.ok.inj hresponse'
              obtain ⟨bytes, hbody⟩ := hfull response rfl
              rw [hbody]
              trivial
          | none =>
              refine (answerAdmitted_world hcache hplan hkey h₁).weaken ?_
              rintro w₂ ⟨h₂, hrequest₂⟩
              exact ⟨h₂, hrequest₁.trans hrequest₂⟩

/-- What a whole request leaves behind: what it opened as a hit is fresh enough,
and the body of a live response that may be stored is in place unless something
went wrong. -/
structure Leaves (since : ℕ) (key : Str) (plan : CachePlan) (requestHeaders : HeaderMap)
    (response : Response) (w : World) : Prop where
  hit : ∀ path bucket guard, response.body = .cached path bucket guard → w.upstream = none →
    ∀ opened, w.opened = some opened → since ≤ opened
  stored : ∀ items bucket guard cache writer,
    response.body = .live items bucket guard cache writer →
      ∀ upstream vary, w.upstream = some upstream →
        Accepts plan upstream.status upstream.headers requestHeaders vary w.clock →
          Broken key w ∨ w.turn ≤ w.origin (bodyPath key)

/-- Streaming a prepared body. -/
theorem stream_world {response : Response}
    (hprepared : PreparesBody since key plan requestHeaders cache w response.body)
    (hsince : since ≤ w.turn) (hopened : w.opened = none) (h : NoOlder since key w) :
    Safe worldEnv (fun w' => NoOlder since key w' ∧ w'.turn = w.turn)
      (fun _ w' => Leaves since key plan requestHeaders response w') response.body.stream w := by
  cases hbody : response.body with
  | full bytes =>
      refine ⟨⟨h, rfl⟩, fun r w₁ hw₁ => ?_⟩
      obtain ⟨hfresh, hanswer, -, -⟩ := yield_world since key hw₁
      refine ⟨⟨hfresh h, hanswer.turn⟩, ⟨?_, ?_⟩⟩
      · intro path bucket guard hcached
        rw [hbody] at hcached
        cases hcached
      · intro items bucket guard cache writer hlive
        rw [hbody] at hlive
        cases hlive
  | cached path bucket guard =>
      rw [hbody] at hprepared
      obtain ⟨rfl, hfresh⟩ := hprepared
      refine (cached_stream_world h (bodyPath key) bucket guard).mono ?_ ?_
      · rintro w' ⟨h', hanswer⟩
        exact ⟨h', hanswer.turn⟩
      · rintro _ w' ⟨-, hanswer⟩ hopened'
        refine ⟨?_, ?_⟩
        · intro _ _ _ _ hnone opened hsome
          rw [hopened, hsome] at hopened'
          rcases hopened' with hnever | horigin
          · cases hnever
          · rw [Option.some.inj horigin]
            exact hfresh (hanswer.upstream.symm.trans hnone)
        · intro items bucket guard cache writer hlive
          rw [hbody] at hlive
          cases hlive
  | live items bucket guard cache' writer =>
      rw [hbody] at hprepared
      obtain ⟨rfl, upstream, hupstream, hteeing⟩ := hprepared
      refine (live_stream_world cache hteeing hsince h items bucket guard).mono ?_ ?_
      · rintro w' ⟨h', hanswer⟩
        exact ⟨h', hanswer.turn⟩
      · rintro _ w' ⟨-, hanswer⟩ hplaced
        refine ⟨?_, ?_⟩
        · intro path bucket guard hcached
          rw [hbody] at hcached
          cases hcached
        · intro _ _ _ _ _ _ upstream' vary hupstream' haccepts
          rw [hanswer.upstream, hupstream, Option.some.injEq] at hupstream'
          subst hupstream'
          rw [hanswer.clock] at haccepts
          exact hplaced ⟨vary, haccepts⟩

/-- **The specification of a request** to a key: whatever the upstream, the clock
and the faults do, and wherever it is cut off, it makes nothing older servable. -/
theorem serve_world (limitKey : RateLimitKey) {uri : OriginalUri}
    (htarget : parseTargetUrl uri = .ok target)
    (hcache : state.cache = some cache) (hplan : cache.plan target requestHeaders = some plan)
    (hkey : plan.key = key) (hsince : since ≤ w.turn) (hopened : w.opened = none)
    (h : NoOlder since key w) :
    Safe worldEnv (fun w' => NoOlder since key w' ∧ w'.turn = w.turn)
      (fun result w' => ∀ response, result = .ok response →
        Leaves since key plan requestHeaders response w')
      (serve state uri limitKey requestHeaders) w := by
  unfold serve
  refine (proxyHandler_world htarget hcache hplan hkey h).seq ?_ ?_
  · rintro w₁ ⟨h₁, hrequest₁⟩
    exact ⟨h₁, hrequest₁.turn⟩
  · rintro result w₁ ⟨h₁, hrequest₁⟩ hprepares
    cases result with
    | error e => exact ⟨⟨h₁, hrequest₁.turn⟩, fun response hresponse => nomatch hresponse⟩
    | ok response =>
        have hsince₁ : since ≤ w₁.turn := hrequest₁.turn ▸ hsince
        have hopened₁ : w₁.opened = none := hrequest₁.opened.trans hopened
        refine Safe.bind ((stream_world (hprepares response rfl) hsince₁ hopened₁ h₁).weaken ?_) ?_
        · rintro w₂ ⟨h₂, hturn₂⟩
          exact ⟨h₂, hturn₂.trans hrequest₁.turn⟩
        · intro _ w₂ hw₂ hleaves
          refine ⟨hw₂, fun response' hresponse' => ?_⟩
          obtain rfl := Except.ok.inj hresponse'
          exact hleaves

end Handling

end Programs

end Corsget
