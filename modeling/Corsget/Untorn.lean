import Corsget.CrashSafety
import Corsget.SharedDirectory

/-!
# Cached responses that are not torn

A response from the cache takes its status and headers from the metadata that a
lookup has read, and its body from the file that is opened later.  Between the
two only the length of the body is compared.  The tasks here are the ones that
work on the directory while the proxy runs: responses from the cache, with or
without a refresh in between, commits and evictions.

`responses_untorn` says that status, headers and body of a response come from
one commit, in every run in which the comparison of the lengths is not taken in
by a body with other bytes, and the body is not replaced between that comparison
and its opening.
-/

namespace Corsget

open Text Effect

section Jobs

variable [Crates]

/-! ## Tasks -/

/-- What a request that is answered from the cache brings along. -/
structure Reader where
  state : AppState
  bucket : Str
  targetUrl : Url
  plan : CachePlan
  now : ℕ

/-- A response from the cache, and the items of its `file_stream`. -/
structure Sent where
  response : Response
  items : List (Except Str Bytes)

/-- A task on the cache directory. -/
inductive Job where
  /-- A hit: lookup, then `cached_response`. -/
  | hit (reader : Reader)
  /-- A confirmed entry: lookup, then after an upstream 304 `refresh`, then
  `cached_response`. -/
  | revalidated (reader : Reader) (confirmed : HeaderMap)
  /-- The end of a live response. -/
  | commit (cache : Cache) (w : CacheWriter)
  /-- An eviction. -/
  | evict (cache : Cache)

/-- The response that a task makes of an entry. -/
def Job.respond : Job → CacheEntry → Except AppError Response
  | hit r, entry =>
      cachedResponse r.state entry r.bucket r.state.resultMax cacheHit r.targetUrl
  | revalidated r _, entry =>
      cachedResponse r.state entry r.bucket r.state.resultMax cacheRevalidated r.targetUrl
  | _, _ => .error (.upstream [])

/-- The response goes out: its body file is opened and streamed. -/
def sendResponse (response : Response) : Prog Io (Option Sent) :=
  match response.body with
  | .cached path _ _ => do
      let items ← fileStream path
      return some ⟨response, items⟩
  | _ => return none

/-- What a task does. -/
def Job.prog (job : Job) : Prog Io (Option Sent) :=
  match job with
  | hit r => do
      match ← lookup r.plan r.now with
      | none => return none
      | some entry =>
          match job.respond entry with
          | .error _ => return none
          | .ok response => sendResponse response
  | revalidated r confirmed => do
      match ← lookup r.plan r.now with
      | none => return none
      | some entry =>
          match ← confirmEntry r.state r.bucket r.targetUrl r.plan entry confirmed with
          | .ok (.confirmed response) => sendResponse response
          | _ => return none
  | commit cache w => do
      let _ ← w.finish cache
      return none
  | evict cache => do
      Corsget.evict cache
      return none

/-- The tasks that respond. -/
def Job.Reads : Job → Prop
  | hit _ | revalidated _ _ => True
  | _ => False

instance (job : Job) : Decidable job.Reads := by
  unfold Job.Reads
  split <;> infer_instance

/-! ## The statement -/

variable {ι : Type} [DecidableEq ι]

/-- The condition on a step.  When a responding task asks for the length of a body
whose bytes are not those of the commit that its metadata is from, the length
is not the recorded one; and when a body is opened that is still there, it has
not been replaced since. -/
def Orderly (job : ι → Job) (i : ι) (s : Shared ι) : (o : IoOp) → Io.Res o → Prop
  | .fs (.metadata path), _ => (job i).Reads →
      ∀ c ∈ (s.task i).current, c.entry.version = cacheVersion →
        ∀ data ∈ s.dir.lookup path, data.bytes ≠ c.body → data.len ≠ c.entry.bodyLen
  | .fs (.openFile path), _ => s.dir.lookup path ≠ none →
      s.generation path = (s.task i).checked path
  | _, _ => True

instance (job : ι → Job) (i : ι) (s : Shared ι) (o : IoOp) (r : Io.Res o) :
    Decidable (Orderly job i s o r) := by
  unfold Orderly
  split <;> infer_instance

/-- A directory in which every file is part of a commit, and in which each commit
task has its whole body in a temporary file. -/
structure Begins (job : ι → Job) (s : Shared ι) : Prop where
  coherent : Coherent s
  writers : ∀ i cache w, job i = .commit cache w → ∃ body tempId,
    w.tempBody = tempBodyPath w.entry.key tempId ∧ w.bodyLen = body.length ∧
      Staged i ⟨w.final, body⟩ tempId w.tempBody (.raw body) s

/-- The bytes of a stream that ends without an error. -/
def streamed (items : List (Except Str Bytes)) : Option Bytes :=
  (items.mapM Except.toOption).map List.flatten

omit [Crates] in
theorem streamed_ok (chunks : List Bytes) :
    streamed (chunks.map Except.ok) = some chunks.flatten := by
  have hmap : (chunks.map Except.ok).mapM (@Except.toOption Str Bytes) = some chunks := by
    induction chunks with
    | nil => rfl
    | cons chunk chunks ih =>
        rw [List.map_cons, List.mapM_cons, ih]
        rfl
  unfold streamed
  rw [hmap]
  rfl

omit [Crates] in
/-- The pieces make up the file. -/
theorem flatten_fileChunks {fuel : ℕ} {bytes : Bytes} (h : bytes.length ≤ fuel) :
    (fileChunks fuel bytes).flatten = bytes := by
  induction fuel generalizing bytes with
  | zero =>
      rw [List.eq_nil_of_length_eq_zero (Nat.le_zero.mp h)]
      rfl
  | succ fuel ih =>
      cases bytes with
      | nil => rfl
      | cons byte bytes =>
          unfold fileChunks
          rw [List.flatten_cons, ih, List.take_append_drop]
          rw [List.length_drop, List.length_cons]
          rw [List.length_cons] at h
          omega

omit [Crates] in
/-- A file is streamed whole. -/
theorem streamed_fileChunks (bytes : Bytes) :
    streamed ((fileChunks bytes.length bytes).map Except.ok) = some bytes := by
  rw [streamed_ok, flatten_fileChunks le_rfl]

/-- The status and the headers of a response. -/
def Response.head (response : Response) : ℕ × HeaderMap := (response.status, response.headers)

/-- **A response is not torn**: if its body can be read at all, then some commit
has put in place both the entry that its status and headers are from and the
bytes of its body. -/
def SentTogether (job : Job) (sent : Sent) (s : Shared ι) : Prop :=
  ∀ bytes, streamed sent.items = some bytes → ∃ c ∈ s.committed,
    (job.respond c.entry).toOption.map Response.head = some sent.response.head ∧ bytes = c.body

/-! ## The operations of a task -/

variable {job : ι → Job} {i : ι} {c : Commit} {keys : List Str} {s : Shared ι}

/-- The specification of a task's program among the others. -/
abbrev Runs {α : Type} (job : ι → Job) (i : ι) (Q : α → Shared ι → Prop) (p : Prog Io α)
    (s : Shared ι) : Prop :=
  Upholds sharedEnv (Orderly job) sharing i Q p s

/-- Metadata that a task writes from the entry of a commit is metadata of that
commit. -/
theorem writeMetadata_runs {entry : CacheEntry} (h : Handles i c keys s)
    (hentry : entry.lasting = c.entry.lasting) :
    Runs job i (fun _ s' => Handles i c keys s') (writeMetadata entry) s := by
  unfold writeMetadata
  simp only [Io.fetchAdd_bind, Io.write_bind]
  refine .op (Handles i c keys) h (fun _ _ h hs => h.stable hs) ?_
  rintro s₁ h₁ hinv tempId s₂ ⟨rfl, rfl⟩ -
  refine ⟨keeps_count hinv, ?_⟩
  -- The number is the task's own from here on, and so is the file.
  have htemp := tempMetaPath_isTemporary entry.key s₁.counter
  refine .op (fun s => Handles i c keys s ∧ s.owner s₁.counter = some i)
    ⟨⟨h₁.current, h₁.committed, h₁.checked⟩, Function.update_self _ _ _⟩
    (fun _ _ h hs => ⟨h.1.stable hs, hs.owner _ h.2⟩) ?_
  rintro s₃ ⟨h₃, howner⟩ hinv r s₄ ⟨rfl, rfl⟩ -
  refine ⟨keeps_write hinv howner htemp _ _, ?_⟩
  refine .op (fun s => Handles i c keys s ∧
      Staged i c s₁.counter (tempMetaPath entry.key s₁.counter) (.json entry.persisted) s)
    ⟨⟨h₃.current, h₃.committed, ?_⟩, ⟨howner, htemp, AList.lookup_insert _, ?_⟩⟩
    (fun _ _ h hs => ⟨h.1.stable hs, h.2.stable hs⟩) ?_
  · intro key hkey
    obtain ⟨hle, horigin⟩ := h₃.checked key hkey
    refine ⟨hle, fun heq => ?_⟩
    obtain ⟨c', hc', hbody⟩ := horigin heq
    exact ⟨c', (Function.update_of_ne (htemp.ne_bodyPath key).symm _ _).trans hc', hbody⟩
  · exact (Function.update_self _ _ _).trans h₃.current
  · rintro s₅ ⟨h₅, hstaged⟩ hinv r s₆ ⟨rfl, rfl⟩ -
    rw [perform_rename hstaged]
    refine ⟨keeps_place hinv hstaged.owner htemp (.inl ⟨_, rfl, ?_⟩), ?_⟩
    · intro found hfound
      obtain rfl := Option.some.inj hfound
      exact hentry
    · exact .ret (fun _ _ h hs => h.stable hs) h₅.place_metaPath

omit [Crates] in
/-- The body whose length was the recorded one has the bytes of the commit, until
it is replaced. -/
theorem Handles.of_metadata (h : Handles i c keys s) (hinv : Coherent s) {key : Str}
    (hlen : (s.dir.performOk (.metadata (bodyPath key))).1.toOption = some c.entry.bodyLen)
    (hbytes : ∀ data, s.dir.lookup (bodyPath key) = some data → data.len = c.entry.bodyLen →
      data.bytes = c.body) :
    Handles i c [key] (s.perform i (.metadata (bodyPath key))) := by
  refine ⟨?_, h.committed, ?_⟩
  · show ((s.setTask i _).task i).current = some c
    rw [Shared.setTask_task]
    exact h.current
  · intro key' hkey
    obtain rfl := List.mem_singleton.mp hkey
    show ((s.setTask i _).task i).checked _ ≤ s.generation _ ∧
      (_ = ((s.setTask i _).task i).checked _ → _)
    rw [Shared.setTask_task]
    dsimp only
    rw [Function.update_self]
    refine ⟨le_rfl, fun _ => ?_⟩
    cases hfile : s.dir.lookup (bodyPath key') with
    | none =>
        unfold Dir.performOk at hlen
        dsimp only at hlen
        rw [hfile] at hlen
        cases hlen
    | some data =>
        unfold Dir.performOk at hlen
        dsimp only at hlen
        rw [hfile] at hlen
        obtain ⟨c', -, horigin, hbody⟩ := hinv.body key' data hfile
        exact ⟨c', horigin, hbody.symm.trans (hbytes data hfile (Option.some.inj hlen))⟩

omit [Crates] in
/-- A file of the cache is removed, and the task goes on with nothing. -/
theorem removeFile_runs {α : Type} {Q : α → Shared ι → Prop} {a : α} {path : Str}
    (hpath : ∃ key, path = metaPath key ∨ path = bodyPath key) (hQ : ∀ s, Q a s) :
    Runs job i Q (do let _ ← Io.removeFile path; return a) s := by
  refine .op (fun _ => True) trivial (fun _ _ _ _ => trivial) ?_
  intro s₁ _ hinv r s₂ hE _
  have hkeeps : sharing.Keeps i s₁ s₂ :=
    RemovesEntries.keeps (.fs (.removeFile path)) _ _ _ hpath hinv hE
  exact ⟨hkeeps, .ret (fun _ s' _ _ => hQ s') (hQ s₂)⟩

/-- **A lookup** returns an entry of some commit, and the body it has checked has
the bytes of that commit as long as it is not replaced. -/
theorem lookup_runs (hreads : (job i).Reads) (plan : CachePlan) (now : ℕ) :
    Runs job i (fun result s' => ∀ entry, result = some entry →
        entry.bodyPath = bodyPath plan.key ∧
          ∃ c, entry.lasting = c.entry.lasting ∧ Handles i c [plan.key] s')
      (lookup plan now) s := by
  have hnone : ∀ s' : Shared ι, ∀ entry : CacheEntry, none = some entry →
      entry.bodyPath = bodyPath plan.key ∧
        ∃ c, entry.lasting = c.entry.lasting ∧ Handles i c [plan.key] s' := by
    intro s' entry h
    cases h
  unfold lookup
  simp only [Io.read_bind, Io.metadata_bind]
  refine .op (fun _ => True) trivial (fun _ _ _ _ => trivial) ?_
  rintro s₁ - hinv r s₂ ⟨rfl, rfl⟩ -
  unfold Dir.performOk
  dsimp only
  cases hdata : s₁.dir.lookup (metaPath plan.key) with
  | none =>
      rw [perform_read_missing hdata]
      exact ⟨keeps_refl hinv, .ret (fun _ s' _ _ => hnone s') (hnone _)⟩
  | some data =>
      rw [perform_read hdata]
      refine ⟨keeps_setTask hinv _, ?_⟩
      dsimp only
      cases hentry : data.fromSlice with
      | none => exact removeFile_runs ⟨_, .inl rfl⟩ hnone
      | some entry =>
          -- From here on the task handles the commit of the metadata it has read.
          obtain ⟨c, hc, horigin, hlasting⟩ := hinv.record _ _ _ hdata hentry
          have hhandles : Handles i c [] (s₁.setTask i
              { s₁.task i with current := s₁.origin (metaPath plan.key) }) := by
            refine ⟨?_, hc, fun key hkey => (nomatch hkey)⟩
            rw [Shared.setTask_task]
            exact horigin
          refine .op (Handles i c []) hhandles (fun _ _ h hs => h.stable hs) ?_
          rintro s₃ h₃ hinv r s₄ ⟨rfl, rfl⟩ horderly
          refine ⟨keeps_setTask hinv _, ?_⟩
          split
          · exact removeFile_runs ⟨_, .inl rfl⟩ hnone
          · next hcheck =>
            rw [not_or, not_not, not_not] at hcheck
            obtain ⟨hversion, hlen⟩ := hcheck
            have hbodyLen : entry.lasting.bodyLen = c.entry.lasting.bodyLen :=
              congrArg CacheEntry.bodyLen hlasting
            have hlen : _ = some c.entry.bodyLen := hlen.trans (congrArg some hbodyLen)
            refine .bind (writeMetadata_runs (h₃.of_metadata hinv hlen ?_) hlasting) ?_
            -- The run is orderly: the length tells other bodies apart.
            · intro data hdata hlength
              by_contra hne
              have hcurrent : c.entry.lasting.version = cacheVersion := by
                rw [← hlasting]
                exact hversion
              exact horderly hreads c h₃.current hcurrent data hdata hne hlength
            · intro _ s₅ h₅
              refine .ret ?_ ?_
              · intro s s' h hs entry hentry
                obtain ⟨hpath, c, hlasting, hhandles⟩ := h entry hentry
                exact ⟨hpath, c, hlasting, hhandles.stable hs⟩
              · intro found hfound
                obtain rfl := Option.some.inj hfound
                exact ⟨rfl, c, hlasting, h₅⟩

omit [Crates] in
/-- **The body** that is opened has the bytes of the commit. -/
theorem fileStream_runs {key : Str} (h : Handles i c [key] s) :
    Runs job i (fun items s' => c ∈ s'.committed ∧
        ∀ bytes, streamed items = some bytes → bytes = c.body)
      (fileStream (bodyPath key)) s := by
  unfold fileStream
  simp only [Io.openFile_bind]
  refine .op (Handles i c [key]) h (fun _ _ h hs => h.stable hs) ?_
  rintro s₁ h₁ hinv r s₂ ⟨rfl, rfl⟩ horderly
  refine ⟨keeps_refl hinv, ?_⟩
  have hstable : ∀ items : List (Except Str Bytes), ∀ s s' : Shared ι,
      (c ∈ s.committed ∧ ∀ bytes, streamed items = some bytes → bytes = c.body) →
      Undisturbed i s s' →
      c ∈ s'.committed ∧ ∀ bytes, streamed items = some bytes → bytes = c.body :=
    fun _ _ _ h hs => ⟨hs.committed h.1, h.2⟩
  unfold Dir.performOk
  dsimp only
  cases hfile : s₁.dir.lookup (bodyPath key) with
  | none =>
      refine .ret (hstable _) ⟨h₁.committed, fun bytes hbytes => ?_⟩
      cases hbytes
  | some data =>
      refine .ret (hstable _) ⟨h₁.committed, fun bytes hbytes => ?_⟩
      -- Not replaced since its length was asked for, the body is still the commit's.
      obtain ⟨c', horigin, hbody⟩ := (h₁.checked key (List.mem_singleton_self key)).2
        (horderly (by
          rw [hfile]
          exact Option.some_ne_none data))
      obtain ⟨c'', -, horigin', hdata⟩ := hinv.body key data hfile
      obtain rfl : c' = c'' := Option.some.inj (horigin.symm.trans horigin')
      rw [FileRead.items_whole, streamed_fileChunks, Option.some.injEq] at hbytes
      rw [← hbytes, hdata, hbody]

/-! ## The tasks -/

omit [Crates] in
/-- `cached_response` looks at what lasts of an entry, next to where its body is. -/
theorem cachedResponse_head {entry entry' : CacheEntry} (h : entry.lasting = entry'.lasting)
    (state : AppState) (bucket : Str) (resultMax : ℕ) (cacheStatus : HeaderValue) (url : Url) :
    (cachedResponse state entry bucket resultMax cacheStatus url).toOption.map Response.head =
      (cachedResponse state entry' bucket resultMax cacheStatus url).toOption.map
        Response.head := by
  have hstatus : entry.lasting.status = entry'.lasting.status := congrArg CacheEntry.status h
  have hheaders : entry.lasting.headers = entry'.lasting.headers := congrArg CacheEntry.headers h
  have hbodyLen : entry.lasting.bodyLen = entry'.lasting.bodyLen := congrArg CacheEntry.bodyLen h
  change entry.status = entry'.status at hstatus
  change entry.headers = entry'.headers at hheaders
  change entry.bodyLen = entry'.bodyLen at hbodyLen
  unfold cachedResponse cachedResponseHeaders headersFromEntry
  rw [hstatus, hheaders, hbodyLen]
  split
  · rfl
  · dsimp only
    split
    · rfl
    · rfl

omit [Crates] in
/-- A response made of an entry of a commit is sent with the body of the commit. -/
theorem sendResponse_runs {j : Job} {key bucket : Str} {guard : ResultSizeGuard}
    {response : Response} (h : Handles i c [key] s)
    (hbody : response.body = .cached (bodyPath key) bucket guard)
    (hhead : (j.respond c.entry).toOption.map Response.head = some response.head) :
    Runs job i (fun result s' => ∀ sent, result = some sent → SentTogether j sent s')
      (sendResponse response) s := by
  unfold sendResponse
  rw [hbody]
  refine .bind (fileStream_runs h) ?_
  rintro items s' ⟨hc, hbytes⟩
  refine .ret ?_ ?_
  · intro s s' h hs sent hsent bytes hstreamed
    obtain ⟨c, hc, hhead, hbytes⟩ := h sent hsent bytes hstreamed
    exact ⟨c, hs.committed hc, hhead, hbytes⟩
  · intro sent hsent bytes hstreamed
    obtain rfl := Option.some.inj hsent
    exact ⟨c, hc, hhead, hbytes bytes hstreamed⟩

/-- A refresh leaves what lasts of an entry, and where its body is. -/
theorem refresh_runs {entry : CacheEntry} (h : Handles i c keys s)
    (hentry : entry.lasting = c.entry.lasting) (confirmed : HeaderMap) (ttl : ℕ) :
    Runs job i (fun result s' => result.1.lasting = c.entry.lasting ∧
        result.1.bodyPath = entry.bodyPath ∧ Handles i c keys s')
      (refresh entry confirmed ttl) s := by
  unfold refresh
  simp only [Io.nowSeconds_bind, Io.systemTime_bind]
  refine .op (Handles i c keys) h (fun _ _ h hs => h.stable hs) ?_
  rintro s₁ h₁ hinv created s₂ rfl -
  refine ⟨keeps_refl hinv, ?_⟩
  refine .op (Handles i c keys) h₁ (fun _ _ h hs => h.stable hs) ?_
  rintro s₃ h₃ hinv now s₄ rfl -
  refine ⟨keeps_refl hinv, ?_⟩
  refine .bind (writeMetadata_runs h₃ hentry) ?_
  intro written s₅ h₅
  exact .ret (fun _ _ h hs => ⟨h.1, h.2.1, h.2.2.stable hs⟩) ⟨hentry, rfl, h₅⟩

omit [Crates] in
/-- An eviction keeps the agreement. -/
theorem evict_runs (cache : Cache) : Runs job i (fun _ _ => True) (evict cache) s :=
  .of_meets (evict_removesEntries cache) RemovesEntries.keeps

/-- The end of a live response: the body goes in place, and the metadata of the
same commit after it. -/
theorem finish_runs {cache : Cache} {w : CacheWriter} {body : Bytes} {tempId : ℕ}
    (h : Staged i ⟨w.final, body⟩ tempId w.tempBody (.raw body) s) :
    Runs job i (fun _ _ => True) (w.finish cache) s := by
  unfold CacheWriter.finish commit
  simp only [Io.flush_bind, Io.rename_bind]
  refine .op (Staged i ⟨w.final, body⟩ tempId w.tempBody (.raw body)) h
    (fun _ _ h hs => h.stable hs) ?_
  rintro s₁ h₁ hinv r s₂ ⟨rfl, rfl⟩ -
  refine ⟨keeps_refl hinv, ?_⟩
  refine .op (Staged i ⟨w.final, body⟩ tempId w.tempBody (.raw body)) h₁
    (fun _ _ h hs => h.stable hs) ?_
  rintro s₃ h₃ hinv r s₄ ⟨rfl, rfl⟩ -
  rw [perform_rename h₃]
  refine ⟨keeps_place hinv h₃.owner h₃.temporary (.inr ⟨_, rfl, rfl⟩), ?_⟩
  unfold Dir.performOk
  dsimp only
  rw [h₃.file]
  refine .bind (writeMetadata_runs (handles_place s₃ i _ _ _ _) rfl) ?_
  intro written s₅ _
  cases written with
  | error e => exact .ret (fun _ _ _ _ => trivial) trivial
  | ok _ => exact .bind (evict_runs cache) fun _ _ _ => .ret (fun _ _ _ _ => trivial) trivial

/-- What a task sends is not torn. -/
abbrev SendsUntorn (j : Job) (result : Option Sent) (s : Shared ι) : Prop :=
  ∀ sent, result = some sent → SentTogether j sent s

omit [Crates] in
theorem nothing_runs {j : Job} : Runs job i (SendsUntorn j) (.ret none) s :=
  .ret (fun _ _ _ _ _ hsent => (nomatch hsent)) fun _ hsent => (nomatch hsent)

theorem hit_runs {r : Reader} (hreads : (job i).Reads) :
    Runs job i (SendsUntorn (.hit r)) (Job.hit r).prog s := by
  refine .bind (lookup_runs hreads r.plan r.now) ?_
  intro found s₁ hfound
  cases found with
  | none => exact nothing_runs
  | some entry =>
      obtain ⟨hpath, c, hlasting, hhandles⟩ := hfound entry rfl
      dsimp only
      cases hresponse : Job.respond (.hit r) entry with
      | error e => exact nothing_runs
      | ok response =>
          have hbody := cachedResponse_body hresponse
          rw [hpath] at hbody
          refine sendResponse_runs hhandles hbody ?_
          calc (Job.respond (.hit r) c.entry).toOption.map Response.head
              = (Job.respond (.hit r) entry).toOption.map Response.head :=
                cachedResponse_head hlasting.symm _ _ _ _ _
            _ = some response.head := by
                rw [hresponse]
                rfl

theorem revalidated_runs {r : Reader} {confirmed : HeaderMap} (hreads : (job i).Reads) :
    Runs job i (SendsUntorn (.revalidated r confirmed)) (Job.revalidated r confirmed).prog s := by
  refine .bind (lookup_runs hreads r.plan r.now) ?_
  intro found s₁ hfound
  cases found with
  | none => exact nothing_runs
  | some entry =>
      obtain ⟨hpath, c, hlasting, hhandles⟩ := hfound entry rfl
      -- After the 304 the metadata is written from the entry that the lookup returned.
      unfold confirmEntry
      dsimp only
      rw [Prog.bind_assoc]
      refine .bind (refresh_runs hhandles hlasting confirmed r.plan.ttl) ?_
      rintro ⟨refreshed, written⟩ s₂ ⟨hrefreshed, hbodyPath, hhandles⟩
      cases written with
      | error e => exact nothing_runs
      | ok _ =>
          dsimp only
          cases hresponse : Job.respond (.revalidated r confirmed) refreshed with
          | error e =>
              unfold Job.respond at hresponse
              dsimp only at hresponse
              rw [hresponse]
              exact nothing_runs
          | ok response =>
              have hbody := cachedResponse_body hresponse
              rw [hbodyPath, hpath] at hbody
              have hhead : (Job.respond (.revalidated r confirmed) c.entry).toOption.map
                  Response.head = some response.head := by
                calc (Job.respond (.revalidated r confirmed) c.entry).toOption.map Response.head
                    = (Job.respond (.revalidated r confirmed) refreshed).toOption.map
                        Response.head := cachedResponse_head hrefreshed.symm _ _ _ _ _
                  _ = some response.head := by
                      rw [hresponse]
                      rfl
              unfold Job.respond at hresponse
              dsimp only at hresponse
              rw [hresponse]
              exact sendResponse_runs hhandles hbody hhead

/-- **Every task upholds the agreement**, and what it sends is not torn. -/
theorem job_runs (h : Begins job s) (i : ι) : Runs job i (SendsUntorn (job i)) (job i).prog s := by
  cases hjob : job i with
  | hit r => exact hit_runs (hjob ▸ trivial)
  | revalidated r confirmed => exact revalidated_runs (hjob ▸ trivial)
  | commit cache w =>
      obtain ⟨body, tempId, -, -, hstaged⟩ := h.writers i cache w hjob
      exact .bind (finish_runs hstaged) fun _ _ _ => nothing_runs
  | evict cache => exact .bind (evict_runs cache) fun _ _ _ => nothing_runs

/-- In every run whose steps meet `C`, each response that has been sent is not
torn. -/
def Untorn (C : (i : ι) → Shared ι → (o : IoOp) → Io.Res o → Prop) (job : ι → Job)
    (s : Shared ι) : Prop :=
  ∀ pool s', Relation.ReflTransGen (Interleave sharedEnv C) (fun i => (job i).prog, s) (pool, s') →
    ∀ i sent, pool i = .ret (some sent) → SentTogether (job i) sent s'

/-- **No response is torn** in a run that is orderly: any number of responses,
refreshes, commits and evictions on one directory, step by step in any order. -/
theorem responses_untorn (h : Begins job s) : Untorn (Orderly job) job s := by
  intro pool s' hrun i sent hsent
  have hruns : Runs job i (SendsUntorn (job i)) (pool i) s' :=
    (Upholds.interleaved hrun h.coherent (job_runs h)).2 i
  rw [hsent] at hruns
  exact hruns.returned sent rfl

end Jobs

/-! ## A concrete race -/

/-- The first commit under the key `k`, with the body `old`. -/
def firstCommit : Commit := ⟨versionEntry "\"v1\"".toList, utf8 "old".toList⟩

/-- The second one, with the body `new` of the same length. -/
def secondCommit : Commit := ⟨secondWriter.final, utf8 "new".toList⟩

/-- A response under the key `k`, and the second commit. -/
def raceJob : Bool → Job
  | false => .hit
      { state := exampleState
        bucket := exampleKey.bucket
        targetUrl := exampleUrl
        plan := ⟨"k".toList, 60⟩
        now := 0 }
  | true => .commit exampleCache secondWriter

/-- The first commit is in place and the second one about to begin. -/
def raceStart : Shared Bool where
  dir := occupiedDir
  counter := 1
  owner n := if n = 0 then some true else none
  origin path := if path = secondWriter.tempBody then some secondCommit else some firstCommit
  generation _ := 0
  committed := [firstCommit]
  task _ := ⟨none, fun _ => 0⟩

theorem raceStart_dir (path : Str) :
    occupiedDir.lookup path =
      if path = bodyPath "k".toList then some (.raw (utf8 "old".toList))
      else if path = metaPath "k".toList then some (.json (versionEntry "\"v1\"".toList).persisted)
      else if path = secondWriter.tempBody then some (.raw (utf8 "new".toList))
      else none := by
  unfold occupiedDir pendingDir
  split
  · next h => rw [h, AList.lookup_insert]
  · next hbody =>
    rw [AList.lookup_insert_ne hbody]
    split
    · next h => rw [h, AList.lookup_insert]
    · next hmeta =>
      rw [AList.lookup_insert_ne hmeta]
      split
      · next h => rw [h, AList.lookup_insert]
      · next htemp =>
        rw [AList.lookup_insert_ne htemp]
        rfl

/-- The files of the cache are those of the first commit. -/
theorem raceStart_coherent : Coherent raceStart := by
  have htemp := @tempBodyPath_isTemporary reference "k".toList 0
  refine ⟨?_, ?_, ?_⟩
  · intro n hn
    exact if_neg (by
      rintro rfl
      exact absurd hn (by decide))
  · intro key data entry hdata hentry
    have hne : metaPath key ≠ secondWriter.tempBody := (htemp.ne_metaPath key).symm
    refine ⟨firstCommit, List.mem_singleton_self _, if_neg hne, ?_⟩
    change occupiedDir.lookup (metaPath key) = some data at hdata
    rw [raceStart_dir, if_neg (metaPath_ne_bodyPath key _), if_neg hne] at hdata
    split at hdata
    · obtain rfl := Option.some.inj hdata
      obtain rfl := Option.some.inj hentry
      rfl
    · cases hdata
  · intro key data hdata
    have hne : bodyPath key ≠ secondWriter.tempBody := (htemp.ne_bodyPath key).symm
    refine ⟨firstCommit, List.mem_singleton_self _, if_neg hne, ?_⟩
    change occupiedDir.lookup (bodyPath key) = some data at hdata
    rw [raceStart_dir, if_neg (metaPath_ne_bodyPath _ key).symm, if_neg hne] at hdata
    split at hdata
    · obtain rfl := Option.some.inj hdata
      rfl
    · cases hdata

theorem raceStart_begins : @Begins reference Bool raceJob raceStart := by
  refine @Begins.mk reference _ _ _ raceStart_coherent ?_
  rintro (_ | _) cache w hjob
  · cases hjob
  · obtain ⟨-, rfl⟩ := Job.commit.inj hjob
    have horigin : raceStart.origin secondWriter.tempBody = some secondCommit := by
      unfold raceStart
      dsimp only
      exact if_pos rfl
    exact ⟨utf8 "new".toList, 0, rfl, by decide,
      ⟨rfl, @tempBodyPath_isTemporary reference _ _, by decide, horigin⟩⟩

/-- The programs of the two tasks at the start. -/
def racePool : (Bool → Prog Io (Option Sent)) × Shared Bool :=
  (fun i => @Job.prog reference (raceJob i), raceStart)

/-- The response opens its body before the commit puts the new one in place, and
is whole. -/
theorem responses_untorn_raceStart : ∃ pool s' sent,
    Relation.ReflTransGen (Interleave sharedEnv (@Orderly Bool raceJob)) racePool (pool, s') ∧
      pool false = .ret (some sent) ∧ @SentTogether Bool (raceJob false) sent s' := by
  set final := schedule sharedCalm [true, false, false, false, false, false, false, true, true]
    racePool with hfinal
  have hrun := schedule_interleaved sharedEnv_sharedCalm (show Along sharedCalm (Orderly raceJob)
    [true, false, false, false, false, false, false, true, true] racePool by decide +kernel)
  obtain ⟨sent, hsent⟩ : ∃ sent, (final.1 false).value = some (some sent) := by
    have hsome : (final.1 false).value.join.isSome := by decide +kernel
    obtain ⟨sent, hsent⟩ := Option.isSome_iff_exists.mp hsome
    exact ⟨sent, Option.join_eq_some_iff.mp hsent⟩
  have hret := Prog.eq_ret_of_value hsent
  exact ⟨final.1, final.2, sent, hrun, hret,
    @responses_untorn reference Bool _ _ _ raceStart_begins _ _ hrun false sent hret⟩

/-- **A torn response.**  The response looks the entry up between the two renames
of the commit, and sends the headers of the first commit with the body of the
second. -/
theorem headers_sent_with_other_body :
    @Begins reference Bool raceJob raceStart ∧
      ¬ @Untorn reference Bool _ (fun _ _ _ _ => True) raceJob raceStart := by
  refine ⟨raceStart_begins, fun h => ?_⟩
  set final := schedule sharedCalm [true, true, false, false, false, false, false, false]
    racePool with hfinal
  have hrun := schedule_interleaved sharedEnv_sharedCalm (show Along sharedCalm
    (fun _ _ _ _ => True) [true, true, false, false, false, false, false, false] racePool
    by decide +kernel)
  have hsome : (final.1 false).value.join.any fun sent =>
      decide (streamed sent.items = some (utf8 "new".toList) ∧ ∀ c ∈ final.2.committed,
        (Job.respond (raceJob false) c.entry).toOption.map Response.head = some sent.response.head →
          utf8 "new".toList ≠ c.body) := by
    decide +kernel
  obtain ⟨sent, hsent, htorn⟩ := (Option.any_eq_true _ _).mp hsome
  obtain ⟨hstreamed, hother⟩ := of_decide_eq_true htorn
  have hret := Prog.eq_ret_of_value (Option.join_eq_some_iff.mp hsent)
  obtain ⟨c, hc, hhead, hbytes⟩ := h _ _ hrun false sent hret _ hstreamed
  exact hother c hc hhead hbytes

end Corsget
