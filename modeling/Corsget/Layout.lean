import Corsget.Disciplines
import Corsget.StoreRuns
import Corsget.Supersede

/-!
# What the cache directory looks like

A `Layout` says which names the files of the cache have, which of them may only be looked at and
removed, and what metadata may say.  It is `Lawful` when the programs of the store cannot help
keeping to it: every one of them then performs only operations that the layout allows, as long as
the answers of the directory keep to it, and so does a whole request and the cleanup at startup
(`Layout.Lawful.activity`).

Any number of requests and cleanups on one directory, in any order of their file steps, with any
faults and cut off anywhere, is a run in `Running`.  `Layout.Lawful.running` is the rule that the
properties of such runs are derived from.
-/

namespace Corsget

open Text Effect Relation

/-! ## Layouts -/

/-- The part of an entry that is fixed when it is recorded: a lookup, a refresh and the commit
change the rest. -/
def CacheEntry.recorded (entry : CacheEntry) : CacheEntry :=
  { entry with
    bodyLen := 0
    createdAt := 0
    lastAccess := 0
    ttl := 0
    etag := none
    lastModified := none
    key := []
    bodyPath := [] }

/-- A description of the cache directory. -/
structure Layout where
  /-- The files that may be written, and moved. -/
  writes : Str → Prop
  /-- The files that may be looked at and removed. -/
  reads : Str → Prop
  /-- The keys of the entries. -/
  keys : Str → Prop
  /-- The names that a scan may list. -/
  lists : Str → Prop
  /-- The entries that metadata may hold. -/
  holds : CacheEntry → Prop

/-- A scan lists names in `P` only. -/
def Listing (P : Str → Prop) : (o : IoOp) → o.Res → Prop
  | .fs .readDir, answer => ∀ items, answer = .ok items → ∀ name, .ok name ∈ items → P name
  | _, _ => True

/-- The environment of the store when a scan lists names in `P` only. -/
def listingEnv (P : Str → Prop) : Env Io Dir :=
  fun o d r d' => storeEnv o d r d' ∧ Listing P o r

namespace Layout

/-- The operations that keep to a layout. -/
def Allows (layout : Layout) : IoOp → Prop
  | .fs (.read path) | .fs (.metadata path) | .fs (.removeFile path) | .fs (.openFile path) =>
      layout.reads path
  | .fs (.write path data) =>
      layout.writes path ∧ ∀ entry, data.fromSlice = some entry → layout.holds entry
  | .fs (.create path) | .fs (.writeAll path _) | .fs (.flush path) => layout.writes path
  | .fs (.rename source target) => layout.writes source ∧ layout.writes target
  | _ => True

/-- The answers that keep to it. -/
def Answers (layout : Layout) (e : Event Io) : Prop :=
  Listing layout.lists e.1 e.2 ∧
    ∀ path, ∀ data : FileData, e = ⟨.fs (.read path), .ok data⟩ →
      ∀ entry, data.fromSlice = some entry → layout.holds entry

/-- The metadata of a directory keeps to it. -/
def Sound (layout : Layout) (d : Dir) : Prop :=
  ∀ path data entry, d.lookup path = some data → data.fromSlice = some entry → layout.holds entry

/-- What is known of an entry that a lookup returns. -/
structure Held (layout : Layout) (entry : CacheEntry) : Prop where
  key : layout.keys entry.key
  body : layout.reads entry.bodyPath
  holds : layout.holds entry

/-- What is known of an open writer. -/
structure Writes (layout : Layout) (w : CacheWriter) : Prop where
  key : layout.keys w.entry.key
  temp : layout.writes w.tempBody
  holds : layout.holds w.entry

/-- The two files of a listed entry may be looked at and removed. -/
def Removable (layout : Layout) (key : Str) : Prop :=
  layout.reads (metaPath key) ∧ layout.reads (bodyPath key)

/-- What the store needs of a layout. -/
structure Lawful [Crates] (layout : Layout) : Prop where
  reads : ∀ path, layout.writes path → layout.reads path
  record : ∀ key, layout.keys key → layout.writes (metaPath key)
  body : ∀ key, layout.keys key → layout.writes (bodyPath key)
  tempRecord : ∀ key tempId, layout.keys key → layout.writes (tempMetaPath key tempId)
  tempBody : ∀ key tempId, layout.keys key → layout.writes (tempBodyPath key tempId)
  listed : ∀ name, layout.lists name → extension name = some "json".toList →
    layout.Removable (fileStem name)
  orphan : ∀ name, layout.lists name → extension name = some "body".toList → layout.reads name
  temporary : ∀ name, layout.lists name → isCacheTempFile name = true → layout.reads name
  /-- What metadata may say does not depend on what lookups, refreshes and commits change. -/
  alike : ∀ entry entry', entry.recorded = entry'.recorded → layout.holds entry →
    layout.holds entry'
  /-- The entries that `begin_write` records may be stored. -/
  accepted : ∀ plan status headers requestHeaders vary created accessed now,
    Accepts plan status headers requestHeaders vary now →
      layout.holds
        (CacheEntry.record plan status headers requestHeaders vary created accessed now)

variable {layout : Layout}

theorem allowsRest : AllowsRest layout.Allows where
  clock := trivial
  check _ _ := trivial
  send _ := trivial
  charge _ _ := trivial
  yield _ := trivial

/-- **One step.**  An allowed operation keeps the metadata sound, and reading it gives what the
layout promises. -/
theorem sound_step {o : IoOp} {d d' : Dir} {r : o.Res} (h : layout.Sound d)
    (ho : layout.Allows o) (hE : listingEnv layout.lists o d r d') :
    layout.Answers ⟨o, r⟩ ∧ layout.Sound d' := by
  obtain ⟨hstep, hlist⟩ := hE
  have hinsert : ∀ {d : Dir} {path : Str} {data : FileData}, layout.Sound d →
      (∀ entry, data.fromSlice = some entry → layout.holds entry) →
        layout.Sound (d.insert path data) := by
    intro d path data hd hdata name found entry hfound hentry
    by_cases hname : name = path
    · subst hname
      rw [AList.lookup_insert, Option.some.injEq] at hfound
      exact hdata entry (hfound ▸ hentry)
    · rw [AList.lookup_insert_ne hname] at hfound
      exact hd name found entry hfound hentry
  have herase : ∀ path, layout.Sound (d.erase path) :=
    fun path name found entry hfound => h name found entry (Dir.lookup_of_erase hfound)
  have hraw : ∀ bytes entry, (FileData.raw bytes).fromSlice = some entry → layout.holds entry := by
    intro bytes entry hentry
    cases hentry
  refine ⟨⟨hlist, ?_⟩, ?_⟩
  · rintro path data heq entry hentry
    obtain ⟨rfl, heq⟩ := Sigma.mk.inj heq
    obtain rfl := eq_of_heq heq
    exact h path data entry ((storeEnv_read hstep).2 data rfl) hentry
  · cases o with
    | fs o =>
        cases o with
        | read path => exact (storeEnv_read hstep).1 ▸ h
        | metadata path => exact (storeEnv_metadata hstep).1 ▸ h
        | flush path => exact storeEnv_flush hstep ▸ h
        | removeFile path =>
            rcases storeEnv_removeFile hstep with rfl | rfl
            · exact h
            · exact herase path
        | rename source target =>
            rcases storeEnv_rename hstep with ⟨rfl, -⟩ | ⟨-, data, hdata, rfl⟩
            · exact h
            · exact hinsert (herase source) fun entry => h source data entry hdata
        | write path data =>
            obtain ⟨fault, hperform⟩ := hstep
            rcases fault with _ | f
            · obtain rfl := (Prod.mk.inj hperform).2
              exact hinsert h ho.2
            · obtain rfl := (Prod.mk.inj hperform).2
              exact hinsert h (hraw _)
        | create path =>
            obtain ⟨fault, hperform⟩ := hstep
            rcases fault with _ | f
            · obtain rfl := (Prod.mk.inj hperform).2
              exact hinsert h (hraw _)
            · obtain rfl := (Prod.mk.inj hperform).2
              exact h
        | writeAll path bytes =>
            obtain ⟨fault, hperform⟩ := hstep
            obtain rfl := (Prod.mk.inj hperform).2
            rcases fault with _ | f
            · show layout.Sound (Dir.performOk (.writeAll path bytes) d).2
              unfold Dir.performOk
              dsimp only
              split
              · exact hinsert h (hraw _)
              · exact h
            · show layout.Sound (Dir.performFault f (.writeAll path bytes) d)
              unfold Dir.performFault
              dsimp only
              split
              · exact hinsert h (hraw _)
              · exact h
        | openFile path =>
            obtain ⟨fault, hperform⟩ := hstep
            rcases fault with _ | f
            · exact (Prod.mk.inj hperform).2 ▸ h
            · exact (Prod.mk.inj hperform).2 ▸ h
        | readDir =>
            have heq : d' = d := hstep
            exact heq ▸ h
    | _ =>
        have heq : d' = d := hstep
        exact heq ▸ h

/-! ## The programs of the store -/

section Store

variable [Crates]

theorem Lawful.writeMetadata (h : layout.Lawful) (entry : CacheEntry)
    (hkey : layout.keys entry.key) (hholds : layout.holds entry) :
    Assuming layout.Answers layout.Allows (fun _ => True) (writeMetadata entry) := by
  unfold Corsget.writeMetadata
  simp only [Io.fetchAdd_bind, Io.write_bind]
  refine Assuming.op trivial fun tempId _ => Assuming.op ⟨h.tempRecord _ _ hkey, ?_⟩ fun r _ => ?_
  · intro decoded hdecoded
    obtain rfl := Option.some.inj hdecoded
    exact h.alike entry _ rfl hholds
  · rcases r with e | ⟨⟩
    · trivial
    · exact Assuming.op ⟨h.tempRecord _ _ hkey, h.record _ hkey⟩ fun _ _ => trivial

theorem Lawful.lookup (h : layout.Lawful) {plan : CachePlan} (hkey : layout.keys plan.key)
    (now : ℕ) : Assuming layout.Answers layout.Allows
      (fun found => ∀ entry, found = some entry → layout.Held entry) (lookup plan now) := by
  have hrecord := h.reads _ (h.record _ hkey)
  have hbody := h.reads _ (h.body _ hkey)
  have hnone : ∀ entry, none = some entry → layout.Held entry := by
    intro entry hentry
    cases hentry
  unfold Corsget.lookup
  simp only [Io.read_bind, Io.metadata_bind, Io.removeFile_bind]
  refine Assuming.op hrecord fun r hanswer => ?_
  rcases r with e | data
  · exact hnone
  · dsimp only
    split
    · exact Assuming.op hrecord fun _ _ => hnone
    · next found hfound =>
      have hholds := hanswer.2 _ data rfl found hfound
      refine Assuming.op hbody fun bodyLen _ => ?_
      split
      · exact Assuming.op hrecord fun _ _ => hnone
      · have htouched := h.alike found (found.touched plan.key now) rfl hholds
        refine (h.writeMetadata (found.touched plan.key now) hkey htouched).bind ?_
        intro _ _ entry hentry
        obtain rfl := Option.some.inj hentry
        exact ⟨hkey, hbody, htouched⟩

theorem Lawful.refresh (h : layout.Lawful) {entry : CacheEntry} (hentry : layout.Held entry)
    (headers : HeaderMap) (ttl : ℕ) : Assuming layout.Answers layout.Allows
      (fun refreshed => layout.Held refreshed.1) (refresh entry headers ttl) := by
  unfold Corsget.refresh
  simp only [Io.nowSeconds_bind, Io.systemTime_bind]
  refine Assuming.op trivial fun created _ => Assuming.op trivial fun now _ => ?_
  have hholds := h.alike entry (entry.refreshed headers ttl (created / 10 ^ 9) now) rfl
    hentry.holds
  refine (h.writeMetadata (entry.refreshed headers ttl _ _) hentry.key hholds).bind ?_
  exact fun _ _ => ⟨hentry.key, hentry.body, hholds⟩

theorem Lawful.beginWrite (h : layout.Lawful) {plan : CachePlan} (hkey : layout.keys plan.key)
    (status : ℕ) (headers requestHeaders : HeaderMap) :
    Assuming layout.Answers layout.Allows
      (fun opened => ∀ w, opened = some w → layout.Writes w)
      (beginWrite plan status headers requestHeaders) := by
  have hnone : ∀ w, none = some w → layout.Writes w := by
    intro w hw
    cases hw
  rcases beginWrite_cases plan status headers requestHeaders with
    ⟨hrefused, -⟩ | ⟨vary, hopens, haccepts⟩
  · rw [hrefused]
    exact hnone
  · rw [hopens]
    unfold openWriter
    refine Assuming.op trivial fun created _ => Assuming.op trivial fun accessed _ =>
      Assuming.op trivial fun now _ => ?_
    dsimp only
    split
    · exact hnone
    · next httl =>
      refine Assuming.op trivial fun tempId _ => ?_
      refine Assuming.op (h.tempBody _ _ hkey) fun r _ => ?_
      rcases r with e | ⟨⟩
      · exact hnone
      · intro w hw
        obtain rfl := Option.some.inj hw
        exact ⟨hkey, h.tempBody _ _ hkey,
          h.accepted _ _ _ _ _ _ _ _ ((haccepts vary now).mpr ⟨rfl, httl⟩)⟩

omit [Crates] in
theorem evictScan_allowed (hlisted : ∀ name, layout.lists name →
      extension name = some "json".toList → layout.Removable (fileStem name))
    (items : List (Except IoError Str)) (hitems : ∀ name, .ok name ∈ items → layout.lists name) :
    ∀ entries total, (∀ x ∈ entries, layout.Removable x.2.1) →
      Assuming layout.Answers layout.Allows (fun scan => ∀ x ∈ scan.1, layout.Removable x.2.1)
        (evictScan items entries total) := by
  induction items with
  | nil => exact fun entries total hentries => hentries
  | cons item rest ih =>
      intro entries total hentries
      have ih := ih fun name hname => hitems name (List.mem_cons_of_mem _ hname)
      rcases item with e | name
      · exact hentries
      · unfold evictScan
        simp only [Io.metadata_bind, Io.read_bind]
        split
        · exact ih entries total hentries
        · next hext =>
          rw [not_not] at hext
          have hremovable := hlisted name (hitems name List.mem_cons_self) hext
          have hrecord : layout.reads name := metaPath_fileStem hext ▸ hremovable.1
          refine Assuming.op hrecord fun r _ => ?_
          rcases r with e | metaLen
          · exact ih entries total hentries
          · refine Assuming.op hrecord fun r _ => ?_
            rcases r with e | data
            · exact ih entries total hentries
            · dsimp only
              split
              · exact ih entries total hentries
              · refine Assuming.op hremovable.2 fun _ _ => ih _ _ ?_
                intro x hx
                rcases List.mem_append.mp hx with hx | hx
                · exact hentries x hx
                · obtain rfl := List.mem_singleton.mp hx
                  exact hremovable

omit [Crates] in
theorem evictLoop_allowed (maxSize : ℕ) (entries : List (ℕ × Str × ℕ))
    (hentries : ∀ x ∈ entries, layout.Removable x.2.1) :
    ∀ total, Assuming layout.Answers layout.Allows (fun _ => True)
      (evictLoop maxSize entries total) := by
  induction entries with
  | nil => exact fun total => trivial
  | cons x rest ih =>
      intro total
      obtain ⟨hx, hrest⟩ := List.forall_mem_cons.mp hentries
      unfold evictLoop
      simp only [Io.removeFile_bind]
      split
      · trivial
      · exact Assuming.op hx.1 fun _ _ => Assuming.op hx.2 fun _ _ => ih hrest _

omit [Crates] in
/-- Sorting keeps the entries. -/
theorem removable_sorted {entries : List (ℕ × Str × ℕ)}
    (h : ∀ x ∈ entries, layout.Removable x.2.1) :
    ∀ x ∈ sortByLastAccess entries, layout.Removable x.2.1 :=
  fun x hx => h x ((List.mem_insertionSort _).mp hx)

theorem Lawful.evict (h : layout.Lawful) (cache : Cache) :
    Assuming layout.Answers layout.Allows (fun _ => True) (evict cache) := by
  unfold Corsget.evict
  simp only [Io.readDir_bind]
  refine Assuming.op trivial fun r hanswer => ?_
  rcases r with e | items
  · trivial
  · have hitems : ∀ name, .ok name ∈ items → layout.lists name := hanswer.1 items rfl
    refine (evictScan_allowed h.listed items hitems [] 0 (by simp)).bind fun scan hscan => ?_
    split
    · trivial
    · exact evictLoop_allowed _ _ (removable_sorted hscan) _

theorem Lawful.commit (h : layout.Lawful) (cache : Cache) (entry : CacheEntry) {tempBody : Str}
    (hkey : layout.keys entry.key) (htemp : layout.writes tempBody)
    (hholds : layout.holds entry) :
    Assuming layout.Answers layout.Allows (fun _ => True) (commit cache entry tempBody) := by
  unfold Corsget.commit
  simp only [Io.rename_bind]
  refine Assuming.op ⟨htemp, h.body _ hkey⟩ fun r _ => ?_
  rcases r with e | ⟨⟩
  · trivial
  · have hplaced := h.alike entry { entry with bodyPath := bodyPath entry.key } rfl hholds
    refine (h.writeMetadata { entry with bodyPath := bodyPath entry.key } hkey hplaced).bind
      fun written _ => ?_
    rcases written with e | ⟨⟩
    · trivial
    · exact (h.evict cache).bind fun _ _ => trivial

/-! ### The cleanup at startup -/

omit [Crates] in
theorem removeCacheFile_allowed {path : Str} (hpath : layout.reads path)
    (summary : CacheCleanupSummary) :
    Assuming layout.Answers layout.Allows (fun _ => True) (removeCacheFile path summary) := by
  unfold removeCacheFile
  simp only [Io.metadata_bind, Io.removeFile_bind]
  refine Assuming.op hpath fun r _ => ?_
  rcases r with e | len
  · trivial
  · refine Assuming.op hpath fun r _ => ?_
    rcases r with e | ⟨⟩
    · trivial
    · trivial

theorem Lawful.cleanupScan (h : layout.Lawful) (now : ℕ) (items : List (Except IoError Str))
    (hitems : ∀ name, .ok name ∈ items → layout.lists name) :
    ∀ s : CleanupScan, (∀ x ∈ s.entries, layout.Removable x.2.1) →
      Assuming layout.Answers layout.Allows
        (fun s => ∀ x ∈ s.entries, layout.Removable x.2.1) (cleanupScan now items s) := by
  induction items with
  | nil => exact fun s hs => hs
  | cons item rest ih =>
      intro s hs
      have ih := ih fun name hname => hitems name (List.mem_cons_of_mem _ hname)
      rcases item with e | name
      · exact ih _ hs
      · have hname := hitems name List.mem_cons_self
        unfold Corsget.cleanupScan
        simp only [Io.metadata_bind, Io.read_bind]
        split
        · next htemp =>
          exact (removeCacheFile_allowed (h.temporary name hname htemp) _).bind fun _ _ => ih _ hs
        · split
          · exact ih s hs
          · next hext =>
            rw [not_not] at hext
            have hremovable := h.listed name hname hext
            have hrecord : layout.reads name := metaPath_fileStem hext ▸ hremovable.1
            -- Metadata that goes takes its body with it.
            have hboth : ∀ summary (s' : CacheCleanupSummary → CleanupScan),
                (∀ summary, (s' summary).entries = s.entries) →
                  Assuming layout.Answers layout.Allows
                    (fun s => ∀ x ∈ s.entries, layout.Removable x.2.1)
                    (removeCacheFile name summary >>= fun summary =>
                      removeCacheFile (bodyPath (fileStem name)) summary >>= fun summary =>
                        Corsget.cleanupScan now rest (s' summary)) := by
              intro summary s' hs'
              refine (removeCacheFile_allowed hrecord _).bind fun summary _ => ?_
              refine (removeCacheFile_allowed hremovable.2 _).bind fun summary _ => ih _ ?_
              rw [hs' summary]
              exact hs
            refine Assuming.op hrecord fun _ _ => Assuming.op hrecord fun _ _ => ?_
            split
            · exact (removeCacheFile_allowed hrecord _).bind fun _ _ => ih _ hs
            · refine Assuming.op hremovable.2 fun _ _ => ?_
              split
              · exact hboth _ (fun summary => { s with summary := summary }) fun _ => rfl
              · split
                · exact hboth _ (fun summary => { s with summary := summary }) fun _ => rfl
                · refine ih _ fun x hx => ?_
                  rcases List.mem_append.mp hx with hx | hx
                  · exact hs x hx
                  · obtain rfl := List.mem_singleton.mp hx
                    exact hremovable

theorem Lawful.cleanupOrphans (h : layout.Lawful) (validKeys : List Str)
    (items : List (Except IoError Str)) (hitems : ∀ name, .ok name ∈ items → layout.lists name) :
    ∀ summary, Assuming layout.Answers layout.Allows (fun _ => True)
      (cleanupOrphans validKeys items summary) := by
  induction items with
  | nil => exact fun summary => trivial
  | cons item rest ih =>
      intro summary
      have ih := ih fun name hname => hitems name (List.mem_cons_of_mem _ hname)
      rcases item with e | name
      · exact ih summary
      · unfold Corsget.cleanupOrphans
        split
        · exact ih summary
        · next hext =>
          rw [not_not] at hext
          have hreads := h.orphan name (hitems name List.mem_cons_self) hext
          split
          · exact ih summary
          · exact (removeCacheFile_allowed hreads _).bind fun _ _ => ih _

omit [Crates] in
theorem cleanupEvict_allowed (maxSize : ℕ) (entries : List (ℕ × Str × ℕ))
    (hentries : ∀ x ∈ entries, layout.Removable x.2.1) :
    ∀ total summary, Assuming layout.Answers layout.Allows (fun _ => True)
      (cleanupEvict maxSize entries total summary) := by
  induction entries with
  | nil => exact fun total summary => trivial
  | cons x rest ih =>
      intro total summary
      obtain ⟨hx, hrest⟩ := List.forall_mem_cons.mp hentries
      unfold cleanupEvict
      split
      · trivial
      · refine (removeCacheFile_allowed hx.1 _).bind fun summary _ => ?_
        exact (removeCacheFile_allowed hx.2 _).bind fun _ _ => ih hrest _ _

theorem Lawful.cleanupStartup (h : layout.Lawful) (cache : Cache) :
    Assuming layout.Answers layout.Allows (fun _ => True) (cleanupStartup cache) := by
  unfold Corsget.cleanupStartup
  simp only [Io.nowSeconds_bind, Io.readDir_bind]
  refine Assuming.op trivial fun (now : ℕ) _ => Assuming.op trivial fun r hanswer => ?_
  rcases r with e | items
  · trivial
  · have hitems : ∀ name, .ok name ∈ items → layout.lists name := hanswer.1 items rfl
    refine (h.cleanupScan _ items hitems _ (by simp)).bind fun s hs => ?_
    refine Assuming.op trivial fun r hanswer => ?_
    have hevict : ∀ summary, Assuming layout.Answers layout.Allows (fun _ => True)
        (cleanupEvict cache.maxSize (sortByLastAccess s.entries) s.total summary) :=
      fun summary => cleanupEvict_allowed _ _ (removable_sorted hs) _ _
    rcases r with e | items
    · exact hevict _
    · have hitems : ∀ name, .ok name ∈ items → layout.lists name := hanswer.1 items rfl
      exact (h.cleanupOrphans _ items hitems _).bind fun _ _ => hevict _

/-! ## Requests -/

theorem Lawful.bodyDiscipline (h : layout.Lawful) :
    BodyDiscipline layout.Answers layout.Allows layout.Held layout.Writes where
  openFile _ hentry := hentry.body
  write w bytes hw := by
    unfold CacheWriter.write
    simp only [Io.writeAll_bind]
    refine Assuming.op hw.temp fun r _ => ?_
    rcases r with e | ⟨⟩
    · exact hw
    · exact ⟨hw.key, hw.temp, hw.holds⟩
  discard w hw := h.reads _ hw.temp
  finish cache w hw := by
    unfold CacheWriter.finish
    simp only [Io.flush_bind]
    refine Assuming.op hw.temp fun r _ => ?_
    rcases r with e | ⟨⟩
    · trivial
    · exact h.commit cache w.final hw.key hw.temp
        (h.alike w.entry w.final rfl hw.holds)

theorem Lawful.discipline (h : layout.Lawful) {plan : CachePlan} (hkey : layout.keys plan.key) :
    Discipline layout.Answers layout.Allows plan layout.Held layout.Writes where
  lookup := h.lookup hkey
  refresh _ headers hentry := h.refresh hentry headers plan.ttl
  beginWrite := h.beginWrite hkey

/-- A request whose plan has a key of the layout. -/
theorem Lawful.serve (h : layout.Lawful) {state : AppState} {request : Request}
    {Good : ℕ → Prop} (hkey : ∀ plan, request.plan state = some plan → layout.keys plan.key)
    (hheld : ∀ entry, layout.holds entry → Good entry.status)
    (hfinal : ∀ status, isFollowableRedirect status = false → Good status) :
    Assuming layout.Answers layout.Allows (Obeys layout.Held layout.Writes Good)
      (serve state request.uri request.limitKey request.headers) := by
  refine serve_assuming allowsRest h.bodyDiscipline ?_ (fun entry hentry => hheld _ hentry.holds)
    hfinal
  intro target htarget plan hplan
  refine h.discipline (hkey plan ?_)
  unfold Request.plan
  rw [htarget]
  exact hplan

end Store

end Layout

/-! ## Runs -/

/-- What goes on in the cache directory. -/
inductive Activity where
  /-- A request is served under a configuration. -/
  | request (state : AppState) (request : Request)
  /-- A process with a cache starts. -/
  | startup (cache : Cache)

section Runs

variable [Crates] {ι : Type} [DecidableEq ι]

/-- The program of an activity. -/
def Activity.prog : Activity → Prog Io (Option (Except AppError Response))
  | .request state asked => do
      let result ← serve state asked.uri asked.limitKey asked.headers
      return some result
  | .startup cache => do
      let _ ← cleanupStartup cache
      return none

/-- The plan of an activity. -/
def Activity.plan : Activity → Option CachePlan
  | .request state asked => asked.plan state
  | .startup _ => none

/-- **The activities run on a directory**, one operation at a time, in any order, with any faults,
and each of them as far as it has come: from `d` on, what is left of them is `pool`, and the
directory is `d'`.  A scan lists names in `P` only. -/
def Running (P : Str → Prop) (activities : ι → Activity) (d : Dir)
    (pool : ι → Prog Io (Option (Except AppError Response))) (d' : Dir) : Prop :=
  ReflTransGen (Interleave (fun _ => listingEnv P) fun _ _ _ _ => True)
    (fun i => (activities i).prog, d) (pool, d')

/-- The file operation that comes next, if one does. -/
def nextFile {α : Type} : Prog Io α → Option FsOp
  | .op (.fs o) _ => some o
  | _ => none

omit [Crates] in
/-- What comes next is what the specification of a program begins with. -/
theorem Layout.allows_nextFile {layout : Layout} {A : Event Io → Prop} {α : Type} {Q : α → Prop}
    {p : Prog Io α} {o : FsOp} (h : Assuming A layout.Allows Q p) (hnext : nextFile p = some o) :
    layout.Allows (.fs o) := by
  rcases p with a | ⟨o', k⟩
  · cases hnext
  · cases o' with
    | fs o' =>
        obtain rfl := Option.some.inj hnext
        exact h.1
    | _ => cases hnext

/-- One environment: nothing fails, the clock stands still, a scan lists the given names and the
upstream gives one answer. -/
def calmListing (names : List Str) (answer : UpstreamResponse) : Handler Io Dir
  | .fs .readDir, d => (.ok (names.map .ok), d)
  | .send _, d => ((.ok answer : Except ClientError UpstreamResponse), d)
  | o, d => calm o d

omit [Crates] in
theorem listingEnv_calmListing {P : Str → Prop} {names : List Str} (hnames : ∀ name ∈ names, P name)
    (answer : UpstreamResponse) (o : IoOp) (d : Dir) :
    listingEnv P o d (calmListing names answer o d).1 (calmListing names answer o d).2 := by
  cases o with
  | fs o =>
      cases o with
      | readDir =>
          refine ⟨rfl, ?_⟩
          rintro items heq name hname
          obtain rfl := Except.ok.inj heq
          obtain ⟨name', hname', heq⟩ := List.mem_map.mp hname
          exact Except.ok.inj heq ▸ hnames name' hname'
      | _ => exact ⟨⟨none, rfl⟩, trivial⟩
  | _ => exact ⟨rfl, trivial⟩

/-- One activity served to its end, while the others wait. -/
theorem running_exec {P : Str → Prop} {h : Handler Io Dir}
    (hE : ∀ o d, listingEnv P o d (h o d).1 (h o d).2) (activities : ι → Activity) (i : ι)
    (d : Dir) :
    Running P activities d
      (Function.update (fun i => (activities i).prog) i
        (.ret (exec h (activities i).prog d).1)) (exec h (activities i).prog d).2 :=
  exec_interleaved (h := fun _ => h) (fun _ => hE) i _ d

namespace Layout

variable {layout : Layout} {Good : ℕ → Prop}

/-- What is known of the answer of an activity. -/
def Told (layout : Layout) (Good : ℕ → Prop) (answer : Option (Except AppError Response)) : Prop :=
  ∀ result, answer = some result → Obeys layout.Held layout.Writes Good result

theorem Lawful.activity (h : layout.Lawful) {a : Activity}
    (hkey : ∀ plan, a.plan = some plan → layout.keys plan.key)
    (hheld : ∀ entry, layout.holds entry → Good entry.status)
    (hfinal : ∀ status, isFollowableRedirect status = false → Good status) :
    Assuming layout.Answers layout.Allows (layout.Told Good) a.prog := by
  rcases a with ⟨state, request⟩ | cache
  · refine (h.serve hkey hheld hfinal).bind fun result hresult => ?_
    intro result' heq
    obtain rfl := Option.some.inj heq
    exact hresult
  · refine (h.cleanupStartup cache).bind fun _ _ => ?_
    intro result heq
    cases heq

/-- **What keeps to the layout, keeps to it.**  If a directory is sound and every activity has a
key of the layout, then in every run the directory stays sound, an invariant `J` that allowed
steps keep still holds, and what is left of every activity keeps to the layout. -/
theorem Lawful.running (h : layout.Lawful) {activities : ι → Activity} {d d' : Dir}
    {pool : ι → Prog Io (Option (Except AppError Response))} {J : Dir → Prop}
    (hrun : Running layout.lists activities d pool d') (hd : layout.Sound d) (hJ : J d)
    (hstep : ∀ o d r d', J d → layout.Allows o → storeEnv o d r d' → J d')
    (hkey : ∀ i plan, (activities i).plan = some plan → layout.keys plan.key)
    (hheld : ∀ entry, layout.holds entry → Good entry.status)
    (hfinal : ∀ status, isFollowableRedirect status = false → Good status) :
    (layout.Sound d' ∧ J d') ∧
      ∀ i, Assuming layout.Answers layout.Allows (layout.Told Good) (pool i) := by
  refine Assuming.interleaved (I := fun d => layout.Sound d ∧ J d) ?_ hrun ⟨hd, hJ⟩
    fun i => h.activity (hkey i) hheld hfinal
  rintro i o d r d' ⟨hd, hJ⟩ ho hE -
  obtain ⟨hanswer, hd'⟩ := sound_step hd ho hE
  exact ⟨hanswer, hd', hstep o d r d' hJ ho hE.1⟩

/-- The same, where the answers of the requests do not matter. -/
theorem Lawful.keeps (h : layout.Lawful) {activities : ι → Activity} {d d' : Dir}
    {pool : ι → Prog Io (Option (Except AppError Response))} {J : Dir → Prop}
    (hrun : Running layout.lists activities d pool d') (hd : layout.Sound d) (hJ : J d)
    (hstep : ∀ o d r d', J d → layout.Allows o → storeEnv o d r d' → J d')
    (hkey : ∀ i plan, (activities i).plan = some plan → layout.keys plan.key) :
    J d' ∧ ∀ i, Assuming layout.Answers layout.Allows (fun _ => True) (pool i) := by
  have hrunning : (layout.Sound d' ∧ J d') ∧ ∀ i,
      Assuming layout.Answers layout.Allows (layout.Told fun _ => True) (pool i) :=
    h.running hrun hd hJ hstep hkey (fun _ _ => trivial) fun _ _ => trivial
  exact ⟨hrunning.1.2, fun i => (hrunning.2 i).mono (fun _ ho => ho) fun _ _ => trivial⟩

end Layout

end Runs

end Corsget
