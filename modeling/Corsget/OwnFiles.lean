import Corsget.CacheIdentity
import Corsget.Layout

/-!
# The files of the cache are its own

The cache directory is named by the administrator, and it may hold other files.  The layouts of
this module say which names the programs of the store ever use: the names of the cache
(`ownFiles`), plain file names (`plainFiles`) and the names of other keys (`otherKeys`).  That they
are lawful says so of every run of requests and cleanups:

* a file with another name is neither changed nor looked at,
* nothing outside the directory is named, whatever the consumer asks for,
* a request for one key does to the entry of another what an eviction does, and nothing else.
-/

namespace Corsget

open Text Effect

/-! ## What a layout says about names -/

/-- The names of files in an operation. -/
def FsOp.paths : FsOp → List Str
  | read path | metadata path | removeFile path | write path _ | create path | writeAll path _
  | flush path | openFile path => [path]
  | rename source target => [source, target]
  | readDir => []

theorem FsOp.touched_subset_paths (o : FsOp) : o.touched ⊆ o.paths := by
  cases o <;> simp [FsOp.touched, FsOp.paths]

namespace Layout

variable {layout : Layout} {o : FsOp} {path : Str}

/-- The files that an operation names may be looked at. -/
theorem Allows.reads (h : layout.Allows (.fs o))
    (hreads : ∀ path, layout.writes path → layout.reads path) (hpath : path ∈ o.paths) :
    layout.reads path := by
  cases o with
  | read p | metadata p | removeFile p | openFile p =>
      obtain rfl := List.mem_singleton.mp hpath
      exact h
  | write p data =>
      obtain rfl := List.mem_singleton.mp hpath
      exact hreads _ h.1
  | create p | writeAll p bytes | flush p =>
      obtain rfl := List.mem_singleton.mp hpath
      exact hreads _ h
  | rename source target =>
      rcases List.mem_pair.mp hpath with rfl | rfl
      · exact hreads _ h.1
      · exact hreads _ h.2
  | readDir => cases hpath

/-- A file that may not be looked at stays as it is. -/
theorem lookup_of_not_reads {o : IoOp} {d d' : Dir} {r : o.Res}
    (hreads : ∀ path, layout.writes path → layout.reads path) (hpath : ¬layout.reads path)
    (ho : layout.Allows o) (hstep : storeEnv o d r d') : d'.lookup path = d.lookup path := by
  rcases o with o | _
  · by_cases hscan : o = .readDir
    · subst hscan
      have heq : d' = d := hstep
      rw [heq]
    · exact storeEnv_lookup hscan
        (fun hmem => hpath (ho.reads hreads (o.touched_subset_paths hmem))) hstep
  all_goals
    have heq : d' = d := hstep
    rw [heq]

/-- The files of a key that may not be written can only be removed. -/
theorem shrinks_of_not_writes {o : IoOp} {d d' : Dir} {r : o.Res} {key : Str}
    (hrecord : ¬layout.writes (metaPath key)) (hbody : ¬layout.writes (bodyPath key))
    (ho : layout.Allows o) (hstep : storeEnv o d r d') : (d.view key).Shrinks (d'.view key) := by
  have hsame : ∀ o' : FsOp, o' ≠ .readDir → o = .fs o' → (∀ path ∈ o'.touched, layout.writes path) →
      (d.view key).Shrinks (d'.view key) := by
    rintro o' hscan rfl htouched
    have hview : d'.view key = d.view key :=
      congrArg₂ View.mk (storeEnv_lookup hscan (fun h => hrecord (htouched _ h)) hstep)
        (storeEnv_lookup hscan (fun h => hbody (htouched _ h)) hstep)
    exact hview ▸ .refl _
  rcases o with o | _
  · cases o with
    | removeFile p =>
        rcases storeEnv_removeFile hstep with rfl | rfl
        · exact .refl _
        · exact d.view_erase_shrinks key p
    | readDir =>
        have heq : d' = d := hstep
        exact heq ▸ .refl _
    | write p data =>
        exact hsame _ (by simp) rfl fun q hq => List.mem_singleton.mp hq ▸ ho.1
    | rename source target =>
        refine hsame _ (by simp) rfl fun q hq => ?_
        rcases List.mem_pair.mp hq with rfl | rfl
        · exact ho.1
        · exact ho.2
    | create p | writeAll p bytes =>
        exact hsame _ (by simp) rfl fun q hq => List.mem_singleton.mp hq ▸ ho
    | read p | metadata p | flush p | openFile p =>
        exact hsame _ (by simp) rfl fun q hq => absurd hq List.not_mem_nil
  all_goals
    have heq : d' = d := hstep
    exact heq ▸ .refl _

end Layout

/-! ## Names of the cache -/

/-- The names that the cache gives its files: those of metadata, of bodies and of temporary
files. -/
def IsOwn (name : Str) : Prop :=
  ".json".toList <:+ name ∨ ".body".toList <:+ name ∨ isCacheTempFile name = true

instance (name : Str) : Decidable (IsOwn name) := by
  unfold IsOwn
  infer_instance

theorem isOwn_metaPath (key : Str) : IsOwn (metaPath key) := .inl (List.suffix_append _ _)

theorem isOwn_bodyPath (key : Str) : IsOwn (bodyPath key) := .inr (.inl (List.suffix_append _ _))

section Temporary

variable [Crates] (key : Str) (tempId : ℕ)

theorem isCacheTempFile_tempMetaPath : isCacheTempFile (tempMetaPath key tempId) = true := by
  unfold isCacheTempFile tempMetaPath
  refine decide_eq_true
    ⟨'.' :: key ++ ".meta".toList, decimal Crates.processId ++ '-' :: decimal tempId, ?_⟩
  have hsplit : ".meta.tmp-".toList = ".meta".toList ++ ".tmp-".toList := by decide
  simp only [hsplit, List.cons_append, List.append_assoc]

theorem isCacheTempFile_tempBodyPath : isCacheTempFile (tempBodyPath key tempId) = true := by
  unfold isCacheTempFile tempBodyPath
  refine decide_eq_true
    ⟨'.' :: key ++ ".body".toList, decimal Crates.processId ++ '-' :: decimal tempId, ?_⟩
  have hsplit : ".body.tmp-".toList = ".body".toList ++ ".tmp-".toList := by decide
  simp only [hsplit, List.cons_append, List.append_assoc]

end Temporary

/-- Only names of the cache are used. -/
def ownFiles : Layout where
  writes := IsOwn
  reads := IsOwn
  keys := fun _ => True
  lists := fun _ => True
  holds := fun _ => True

/-- A name without a slash that is not one of the two special ones. -/
structure PlainName (name : Str) : Prop where
  undivided : '/' ∉ name
  here : name ≠ ".".toList
  parent : name ≠ "..".toList

/-- Only files of the directory itself are named, when keys have no slash and scans list file
names. -/
def plainFiles : Layout where
  writes := PlainName
  reads := PlainName
  keys := fun key => '/' ∉ key
  lists := PlainName
  holds := fun _ => True

/-- Nothing is written under the names of one key. -/
def otherKeys (key : Str) : Layout where
  writes := fun name => name ≠ metaPath key ∧ name ≠ bodyPath key
  reads := fun _ => True
  keys := fun other => other ≠ key
  lists := fun _ => True
  holds := fun _ => True

section Lawful

variable [Crates]

theorem ownFiles_lawful : ownFiles.Lawful where
  reads _ h := h
  record key _ := isOwn_metaPath key
  body key _ := isOwn_bodyPath key
  tempRecord key tempId _ := .inr (.inr (isCacheTempFile_tempMetaPath key tempId))
  tempBody key tempId _ := .inr (.inr (isCacheTempFile_tempBodyPath key tempId))
  listed name _ _ := ⟨isOwn_metaPath _, isOwn_bodyPath _⟩
  orphan name _ hext := by
    rw [← (eq_of_extension hext).2]
    exact isOwn_bodyPath _
  temporary _ _ h := .inr (.inr h)
  alike _ _ _ _ := trivial
  accepted _ _ _ _ _ _ _ _ _ := trivial

omit [Crates] in
/-- A name that is long enough is plain when it has no slash. -/
theorem plainName_of_length {name : Str} (hslash : '/' ∉ name) (hlength : 2 < name.length) :
    PlainName name := by
  refine ⟨hslash, ?_, ?_⟩ <;>
  · rintro rfl
    exact absurd hlength (by decide)

omit [Crates] in
theorem slash_not_mem_decimal (n : ℕ) : '/' ∉ decimal n :=
  fun h => absurd (isDigit_of_mem_decimal h) (by decide)

omit [Crates] in
theorem plainName_metaPath {key : Str} (h : '/' ∉ key) : PlainName (metaPath key) := by
  unfold metaPath
  refine plainName_of_length ?_ (by simp)
  rw [List.mem_append, not_or]
  exact ⟨h, by decide⟩

omit [Crates] in
theorem plainName_bodyPath {key : Str} (h : '/' ∉ key) : PlainName (bodyPath key) := by
  unfold bodyPath
  refine plainName_of_length ?_ (by simp)
  rw [List.mem_append, not_or]
  exact ⟨h, by decide⟩

theorem plainName_temporary {key mark : Str} (h : '/' ∉ key) (hmark : '/' ∉ mark)
    (hlength : 2 < mark.length) (tempId : ℕ) :
    PlainName ('.' :: key ++ mark ++ decimal Crates.processId ++ '-' :: decimal tempId) := by
  refine plainName_of_length ?_ (by simp; omega)
  simp [h, hmark, slash_not_mem_decimal]

theorem plainFiles_lawful : plainFiles.Lawful where
  reads _ h := h
  record _ h := plainName_metaPath h
  body _ h := plainName_bodyPath h
  tempRecord _ tempId h := plainName_temporary h (by decide) (by decide) tempId
  tempBody _ tempId h := plainName_temporary h (by decide) (by decide) tempId
  listed name h hext := by
    have hstem : '/' ∉ fileStem name := by
      intro hmem
      refine h.undivided ?_
      rw [← (eq_of_extension hext).2]
      exact List.mem_append_left _ hmem
    exact ⟨plainName_metaPath hstem, plainName_bodyPath hstem⟩
  orphan _ h _ := h
  temporary _ h _ := h
  alike _ _ _ _ := trivial
  accepted _ _ _ _ _ _ _ _ _ := trivial

theorem otherKeys_lawful (key : Str) : (otherKeys key).Lawful where
  reads _ _ := trivial
  record _ h := ⟨fun heq => h (metaPath_injective heq), metaPath_ne_bodyPath _ _⟩
  body _ h := ⟨(metaPath_ne_bodyPath _ _).symm, fun heq => h (bodyPath_injective heq)⟩
  tempRecord other tempId _ :=
    ⟨(tempMetaPath_isTemporary other tempId).ne_metaPath key,
      (tempMetaPath_isTemporary other tempId).ne_bodyPath key⟩
  tempBody other tempId _ :=
    ⟨(tempBodyPath_isTemporary other tempId).ne_metaPath key,
      (tempBodyPath_isTemporary other tempId).ne_bodyPath key⟩
  listed _ _ _ := ⟨trivial, trivial⟩
  orphan _ _ _ := trivial
  temporary _ _ _ := trivial
  alike _ _ _ _ := trivial
  accepted _ _ _ _ _ _ _ _ _ := trivial

/-! ## Runs -/

variable {ι : Type} [DecidableEq ι] {activities : ι → Activity} {d d' : Dir}
  {pool : ι → Prog Io (Option (Except AppError Response))}

omit [DecidableEq ι] in
/-- The key of an activity is a digest. -/
theorem Activity.key_eq {i : ι} {plan : CachePlan} (h : (activities i).plan = some plan) :
    ∃ bytes, plan.key = Crates.sha256 bytes := by
  rcases hactivity : activities i with ⟨state, asked⟩ | cache
  · rw [hactivity] at h
    have hplan : asked.plan state = some plan := h
    unfold Request.plan at hplan
    split at hplan
    · cases hplan
    · obtain ⟨cache, -, hcache⟩ := Option.bind_eq_some_iff.mp hplan
      exact ⟨_, (plan_eq_some hcache).1⟩
  · rw [hactivity] at h
    cases h

/-- **Other files in the cache directory are left alone.**  In every run of requests and cleanups a
file whose name is not one of the cache's is neither changed nor named by what comes next. -/
theorem foreign_files_untouched (hrun : Running (fun _ => True) activities d pool d') {name : Str}
    (hname : ¬IsOwn name) :
    d'.lookup name = d.lookup name ∧ ∀ i o, nextFile (pool i) = some o → name ∉ o.paths := by
  obtain ⟨hlookup, hpool⟩ := ownFiles_lawful.keeps
    (J := fun d' => d'.lookup name = d.lookup name) hrun (fun _ _ _ _ _ => trivial) rfl
    (fun o d₁ r d₂ hJ ho hstep =>
      (Layout.lookup_of_not_reads ownFiles_lawful.reads hname ho hstep).trans hJ)
    (fun _ _ _ => trivial)
  exact ⟨hlookup, fun i o hnext hmem =>
    hname ((Layout.allows_nextFile (hpool i) hnext).reads ownFiles_lawful.reads hmem)⟩

/-- A cache directory with a file of the administrator and metadata that does not decode. -/
def sharedDirectory : Dir :=
  ((∅ : Dir).insert "notes.txt".toList (.raw [1])).insert "k.json".toList (.raw [2])

omit [Crates] in
/-- A cleanup removes the one and leaves the other. -/
theorem foreign_files_untouched_cleanup :
    (exec (calmListing ["k.json".toList, "notes.txt".toList] firstAnswer)
        (@Activity.prog reference (.startup exampleCache)) sharedDirectory).2.lookup
          "notes.txt".toList = sharedDirectory.lookup "notes.txt".toList ∧
      (exec (calmListing ["k.json".toList, "notes.txt".toList] firstAnswer)
        (@Activity.prog reference (.startup exampleCache)) sharedDirectory).2.lookup
          "k.json".toList = none :=
  ⟨(@foreign_files_untouched reference Unit _ (fun _ => .startup exampleCache) _ _ _
    (@running_exec reference Unit _ _ _ (listingEnv_calmListing (fun _ _ => trivial) firstAnswer)
      (fun _ => .startup exampleCache) () sharedDirectory) _ (by decide)).1, by decide +kernel⟩

omit [Crates] in
/-- The digits of `reference`'s digest are no slashes. -/
theorem slash_not_mem_reference (bytes : Bytes) : '/' ∉ reference.sha256 bytes := by
  have hdigit : ∀ n : Fin 16, Nat.digitChar n.val ≠ '/' := by decide
  have hchar : ∀ n < 16, '/' ≠ Nat.digitChar n := fun n hn h => hdigit ⟨n, hn⟩ h.symm
  intro hmem
  obtain ⟨b, -, hb⟩ := List.mem_flatMap.mp hmem
  have hlt := b.toNat_lt
  rcases List.mem_pair.mp hb with h | h
  · exact hchar _ (by omega) h
  · exact hchar _ (by omega) h

/-- **Nothing outside the cache directory is named.**  A digest has no slash and a scan lists file
names: then so does every file operation of every run have plain names, whatever the requests. -/
theorem paths_stay_inside (hdigest : ∀ bytes, '/' ∉ Crates.sha256 bytes)
    (hrun : Running PlainName activities d pool d') {i : ι} {o : FsOp}
    (hnext : nextFile (pool i) = some o) {path : Str} (hpath : path ∈ o.paths) :
    PlainName path := by
  have hkeys : ∀ j plan, (activities j).plan = some plan → plainFiles.keys plan.key := by
    intro j plan hplan
    obtain ⟨bytes, hkey⟩ := Activity.key_eq hplan
    show '/' ∉ plan.key
    rw [hkey]
    exact hdigest bytes
  have hpool := (plainFiles_lawful.keeps (J := fun _ => True) hrun (fun _ _ _ _ _ => trivial)
    trivial (fun _ _ _ _ _ _ _ => trivial) hkeys).2 i
  exact (Layout.allows_nextFile hpool hnext).reads plainFiles_lawful.reads hpath

omit [Crates] in
/-- A request looks up its metadata first. -/
theorem paths_stay_inside_lookup : PlainName (metaPath exampleDigest) :=
  have hdigest : ∀ bytes, '/' ∉ reference.sha256 bytes := slash_not_mem_reference
  have hrun := @schedule_interleaved Io Unit (Option (Except AppError Response)) Dir
    (fun _ => listingEnv PlainName) _ (fun _ => calmListing [] firstAnswer)
    (fun _ _ _ _ => True) (fun _ => listingEnv_calmListing (by simp) firstAnswer) [()]
    (fun _ => @Activity.prog reference (.request exampleState plainRequest), ∅)
    (by decide +kernel)
  @paths_stay_inside reference Unit _ (fun _ => .request exampleState plainRequest) _ _ _ hdigest
    hrun () (.read (metaPath exampleDigest)) (by decide +kernel) _ (by decide +kernel)

/-- **Keys are isolated.**  Requests for other keys and cleanups do to the two files of a key what
an eviction does: each of them stays as it is or is removed. -/
theorem keys_isolated {key : Str}
    (hother : ∀ i plan, (activities i).plan = some plan → plan.key ≠ key)
    (hrun : Running (fun _ => True) activities d pool d') :
    (d.view key).Shrinks (d'.view key) := by
  refine ((otherKeys_lawful key).keeps (J := fun d' => (d.view key).Shrinks (d'.view key)) hrun
    (fun _ _ _ _ _ => trivial) (.refl _) ?_ hother).1
  intro o d₁ r d₂ hJ ho hstep
  have hrecord : ¬(otherKeys key).writes (metaPath key) := fun h => h.1 rfl
  have hbody : ¬(otherKeys key).writes (bodyPath key) := fun h => h.2 rfl
  exact hJ.trans (Layout.shrinks_of_not_writes hrecord hbody ho hstep)

omit [Crates] in
/-- A request that stores its own response leaves the other key's files. -/
theorem keys_isolated_miss :
    (Dir.view ((∅ : Dir).insert "k.body".toList (.raw [1])) "k".toList).Shrinks
        ((exec (calmListing [] firstAnswer)
          (@Activity.prog reference (.request exampleState plainRequest))
          ((∅ : Dir).insert "k.body".toList (.raw [1]))).2.view "k".toList) ∧
      ((exec (calmListing [] firstAnswer)
          (@Activity.prog reference (.request exampleState plainRequest))
          ((∅ : Dir).insert "k.body".toList (.raw [1]))).2.view exampleDigest).record.isSome :=
  ⟨@keys_isolated reference Unit _ (fun _ => .request exampleState plainRequest) _ _ _ _
    (by
      rintro - plan hplan
      obtain ⟨plan', hplan', hkey⟩ := plainRequest_shares
      obtain rfl : plan' = plan := Option.some.inj (hplan'.symm.trans hplan)
      rw [hkey]
      decide +kernel)
    (@running_exec reference Unit _ _ _ (listingEnv_calmListing (fun _ _ => trivial) firstAnswer)
      (fun _ => .request exampleState plainRequest) () _), by decide +kernel⟩

end Lawful

end Corsget
