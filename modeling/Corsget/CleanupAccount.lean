import Corsget.Layout
import Corsget.Library.Audit
import Mathlib.Algebra.GroupWithZero.Nat

/-!
# The account of a cleanup

`cleanup_startup` returns a summary of what it did.  The summary is an exact account: with any
faults and scans that list anything, the bytes it reports are those by which the directory has
become smaller, counted in 64 bits (`cleanup_accounts_bytes`), the errors it reports are the
scans and removals that failed and the unreadable items of the first scan, and every removal
belongs to a temporary file, an orphan, or one of the at most two files of an entry that was
counted (`cleanup_counts`).
-/

namespace Corsget

open Effect Text

/-! ## Bytes -/

section Removal

variable {d d' : Dir} {path : Str}

theorem storeEnv_removeFile_error {e : IoError}
    (h : storeEnv (.fs (.removeFile path)) d (.error e) d') : d' = d := by
  obtain ⟨fault, h⟩ := h
  cases fault with
  | some f => exact (Prod.mk.inj h).2.symm
  | none =>
      unfold Dir.perform Dir.performOk at h
      dsimp only at h
      cases hlookup : d.lookup path with
      | none =>
          rw [hlookup] at h
          exact (Prod.mk.inj h).2.symm
      | some data =>
          rw [hlookup] at h
          cases (Prod.mk.inj h).1

theorem storeEnv_removeFile_ok (h : storeEnv (.fs (.removeFile path)) d (.ok ()) d') :
    d' = d.erase path := by
  obtain ⟨fault, h⟩ := h
  cases fault with
  | some f => cases (Prod.mk.inj h).1
  | none =>
      unfold Dir.perform Dir.performOk at h
      dsimp only at h
      cases hlookup : d.lookup path with
      | none =>
          rw [hlookup] at h
          cases (Prod.mk.inj h).1
      | some data =>
          rw [hlookup] at h
          exact (Prod.mk.inj h).2.symm

end Removal

/-- The bytes of all files. -/
def Dir.size (d : Dir) : ℕ := (d.entries.map fun e => e.2.len).sum

/-- A file that is removed takes its bytes with it. -/
theorem Dir.size_erase {d : Dir} {path : Str} {data : FileData} (h : d.lookup path = some data) :
    Dir.size (d.erase path) + data.len = d.size := by
  have hmem : ⟨path, data⟩ ∈ d.entries := AList.mem_lookup_iff.mp h
  obtain ⟨found, before, after, -, hsplit, herase⟩ :=
    List.exists_of_kerase (List.mem_keys_of_mem hmem)
  have hfound : data = found :=
    d.nodupKeys.eq_of_mk_mem hmem (hsplit ▸ List.mem_append_right _ List.mem_cons_self)
  subst hfound
  show ((List.kerase path d.entries).map fun e => e.2.len).sum + _ =
    (d.entries.map fun e => e.2.len).sum
  rw [herase, hsplit]
  simp only [List.map_append, List.map_cons, List.sum_append, List.sum_cons]
  omega

/-- What is missing from `total` has been counted, in 64 bits. -/
def Balanced (total : ℕ) (summary : CacheCleanupSummary) (d : Dir) : Prop :=
  d.size ≤ total ∧ summary.bytesRemoved = (total - d.size) % 2 ^ 64

section Bytes

variable {total : ℕ} {d : Dir}

/-- A removal reports what it takes. -/
theorem removeCacheFile_balanced {path : Str} {summary : CacheCleanupSummary}
    (h : Balanced total summary d) :
    Safe storeEnv (fun _ => True) (Balanced total) (removeCacheFile path summary) d := by
  refine ⟨trivial, fun stat d₁ hstat => ?_⟩
  obtain ⟨rfl, hlen⟩ := storeEnv_metadata hstat
  cases stat with
  | error e => exact ⟨trivial, h⟩
  | ok len =>
      refine ⟨trivial, fun removed d₂ hremove => ?_⟩
      obtain ⟨data, hdata, rfl⟩ := hlen len rfl
      cases removed with
      | error e =>
          obtain rfl := storeEnv_removeFile_error hremove
          exact ⟨trivial, h⟩
      | ok removed =>
          obtain rfl := storeEnv_removeFile_ok hremove
          refine ⟨trivial, ?_⟩
          have hsize := Dir.size_erase hdata
          obtain ⟨hle, hcounted⟩ := h
          refine ⟨by omega, ?_⟩
          dsimp only
          omega

/-- The rule for a removal. -/
theorem balanced_remove {α : Type} {path : Str} {summary : CacheCleanupSummary}
    {f : CacheCleanupSummary → Prog Io α} {Q : α → Dir → Prop} (h : Balanced total summary d)
    (hf : ∀ summary d, Balanced total summary d → Safe storeEnv (fun _ => True) Q (f summary) d) :
    Safe storeEnv (fun _ => True) Q (removeCacheFile path summary >>= f) d :=
  (removeCacheFile_balanced h).bind fun summary d _ hsummary => hf summary d hsummary

/-- The first scan. -/
theorem cleanupScan_balanced {now : ℕ} {items : List (Except IoError Str)} {s : CleanupScan}
    (h : Balanced total s.summary d) :
    Safe storeEnv (fun _ => True) (fun s' => Balanced total s'.summary)
      (cleanupScan now items s) d := by
  induction items generalizing s d with
  | nil => exact ⟨trivial, h⟩
  | cons item items ih =>
      cases item with
      | error e => exact ih h
      | ok name =>
          rw [cleanupScan]
          split
          · exact balanced_remove h fun _ _ h₁ => ih h₁
          · split
            · exact ih h
            · refine ⟨trivial, fun stat d₁ hstat => ?_⟩
              obtain ⟨rfl, -⟩ := storeEnv_metadata hstat
              refine ⟨trivial, fun data d₁ hread => ?_⟩
              obtain ⟨rfl, -⟩ := storeEnv_read hread
              dsimp only [Prog.bind]
              split
              · exact balanced_remove h fun _ _ h₁ => ih h₁
              · refine ⟨trivial, fun stat d₁ hstat => ?_⟩
                obtain ⟨rfl, -⟩ := storeEnv_metadata hstat
                dsimp only [Prog.bind]
                split
                · exact balanced_remove h fun _ _ h₁ => balanced_remove h₁ fun _ _ h₂ => ih h₂
                · split
                  · exact balanced_remove h fun _ _ h₁ => balanced_remove h₁ fun _ _ h₂ => ih h₂
                  · exact ih h

/-- The second scan. -/
theorem cleanupOrphans_balanced {validKeys : List Str} {items : List (Except IoError Str)}
    {summary : CacheCleanupSummary} (h : Balanced total summary d) :
    Safe storeEnv (fun _ => True) (Balanced total) (cleanupOrphans validKeys items summary) d := by
  induction items generalizing summary d with
  | nil => exact ⟨trivial, h⟩
  | cons item items ih =>
      cases item with
      | error e => exact ih h
      | ok name =>
          rw [cleanupOrphans]
          split
          · exact ih h
          · split
            · exact ih h
            · exact balanced_remove h fun _ _ h₁ => ih h₁

/-- The evictions. -/
theorem cleanupEvict_balanced {maxSize size : ℕ} {entries : List (ℕ × Str × ℕ)}
    {summary : CacheCleanupSummary} (h : Balanced total summary d) :
    Safe storeEnv (fun _ => True) (Balanced total) (cleanupEvict maxSize entries size summary)
      d := by
  induction entries generalizing summary size d with
  | nil => exact ⟨trivial, h⟩
  | cons entry entries ih =>
      rw [cleanupEvict]
      split
      · exact ⟨trivial, h⟩
      · exact balanced_remove h fun _ _ h₁ => balanced_remove h₁ fun _ _ h₂ => ih h₂

/-- The whole cleanup. -/
theorem cleanupStartup_balanced (cache : Cache) (d : Dir) :
    Safe storeEnv (fun _ => True) (Balanced d.size) (cleanupStartup cache) d := by
  have hstart : Balanced d.size {} d := by
    refine ⟨le_rfl, ?_⟩
    rw [Nat.sub_self]
    rfl
  refine ⟨trivial, fun now d₁ hclock => ?_⟩
  obtain rfl : d₁ = d := hclock
  refine ⟨trivial, fun listing d₂ hlist => ?_⟩
  obtain rfl : d₂ = d₁ := hlist
  cases listing with
  | error e => exact ⟨trivial, hstart⟩
  | ok items =>
      refine (cleanupScan_balanced hstart).bind fun s d₃ _ hscan => ?_
      refine ⟨trivial, fun listing d₄ hlist => ?_⟩
      obtain rfl : d₄ = d₃ := hlist
      cases listing with
      | error e => exact cleanupEvict_balanced hscan
      | ok items =>
          exact (cleanupOrphans_balanced hscan).bind fun summary d₅ _ horphans =>
            cleanupEvict_balanced horphans

end Bytes

/-- **The bytes that a cleanup reports** are those by which the directory has become smaller,
whatever fails on the way and whatever the scans list.  They are counted in a `u64`, so they are
exact unless they are `2 ^ 64` or more. -/
theorem cleanup_accounts_bytes {cache : Cache} {d d' : Dir} {summary : CacheCleanupSummary}
    (h : Steps storeEnv (cleanupStartup cache, d) (.ret summary, d')) :
    d'.size ≤ d.size ∧ summary.bytesRemoved = (d.size - d'.size) % 2 ^ 64 :=
  ((cleanupStartup_balanced cache d).value h).2

/-- A body without an entry. -/
def strayBody : Dir := AList.singleton "left.body".toList (.raw [1, 2, 3])

/-- A cleanup that finds it. -/
def strayCleanup : CacheCleanupSummary × Dir :=
  exec (calmListing ["left.body".toList] firstAnswer) (cleanupStartup exampleCache) strayBody

theorem cleanup_accounts_bytes_stray :
    strayCleanup.1.bytesRemoved = 3 ∧ strayCleanup.2.size ≤ strayBody.size ∧
      strayCleanup.1.bytesRemoved = (strayBody.size - strayCleanup.2.size) % 2 ^ 64 := by
  have hE : ∀ o d, storeEnv o d (calmListing ["left.body".toList] firstAnswer o d).1
      (calmListing ["left.body".toList] firstAnswer o d).2 :=
    fun o d => (listingEnv_calmListing (P := fun _ => True) (fun _ _ => trivial) firstAnswer o d).1
  have hsteps : Steps storeEnv (cleanupStartup exampleCache, strayBody)
      (.ret strayCleanup.1, strayCleanup.2) := .of_exec hE _ _
  exact ⟨by decide +kernel, cleanup_accounts_bytes hsteps⟩

/-! ## Counts -/

/-- A removal that was tried. -/
def isRemoval : Event Io → Bool
  | ⟨.fs (.removeFile _), _⟩ => true
  | _ => false

/-- A removal or a scan that failed. -/
def isFailure : Event Io → Bool
  | ⟨.fs (.removeFile _), .error _⟩ => true
  | ⟨.fs .readDir, .error _⟩ => true
  | _ => false

/-- The items of a scan, when it did not fail. -/
def listingOf : Event Io → Option (List (Except IoError Str))
  | ⟨.fs .readDir, .ok items⟩ => some items
  | _ => none

/-- The items that a scan could not read. -/
def unreadable (items : List (Except IoError Str)) : ℕ := items.countP fun item => !item.isOk

namespace CacheCleanupSummary

/-- The files that the counters of a summary stand for: a temporary file or an orphan is one,
an entry has two. -/
def files (summary : CacheCleanupSummary) : ℕ :=
  summary.temporaryFiles + summary.orphanedFiles +
    2 * (summary.invalidEntries + summary.staleEntries + summary.lruEvictions)

/-- Starting from `errors` and `files`, the events `es` are accounted for by `summary`. -/
structure Accounts (errors files : ℕ) (es : List (Event Io)) (summary : CacheCleanupSummary) :
    Prop where
  errors : summary.errors = errors + es.countP isFailure
  files : files + es.countP isRemoval ≤ summary.files

end CacheCleanupSummary

open CacheCleanupSummary

section Counts

variable {errors files files' : ℕ} {es : List (Event Io)} {summary : CacheCleanupSummary}

theorem accounts_nil (h : files ≤ summary.files) : Accounts summary.errors files [] summary :=
  ⟨rfl, h⟩

theorem CacheCleanupSummary.Accounts.weaken (h : Accounts errors files es summary)
    (hfiles : files' ≤ files) : Accounts errors files' es summary :=
  ⟨h.errors, (Nat.add_le_add_right hfiles _).trans h.files⟩

/-- An event that is neither a removal nor a scan that failed. -/
theorem CacheCleanupSummary.Accounts.quiet {e : Event Io} (h : Accounts errors files es summary)
    (hfailure : isFailure e = false) (hremoval : isRemoval e = false) :
    Accounts errors files (e :: es) summary := by
  have hfailures : (e :: es).countP isFailure = es.countP isFailure :=
    List.countP_cons_of_neg (by rw [hfailure]; exact Bool.false_ne_true)
  have hremovals : (e :: es).countP isRemoval = es.countP isRemoval :=
    List.countP_cons_of_neg (by rw [hremoval]; exact Bool.false_ne_true)
  exact ⟨hfailures ▸ h.errors, hremovals ▸ h.files⟩

/-- A scan that failed. -/
theorem CacheCleanupSummary.Accounts.failedScan {e : IoError}
    (h : Accounts (errors + 1) files es summary) :
    Accounts errors files (⟨.fs .readDir, .error e⟩ :: es) summary := by
  have hfailures : (⟨.fs .readDir, .error e⟩ :: es : List (Event Io)).countP isFailure =
      es.countP isFailure + 1 := List.countP_cons_of_pos rfl
  have hremovals : (⟨.fs .readDir, .error e⟩ :: es : List (Event Io)).countP isRemoval =
      es.countP isRemoval := List.countP_cons_of_neg Bool.false_ne_true
  refine ⟨?_, hremovals ▸ h.files⟩
  rw [hfailures, h.errors]
  omega

/-- One account after the other. -/
theorem CacheCleanupSummary.Accounts.append {es' : List (Event Io)}
    {summary' : CacheCleanupSummary} (h : Accounts errors files es summary)
    (h' : Accounts summary.errors summary.files es' summary') :
    Accounts errors files (es ++ es') summary' := by
  refine ⟨?_, ?_⟩
  · rw [h'.errors, h.errors, List.countP_append, Nat.add_assoc]
  · rw [List.countP_append, ← Nat.add_assoc]
    exact (Nat.add_le_add_right h.files _).trans h'.files

/-- One removal. -/
theorem removeCacheFile_audited (path : Str) (summary : CacheCleanupSummary) :
    Audited (fun es summary' => summary'.errors = summary.errors + es.countP isFailure ∧
      es.countP isRemoval ≤ 1 ∧ summary'.files = summary.files) (removeCacheFile path summary) := by
  refine Audited.op_iff.mpr fun stat => ?_
  cases stat with
  | error e => exact Audited.ret_iff.mpr ⟨rfl, Nat.zero_le 1, rfl⟩
  | ok len =>
      refine Audited.op_iff.mpr fun removed => ?_
      cases removed with
      | error e => exact Audited.ret_iff.mpr ⟨rfl, le_refl 1, rfl⟩
      | ok removed => exact Audited.ret_iff.mpr ⟨rfl, le_refl 1, rfl⟩

/-- The rule for a removal: it needs one file on the account; `k` errors are still to come. -/
theorem accounts_remove {α : Type} {path : Str} {f : CacheCleanupSummary → Prog Io α}
    {g : α → CacheCleanupSummary} {k : ℕ}
    (hf : ∀ summary', summary'.files = summary.files →
      Audited (fun es a => Accounts (summary'.errors + k) (files + 1) es (g a))
        (f summary')) :
    Audited (fun es a => Accounts (summary.errors + k) files es (g a))
      (removeCacheFile path summary >>= f) := by
  refine (removeCacheFile_audited path summary).bind fun es₁ summary' hremove => ?_
  obtain ⟨herrors, hone, hfiles⟩ := hremove
  refine (hf summary' hfiles).mono fun es a h => ⟨?_, ?_⟩
  · rw [h.errors, herrors, List.countP_append]
    omega
  · have hle := h.files
    rw [List.countP_append]
    omega

theorem unreadable_ok (name : Str) (items : List (Except IoError Str)) :
    unreadable (.ok name :: items) = unreadable items :=
  List.countP_cons_of_neg Bool.false_ne_true

theorem unreadable_error (e : IoError) (items : List (Except IoError Str)) :
    unreadable (.error e :: items) = unreadable items + 1 :=
  List.countP_cons_of_pos rfl

/-- The first scan. -/
theorem cleanupScan_audited {now : ℕ} {items : List (Except IoError Str)} (s : CleanupScan) :
    Audited (fun es s' =>
        Accounts (s.summary.errors + unreadable items) s.summary.files es s'.summary)
      (cleanupScan now items s) := by
  induction items generalizing s with
  | nil => exact Audited.ret_iff.mpr (accounts_nil (le_refl _))
  | cons item items ih =>
      cases item with
      | error e =>
          refine (ih _).mono fun es s' h => ?_
          rw [unreadable_error, Nat.add_comm (unreadable items), ← Nat.add_assoc]
          exact h
      | ok name =>
          rw [cleanupScan, unreadable_ok]
          split
          · refine accounts_remove fun summary' hfiles => (ih _).mono fun es s' h => h.weaken ?_
            simp only [CacheCleanupSummary.files] at hfiles ⊢
            omega
          · split
            · exact ih s
            · refine Audited.op_iff.mpr fun stat => Audited.op_iff.mpr fun data => ?_
              have hquiet : ∀ {errors files : ℕ} {es : List (Event Io)}
                  {summary : CacheCleanupSummary}, Accounts errors files es summary →
                    Accounts errors files (⟨.fs (.metadata name), stat⟩ ::
                      ⟨.fs (.read name), data⟩ :: es) summary :=
                fun h => (h.quiet rfl rfl).quiet rfl rfl
              dsimp only [Prog.bind]
              split
              · refine Audited.mono (accounts_remove fun summary' hfiles =>
                  (ih _).mono fun es s' h => h.weaken ?_) fun es s' h => hquiet h
                simp only [CacheCleanupSummary.files] at hfiles ⊢
                omega
              · refine Audited.op_iff.mpr fun stat => ?_
                have hquiet' : ∀ {errors files : ℕ} {es : List (Event Io)}
                    {summary : CacheCleanupSummary}, Accounts errors files es summary →
                      Accounts errors files (⟨.fs (.metadata name), _⟩ ::
                        ⟨.fs (.read name), data⟩ ::
                          ⟨.fs (.metadata (bodyPath (fileStem name))), stat⟩ :: es) summary :=
                  fun h => hquiet (h.quiet rfl rfl)
                dsimp only [Prog.bind]
                split
                · refine Audited.mono (accounts_remove fun summary' hfiles =>
                    accounts_remove fun summary'' hfiles' =>
                      (ih _).mono fun es s' h => h.weaken ?_) fun es s' h => hquiet' h
                  simp only [CacheCleanupSummary.files] at hfiles hfiles' ⊢
                  omega
                · split
                  · refine Audited.mono (accounts_remove fun summary' hfiles =>
                      accounts_remove fun summary'' hfiles' =>
                        (ih _).mono fun es s' h => h.weaken ?_) fun es s' h => hquiet' h
                    simp only [CacheCleanupSummary.files] at hfiles hfiles' ⊢
                    omega
                  · exact (ih _).mono fun es s' h => hquiet' h

/-- The second scan. -/
theorem cleanupOrphans_audited {validKeys : List Str} {items : List (Except IoError Str)}
    (summary : CacheCleanupSummary) :
    Audited (Accounts summary.errors summary.files) (cleanupOrphans validKeys items summary) := by
  induction items generalizing summary with
  | nil => exact Audited.ret_iff.mpr (accounts_nil (le_refl _))
  | cons item items ih =>
      cases item with
      | error e => exact ih summary
      | ok name =>
          rw [cleanupOrphans]
          split
          · exact ih summary
          · split
            · exact ih summary
            · refine accounts_remove (g := id) (k := 0) fun summary' hfiles =>
                (ih summary').mono fun es s' h => h.weaken ?_
              simp only [CacheCleanupSummary.files] at hfiles ⊢
              omega

/-- The evictions. -/
theorem cleanupEvict_audited {maxSize size : ℕ} {entries : List (ℕ × Str × ℕ)}
    (summary : CacheCleanupSummary) :
    Audited (Accounts summary.errors summary.files)
      (cleanupEvict maxSize entries size summary) := by
  induction entries generalizing summary size with
  | nil => exact Audited.ret_iff.mpr (accounts_nil (le_refl _))
  | cons entry entries ih =>
      rw [cleanupEvict]
      split
      · exact Audited.ret_iff.mpr (accounts_nil (le_refl _))
      · refine accounts_remove (g := id) (k := 0) fun summary' hfiles =>
          accounts_remove (g := id) (k := 0) fun summary'' hfiles' =>
            (ih summary'').mono fun es s' h => h.weaken ?_
        simp only [CacheCleanupSummary.files] at hfiles hfiles' ⊢
        omega

/-- The first scan that did not fail. -/
def firstListing (es : List (Event Io)) : List (Except IoError Str) :=
  (es.findSome? listingOf).getD []

theorem cleanupStartup_audited (cache : Cache) :
    Audited (fun es summary => summary.errors = es.countP isFailure + unreadable (firstListing es) ∧
      es.countP isRemoval ≤ summary.files) (cleanupStartup cache) := by
  refine Audited.op_iff.mpr fun now => Audited.op_iff.mpr fun listing => ?_
  cases listing with
  | error e => exact Audited.ret_iff.mpr ⟨rfl, Nat.zero_le _⟩
  | ok items =>
      have hwhole : ∀ es summary, Accounts (unreadable items) 0 es summary →
          summary.errors = (⟨.systemTime, now⟩ :: ⟨.fs .readDir, .ok items⟩ :: es :
              List (Event Io)).countP isFailure +
            unreadable (firstListing (⟨.systemTime, now⟩ :: ⟨.fs .readDir, .ok items⟩ :: es)) ∧
          (⟨.systemTime, now⟩ :: ⟨.fs .readDir, .ok items⟩ :: es :
              List (Event Io)).countP isRemoval ≤ summary.files := by
        intro es summary h
        have h' : Accounts (unreadable items) 0
            (⟨.systemTime, now⟩ :: ⟨.fs .readDir, .ok items⟩ :: es) summary :=
          (h.quiet rfl rfl).quiet rfl rfl
        refine ⟨?_, (Nat.zero_add _).symm.trans_le h'.files⟩
        rw [h'.errors, Nat.add_comm]
        rfl
      change Audited _ (cleanupScan _ items _ >>= _)
      refine Audited.mono (Audited.bind (cleanupScan_audited _) fun es₁ s hscan => ?_) hwhole
      have hscan' : Accounts (unreadable items) 0 es₁ s.summary := by
        simpa [CacheCleanupSummary.files] using hscan
      refine Audited.op_iff.mpr fun listing => ?_
      cases listing with
      | error e =>
          exact (cleanupEvict_audited _).mono fun es₂ summary hevict =>
            hscan'.append hevict.failedScan
      | ok items =>
          refine (cleanupOrphans_audited _).bind fun es₂ summary horphans =>
            (cleanupEvict_audited summary).mono fun es₃ summary' hevict => hscan'.append ?_
          exact (horphans.append hevict).quiet rfl rfl

end Counts

/-- **The counts of a cleanup** in any environment: its errors are the scans and removals that
failed and the items that the first scan could not read, and every removal belongs to a
temporary file, an orphan, or one of the two files of an entry that it counted. -/
theorem cleanup_counts {cache : Cache} {es : List (Event Io)} {summary : CacheCleanupSummary}
    (h : Trace (cleanupStartup cache) es summary) :
    summary.errors = es.countP isFailure + unreadable (firstListing es) ∧
      es.countP isRemoval ≤ summary.files :=
  cleanupStartup_audited cache es summary h

theorem cleanup_counts_stray :
    strayCleanup.1.orphanedFiles = 1 ∧
      strayCleanup.1.errors = (execEvents (calmListing ["left.body".toList] firstAnswer)
          (cleanupStartup exampleCache) strayBody).countP isFailure +
        unreadable (firstListing (execEvents (calmListing ["left.body".toList] firstAnswer)
          (cleanupStartup exampleCache) strayBody)) ∧
      (execEvents (calmListing ["left.body".toList] firstAnswer)
          (cleanupStartup exampleCache) strayBody).countP isRemoval ≤ strayCleanup.1.files :=
  ⟨by decide +kernel,
    cleanup_counts (trace_exec (calmListing ["left.body".toList] firstAnswer) _ strayBody)⟩

end Corsget
