import Corsget.OwnFiles

/-!
# What metadata says

Whatever goes on in the cache directory, the metadata that `begin_write` recorded is what metadata
goes on to say: lookups and refreshes only change times and validators.  So what `begin_write`
checks of a response holds of every entry that a later process finds, and of every response that
is served from one.

`CacheEntry.Clean` collects these facts.  It is a layout, so it holds of the directory along every
run of requests and cleanups, with every fault (`stored_entries_stay_clean`); and since the status
of a clean entry is no redirect, a consumer is never handed one (`no_redirect_delivered`).
-/

namespace Corsget

open Text Effect

/-- **An entry that `begin_write` may have recorded.** -/
structure CacheEntry.Clean (entry : CacheEntry) : Prop where
  successful : 200 ≤ entry.status ∧ entry.status < 300
  /-- Every stored line can be read back, and it is neither generated by the proxy nor
  hop-by-hop nor a cookie. -/
  lines : ∀ field ∈ entry.headers, ∃ line, storedLine field = some line ∧
    line.1.text = field.1 ∧ isNotStored line.1 = false ∧ line.1 ≠ .setCookie
  /-- Every nominated request header is part of the cache key. -/
  varied : ∀ name ∈ entry.vary, name ∈ supportedVaryHeaders.map HeaderName.text
  /-- A request header is stored only when it is nominated, and `Authorization` never is. -/
  variants : ∀ variant ∈ entry.requestVariants,
    variant.1 ∈ entry.vary ∧ variant.1 ≠ HeaderName.authorization.text

/-- Metadata of clean entries, under any names. -/
def cleanEntries : Layout where
  writes := fun _ => True
  reads := fun _ => True
  keys := fun _ => True
  lists := fun _ => True
  holds := CacheEntry.Clean

/-- All metadata in a directory is clean. -/
def Dir.Clean (d : Dir) : Prop :=
  ∀ path data entry, d.lookup path = some data → data.fromSlice = some entry → entry.Clean

theorem Dir.clean_empty : Dir.Clean ∅ := by
  intro path data entry hdata
  cases hdata

/-- Without a `Set-Cookie` line nothing under that name is stored. -/
theorem ne_setCookie_of_cacheable {headers : HeaderMap} (h : cacheableHeaders headers = true)
    {line : HeaderName × HeaderValue} (hline : line ∈ headers) : line.1 ≠ .setCookie := by
  have habsent : headers.containsKey .setCookie = false := by
    unfold cacheableHeaders at h
    split at h
    · simpa using h
    · simp only [Bool.and_eq_true, Bool.not_eq_true'] at h
      exact h.2
  intro hname
  have hpresent : headers.containsKey .setCookie = true :=
    List.any_eq_true.mpr ⟨line, hline, by simp [hname]⟩
  rw [habsent] at hpresent
  cases hpresent

/-- The status that a request has been answered with: that of the response, or of the error. -/
def answeredStatus : Prog Io (Option (Except AppError Response)) → Option ℕ
  | .ret (some (.ok response)) => some response.status
  | .ret (some (.error e)) => some e.status
  | _ => none

/-- No error is answered with a redirect. -/
theorem AppError.not_redirect (e : AppError) : isFollowableRedirect e.status = false := by
  cases e <;> rfl

section Lawful

variable [Crates]

/-- What `begin_write` accepts is recorded clean. -/
theorem Accepts.clean {plan : CachePlan} {status : ℕ} {headers requestHeaders : HeaderMap}
    {vary : List Str} {created accessed now : ℕ}
    (h : Accepts plan status headers requestHeaders vary now) :
    (CacheEntry.record plan status headers requestHeaders vary created accessed now).Clean where
  successful := h.successful
  lines := by
    show ∀ field ∈ cacheHeaders headers, _
    rw [cacheHeaders_eq]
    intro field hfield
    obtain ⟨line, hline, rfl⟩ := List.mem_map.mp hfield
    obtain ⟨hmem, hkept⟩ := List.mem_filter.mp hline
    simp only [Bool.and_eq_true, Bool.not_eq_true'] at hkept
    exact ⟨line, storedLine_eq hkept.1 hkept.2, rfl, hkept.1,
      ne_setCookie_of_cacheable h.cacheable hmem⟩
  varied := supported_of_mem_parseVary h.varied
  variants := by
    show ∀ variant ∈ requestVariants vary requestHeaders, _
    intro variant hvariant
    obtain ⟨name, hname, hvalue⟩ := List.mem_filterMap.mp hvariant
    obtain ⟨text, htext, rfl⟩ := Option.map_eq_some_iff.mp hvalue
    refine ⟨hname, fun hauth => ?_⟩
    obtain ⟨value, hget, -⟩ := Option.bind_eq_some_iff.mp htext
    have hname' : name = HeaderName.authorization.text := hauth
    rw [hname', HeaderName.fromBytes_text] at hget
    -- The request had no `Authorization` line to take a value from.
    have habsent : requestHeaders.get .authorization = none := by
      show (requestHeaders.getAll .authorization).head? = none
      rw [MultiMap.containsKey_eq_false_iff.mp h.anonymous]
      rfl
    have hpresent : requestHeaders.get .authorization = some value := hget
    rw [habsent] at hpresent
    cases hpresent

theorem cleanEntries_lawful : cleanEntries.Lawful where
  reads _ _ := trivial
  record _ _ := trivial
  body _ _ := trivial
  tempRecord _ _ _ := trivial
  tempBody _ _ _ := trivial
  listed _ _ _ := ⟨trivial, trivial⟩
  orphan _ _ _ := trivial
  temporary _ _ _ := trivial
  alike entry entry' heq h := by
    have hstatus : entry.status = entry'.status := congrArg (·.status) heq
    have hheaders : entry.headers = entry'.headers := congrArg (·.headers) heq
    have hvary : entry.vary = entry'.vary := congrArg (·.vary) heq
    have hvariants : entry.requestVariants = entry'.requestVariants :=
      congrArg (·.requestVariants) heq
    exact ⟨hstatus ▸ h.successful, hheaders ▸ h.lines, hvary ▸ h.varied,
      hvary ▸ hvariants ▸ h.variants⟩
  accepted _ _ _ _ _ _ _ _ h := h.clean

/-! ## Runs -/

variable {ι : Type} [DecidableEq ι] {activities : ι → Activity} {d d' : Dir}
  {pool : ι → Prog Io (Option (Except AppError Response))}

omit [Crates] in
theorem not_redirect_of_clean (entry : CacheEntry) (h : entry.Clean) :
    isFollowableRedirect entry.status = false := by
  obtain ⟨-, hlt⟩ := h.successful
  unfold isFollowableRedirect
  simp only [Bool.or_eq_false_iff, beq_eq_false_iff_ne]
  omega

/-- A run from a clean directory. -/
theorem running_clean (hrun : Running (fun _ => True) activities d pool d') (hd : d.Clean) :
    d'.Clean ∧ ∀ i, Assuming cleanEntries.Answers cleanEntries.Allows
      (cleanEntries.Told fun status => isFollowableRedirect status = false) (pool i) := by
  have hrunning : (cleanEntries.Sound d' ∧ True) ∧ ∀ i,
      Assuming cleanEntries.Answers cleanEntries.Allows
        (cleanEntries.Told fun status => isFollowableRedirect status = false) (pool i) :=
    cleanEntries_lawful.running (J := fun _ => True) hrun hd trivial (fun _ _ _ _ _ _ _ => trivial)
      (fun _ _ _ => trivial) not_redirect_of_clean fun _ h => h
  exact ⟨hrunning.1.1, hrunning.2⟩

/-- **Metadata stays clean** in every run of requests and cleanups, under any configurations and
with any faults: every entry in the directory has a successful status, stored headers that can
all be sent again and that contain no cookie, hop-by-hop or generated header, and keeps of the
request only the nominated headers other than `Authorization`. -/
theorem stored_entries_stay_clean (hrun : Running (fun _ => True) activities d pool d')
    (hd : d.Clean) : d'.Clean :=
  (running_clean hrun hd).1

omit [Crates] in
/-- From an empty directory, after a request that stores its response. -/
theorem stored_entries_stay_clean_miss :
    (exec (calmListing [] firstAnswer)
        (@Activity.prog reference (.request exampleState plainRequest)) ∅).2.Clean ∧
      ((exec (calmListing [] firstAnswer)
        (@Activity.prog reference (.request exampleState plainRequest)) ∅).2.view
          exampleDigest).record.isSome :=
  ⟨@stored_entries_stay_clean reference Unit _ (fun _ => .request exampleState plainRequest) _ _ _
    (@running_exec reference Unit _ _ _ (listingEnv_calmListing (fun _ _ => trivial) firstAnswer)
      (fun _ => .request exampleState plainRequest) () _) Dir.clean_empty, by decide +kernel⟩

/-- **A consumer is never sent a redirect.**  From a clean directory, no run of requests and
cleanups answers a request with a status that the proxy follows: not from the upstream, at any
hop, not from the cache, and not when the request fails. -/
theorem no_redirect_delivered (hrun : Running (fun _ => True) activities d pool d')
    (hd : d.Clean) {i : ι} {status : ℕ} (hanswer : answeredStatus (pool i) = some status) :
    isFollowableRedirect status = false := by
  have hi := (running_clean hrun hd).2 i
  rcases hprog : pool i with answer | ⟨o, k⟩
  · rw [hprog] at hanswer hi
    rcases answer with _ | e | response
    · cases hanswer
    · obtain rfl := Option.some.inj hanswer
      exact e.not_redirect
    · obtain rfl := Option.some.inj hanswer
      exact (hi _ rfl response rfl).1
  · rw [hprog] at hanswer
    cases hanswer

omit [Crates] in
/-- After a request that stores its response. -/
theorem no_redirect_delivered_miss : isFollowableRedirect 200 = false :=
  have hrun := @running_exec reference Unit _ _ _
    (@listingEnv_calmListing (fun _ => True) [] (fun _ _ => trivial) firstAnswer)
    (fun _ => .request exampleState plainRequest) () ∅
  @no_redirect_delivered reference Unit _ (fun _ => .request exampleState plainRequest) _ _ _
    hrun Dir.clean_empty () 200 (by decide +kernel)

end Lawful

end Corsget
