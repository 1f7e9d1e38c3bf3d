import Corsget.Footprint
import Corsget.Reference
import Corsget.StorageDirectives

/-!
# Refreshing an entry after a 304

A `304 Not Modified` updates the stored response: each cacheable field it
repeats replaces the stored one.  `Cache::refresh` computes the new lifetime from
the 304's headers alone, keeps the `revalidate` flag and the stored header list,
and takes over the validators.

`updatedHeaders` is the stored response as the 304 updates it, and
`refresh_agrees_iff` compares the refreshed entry with the one `begin_write`
would record for it at that time.
-/

namespace Corsget

open Text Effect

/-- The stored response with the cacheable fields of a 304 in the place of the
stored ones. -/
def updatedHeaders (stored confirmed : HeaderMap) : HeaderMap :=
  (storedLines stored).update (storedLines confirmed)

/-- Two entries that agree in everything their headers determine. -/
structure SamePolicy (entry recorded : CacheEntry) : Prop where
  ttl : entry.ttl = recorded.ttl
  revalidate : entry.revalidate = recorded.revalidate
  etag : entry.etag = recorded.etag
  lastModified : entry.lastModified = recorded.lastModified
  headers : (headersFromEntry entry).Same (headersFromEntry recorded)

section Refreshing

variable [Crates]

/-- **The specification of `refresh`**: the entry it returns, from its two
readings of the clock. -/
theorem refresh_trace {entry entry' : CacheEntry} {confirmed : HeaderMap} {configured : ℕ}
    {created now : ℕ} {es : List (Event Io)} {written : Except IoError Unit}
    (h : Trace (refresh entry confirmed configured)
      (⟨.systemTime, created⟩ :: ⟨.systemTime, now⟩ :: es) (entry', written)) :
    entry' = entry.refreshed confirmed configured (created / 10 ^ 9) now := by
  unfold refresh at h
  simp only [Io.nowSeconds_bind, Io.systemTime_bind] at h
  obtain ⟨created', es₁, heq₁, h₁⟩ := Trace.op_iff.mp h
  obtain ⟨now', es₂, heq₂, h₂⟩ := Trace.op_iff.mp h₁
  obtain ⟨_, outcome, _, rfl, -, h₃⟩ := Trace.bind_iff.mp h₂
  cases heq₁
  cases heq₂
  exact (Prod.mk.inj (Trace.ret_iff.mp h₃).2).1

/-- Every entry `refresh` returns is a refreshed one. -/
theorem refresh_meets (entry : CacheEntry) (confirmed : HeaderMap) (configured : ℕ) :
    Meets (fun _ => True)
      (fun r : CacheEntry × Except IoError Unit =>
        ∃ created now, r.1 = entry.refreshed confirmed configured created now)
      (refresh entry confirmed configured) := by
  unfold refresh
  simp only [Io.nowSeconds_bind, Io.systemTime_bind]
  refine ⟨trivial, fun (created : ℕ) => ⟨trivial, fun (now : ℕ) => ?_⟩⟩
  have hwrite := (writeMetadata_storeOnly
    (entry.refreshed confirmed configured (created / 10 ^ 9) now)).mono
      (fun _ _ => trivial) fun _ h => h
  exact hwrite.bind fun _ _ => ⟨_, _, rfl⟩

/-- The operations of a `refresh` in which nothing fails. -/
def refreshEvents (entry : CacheEntry) (tempId : ℕ) : List (Event Io) :=
  [⟨.tempCounter, tempId⟩,
    ⟨.fs (.write (tempMetaPath entry.key tempId) (.json entry.persisted)),
      (.ok () : Except IoError Unit)⟩,
    ⟨.fs (.rename (tempMetaPath entry.key tempId) (metaPath entry.key)),
      (.ok () : Except IoError Unit)⟩]

/-- The run of `refresh` in which nothing fails. -/
theorem refresh_run (entry : CacheEntry) (confirmed : HeaderMap)
    (configured created now tempId : ℕ) :
    Trace (refresh entry confirmed configured)
      (⟨.systemTime, created⟩ :: ⟨.systemTime, now⟩ ::
        refreshEvents (entry.refreshed confirmed configured (created / 10 ^ 9) now) tempId)
      (entry.refreshed confirmed configured (created / 10 ^ 9) now, .ok ()) := by
  unfold refresh
  simp only [Io.nowSeconds_bind, Io.systemTime_bind]
  exact .op (.op (.op (.op (.op (.ret _)))))

/-! ## Lifetimes -/

/-- The first `max-age` of the first `Cache-Control` line. -/
def ageBound (headers : HeaderMap) : Option ℕ :=
  ((firstItems headers).map trim).findSome? maxAgeDirective

/-- The whole seconds left until the `Expires` header. -/
def expiryBound (headers : HeaderMap) (now : ℕ) : Option ℕ :=
  (expiresAt headers).map fun expires => (expires * 10 ^ 9 - now) / 10 ^ 9

/-- **An age is within the limits** that a header map sets by `max-age` and
`Expires`. -/
def AllowsAge (headers : HeaderMap) (now age : ℕ) : Prop :=
  (∀ bound, ageBound headers = some bound → age < bound) ∧
    ∀ bound, expiryBound headers now = some bound → age < bound

/-- A lifetime is the configured one cut down to the limits. -/
theorem lt_effectiveTtl_iff {configured : ℕ} {headers : HeaderMap} {now age : ℕ} :
    age < effectiveTtl configured headers now ↔ age < configured ∧ AllowsAge headers now age := by
  have hexpires : ∀ ttl, age < expiresTtl ttl headers now ↔
      age < ttl ∧ ∀ bound, expiryBound headers now = some bound → age < bound := by
    intro ttl
    unfold expiryBound
    cases hexpires : expiresAt headers with
    | none =>
        rw [expiresTtl_of_none hexpires]
        simp
    | some expires =>
        rw [expiresTtl_of_some hexpires]
        simp
  unfold effectiveTtl AllowsAge ageBound firstItems
  cases cacheControl headers with
  | none => simpa using hexpires configured
  | some value =>
      dsimp only
      rw [hexpires]
      cases ((value.splitOn ',').map trim).findSome? maxAgeDirective with
      | none => simp
      | some upstream => simp [and_assoc]

/-- Two lifetimes under one configured age are equal exactly when the headers
allow the same ages below it. -/
theorem effectiveTtl_eq_iff {configured : ℕ} {headers headers' : HeaderMap} {now : ℕ} :
    effectiveTtl configured headers now = effectiveTtl configured headers' now ↔
      ∀ age < configured, AllowsAge headers now age ↔ AllowsAge headers' now age := by
  constructor
  · intro h age hage
    have hlt := @lt_effectiveTtl_iff _ configured headers now age
    rw [h, lt_effectiveTtl_iff] at hlt
    simpa [hage, Iff.comm] using hlt
  · intro h
    by_contra hne
    rcases Nat.lt_or_gt_of_ne hne with hlt | hlt
    · obtain ⟨hage, hallows⟩ := lt_effectiveTtl_iff.mp hlt
      exact Nat.lt_irrefl _ (lt_effectiveTtl_iff.mpr ⟨hage, (h _ hage).mpr hallows⟩)
    · obtain ⟨hage, hallows⟩ := lt_effectiveTtl_iff.mp hlt
      exact Nat.lt_irrefl _ (lt_effectiveTtl_iff.mpr ⟨hage, (h _ hage).mp hallows⟩)

/-! ## Agreement -/

omit [Crates] in
/-- The updated response holds, under each name, the 304's stored lines if it has
any and the stored ones otherwise. -/
theorem getAll_updatedHeaders (stored confirmed : HeaderMap) (name : HeaderName) :
    (updatedHeaders stored confirmed).getAll name =
      if (storedLines confirmed).containsKey name then (storedLines confirmed).getAll name
      else (storedLines stored).getAll name :=
  MultiMap.getAll_update _ _ _

/-- What depends on the first `Cache-Control` and `Expires` lines is the same for
equal multi-maps. -/
theorem effectiveTtl_congr {configured now : ℕ} {headers headers' : HeaderMap}
    (h : headers.Same headers') :
    effectiveTtl configured headers now = effectiveTtl configured headers' now := by
  unfold effectiveTtl expiresTtl cacheControl MultiMap.get
  rw [h .cacheControl, h .expires]

omit [Crates] in
theorem firstItems_congr {headers headers' : HeaderMap} (h : headers.Same headers') :
    firstItems headers = firstItems headers' := by
  unfold firstItems cacheControl MultiMap.get
  rw [h .cacheControl]

/-- The text of the first line under a name. -/
def firstText (headers : HeaderMap) (name : HeaderName) : Option Str :=
  (headers.get name).bind HeaderValue.toStr

omit [Crates] in
theorem firstText_congr {headers headers' : HeaderMap} (h : headers.Same headers')
    (name : HeaderName) : firstText headers name = firstText headers' name := by
  unfold firstText MultiMap.get
  rw [h name]

omit [Crates] in
/-- A first line with a text is the first stored line. -/
theorem firstText_storedLines {headers : HeaderMap} {name : HeaderName} {text : Str}
    (hname : isNotStored name = false) (h : firstText headers name = some text) :
    firstText (storedLines headers) name = some text := by
  unfold firstText MultiMap.get at h ⊢
  rw [getAll_storedLines, hname, if_neg (by decide)]
  cases hlines : headers.getAll name with
  | nil =>
      rw [hlines] at h
      cases h
  | cons value lines =>
      rw [hlines] at h
      have hvisible := (HeaderValue.toStr_eq_some.mp h).1
      rw [List.filter_cons_of_pos hvisible]
      exact h

/-- **A 304 that repeats**: each of its cacheable fields has the stored lines. -/
def Repeats (stored confirmed : HeaderMap) : Prop :=
  ∀ name, (storedLines confirmed).containsKey name = true →
    (storedLines confirmed).getAll name = (storedLines stored).getAll name

omit [Crates] in
/-- Nothing changes exactly when the 304 repeats what is stored. -/
theorem same_updatedHeaders_iff {stored confirmed : HeaderMap} :
    (storedLines stored).Same (updatedHeaders stored confirmed) ↔ Repeats stored confirmed := by
  unfold MultiMap.Same Repeats
  refine forall_congr' fun name => ?_
  rw [getAll_updatedHeaders]
  cases (storedLines confirmed).containsKey name with
  | false => simp
  | true => simp [eq_comm]

omit [Crates] in
/-- Every line of the updated response is one that is stored. -/
theorem storedLines_updatedHeaders (stored confirmed : HeaderMap) :
    storedLines (updatedHeaders stored confirmed) = updatedHeaders stored confirmed := by
  refine List.filter_eq_self.mpr fun line hline => ?_
  rcases List.mem_append.mp hline with hmem | hmem
  · exact (List.mem_filter.mp (List.mem_filter.mp hmem).1).2
  · exact (List.mem_filter.mp hmem).2

omit [Crates] in
/-- A validator taken from the 304, or kept, is the stored one exactly when the
304 gives it or the kept one is. -/
theorem or_eq_firstText_iff {stored confirmed : HeaderMap} (hrepeats : Repeats stored confirmed)
    {name : HeaderName} (hname : isNotStored name = false) (kept : Option Str) :
    (firstText confirmed name).or kept = firstText (storedLines stored) name ↔
      (firstText confirmed name).isSome = true ∨ kept = firstText (storedLines stored) name := by
  cases htext : firstText confirmed name with
  | none => simp
  | some text =>
      have hfirst := firstText_storedLines hname htext
      have hcontains : (storedLines confirmed).containsKey name = true := by
        rw [MultiMap.containsKey_iff]
        intro hnil
        unfold firstText MultiMap.get at hfirst
        rw [hnil] at hfirst
        cases hfirst
      have hstored : firstText (storedLines stored) name = some text := by
        unfold firstText MultiMap.get at hfirst ⊢
        rw [← hrepeats name hcontains]
        exact hfirst
      simp [hstored]

/-- **When refreshing agrees with storing.**  For an entry stored with the lines of
`stored`, the refreshed entry is the one that would be recorded for the updated
response exactly when the 304 repeats the stored fields it has, its own headers
allow the ages that the stored ones allow, the entry's flag is the stored
`no-cache`, and each validator that the 304 does not give is the stored one. -/
theorem refresh_agrees_iff {entry entry' : CacheEntry} {stored confirmed requestHeaders : HeaderMap}
    {vary : List Str} {configured created now : ℕ} {es : List (Event Io)}
    {written : Except IoError Unit} (hstored : entry.headers = cacheHeaders stored)
    (htrace : Trace (refresh entry confirmed configured)
      (⟨.systemTime, created⟩ :: ⟨.systemTime, now⟩ :: es) (entry', written)) :
    SamePolicy entry'
        (CacheEntry.record ⟨entry.key, configured⟩ entry.status (updatedHeaders stored confirmed)
          requestHeaders vary (created / 10 ^ 9) (created / 10 ^ 9) now) ↔
      Repeats stored confirmed ∧
        (∀ age < configured,
          AllowsAge confirmed now age ↔ AllowsAge (storedLines stored) now age) ∧
        entry.revalidate = lists (firstItems (storedLines stored)) "no-cache".toList ∧
        ((firstText confirmed .etag).isSome = true ∨
          entry.etag = firstText (storedLines stored) .etag) ∧
        ((firstText confirmed .lastModified).isSome = true ∨
          entry.lastModified = firstText (storedLines stored) .lastModified) := by
  obtain rfl := refresh_trace htrace
  -- A refresh keeps the header list, so the lines served after it are the stored ones.
  have hkept : headersFromEntry (entry.refreshed confirmed configured (created / 10 ^ 9) now) =
      storedLines stored := headersFromEntry_eq hstored
  have hrecorded : ∀ {plan status vary created accessed},
      headersFromEntry (CacheEntry.record plan status (updatedHeaders stored confirmed)
        requestHeaders vary created accessed now) = updatedHeaders stored confirmed := by
    intro plan status vary created accessed
    rw [← storedLines_updatedHeaders]
    exact headersFromEntry_eq (by rw [storedLines_updatedHeaders]; rfl)
  have hheaders :
      (headersFromEntry (entry.refreshed confirmed configured (created / 10 ^ 9) now)).Same
      (headersFromEntry (CacheEntry.record ⟨entry.key, configured⟩ entry.status
        (updatedHeaders stored confirmed) requestHeaders vary (created / 10 ^ 9)
        (created / 10 ^ 9) now)) ↔ Repeats stored confirmed := by
    rw [hkept, hrecorded, same_updatedHeaders_iff]
  -- Where the 304 repeats, the updated response is the stored one.
  have hfields : Repeats stored confirmed →
      (effectiveTtl configured (updatedHeaders stored confirmed) now =
          effectiveTtl configured (storedLines stored) now ∧
        cacheControlRequiresRevalidation (updatedHeaders stored confirmed) =
          lists (firstItems (storedLines stored)) "no-cache".toList ∧
        ∀ name, firstText (updatedHeaders stored confirmed) name =
          firstText (storedLines stored) name) := by
    intro hrepeats
    have hsame := same_updatedHeaders_iff.mpr hrepeats
    refine ⟨(effectiveTtl_congr hsame).symm, ?_, fun name => (firstText_congr hsame name).symm⟩
    rw [cacheControlRequiresRevalidation_eq, firstItems_congr hsame]
  constructor
  · intro h
    have hrepeats := hheaders.mp h.headers
    obtain ⟨httl, hflag, htext⟩ := hfields hrepeats
    refine ⟨hrepeats, effectiveTtl_eq_iff.mp (h.ttl.trans httl), h.revalidate.trans hflag, ?_, ?_⟩
    · exact (or_eq_firstText_iff hrepeats (by decide) _).mp (h.etag.trans (htext .etag))
    · exact (or_eq_firstText_iff hrepeats (by decide) _).mp
        (h.lastModified.trans (htext .lastModified))
  · rintro ⟨hrepeats, hages, hrevalidate, hetag, hmodified⟩
    obtain ⟨httl, hflag, htext⟩ := hfields hrepeats
    refine ⟨(effectiveTtl_eq_iff.mpr hages).trans httl.symm, hrevalidate.trans hflag.symm, ?_, ?_,
      hheaders.mpr hrepeats⟩
    · exact ((or_eq_firstText_iff hrepeats (by decide) _).mpr hetag).trans (htext .etag).symm
    · exact ((or_eq_firstText_iff hrepeats (by decide) _).mpr hmodified).trans
        (htext .lastModified).symm

/-- **Refreshing agrees with storing**: every run of `refresh` leaves the entry
that would be recorded, at that time, for the updated response. -/
def RefreshAgrees (entry : CacheEntry) (stored confirmed requestHeaders : HeaderMap)
    (vary : List Str) (configured : ℕ) : Prop :=
  ∀ (created now : ℕ) (es : List (Event Io)) (entry' : CacheEntry) (written : Except IoError Unit),
    Trace (refresh entry confirmed configured)
        (⟨.systemTime, created⟩ :: ⟨.systemTime, now⟩ :: es) (entry', written) →
      SamePolicy entry'
        (CacheEntry.record ⟨entry.key, configured⟩ entry.status (updatedHeaders stored confirmed)
          requestHeaders vary (created / 10 ^ 9) (created / 10 ^ 9) now)

end Refreshing

/-- A response that may be kept for a minute. -/
def minuteHeaders : HeaderMap := [(.cacheControl, .fromStatic "max-age=60".toList)]

/-- Its entry. -/
def minuteEntry : CacheEntry :=
  @CacheEntry.record reference ⟨"k".toList, 900⟩ 200 minuteHeaders [] [] 0 0 0

/-- The theorem at a 304 that repeats the stored line. -/
theorem refresh_agrees_minuteEntry :
    SamePolicy (@CacheEntry.refreshed reference minuteEntry minuteHeaders 900 0 0)
      (@CacheEntry.record reference ⟨minuteEntry.key, 900⟩ minuteEntry.status
        (updatedHeaders minuteHeaders minuteHeaders) [] [] 0 0 0) := by
  refine (@refresh_agrees_iff reference minuteEntry _ minuteHeaders minuteHeaders [] [] 900 0 0 _ _
    rfl (@refresh_run reference minuteEntry minuteHeaders 900 0 0 0)).mpr ⟨?_, ?_, ?_, ?_, ?_⟩
  · intro name _
    rfl
  · intro age _
    rw [show storedLines minuteHeaders = minuteHeaders by decide]
  · decide
  · exact .inr rfl
  · exact .inr rfl

/-- **A 304 without `Cache-Control` lengthens the lifetime**: a response that may be
kept for a minute is kept for the configured quarter of an hour. -/
theorem silent_304_lengthens_lifetime :
    ¬ @RefreshAgrees reference minuteEntry minuteHeaders [] [] [] 900 := by
  intro h
  have hpolicy := h 0 0 _ _ _ (@refresh_run reference minuteEntry [] 900 0 0 0)
  exact absurd hpolicy.ttl (by decide)

end Corsget
