import Corsget.Reference
import Corsget.Storing

/-!
# Upstream storage directives

`Cache-Control` may come in several lines, with arguments and in any case.
The response side of the cache reads the **first** line only, and only when all
of it is visible ASCII; within it, a directive counts when it stands bare.
(`request_requires_revalidation`, its sibling for requests, reads every line and
accepts arguments.)

`firstItems` is the list that the response side looks at, and the three
decisions are read off it (`cacheableHeaders_eq`,
`cacheControlRequiresRevalidation_eq`, `effectiveTtl_eq_zero_iff`).
`obeys_directives_iff` compares it with what the header map declares.
-/

namespace Corsget

open Text Effect

/-! ## What a header map declares -/

/-- The name of a list item, without its argument, in lower case. -/
def directiveName (item : Str) : Str :=
  toAsciiLowercase (trim (match splitOnce '=' item with
    | none => item
    | some (name, _) => name))

/-- **A directive is declared**: some `Cache-Control` line lists it, in any case, at
any position, with or without an argument. -/
def Declares (headers : HeaderMap) (directive : Str) : Prop :=
  ∃ value ∈ headers.getAll .cacheControl, ∃ item ∈ value.text.splitOn ',',
    directiveName item = directive

/-- The value of several lines joined by commas. -/
def joinedValue (lines : List HeaderValue) : HeaderValue where
  bytes := [44].intercalate (lines.map HeaderValue.bytes)
  valid := by
    rw [List.all_eq_true]
    induction lines with
    | nil => simp
    | cons line lines ih =>
        have hline := List.all_eq_true.mp line.valid
        cases lines with
        | nil => simpa using hline
        | cons line' lines =>
            intro b hb
            rw [List.map_cons, List.map_cons, List.intercalate_cons_cons] at hb
            rcases List.mem_append.mp hb with hb | hb
            · rcases List.mem_append.mp hb with hb | hb
              · exact hline b hb
              · rw [List.mem_singleton.mp hb]
                decide
            · exact ih b hb

/-- The header map with its `Cache-Control` lines joined into one. -/
def joinCacheControl (headers : HeaderMap) : HeaderMap :=
  match headers.getAll .cacheControl with
  | [] => headers
  | lines => headers.insert .cacheControl (joinedValue lines)

/-! ## What the cache reads -/

/-- The items of the first line, when it is visible ASCII. -/
def firstItems (headers : HeaderMap) : List Str :=
  match cacheControl headers with
  | none => []
  | some value => value.splitOn ','

/-- The items of all lines, when all are visible ASCII. -/
def allItems (headers : HeaderMap) : List Str :=
  if (headers.getAll .cacheControl).all HeaderValue.isVisible then
    (headers.getAll .cacheControl).flatMap fun value => value.text.splitOn ','
  else []

/-- Whether a list of items has a directive standing bare. -/
def lists (items : List Str) (directive : Str) : Bool :=
  (items.map fun item => toAsciiLowercase (trim item)).contains directive

/-- Whether the first `max-age` of a list of items is zero. -/
def zeroAge (items : List Str) : Bool :=
  (items.map trim).findSome? maxAgeDirective == some 0

/-- **A list of items that forbids storing.** -/
def forbids (items : List Str) : Bool :=
  lists items "no-store".toList || lists items "private".toList || zeroAge items

theorem cacheableHeaders_eq (headers : HeaderMap) :
    cacheableHeaders headers =
      (!lists (firstItems headers) "no-store".toList &&
        !lists (firstItems headers) "private".toList && !headers.containsKey .setCookie) := by
  unfold cacheableHeaders firstItems lists
  cases cacheControl headers with
  | none => simp
  | some value => rfl

theorem cacheControlRequiresRevalidation_eq (headers : HeaderMap) :
    cacheControlRequiresRevalidation headers = lists (firstItems headers) "no-cache".toList := by
  unfold cacheControlRequiresRevalidation firstItems lists
  cases cacheControl headers with
  | none => rfl
  | some value =>
      have hlower : toAsciiLowercase "no-cache".toList = "no-cache".toList := by decide
      dsimp only
      rw [List.contains_eq_any_beq, List.any_map, List.any_map]
      refine congrArg (List.any (value.splitOn ',')) (funext fun item => ?_)
      show (toAsciiLowercase (trim item) == toAsciiLowercase "no-cache".toList) = _
      rw [hlower]
      exact Bool.beq_comm

section Lifetimes

variable [Crates]

/-- The moment of the `Expires` header, in seconds. -/
def expiresAt (headers : HeaderMap) : Option ℕ :=
  ((headers.get .expires).bind HeaderValue.toStr).bind Crates.parseHttpDate

/-- **The response is refused whatever its `Cache-Control` says**: it sets a
cookie, varies on something unsupported, or expired with the epoch. -/
def RefusedRegardless (headers : HeaderMap) : Prop :=
  headers.containsKey .setCookie = true ∨ parseVary headers = none ∨ expiresAt headers = some 0

theorem expiresTtl_of_none {configured : ℕ} {headers : HeaderMap} {now : ℕ}
    (h : expiresAt headers = none) : expiresTtl configured headers now = configured := by
  unfold expiresTtl
  unfold expiresAt at h
  rw [h]

theorem expiresTtl_of_some {configured expires : ℕ} {headers : HeaderMap} {now : ℕ}
    (h : expiresAt headers = some expires) :
    expiresTtl configured headers now = min configured ((expires * 10 ^ 9 - now) / 10 ^ 9) := by
  unfold expiresTtl
  unfold expiresAt at h
  rw [h]

/-- A lifetime is zero for one of three reasons: the configured one is, the first
line says so, or the response has expired. -/
theorem effectiveTtl_eq_zero_iff {configured : ℕ} {headers : HeaderMap} {now : ℕ} :
    effectiveTtl configured headers now = 0 ↔
      configured = 0 ∨ zeroAge (firstItems headers) = true ∨
        ∃ expires, expiresAt headers = some expires ∧ (expires * 10 ^ 9 - now) / 10 ^ 9 = 0 := by
  have hexpires : ∀ ttl, expiresTtl ttl headers now = 0 ↔
      ttl = 0 ∨ ∃ expires, expiresAt headers = some expires ∧
        (expires * 10 ^ 9 - now) / 10 ^ 9 = 0 := by
    intro ttl
    cases hexpires : expiresAt headers with
    | none =>
        rw [expiresTtl_of_none hexpires]
        simp
    | some expires =>
        rw [expiresTtl_of_some hexpires]
        simp only [Option.some.injEq, exists_eq_left']
        omega
  unfold effectiveTtl firstItems zeroAge
  cases cacheControl headers with
  | none => simpa using hexpires configured
  | some value =>
      dsimp only
      rw [hexpires]
      cases ((value.splitOn ',').map trim).findSome? maxAgeDirective with
      | none => simp
      | some upstream =>
          simp only [beq_iff_eq, Option.some.injEq]
          constructor
          · rintro (h | h)
            · omega
            · exact .inr (.inr h)
          · rintro (h | h | h)
            · exact .inl (by omega)
            · exact .inl (by omega)
            · exact .inr h

/-- What `begin_write` asks for apart from `Cache-Control`. -/
def OtherwiseAccepts (plan : CachePlan) (status : ℕ) (headers requestHeaders : HeaderMap)
    (vary : List Str) (now : ℕ) : Prop :=
  (200 ≤ status ∧ status < 300) ∧ headers.containsKey .setCookie = false ∧
    parseVary headers = some vary ∧ requestHeaders.containsKey .authorization = false ∧
    plan.ttl ≠ 0 ∧
    ¬ ∃ expires, expiresAt headers = some expires ∧ (expires * 10 ^ 9 - now) / 10 ^ 9 = 0

/-- What `begin_write` accepts, in terms of the first line. -/
theorem accepts_iff {plan : CachePlan} {status : ℕ} {headers requestHeaders : HeaderMap}
    {vary : List Str} {now : ℕ} :
    Accepts plan status headers requestHeaders vary now ↔
      forbids (firstItems headers) = false ∧
        OtherwiseAccepts plan status headers requestHeaders vary now := by
  constructor
  · rintro ⟨hstatus, hcacheable, hvary, hauth, hlifetime⟩
    rw [cacheableHeaders_eq] at hcacheable
    rw [Ne, effectiveTtl_eq_zero_iff, not_or, not_or] at hlifetime
    simp only [Bool.and_eq_true, Bool.not_eq_true'] at hcacheable
    obtain ⟨⟨hstore, hprivate⟩, hcookie⟩ := hcacheable
    refine ⟨?_, hstatus, hcookie, hvary, hauth, hlifetime.1, hlifetime.2.2⟩
    have hage : zeroAge (firstItems headers) = false := by simpa using hlifetime.2.1
    unfold forbids
    rw [hstore, hprivate, hage]
    rfl
  · rintro ⟨hforbids, hstatus, hcookie, hvary, hauth, httl, hexpires⟩
    unfold forbids at hforbids
    simp only [Bool.or_eq_false_iff] at hforbids
    obtain ⟨⟨hstore, hprivate⟩, hage⟩ := hforbids
    refine ⟨hstatus, ?_, hvary, hauth, ?_⟩
    · rw [cacheableHeaders_eq, hstore, hprivate, hcookie]
      rfl
    · rw [Ne, effectiveTtl_eq_zero_iff, hage]
      rintro (h | h | h)
      · exact httl h
      · cases h
      · exact hexpires h

/-- Some response is accepted, but for its `Cache-Control`, exactly when it is not
refused regardless. -/
theorem exists_otherwiseAccepts_iff {headers : HeaderMap} :
    (∃ plan status requestHeaders vary now,
        OtherwiseAccepts plan status headers requestHeaders vary now) ↔
      ¬ RefusedRegardless headers := by
  unfold RefusedRegardless
  constructor
  · rintro ⟨plan, status, requestHeaders, vary, now, -, hcookie, hvary, -, -, hexpires⟩
    rintro (h | h | h)
    · rw [hcookie] at h
      cases h
    · rw [hvary] at h
      cases h
    · exact hexpires ⟨0, h, by omega⟩
  · intro h
    rw [not_or, not_or, Bool.not_eq_true] at h
    obtain ⟨hcookie, hvary, hexpires⟩ := h
    obtain ⟨vary, hvary⟩ := Option.ne_none_iff_exists'.mp hvary
    refine ⟨⟨[], 1⟩, 200, [], vary, 0, ⟨by omega, by omega⟩, hcookie, hvary, rfl, by decide, ?_⟩
    rintro ⟨expires, hsome, hzero⟩
    have : expires = 0 := by omega
    exact hexpires (this ▸ hsome)

/-- **Some response with these headers is accepted** exactly when neither the
first line nor anything else refuses it. -/
theorem exists_accepts_iff {headers : HeaderMap} :
    (∃ plan status requestHeaders vary now,
        Accepts plan status headers requestHeaders vary now) ↔
      forbids (firstItems headers) = false ∧ ¬ RefusedRegardless headers := by
  rw [← exists_otherwiseAccepts_iff]
  simp only [accepts_iff, exists_and_left]

/-! ## The joined map -/

omit [Crates] in
theorem getAll_joinCacheControl_of_ne (headers : HeaderMap) {name : HeaderName}
    (h : name ≠ .cacheControl) :
    (joinCacheControl headers).getAll name = headers.getAll name := by
  unfold joinCacheControl
  split
  · rfl
  · exact (MultiMap.getAll_insert _ _ _ _).trans (if_neg h)

omit [Crates] in
/-- A byte of a comma-joined value is one of a line or a comma. -/
theorem isVisible_joinedValue (lines : List HeaderValue) :
    (joinedValue lines).isVisible = lines.all HeaderValue.isVisible := by
  show ([44].intercalate (lines.map HeaderValue.bytes)).all isVisibleAscii = _
  induction lines with
  | nil => rfl
  | cons line lines ih =>
      cases lines with
      | nil => simp [HeaderValue.isVisible]
      | cons line' lines =>
          rw [List.map_cons, List.map_cons, List.intercalate_cons_cons, List.all_append,
            List.all_append, ← List.map_cons, ih]
          simp [HeaderValue.isVisible, show isVisibleAscii 44 = true by decide]

omit [Crates] in
/-- The text of a comma-joined value. -/
theorem text_joinedValue (lines : List HeaderValue) :
    (joinedValue lines).text = [','].intercalate (lines.map HeaderValue.text) := by
  show ([44].intercalate (lines.map HeaderValue.bytes)).map Char.ofUInt8 = _
  induction lines with
  | nil => rfl
  | cons line lines ih =>
      cases lines with
      | nil => simp [HeaderValue.text]
      | cons line' lines =>
          rw [List.map_cons, List.map_cons, List.intercalate_cons_cons, List.map_append,
            List.map_append, ← List.map_cons, ih]
          exact List.intercalate_cons_cons.symm

omit [Crates] in
/-- **What the cache reads of the joined map** is what all lines together list. -/
theorem firstItems_joinCacheControl (headers : HeaderMap) :
    firstItems (joinCacheControl headers) = allItems headers := by
  unfold firstItems cacheControl allItems joinCacheControl
  cases hlines : headers.getAll .cacheControl with
  | nil =>
      dsimp only
      rw [MultiMap.get, hlines]
      rfl
  | cons line lines =>
      dsimp only
      have hget : (MultiMap.insert headers .cacheControl (joinedValue (line :: lines))).get
          .cacheControl = some (joinedValue (line :: lines)) := by
        rw [MultiMap.get, MultiMap.getAll_insert, if_pos rfl]
        rfl
      rw [hget, Option.bind_some]
      unfold HeaderValue.toStr
      rw [isVisible_joinedValue]
      cases (line :: lines).all HeaderValue.isVisible with
      | false => rfl
      | true =>
          rw [if_pos rfl, if_pos rfl, text_joinedValue]
          dsimp only
          rw [splitOn_intercalate_flatMap ',' _ (by simp), List.flatMap_map]

/-- Joining changes nothing else that decides about storing. -/
theorem accepts_joinCacheControl_iff {plan : CachePlan} {status : ℕ}
    {headers requestHeaders : HeaderMap} {vary : List Str} {now : ℕ} :
    Accepts plan status (joinCacheControl headers) requestHeaders vary now ↔
      forbids (allItems headers) = false ∧
        OtherwiseAccepts plan status headers requestHeaders vary now := by
  have hcookie : (joinCacheControl headers).containsKey .setCookie =
      headers.containsKey .setCookie := by
    rw [Bool.eq_iff_iff, MultiMap.containsKey_iff, MultiMap.containsKey_iff,
      getAll_joinCacheControl_of_ne headers (by decide)]
  have hvary : parseVary (joinCacheControl headers) = parseVary headers := by
    unfold parseVary
    rw [getAll_joinCacheControl_of_ne headers (by decide)]
  have hexpires : expiresAt (joinCacheControl headers) = expiresAt headers := by
    unfold expiresAt MultiMap.get
    rw [getAll_joinCacheControl_of_ne headers (by decide)]
  rw [accepts_iff, firstItems_joinCacheControl]
  unfold OtherwiseAccepts
  rw [hcookie, hvary, hexpires]

/-! ## Obeying the directives -/

/-- **Storage directives are obeyed however they are written.** -/
structure ObeysDirectives (headers : HeaderMap) : Prop where
  /-- `no-store` and `private` keep the response out of the cache. -/
  unstored : Declares headers "no-store".toList ∨ Declares headers "private".toList →
    ∀ plan status requestHeaders es result,
      Trace (beginWrite plan status headers requestHeaders) es result → result = none
  /-- `no-cache` makes every entry one that is never fresh. -/
  revalidated : Declares headers "no-cache".toList →
    ∀ plan status requestHeaders es writer,
      Trace (beginWrite plan status headers requestHeaders) es (some writer) →
        writer.entry.revalidate = true ∧ ∀ now, isFresh writer.entry now = false
  /-- Several lines decide as the joined line does. -/
  joined : ∀ plan status requestHeaders es revalidate,
    (∃ writer, Trace (beginWrite plan status headers requestHeaders) es (some writer) ∧
        writer.entry.revalidate = revalidate) ↔
      ∃ writer, Trace (beginWrite plan status (joinCacheControl headers) requestHeaders) es
          (some writer) ∧ writer.entry.revalidate = revalidate

/-- Whether a run stores an entry, and with which flag. -/
theorem exists_writer_iff {plan : CachePlan} {status : ℕ} {headers requestHeaders : HeaderMap}
    {es : List (Event Io)} {revalidate : Bool} :
    (∃ writer, Trace (beginWrite plan status headers requestHeaders) es (some writer) ∧
        writer.entry.revalidate = revalidate) ↔
      lists (firstItems headers) "no-cache".toList = revalidate ∧
        ∃ vary created accessed now tempId,
          Accepts plan status headers requestHeaders vary now ∧
            es = beginWriteEvents (tempBodyPath plan.key tempId) created accessed now tempId := by
  rw [← cacheControlRequiresRevalidation_eq]
  constructor
  · rintro ⟨writer, htrace, hflag⟩
    obtain ⟨vary, created, accessed, now, tempId, haccepts, rfl, rfl⟩ :=
      beginWrite_trace_iff.mp htrace
    exact ⟨hflag, vary, created, accessed, now, tempId, haccepts, rfl⟩
  · rintro ⟨hflag, vary, created, accessed, now, tempId, haccepts, rfl⟩
    exact ⟨_, beginWrite_trace_iff.mpr ⟨vary, created, accessed, now, tempId, haccepts, rfl, rfl⟩,
      hflag⟩

/-- No run stores anything exactly when the response is refused. -/
theorem never_stored_iff {headers : HeaderMap} :
    (∀ plan status requestHeaders es result,
        Trace (beginWrite plan status headers requestHeaders) es result → result = none) ↔
      RefusedRegardless headers ∨ forbids (firstItems headers) = true := by
  constructor
  · intro h
    by_contra hnot
    rw [not_or, Bool.not_eq_true] at hnot
    obtain ⟨plan, status, requestHeaders, vary, now, haccepts⟩ :=
      exists_accepts_iff.mpr ⟨hnot.2, hnot.1⟩
    obtain ⟨es, writer, htrace, -⟩ := haccepts.exists_writer
    cases h plan status requestHeaders es _ htrace
  · intro h plan status requestHeaders es result htrace
    cases result with
    | none => rfl
    | some writer =>
        obtain ⟨vary, created, accessed, now, tempId, haccepts, -, -⟩ :=
          beginWrite_trace_iff.mp htrace
        obtain ⟨hforbids, hregardless⟩ := exists_accepts_iff.mp ⟨_, _, _, _, _, haccepts⟩
        rcases h with h | h
        · exact absurd h hregardless
        · rw [hforbids] at h
          cases h

/-- Every stored entry must be revalidated exactly when none is stored or the
first line lists `no-cache`. -/
theorem always_revalidated_iff {headers : HeaderMap} :
    (∀ plan status requestHeaders es writer,
        Trace (beginWrite plan status headers requestHeaders) es (some writer) →
          writer.entry.revalidate = true ∧ ∀ now, isFresh writer.entry now = false) ↔
      RefusedRegardless headers ∨ forbids (firstItems headers) = true ∨
        lists (firstItems headers) "no-cache".toList = true := by
  constructor
  · intro h
    by_contra hnot
    rw [not_or, not_or, Bool.not_eq_true] at hnot
    obtain ⟨plan, status, requestHeaders, vary, now, haccepts⟩ :=
      exists_accepts_iff.mpr ⟨hnot.2.1, hnot.1⟩
    obtain ⟨es, writer, htrace, hentry⟩ := haccepts.exists_writer
    have hflag := (h plan status requestHeaders es writer htrace).1
    rw [hentry] at hflag
    exact hnot.2.2 ((cacheControlRequiresRevalidation_eq headers).symm.trans hflag)
  · intro h plan status requestHeaders es writer htrace
    obtain ⟨vary, created, accessed, now, tempId, haccepts, rfl, -⟩ :=
      beginWrite_trace_iff.mp htrace
    obtain ⟨hforbids, hregardless⟩ := exists_accepts_iff.mp ⟨_, _, _, _, _, haccepts⟩
    have hflag : cacheControlRequiresRevalidation headers = true := by
      rw [cacheControlRequiresRevalidation_eq]
      rcases h with h | h | h
      · exact absurd h hregardless
      · rw [hforbids] at h
        cases h
      · exact h
    refine ⟨hflag, fun now' => ?_⟩
    show (!cacheControlRequiresRevalidation headers && _) = false
    rw [hflag]
    rfl

/-- The runs that store an entry, but for `Cache-Control`. -/
def OtherwiseStores (plan : CachePlan) (status : ℕ) (headers requestHeaders : HeaderMap)
    (es : List (Event Io)) : Prop :=
  ∃ vary created accessed now tempId,
    OtherwiseAccepts plan status headers requestHeaders vary now ∧
      es = beginWriteEvents (tempBodyPath plan.key tempId) created accessed now tempId

theorem exists_otherwiseStores_iff {headers : HeaderMap} :
    (∃ plan status requestHeaders es,
        OtherwiseStores plan status headers requestHeaders es) ↔ ¬ RefusedRegardless headers := by
  rw [← exists_otherwiseAccepts_iff]
  constructor
  · rintro ⟨plan, status, requestHeaders, es, vary, _, _, now, _, haccepts, -⟩
    exact ⟨plan, status, requestHeaders, vary, now, haccepts⟩
  · rintro ⟨plan, status, requestHeaders, vary, now, haccepts⟩
    exact ⟨plan, status, requestHeaders, _, vary, 0, 0, now, 0, haccepts, rfl⟩

/-- The joined map decides alike exactly when everything is refused anyway or the
first line alone decides as all lines do. -/
theorem same_decision_iff {headers : HeaderMap} :
    (∀ plan status requestHeaders es revalidate,
      (∃ writer, Trace (beginWrite plan status headers requestHeaders) es (some writer) ∧
          writer.entry.revalidate = revalidate) ↔
        ∃ writer, Trace (beginWrite plan status (joinCacheControl headers) requestHeaders) es
            (some writer) ∧ writer.entry.revalidate = revalidate) ↔
      RefusedRegardless headers ∨
        (forbids (firstItems headers) = forbids (allItems headers) ∧
          (forbids (firstItems headers) = false →
            lists (firstItems headers) "no-cache".toList =
              lists (allItems headers) "no-cache".toList)) := by
  -- Each side is one condition on the lines and one on everything else; the one on
  -- everything else is the same for both maps.
  have hfirst : ∀ plan status requestHeaders es revalidate,
      (∃ writer, Trace (beginWrite plan status headers requestHeaders) es (some writer) ∧
          writer.entry.revalidate = revalidate) ↔
        lists (firstItems headers) "no-cache".toList = revalidate ∧
          forbids (firstItems headers) = false ∧
            OtherwiseStores plan status headers requestHeaders es := by
    intro plan status requestHeaders es revalidate
    simp only [exists_writer_iff, accepts_iff, OtherwiseStores, and_assoc, exists_and_left]
  have hall : ∀ plan status requestHeaders es revalidate,
      (∃ writer, Trace (beginWrite plan status (joinCacheControl headers) requestHeaders) es
            (some writer) ∧ writer.entry.revalidate = revalidate) ↔
        lists (allItems headers) "no-cache".toList = revalidate ∧
          forbids (allItems headers) = false ∧
            OtherwiseStores plan status headers requestHeaders es := by
    intro plan status requestHeaders es revalidate
    simp only [exists_writer_iff, accepts_joinCacheControl_iff, firstItems_joinCacheControl,
      OtherwiseStores, and_assoc, exists_and_left]
  simp only [hfirst, hall]
  constructor
  · intro h
    by_cases hrefused : RefusedRegardless headers
    · exact .inl hrefused
    · obtain ⟨plan, status, requestHeaders, es, hstores⟩ :=
        exists_otherwiseStores_iff.mpr hrefused
      have h := h plan status requestHeaders es
      simp only [hstores, and_true] at h
      -- A run that stores one of the maps stores the other, with the same flag.
      refine .inr ⟨?_, fun hforbids => ?_⟩
      · rw [Bool.eq_iff_iff, ← not_iff_not, Bool.not_eq_true, Bool.not_eq_true]
        constructor
        · intro hf
          exact ((h _).mp ⟨rfl, hf⟩).2
        · intro hf
          exact ((h _).mpr ⟨rfl, hf⟩).2
      · exact ((h _).mp ⟨rfl, hforbids⟩).1.symm
  · rintro (h | ⟨hforbids, hflag⟩) plan status requestHeaders es revalidate
    · have hno : ¬ OtherwiseStores plan status headers requestHeaders es := fun hstores =>
        exists_otherwiseStores_iff.mp ⟨_, _, _, _, hstores⟩ h
      simp [hno]
    · rw [← hforbids]
      constructor
      · rintro ⟨hr, hf, hstores⟩
        exact ⟨(hflag hf).symm.trans hr, hf, hstores⟩
      · rintro ⟨hr, hf, hstores⟩
        exact ⟨(hflag hf).trans hr, hf, hstores⟩

/-- **When the directives are obeyed.**  Either nothing with these headers is
stored whatever its `Cache-Control` says, or the first line alone gives every
answer: it forbids storing when `no-store` or `private` is declared anywhere, it
forbids storing or lists `no-cache` when that is declared anywhere, and it
decides as all lines together do. -/
theorem obeys_directives_iff (headers : HeaderMap) :
    ObeysDirectives headers ↔ RefusedRegardless headers ∨
      ((Declares headers "no-store".toList ∨ Declares headers "private".toList →
          forbids (firstItems headers) = true) ∧
        (Declares headers "no-cache".toList →
          forbids (firstItems headers) = true ∨
            lists (firstItems headers) "no-cache".toList = true) ∧
        forbids (firstItems headers) = forbids (allItems headers) ∧
        (forbids (firstItems headers) = false →
          lists (firstItems headers) "no-cache".toList =
            lists (allItems headers) "no-cache".toList)) := by
  have hobeys : ObeysDirectives headers ↔ _ ∧ _ ∧ _ :=
    ⟨fun h => ⟨h.unstored, h.revalidated, h.joined⟩, fun h => ⟨h.1, h.2.1, h.2.2⟩⟩
  rw [hobeys, never_stored_iff, always_revalidated_iff, same_decision_iff]
  by_cases hrefused : RefusedRegardless headers
  · simp [hrefused]
  · simp [hrefused]

end Lifetimes

/-- A response whose `private` has an argument. -/
def quotedPrivate : HeaderMap :=
  [(.cacheControl, .fromStatic "max-age=60, private=\"x-name\"".toList)]

/-- **An argument hides `private`**: the response is stored. -/
theorem private_with_argument_is_stored : ¬ @ObeysDirectives reference quotedPrivate := by
  intro h
  have haccepts : @Accepts reference ⟨[], 60⟩ 200 quotedPrivate [] [] 0 :=
    @Accepts.mk reference ⟨[], 60⟩ 200 quotedPrivate [] _ _ (by decide) (by decide) (by decide)
      (by decide) (by decide)
  have hdeclares : Declares quotedPrivate "private".toList :=
    ⟨_, List.mem_cons_self, " private=\"x-name\"".toList, by decide, by decide⟩
  obtain ⟨es, writer, htrace, -⟩ := @Accepts.exists_writer reference _ _ _ _ _ _ haccepts
  have hnone := @ObeysDirectives.unstored reference _ h (.inr hdeclares) _ _ _ _ _ htrace
  cases hnone

end Corsget
