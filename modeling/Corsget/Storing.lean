import Corsget.Proxy

/-!
# What is stored

`begin_write` as a whole: which responses it accepts, and the entry it then
records (`beginWrite_trace_iff`).  Every later statement about stored entries
goes through this one.
-/

namespace Corsget

open Text Effect

/-! ## The stored lines -/

/-- **The lines of a response that are stored**: those of a stored class with a
visible value. -/
def storedLines (headers : HeaderMap) : HeaderMap :=
  headers.filter fun line => !isNotStored line.1 && line.2.isVisible

theorem cacheHeaders_eq (headers : HeaderMap) :
    cacheHeaders headers =
      (storedLines headers).map fun line => (line.1.text, line.2.text) := by
  unfold cacheHeaders storedLines
  induction headers with
  | nil => rfl
  | cons line headers ih =>
      obtain ⟨name, value⟩ := line
      rw [List.filterMap_cons, List.filter_cons]
      dsimp only
      cases hname : isNotStored name with
      | true => simpa using ih
      | false =>
          cases hvalue : value.isVisible with
          | false => simpa [HeaderValue.toStr, hvalue] using ih
          | true => simpa [HeaderValue.toStr, hvalue] using ih

/-- A stored line is read back as it was. -/
theorem storedLine_eq {name : HeaderName} {value : HeaderValue} (hname : isNotStored name = false)
    (hvalue : value.isVisible = true) :
    storedLine (name.text, value.text) = some (name, value) := by
  have hcors : isCorsResponseHeader name.text = false := by
    unfold isNotStored at hname
    simp only [Bool.or_eq_false_iff] at hname
    exact hname.1.2
  unfold storedLine
  dsimp only
  rw [HeaderName.fromBytes_text, HeaderValue.fromStr_toStr (HeaderValue.toStr_eq_some.mpr
    ⟨hvalue, rfl⟩)]
  dsimp only
  rw [hcors]
  rfl

/-- **The string round trip of the stored headers** loses nothing but what is not
stored in the first place. -/
theorem headersFromEntry_eq {entry : CacheEntry} {headers : HeaderMap}
    (h : entry.headers = cacheHeaders headers) : headersFromEntry entry = storedLines headers := by
  unfold headersFromEntry
  rw [h, cacheHeaders_eq, List.filterMap_map]
  have hlines : ∀ line ∈ storedLines headers,
      (storedLine ∘ fun line => (line.1.text, line.2.text)) line = some line := by
    intro line hline
    have hkept := (List.mem_filter.mp hline).2
    simp only [Bool.and_eq_true, Bool.not_eq_true'] at hkept
    exact storedLine_eq hkept.1 hkept.2
  rw [List.filterMap_congr hlines]
  exact List.filterMap_some

/-- The stored values of a name. -/
theorem getAll_storedLines (headers : HeaderMap) (name : HeaderName) :
    (storedLines headers).getAll name =
      if isNotStored name then [] else (headers.getAll name).filter HeaderValue.isVisible := by
  unfold storedLines
  rw [MultiMap.getAll_filter]
  cases h : isNotStored name with
  | true => simp [h]
  | false => simp [h]

/-! ## The parsed `Vary` names -/

/-- An invariant that each step of a fallible fold keeps, holds of its result. -/
theorem foldlM_keeps {α β : Type} {f : β → α → Option β} {I : β → Prop}
    (hstep : ∀ b a b', I b → f b a = some b' → I b') (l : List α) :
    ∀ {b b'}, I b → l.foldlM f b = some b' → I b' := by
  induction l with
  | nil =>
      intro b b' hb h
      cases h
      exact hb
  | cons a l ih =>
      intro b b' hb h
      rw [List.foldlM_cons] at h
      obtain ⟨b₁, h₁, h⟩ := Option.bind_eq_some_iff.mp h
      exact ih (hstep b a b₁ hb h₁) h

/-- Every name `parse_vary` collects is one of the supported headers. -/
theorem supported_of_mem_parseVary {headers : HeaderMap} {vary : List Str}
    (h : parseVary headers = some vary) :
    ∀ text ∈ vary, text ∈ supportedVaryHeaders.map HeaderName.text := by
  let Supported (vary : List Str) : Prop :=
    ∀ text ∈ vary, text ∈ supportedVaryHeaders.map HeaderName.text
  have hline : ∀ (vary : List Str) (value : HeaderValue) (vary' : List Str),
      Supported vary → parseVaryLine vary value = some vary' → Supported vary' := by
    intro vary value vary' hvary hparse
    obtain ⟨text, -, hparse⟩ := Option.bind_eq_some_iff.mp hparse
    refine foldlM_keeps (I := Supported) ?_ _ hvary hparse
    intro b name b' hb hname
    split at hname
    · cases hname
    · next hsupported =>
      rw [not_or, not_not] at hsupported
      split at hname
      · cases hname
        exact hb
      · cases hname
        intro text htext
        rcases List.mem_append.mp htext with hmem | hmem
        · exact hb text hmem
        · rw [List.mem_singleton.mp hmem]
          exact hsupported.2
  exact foldlM_keeps (I := Supported) hline _ (fun text htext => by cases htext) h

section Accepting

variable [Crates]

/-- **The responses `begin_write` accepts** at time `now`, with the `Vary` names
it parsed. -/
structure Accepts (plan : CachePlan) (status : ℕ) (headers requestHeaders : HeaderMap)
    (vary : List Str) (now : ℕ) : Prop where
  successful : 200 ≤ status ∧ status < 300
  cacheable : cacheableHeaders headers = true
  varied : parseVary headers = some vary
  anonymous : requestHeaders.containsKey .authorization = false
  lifetime : effectiveTtl plan.ttl headers now ≠ 0

/-- The writer `begin_write` returns, from its three readings of the clock and
its temporary-file number. -/
def newWriter (plan : CachePlan) (status : ℕ) (headers requestHeaders : HeaderMap)
    (vary : List Str) (created accessed now tempId : ℕ) : CacheWriter where
  entry := CacheEntry.record plan status headers requestHeaders vary (created / 10 ^ 9)
    (accessed / 10 ^ 9) now
  tempBody := tempBodyPath plan.key tempId
  bodyLen := 0

/-- `begin_write` once nothing but the lifetime is in the way: three readings of the clock, of
which the third decides, and the temporary file. -/
def openWriter (plan : CachePlan) (status : ℕ) (headers requestHeaders : HeaderMap)
    (vary : List Str) : Prog Io (Option CacheWriter) :=
  .op .systemTime fun created => .op .systemTime fun accessed => .op .systemTime fun now =>
    if effectiveTtl plan.ttl headers now = 0 then .ret none
    else
      .op .tempCounter fun tempId =>
        .op (.fs (.create (tempBodyPath plan.key tempId))) fun
          | .error _ => .ret none
          | .ok () =>
              .ret (some
                (newWriter plan status headers requestHeaders vary created accessed now tempId))

/-- **The early returns of `begin_write`**: the response is refused, whatever the time, or the
writer is opened, and then only the lifetime decides. -/
theorem beginWrite_cases (plan : CachePlan) (status : ℕ) (headers requestHeaders : HeaderMap) :
    beginWrite plan status headers requestHeaders = .ret none ∧
        (∀ vary now, ¬Accepts plan status headers requestHeaders vary now) ∨
      ∃ vary, beginWrite plan status headers requestHeaders =
          openWriter plan status headers requestHeaders vary ∧
        ∀ vary' now, Accepts plan status headers requestHeaders vary' now ↔
          vary' = vary ∧ effectiveTtl plan.ttl headers now ≠ 0 := by
  unfold beginWrite
  split
  · next hbad =>
    refine .inl ⟨rfl, fun vary now haccepts => ?_⟩
    rcases hbad with hstatus | hheaders
    · exact hstatus haccepts.successful
    · rw [haccepts.cacheable] at hheaders
      cases hheaders
  · next hgood =>
    rw [not_or, not_not, Bool.not_eq_false] at hgood
    split
    · next hvary =>
      refine .inl ⟨rfl, fun vary now haccepts => ?_⟩
      rw [haccepts.varied] at hvary
      cases hvary
    · next vary hvary =>
      split
      · next hauth =>
        refine .inl ⟨rfl, fun vary now haccepts => ?_⟩
        rw [haccepts.anonymous] at hauth
        cases hauth
      · next hauth =>
        refine .inr ⟨vary, ?_, fun vary' now => ⟨fun haccepts => ?_, ?_⟩⟩
        · simp only [Io.nowSeconds_bind, Io.systemTime_bind, Io.fetchAdd_bind, Io.create_bind]
          unfold openWriter
          congr
          funext created
          congr
          funext accessed
          congr
          funext now
          congr
          funext tempId
          congr
          funext r
          cases r with
          | error e => rfl
          | ok u => rfl
        · refine ⟨?_, haccepts.lifetime⟩
          rw [haccepts.varied] at hvary
          exact Option.some.inj hvary
        · rintro ⟨rfl, hlifetime⟩
          exact ⟨hgood.1, hgood.2, hvary, Bool.not_eq_true _ ▸ hauth, hlifetime⟩

/-- The operations of a successful `begin_write`. -/
def beginWriteEvents (tempBody : Str) (created accessed now tempId : ℕ) : List (Event Io) :=
  [⟨.systemTime, created⟩, ⟨.systemTime, accessed⟩, ⟨.systemTime, now⟩, ⟨.tempCounter, tempId⟩,
    ⟨.fs (.create tempBody), (.ok () : Except IoError Unit)⟩]

/-- **The specification of `begin_write`.**  It returns a writer in exactly the
runs in which the response is accepted, and the writer is the new one. -/
theorem beginWrite_trace_iff {plan : CachePlan} {status : ℕ} {headers requestHeaders : HeaderMap}
    {es : List (Event Io)} {writer : CacheWriter} :
    Trace (beginWrite plan status headers requestHeaders) es (some writer) ↔
      ∃ vary created accessed now tempId,
        Accepts plan status headers requestHeaders vary now ∧
          writer = newWriter plan status headers requestHeaders vary created accessed now tempId ∧
          es = beginWriteEvents writer.tempBody created accessed now tempId := by
  rcases beginWrite_cases plan status headers requestHeaders with
    ⟨hnone, hrefused⟩ | ⟨vary, hopens, haccepts⟩
  · rw [hnone]
    constructor
    · intro h
      cases (Trace.ret_iff.mp h).2
    · rintro ⟨vary, created, accessed, now, tempId, haccepts, -, -⟩
      exact absurd haccepts (hrefused vary now)
  · rw [hopens]
    constructor
    · intro h
      obtain ⟨created, es₁, rfl, h₁⟩ := Trace.op_iff.mp h
      obtain ⟨accessed, es₂, rfl, h₂⟩ := Trace.op_iff.mp h₁
      obtain ⟨now, es₃, rfl, h₃⟩ := Trace.op_iff.mp h₂
      split at h₃
      · cases (Trace.ret_iff.mp h₃).2
      · next httl =>
        obtain ⟨tempId, es₄, rfl, h₄⟩ := Trace.op_iff.mp h₃
        obtain ⟨outcome, es₅, rfl, h₅⟩ := Trace.op_iff.mp h₄
        cases outcome with
        | error e => cases (Trace.ret_iff.mp h₅).2
        | ok _ =>
            obtain ⟨rfl, hwriter⟩ := Trace.ret_iff.mp h₅
            obtain rfl := Option.some.inj hwriter
            exact ⟨vary, created, accessed, now, tempId, (haccepts _ _).mpr ⟨rfl, httl⟩, rfl, rfl⟩
    · rintro ⟨vary', created, accessed, now, tempId, haccepted, rfl, rfl⟩
      obtain ⟨rfl, httl⟩ := (haccepts _ _).mp haccepted
      refine .op (.op (.op ?_))
      rw [if_neg httl]
      exact .op (.op (.ret _))

/-- An accepted response has its writer in some run. -/
theorem Accepts.exists_writer {plan : CachePlan} {status : ℕ} {headers requestHeaders : HeaderMap}
    {vary : List Str} {now : ℕ} (h : Accepts plan status headers requestHeaders vary now) :
    ∃ es writer, Trace (beginWrite plan status headers requestHeaders) es (some writer) ∧
      writer.entry = CacheEntry.record plan status headers requestHeaders vary 0 0 now :=
  ⟨_, _, beginWrite_trace_iff.mpr ⟨vary, 0, 0, now, 0, h, rfl, rfl⟩, rfl⟩

/-- **The specification of a live response**: within the size cap it takes status,
headers and body from the upstream, and the writer from `begin_write`. -/
theorem liveResponse_trace_iff {state : AppState} {requestHeaders : HeaderMap} {bucket : Str}
    {target finalUrl : Url} {plan : Option CachePlan} {revalidated : Bool}
    {upstream : UpstreamResponse} {es : List (Event Io)} {live : Response} :
    Trace (liveResponse state requestHeaders bucket target finalUrl plan revalidated upstream) es
        (.ok live) ↔
      upstream.contentLength.filter (ResultSizeGuard.new state.resultMax).wouldExceed = none ∧
        ∃ writer, Trace (beginWritePlanned state plan upstream requestHeaders) es writer ∧
          live = {
            status := upstream.status
            headers := liveResponseHeaders state target finalUrl plan revalidated upstream.headers
            body := .live upstream.body bucket (ResultSizeGuard.new state.resultMax) state.cache
              writer } := by
  unfold liveResponse
  dsimp only
  cases upstream.contentLength.filter (ResultSizeGuard.new state.resultMax).wouldExceed with
  | some contentLength =>
      constructor
      · intro h
        cases (Trace.ret_iff.mp h).2
      · rintro ⟨h, -⟩
        cases h
  | none =>
      constructor
      · intro h
        obtain ⟨es₁, writer, es₂, rfl, hwriter, hrest⟩ := Trace.bind_iff.mp h
        obtain ⟨rfl, hlive⟩ := Trace.ret_iff.mp hrest
        exact ⟨rfl, writer, by simpa using hwriter, Except.ok.inj hlive⟩
      · rintro ⟨-, writer, hwriter, rfl⟩
        exact Trace.bind_iff.mpr ⟨es, writer, [], by simp, hwriter, .ret _⟩

end Accepting

end Corsget
