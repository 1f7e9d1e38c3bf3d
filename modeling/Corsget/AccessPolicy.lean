import Corsget.Footprint

/-!
# The access policy over a whole request

The target list, the origin list and the rate-limit tiers guard everything a
request does: `upstream_requests_respect_policy` says so for **every** behaviour
of the environment, that is for every sequence of upstream statuses and
`Location` values, every cache content and every answer of the limiter.

The two halves of the argument are different in kind.  That each request goes to
a permitted URL, and that there are at most `maxRedirects + 1` of them, is read
off the program (`serve_confined`, `serve_sends`).  That a refused tier stops
the request is about the **order** of its operations: the checks come before
everything else, and only a run of the tiers in which all are allowed goes on
(`checkTiers_trace`).
-/

namespace Corsget

open Text Effect

/-- A limiter answer that does not let the request through. -/
def IsRefusal (e : Event Io) : Prop :=
  ∃ (key : RateLimitKey) (quota : Quota) (answer : Except Str Snapshot),
    e = ⟨.checkLimit key quota, answer⟩ ∧
      ∀ snapshot, answer = .ok snapshot → snapshot.allowed = false

/-- Whether an operation is one of the cache directory's. -/
def IoOp.touchesStore : IoOp → Bool
  | .fs _ => true
  | .tempCounter => true
  | _ => false

/-- Nothing was sent, the cache directory was not touched, and the answer, if
there is one, is not a cached body. -/
structure Untouched (es : List (Event Io)) (result : Except AppError Response) : Prop where
  unsent : ∀ e ∈ es, e.1.isSend = false
  unstored : ∀ e ∈ es, e.1.touchesStore = false
  uncached : ∀ response, result = .ok response →
    ∀ path bucket guard, response.body ≠ .cached path bucket guard

section Requests

variable [Crates]

/-- **The access policy**, as a property of what a request did and answered. -/
structure RespectsPolicy (state : AppState) (uri : OriginalUri) (key : RateLimitKey)
    (es : List (Event Io)) (result : Except AppError Response) : Prop where
  /-- Every request goes to a permitted URL. -/
  permitted : ∀ request answer, (⟨.send request, answer⟩ : Event Io) ∈ es →
    Permitted state key.origin request.url
  /-- A target that is not permitted stops everything. -/
  refused : (∀ target, parseTargetUrl uri = .ok target → ¬ Permitted state key.origin target) →
    Untouched es result
  /-- So does a tier that does not allow the request. -/
  limited : (∃ e ∈ es, IsRefusal e) → Untouched es result
  /-- The number of requests is bounded. -/
  bounded : es.countP (fun e => e.1.isSend) ≤ state.maxRedirects + 1

/-! ## Nothing happens before the checks -/

omit [Crates] in
/-- A run within no rights at all leaves everything untouched. -/
theorem untouched_of_confined {es : List (Event Io)} {result : Except AppError Response}
    {c : Prop} (hes : ∀ e ∈ es, Confined ⟨fun _ => False, False, c⟩ e.1)
    (hresult : Answered False result) : Untouched es result where
  unsent := by
    rintro ⟨o, r⟩ he
    have ho := hes _ he
    cases o with
    | send request => exact ho.elim
    | _ => rfl
  unstored := by
    rintro ⟨o, r⟩ he
    have ho := hes _ he
    cases o with
    | fs o => exact ho.elim
    | tempCounter => exact ho.elim
    | _ => rfl
  uncached := by
    intro response h path bucket guard hbody
    have hwithin := hresult response h
    rw [hbody] at hwithin
    exact hwithin

omit [Crates] in
/-- **The tiers.**  A run of the checks in which one was refused does not let
the request through. -/
theorem checkTiers_trace {key : RateLimitKey} (tiers : List LimitTier) :
    ∀ {es r}, Trace (checkTiers key tiers) es r → (∃ e ∈ es, IsRefusal e) → r ≠ .ok none := by
  induction tiers with
  | nil =>
      rintro es r h ⟨e, he, -⟩
      obtain ⟨rfl, rfl⟩ := Trace.ret_iff.mp h
      cases he
  | cons tier rest ih =>
      intro es r h hrefused
      unfold checkTiers at h
      simp only [Io.checkLimit_bind] at h
      obtain ⟨answer, es, rfl, htail⟩ := Trace.op_iff.mp h
      cases answer with
      | error e =>
          obtain ⟨rfl, rfl⟩ := Trace.ret_iff.mp htail
          intro h
          cases h
      | ok snapshot =>
          dsimp only at htail
          split at htail
          · next hallowed =>
            -- The first tier was not the refused one.
            refine ih htail ?_
            obtain ⟨e, he, key', quota', answer', rfl, hanswer⟩ := hrefused
            rcases List.mem_cons.mp he with heq | hmem
            · obtain ⟨hop, hres⟩ := Sigma.mk.inj heq
              cases hop
              have hfalse := hanswer snapshot (eq_of_heq hres)
              rw [hallowed] at hfalse
              cases hfalse
            · exact ⟨_, hmem, key', quota', answer', rfl, hanswer⟩
          · obtain ⟨rfl, rfl⟩ := Trace.ret_iff.mp htail
            intro h
            cases h

/-- What follows a target that is not permitted. -/
theorem proxyHandler_of_not_permitted {state : AppState} {uri : OriginalUri} {key : RateLimitKey}
    {requestHeaders : HeaderMap}
    (h : ∀ target, parseTargetUrl uri = .ok target → ¬ Permitted state key.origin target) :
    ∃ e, proxyHandler state uri key requestHeaders = .ret (.error e) := by
  unfold proxyHandler
  cases htarget : parseTargetUrl uri with
  | error e => exact ⟨e, rfl⟩
  | ok target =>
      dsimp only
      cases checkScheme target with
      | error e => exact ⟨e, rfl⟩
      | ok _ =>
          dsimp only
          cases hpolicy : validateTargetPolicy state target key.origin with
          | error e => exact ⟨e, rfl⟩
          | ok _ => exact absurd (validateTargetPolicy_eq_ok.mp hpolicy) (h target htarget)

/-- What follows a permitted target: the tiers, then the admitted request. -/
theorem proxyHandler_of_permitted {state : AppState} {uri : OriginalUri} {key : RateLimitKey}
    {requestHeaders : HeaderMap} {target : Url} (htarget : parseTargetUrl uri = .ok target)
    (h : Permitted state key.origin target) :
    proxyHandler state uri key requestHeaders = (do
      match ← checkTiers key state.rateLimit with
      | .error e => return .error e
      | .ok (some response) => return .ok response
      | .ok none => answerAdmitted state key requestHeaders target) := by
  have hscheme : checkScheme target = .ok () := by
    unfold checkScheme
    exact if_pos h.1
  unfold proxyHandler
  rw [htarget]
  dsimp only
  rewrite [hscheme, validateTargetPolicy_eq_ok.mpr h]
  rfl

/-- What a request does with the outcome of its tiers. -/
def afterTiers (state : AppState) (key : RateLimitKey) (requestHeaders : HeaderMap) (target : Url)
    (outcome : Except AppError (Option Response)) : Prog Io (Except AppError Response) := do
  match outcome with
  | .error e => deliver (.error e)
  | .ok (some response) => deliver (.ok response)
  | .ok none =>
      let result ← answerAdmitted state key requestHeaders target
      deliver result

/-- A request with a permitted target is its tiers and what follows them. -/
theorem serve_of_permitted {state : AppState} {uri : OriginalUri} {key : RateLimitKey}
    {requestHeaders : HeaderMap} {target : Url} (htarget : parseTargetUrl uri = .ok target)
    (h : Permitted state key.origin target) :
    serve state uri key requestHeaders =
      checkTiers key state.rateLimit >>= afterTiers state key requestHeaders target := by
  unfold serve
  rw [proxyHandler_of_permitted htarget h, Prog.bind_assoc]
  refine congrArg _ (funext fun outcome => ?_)
  rcases outcome with e | (_ | response)
  · rfl
  · rfl
  · rfl

/-- After a tier refused, the rest of a request has no rights. -/
theorem afterTiers_confined_of_ne {state : AppState} {key : RateLimitKey}
    {requestHeaders : HeaderMap} {target : Url} {outcome : Except AppError (Option Response)}
    {rights : Rights}
    (hbody : ∀ response, outcome = .ok (some response) → response.body.Within rights.store)
    (hne : outcome ≠ .ok none) :
    Meets (Confined rights) (Answered rights.store)
      (afterTiers state key requestHeaders target outcome) := by
  unfold afterTiers
  rcases outcome with e | (_ | response)
  · intro response h
    cases h
  · exact absurd rfl hne
  · refine deliver_confined fun response' h => ?_
    cases h
    exact hbody response rfl

/-- After the tiers nothing is checked again. -/
theorem afterTiers_confined {state : AppState} {key : RateLimitKey}
    {requestHeaders : HeaderMap} {target : Url} {outcome : Except AppError (Option Response)}
    (hpermitted : Permitted state key.origin target) :
    Meets (Confined ⟨fun _ => True, True, False⟩) (fun _ => True)
      (afterTiers state key requestHeaders target outcome) := by
  have hdeliver : ∀ result, Meets (Confined ⟨fun _ => True, True, False⟩) (fun _ => True)
      (deliver result) := fun result =>
    (deliver_confined (answered_true result)).mono (fun _ h => h) fun _ _ => trivial
  unfold afterTiers
  rcases outcome with e | (_ | response)
  · exact hdeliver _
  · exact (answerAdmitted_confined (fun _ _ => trivial) (fun _ => trivial) hpermitted).bind
      fun result _ => hdeliver result
  · exact hdeliver _

omit [Crates] in
/-- A run in which nothing may be checked has no refusal. -/
theorem not_isRefusal_of_confined {rights : Rights} (hchecks : ¬ rights.checks) {e : Event Io}
    (he : Confined rights e.1) : ¬ IsRefusal e := by
  rintro ⟨key, quota, answer, rfl, -⟩
  exact hchecks he

/-- **A refused tier stops the request.** -/
theorem untouched_of_refusal {state : AppState} {uri : OriginalUri} {key : RateLimitKey}
    {requestHeaders : HeaderMap} {es : List (Event Io)} {result : Except AppError Response}
    (htrace : Trace (serve state uri key requestHeaders) es result)
    (hrefused : ∃ e ∈ es, IsRefusal e) : Untouched es result := by
  by_cases hpermitted : ∃ target, parseTargetUrl uri = .ok target ∧
      Permitted state key.origin target
  · obtain ⟨target, htarget, hpermitted⟩ := hpermitted
    rw [serve_of_permitted htarget hpermitted, Trace.bind_iff] at htrace
    obtain ⟨es₁, outcome, es₂, rfl, htiers, hrest⟩ := htrace
    -- After the tiers nothing is checked, so the refusal is one of theirs.
    have hearly : ∃ e ∈ es₁, IsRefusal e := by
      obtain ⟨e, he, hrefusal⟩ := hrefused
      rcases List.mem_append.mp he with hmem | hmem
      · exact ⟨e, hmem, hrefusal⟩
      · have hlate := ((afterTiers_confined hpermitted).of_trace hrest).1 e hmem
        exact absurd hrefusal (not_isRefusal_of_confined id hlate)
    have hne := checkTiers_trace state.rateLimit htiers hearly
    have hfirst : (∀ e ∈ es₁, Confined ⟨fun _ => False, False, True⟩ e.1) ∧ _ :=
      (checkTiers_confined trivial state.rateLimit).of_trace htiers
    have hsecond : (∀ e ∈ es₂, Confined ⟨fun _ => False, False, True⟩ e.1) ∧ _ :=
      (afterTiers_confined_of_ne hfirst.2 hne).of_trace hrest
    refine untouched_of_confined (c := True) (fun e he => ?_) hsecond.2
    rcases List.mem_append.mp he with hmem | hmem
    · exact hfirst.1 e hmem
    · exact hsecond.1 e hmem
  -- A target that is not permitted ends the request before any tier.
  · obtain ⟨e, he⟩ := proxyHandler_of_not_permitted fun target htarget hp =>
      hpermitted ⟨target, htarget, hp⟩
    unfold serve at htrace
    rw [he] at htrace
    obtain ⟨rfl, -⟩ := Trace.ret_iff.mp htrace
    obtain ⟨e, hmem, -⟩ := hrefused
    cases hmem

/-- **No upstream request escapes the policy.**  Against every environment a
request ends, and however the environment answers, the request respects the
policy. -/
theorem upstream_requests_respect_policy (state : AppState) (uri : OriginalUri)
    (key : RateLimitKey) (requestHeaders : HeaderMap) :
    (∀ answer : List (Event Io) → (o : IoOp) → o.Res,
      ∃ es result, Trace (serve state uri key requestHeaders) es result ∧
        ∀ pre e post, es = pre ++ e :: post → e.2 = answer pre e.1) ∧
    ∀ es result, Trace (serve state uri key requestHeaders) es result →
      RespectsPolicy state uri key es result := by
  refine ⟨fun answer => Trace.exists_of_strategy answer _ [], fun es result htrace => ?_⟩
  have hconfined : (∀ e ∈ es,
      Confined ⟨PermittedSend state key.origin requestHeaders, True, True⟩ e.1) ∧ _ :=
    (serve_confined (fun _ h => h) trivial fun _ _ _ => trivial).of_trace htrace
  refine ⟨?_, ?_, untouched_of_refusal htrace, serve_sends.of_trace htrace⟩
  · intro request answer hmem
    exact (hconfined.1 _ hmem).1
  · intro hrefused
    obtain ⟨e, he⟩ := proxyHandler_of_not_permitted hrefused
    unfold serve at htrace
    rw [he] at htrace
    obtain ⟨rfl, rfl⟩ := Trace.ret_iff.mp htrace
    refine ⟨by simp, by simp, ?_⟩
    intro response h
    cases h

end Requests

end Corsget
