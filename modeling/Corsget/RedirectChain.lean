import Corsget.CacheStatus

/-!
# The redirect chain

What a run asks the upstream for is what any client asks for that follows redirects: first the
target, then each time the URL to which the last answer redirects, and no more often than the
configuration allows.  `FollowsRedirects` says so about the hops of a run, in terms of the
answers alone; `fetches_follow_redirects` is the theorem, for every run and every beginning of
one.

A run that ends with a response has come to the end of the chain (`Arrived`): the last answer is
there, and it redirects no further.
-/

namespace Corsget

open Text Effect

/-! ## Hops -/

/-- A hop: a request to the upstream, with its answer. -/
structure Hop where
  request : UpstreamRequest
  answer : Except ClientError UpstreamResponse

/-- The hop that an event is. -/
def hopOf : Event Io → Option Hop
  | ⟨.send request, answer⟩ => some ⟨request, answer⟩
  | _ => none

/-- The hops of a run, in order. -/
def hopsOf (es : List (Event Io)) : List Hop := es.filterMap hopOf

theorem hops_append (es es' : List (Event Io)) :
    hopsOf (es ++ es') = hopsOf es ++ hopsOf es' := List.filterMap_append

/-- A quiet stretch has no hops. -/
theorem hops_eq_nil_of_quiet {es : List (Event Io)} (hquiet : ∀ e ∈ es, Quiet e.1) :
    hopsOf es = [] := by
  refine List.filterMap_eq_nil_iff.mpr fun e he => ?_
  have hone := hquiet e he
  obtain ⟨o, r⟩ := e
  cases o with
  | send request => exact hone.elim
  | _ => rfl

/-- The statuses that redirect. -/
def redirectStatuses : List ℕ := [301, 302, 303, 307, 308]

theorem isFollowableRedirect_iff {status : ℕ} :
    isFollowableRedirect status = true ↔ status ∈ redirectStatuses := by
  simp [isFollowableRedirect, redirectStatuses, or_assoc]

/-- The run has come to the end of a chain: the last answer redirects no further. -/
def Arrived (hops : List Hop) : Prop :=
  ∀ last ∈ hops.getLast?, ∃ resp, last.answer = .ok resp ∧ resp.status ∉ redirectStatuses

section Chain

variable [Crates]

/-- **Where a response redirects**: to its `Location`, read as a URL if it is one and else
against the URL that was asked. -/
structure RedirectsTo (base : Url) (resp : UpstreamResponse) (url : Url) : Prop where
  status : resp.status ∈ redirectStatuses
  location : ∃ location, (resp.headers.get .location).bind HeaderValue.toStr = some location ∧
    (Crates.urlParse location = .ok url ∨
      (∃ e, Crates.urlParse location = .error e) ∧ Crates.urlJoin base location = .ok url)

/-- One hop leads to another. -/
def Leads (e f : Hop) : Prop :=
  ∃ resp, e.answer = .ok resp ∧ RedirectsTo e.request.url resp f.request.url

/-- **Hops that follow redirects** from a target. -/
structure FollowsRedirects (maxRedirects : ℕ) (target : Url) (hops : List Hop) : Prop where
  begins : ∀ first ∈ hops.head?, first.request.url = target
  chained : hops.IsChain Leads
  bounded : hops.length ≤ maxRedirects + 1

namespace FollowsRedirects

variable {maxRedirects : ℕ} {target : Url} {hops : List Hop} {hop : Hop}

theorem nil : FollowsRedirects maxRedirects target [] where
  begins _ h := by cases h
  chained := .nil
  bounded := Nat.zero_le _

/-- The target alone. -/
theorem single (h : hop.request.url = target) : FollowsRedirects maxRedirects target [hop] where
  begins _ hfirst := Option.some.inj hfirst ▸ h
  chained := .singleton hop
  bounded := Nat.le_add_left 1 maxRedirects

/-- One redirect more in front of a chain. -/
theorem cons {url : Url} {resp : UpstreamResponse} (hanswer : hop.answer = .ok resp)
    (hredirects : RedirectsTo hop.request.url resp url)
    (h : FollowsRedirects maxRedirects url hops) :
    FollowsRedirects (maxRedirects + 1) hop.request.url (hop :: hops) where
  begins _ hfirst := Option.some.inj hfirst ▸ rfl
  chained := h.chained.cons fun next hnext => ⟨resp, hanswer, h.begins next hnext ▸ hredirects⟩
  bounded := Nat.succ_le_succ h.bounded

/-- The beginning of a chain is one. -/
theorem of_prefix {begun : List Hop} (h : FollowsRedirects maxRedirects target hops)
    (hbegun : begun <+: hops) : FollowsRedirects maxRedirects target begun where
  begins first hfirst := by
    obtain ⟨rest, rfl⟩ := hbegun
    cases begun with
    | nil => cases hfirst
    | cons hop begun => exact h.begins first hfirst
  chained := h.chained.prefix hbegun
  bounded := hbegun.length_le.trans h.bounded

end FollowsRedirects

/-! ## The loop -/

variable {state : AppState} {key : RateLimitKey} {origin : Origin} {requestHeaders : HeaderMap}
  {bucket : Str} {target url : Url} {plan : Option CachePlan} {cachedEntry : Option CacheEntry}
  {es : List (Event Io)}

/-- The next hop is where the response redirects. -/
theorem redirectsTo_of_nextHop {base : Url} {resp : UpstreamResponse}
    (hstatus : isFollowableRedirect resp.status = true)
    (h : nextHop state origin base resp.headers = .ok url) : RedirectsTo base resp url := by
  have hsame : ∀ u, (validateTargetPolicy state u origin).map (fun _ => u) = .ok url →
      u = url := by
    intro u hu
    cases hpolicy : validateTargetPolicy state u origin with
    | error e =>
        rw [hpolicy] at hu
        cases hu
    | ok _ =>
        rw [hpolicy] at hu
        exact Except.ok.inj hu
  refine ⟨isFollowableRedirect_iff.mp hstatus, ?_⟩
  unfold nextHop at h
  split at h
  · cases h
  · next location hlocation =>
    refine ⟨location, hlocation, ?_⟩
    split at h
    · next parsed hparsed => exact .inl (hsame parsed h ▸ hparsed)
    · next e hparsed =>
      split at h
      · cases h
      · next joined hjoined => exact .inr ⟨⟨e, hparsed⟩, hsame joined h ▸ hjoined⟩

/-- The hop at which a loop that did not fail has ended: an answer that redirects no further,
and the one that is passed on. -/
structure EndsAt (fetched : Fetched) (last : Hop) : Prop where
  arrived : ∃ resp, last.answer = .ok resp ∧ resp.status ∉ redirectStatuses
  final : ∀ resp finalUrl, fetched = .final resp finalUrl →
    last.answer = .ok resp ∧ last.request.url = finalUrl

/-- **One turn is one hop**, at which the loop has ended or behind which it goes on. -/
theorem redirectTurn_hops
    {onward : UpstreamResponse → Prog Io (Except AppError Fetched)}
    {result : Except AppError Fetched}
    (h : Trace (redirectTurn state requestHeaders bucket target plan cachedEntry url onward) es
      result) :
    ∃ hop later, hopsOf es = hop :: later ∧ hop.request.url = url ∧
      ((later = [] ∧ ∀ fetched, result = .ok fetched → EndsAt fetched hop) ∨
        ∃ resp rest, hop.answer = .ok resp ∧ isFollowableRedirect resp.status = true ∧
          later = hopsOf rest ∧ Trace (onward resp) rest result) := by
  unfold redirectTurn at h
  simp only [Io.send_bind] at h
  obtain ⟨answer, rest, rfl, htail⟩ := Trace.op_iff.mp h
  refine ⟨_, hopsOf rest, rfl, rfl, ?_⟩
  have hfailed : ∀ {e : AppError},
      Trace (.ret (.error e) : Prog Io (Except AppError Fetched)) rest result →
        hopsOf rest = [] ∧ ∀ fetched, result ≠ .ok fetched := by
    intro e hret
    obtain ⟨rfl, rfl⟩ := Trace.ret_iff.mp hret
    exact ⟨rfl, fun fetched hok => by cases hok⟩
  cases answer with
  | error e =>
      obtain ⟨hnone, hresult⟩ := hfailed htail
      exact .inl ⟨hnone, fun fetched hok => absurd hok (hresult fetched)⟩
  | ok resp =>
      dsimp only at htail
      split at htail
      · next cache plan' entry hstatus _ =>
        have hquiet := quiet_of_trace (confirmEntry_confined trivial) htail
        refine .inl ⟨hops_eq_nil_of_quiet hquiet, ?_⟩
        rintro fetched rfl
        obtain ⟨-, refreshed, response, -, rfl⟩ := confirmEntry_cases htail
        refine ⟨⟨resp, rfl, ?_⟩, fun resp finalUrl hfinal => by cases hfinal⟩
        rw [beq_iff_eq.mp hstatus]
        decide
      · split at htail
        · next hfinal =>
          obtain ⟨rfl, rfl⟩ := Trace.ret_iff.mp htail
          refine .inl ⟨rfl, fun fetched hok => ?_⟩
          obtain rfl := Except.ok.inj hok
          refine ⟨⟨resp, rfl, fun hmem => ?_⟩, fun resp' finalUrl hfetched => ?_⟩
          · rw [isFollowableRedirect_iff.mpr hmem] at hfinal
            cases hfinal
          · obtain ⟨rfl, rfl⟩ := Fetched.final.inj hfetched
            exact ⟨rfl, rfl⟩
        · next hfollowable =>
          split at htail
          · obtain ⟨hnone, hresult⟩ := hfailed htail
            exact .inl ⟨hnone, fun fetched hok => absurd hok (hresult fetched)⟩
          · exact .inr ⟨resp, rest, rfl, Bool.not_eq_false _ ▸ hfollowable, rfl, htail⟩

/-- **The loop follows redirects**, and when it does not fail it has come to their end. -/
theorem followRedirects_hops (left : ℕ) :
    ∀ {url : Url} {es : List (Event Io)} {result : Except AppError Fetched},
      Trace (followRedirects state origin requestHeaders bucket target plan cachedEntry left url)
        es result →
      FollowsRedirects left url (hopsOf es) ∧
        ∀ fetched, result = .ok fetched →
          ∃ last, (hopsOf es).getLast? = some last ∧ EndsAt fetched last := by
  induction left with
  | zero =>
      intro url es result h
      obtain ⟨hop, later, hes, hurl, ⟨rfl, hends⟩ | ⟨resp, rest, -, -, rfl, hrest⟩⟩ :=
        redirectTurn_hops h
      · rw [hes]
        exact ⟨.single hurl, fun fetched hok => ⟨hop, rfl, hends fetched hok⟩⟩
      · obtain ⟨rfl, rfl⟩ := Trace.ret_iff.mp hrest
        rw [hes]
        exact ⟨.single hurl, fun fetched hok => by cases hok⟩
  | succ left ih =>
      intro url es result h
      obtain ⟨hop, later, hes, hurl, ⟨rfl, hends⟩ | ⟨resp, rest, hanswer, hstatus, rfl, hrest⟩⟩ :=
        redirectTurn_hops h
      · rw [hes]
        exact ⟨.single hurl, fun fetched hok => ⟨hop, rfl, hends fetched hok⟩⟩
      · rw [hes]
        cases hnext : nextHop state origin url resp.headers with
        | error e =>
            rw [hnext] at hrest
            obtain ⟨rfl, rfl⟩ := Trace.ret_iff.mp hrest
            exact ⟨.single hurl, fun fetched hok => by cases hok⟩
        | ok nextUrl =>
            rw [hnext] at hrest
            obtain ⟨hfollows, hends⟩ := ih hrest
            subst hurl
            refine ⟨hfollows.cons hanswer (redirectsTo_of_nextHop hstatus hnext), ?_⟩
            intro fetched hok
            obtain ⟨last, hlast, hend⟩ := hends fetched hok
            refine ⟨last, ?_, hend⟩
            rw [List.getLast?_cons, hlast]
            rfl

/-! ## The request -/

omit [Crates] in
theorem hops_quiet_append {es es' : List (Event Io)} (hquiet : ∀ e ∈ es, Quiet e.1) :
    hopsOf (es ++ es') = hopsOf es' := by
  rw [hops_append, hops_eq_nil_of_quiet hquiet, List.nil_append]

omit [Crates] in
theorem hops_append_quiet {es es' : List (Event Io)} (hquiet : ∀ e ∈ es', Quiet e.1) :
    hopsOf (es ++ es') = hopsOf es := by
  rw [hops_append, hops_eq_nil_of_quiet hquiet, List.append_nil]

/-- The upstream part of a request has the hops of its loop. -/
theorem fetchUpstream_hops {force : Bool} {result : Except AppError Response}
    (h : Trace (fetchUpstream state key requestHeaders target plan cachedEntry force) es result) :
    FollowsRedirects state.maxRedirects target (hopsOf es) ∧
      ∀ response, result = .ok response → Arrived (hopsOf es) := by
  unfold fetchUpstream at h
  obtain ⟨loop, fetched, rest, rfl, hloop, hrest⟩ := Trace.bind_iff.mp h
  obtain ⟨hfollows, hends⟩ := followRedirects_hops state.maxRedirects hloop
  have hquiet : ∀ e ∈ rest, Quiet e.1 := by
    rcases fetched with e | ⟨confirmed⟩ | ⟨upstream, finalUrl⟩
    · obtain ⟨rfl, -⟩ := Trace.ret_iff.mp hrest
      exact fun e he => absurd he List.not_mem_nil
    · obtain ⟨rfl, -⟩ := Trace.ret_iff.mp hrest
      exact fun e he => absurd he List.not_mem_nil
    · exact quiet_of_trace (liveResponse_confined fun _ => trivial) hrest
  rw [hops_append_quiet hquiet]
  refine ⟨hfollows, fun response hok => ?_⟩
  cases fetched with
  | error e =>
      obtain ⟨-, hresult⟩ := Trace.ret_iff.mp hrest
      cases hok.symm.trans hresult
  | ok fetched =>
      obtain ⟨last, hlast, hend⟩ := hends fetched rfl
      intro last' hlast'
      obtain rfl := Option.some.inj (hlast.symm.trans hlast')
      exact hend.arrived

/-- So has the request: before the upstream and behind it there are none. -/
theorem serve_hops {uri : OriginalUri} {result : Except AppError Response}
    (h : Trace (serve state uri key requestHeaders) es result) :
    hopsOf es = [] ∨ ∃ target, parseTargetUrl uri = .ok target ∧
      FollowsRedirects state.maxRedirects target (hopsOf es) ∧
        ∀ response, result = .ok response → Arrived (hopsOf es) := by
  unfold serve at h
  obtain ⟨handled, response, delivered, rfl, hhandler, hdeliver⟩ := Trace.bind_iff.mp h
  have hdelivered := quiet_of_trace (deliver_confined (answered_true response)) hdeliver
  rw [hops_append_quiet hdelivered]
  rcases proxyHandler_cases hhandler with
    ⟨hquiet, -⟩ | ⟨target, tiers, rest, htarget, -, rfl, htiers, hrest⟩
  · exact .inl (hops_eq_nil_of_quiet hquiet)
  · have htiersQuiet := quiet_of_trace (checkTiers_confined trivial state.rateLimit) htiers
    obtain ⟨lookup, entry, fetch, rfl, hlookup, hexit⟩ := answerAdmitted_cases hrest
    have hlookupQuiet := quiet_of_trace (lookupPlanned_confined fun _ => trivial) hlookup
    rw [hops_quiet_append htiersQuiet, hops_quiet_append hlookupQuiet]
    rcases hexit with ⟨found, now, -, rfl, -, -⟩ | ⟨clock, fetch, rfl, hclock, hfetch⟩
    · exact .inl rfl
    · have hclockQuiet : ∀ e ∈ clock, Quiet e.1 := by
        intro e he
        rw [hclock e he]
        trivial
      rw [hops_quiet_append hclockQuiet]
      obtain ⟨hfollows, hends⟩ := fetchUpstream_hops hfetch
      refine .inr ⟨target, htarget, hfollows, fun final hok => ?_⟩
      cases response with
      | error e =>
          obtain ⟨-, hresult⟩ := Trace.ret_iff.mp hdeliver
          cases hok.symm.trans hresult
      | ok response => exact hends response rfl

/-- **The requests of a run follow the redirects of the upstream** from the target, in every
beginning of the run, and a response is not sent before the chain has come to its end. -/
theorem fetches_follow_redirects {uri : OriginalUri} {result : Except AppError Response}
    (htrace : Trace (serve state uri key requestHeaders) es result) :
    (hopsOf es ≠ [] → ∃ target, parseTargetUrl uri = .ok target ∧
      ∀ begun, begun <+: es → FollowsRedirects state.maxRedirects target (hopsOf begun)) ∧
    ∀ response, result = .ok response → Arrived (hopsOf es) := by
  rcases serve_hops htrace with hnone | ⟨target, htarget, hfollows, hends⟩
  · refine ⟨fun hne => absurd hnone hne, fun response _ last hlast => ?_⟩
    rw [hnone] at hlast
    cases hlast
  · refine ⟨fun _ => ⟨target, htarget, fun begun hbegun => ?_⟩, hends⟩
    exact hfollows.of_prefix (hbegun.filterMap hopOf)

end Chain

/-- The theorem for a request that is redirected once. -/
theorem fetches_follow_redirects_once :
    (hopsOf redirectedEvents).length = 2 ∧
      ∃ target, @parseTargetUrl redirecting plainRequest.uri = .ok target ∧
        ∀ begun, begun <+: redirectedEvents →
          @FollowsRedirects redirecting exampleState.maxRedirects target (hopsOf begun) := by
  have hlength : (hopsOf redirectedEvents).length = 2 := by decide +kernel
  have htrace := trace_exec redirectedWorld
    (@serve redirecting exampleState plainRequest.uri exampleKey tracedHeaders) emptyWorld
  refine ⟨hlength, (@fetches_follow_redirects redirecting exampleState exampleKey tracedHeaders
    _ _ _ htrace).1 fun hnone => ?_⟩
  have hempty : hopsOf redirectedEvents = [] := hnone
  rw [hempty] at hlength
  cases hlength

end Corsget
