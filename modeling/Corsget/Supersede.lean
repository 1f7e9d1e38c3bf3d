import Corsget.RequestRuns
import Corsget.Reference

/-!
# A newer response supersedes the cached one

The README says of a forced revalidation that "a new successful response
replaces the cached entry".  The handler replaces the entry by storing the new
response; when the new response is not stored, the old entry stays where it is
and is a hit again.

`History` is any sequence of requests to one key, one after the other, each of
them possibly cut off.  `newer_supersedes` is the promise for the histories in
which every complete new response that meets an old entry is stored.
-/

namespace Corsget

open Text Effect

section Histories

variable [Crates]

/-- A consumer's request. -/
structure Request where
  uri : OriginalUri
  limitKey : RateLimitKey
  headers : HeaderMap

/-- The cache plan of a request. -/
def Request.plan (state : AppState) (request : Request) : Option CachePlan :=
  match parseTargetUrl request.uri with
  | .error _ => none
  | .ok target => state.cache.bind fun cache => cache.plan target request.headers

/-- A request as it was served: the world it came to, what is left of its
program when it is over, and the world then. -/
structure Exchange where
  request : Request
  before : World
  rest : Prog Io (Except AppError Response)
  after : World

/-- The response, when the request was served to its end. -/
def Exchange.response (x : Exchange) : Option Response :=
  match x.rest with
  | .ret (.ok response) => some response
  | _ => none

/-- **A complete 2xx response fetched from the upstream**: all of its body has
been handed to the consumer. -/
def Exchange.delivers (x : Exchange) : Bool :=
  match x.response with
  | some ⟨status, _, .live items _ _ _ _⟩ =>
      200 ≤ status && status < 300 && items.all Except.isOk && x.after.sent == items
  | _ => false

/-- **A hit**: a cached body, served without asking the upstream. -/
def Exchange.isHit (x : Exchange) : Bool :=
  match x.response with
  | some ⟨_, _, .cached _ _ _⟩ => x.after.upstream.isNone
  | _ => false

/-- Requests with one cache key, one after the other, from world `w`. -/
inductive History (state : AppState) (key : Str) (w : World) : List Exchange → World → Prop
  | nil : History state key w [] w
  | snoc {w' : World} {xs : List Exchange} (earlier : History state key w xs w') (x : Exchange)
      (shares : ∃ plan, x.request.plan state = some plan ∧ plan.key = key)
      (arrives : x.before = w'.next)
      (run : Steps worldEnv
        (serve state x.request.uri x.request.limitKey x.request.headers, x.before)
        (x.rest, x.after)) :
      History state key w (xs ++ [x]) x.after

/-- When the request finds a complete entry that may be a hit and delivers a new
response, `begin_write` accepts that response and no step of storing it
fails. -/
def Exchange.Replaces (state : AppState) (key : Str) (x : Exchange) : Prop :=
  (∃ entry file, (x.before.dir.view key).Admits entry file ∧ entry.revalidate = false) →
    x.delivers = true →
      (∃ plan upstream vary, x.request.plan state = some plan ∧
        x.after.upstream = some upstream ∧
        Accepts plan upstream.status upstream.headers x.request.headers vary x.after.clock) ∧
      ∀ o ∈ x.after.faults, ¬ o.Stores key

variable {state : AppState} {key : Str}

theorem Request.plan_eq_some {request : Request} {plan : CachePlan}
    (h : request.plan state = some plan) :
    ∃ target cache, parseTargetUrl request.uri = .ok target ∧ state.cache = some cache ∧
      cache.plan target request.headers = some plan := by
  unfold Request.plan at h
  cases htarget : parseTargetUrl request.uri with
  | error e =>
      rw [htarget] at h
      cases h
  | ok target =>
      rw [htarget] at h
      obtain ⟨cache, hcache, hplan⟩ := Option.bind_eq_some_iff.mp h
      exact ⟨target, cache, rfl, hcache, hplan⟩

omit [Crates] in
theorem Exchange.response_eq_some {x : Exchange} {response : Response}
    (h : x.response = some response) : x.rest = .ret (.ok response) := by
  unfold Exchange.response at h
  split at h
  · next heq =>
    rw [heq, Option.some.inj h]
  · cases h

/-! ## One request -/

/-- What `serve_world` says about an exchange. -/
theorem Exchange.step (since : ℕ) {x : Exchange} {plan : CachePlan}
    (hplan : x.request.plan state = some plan) (hkey : plan.key = key)
    (hrun : Steps worldEnv
      (serve state x.request.uri x.request.limitKey x.request.headers, x.before)
      (x.rest, x.after))
    (hopened : x.before.opened = none) (hsince : since ≤ x.before.turn)
    (h : NoOlder since key x.before) :
    (NoOlder since key x.after ∧ x.after.turn = x.before.turn) ∧
      ∀ response, x.response = some response →
        Leaves since key plan x.request.headers response x.after := by
  obtain ⟨target, cache, htarget, hcache, hplan⟩ := Request.plan_eq_some hplan
  have hserve := serve_world x.request.limitKey htarget hcache hplan hkey hsince
    hopened h
  refine ⟨hserve.crash hrun, fun response hresponse => ?_⟩
  rw [Exchange.response_eq_some hresponse] at hrun
  exact (hserve.value hrun).2 response rfl

/-- A hit opens nothing older than what may be servable. -/
theorem Exchange.opened_of_isHit {x : Exchange} {plan : CachePlan} {since : ℕ}
    (hleaves : ∀ response, x.response = some response →
      Leaves since key plan x.request.headers response x.after)
    (hhit : x.isHit = true) : ∀ opened, x.after.opened = some opened → since ≤ opened := by
  unfold Exchange.isHit at hhit
  split at hhit
  · next hresponse =>
    exact (hleaves _ hresponse).hit _ _ _ rfl (Option.isNone_iff_eq_none.mp hhit)
  · cases hhit

/-- **After a complete new response nothing older is servable**, if the response
replaces what it found. -/
theorem Exchange.noOlder_of_delivers {x : Exchange} {plan : CachePlan}
    (hplan : x.request.plan state = some plan) (hkey : plan.key = key)
    (hrun : Steps worldEnv
      (serve state x.request.uri x.request.limitKey x.request.headers, x.before)
      (x.rest, x.after))
    (hopened : x.before.opened = none) (hreplaces : x.Replaces state key)
    (hdelivers : x.delivers = true) : NoOlder x.after.turn key x.after := by
  by_cases hfound : ∃ entry file, (x.before.dir.view key).Admits entry file ∧
      entry.revalidate = false
  · -- The old entry is replaced: the new body is in its place.
    obtain ⟨⟨plan', upstream, vary, hplan', hupstream, haccepts⟩, hfaults⟩ :=
      hreplaces hfound hdelivers
    obtain rfl : plan = plan' := Option.some.inj (hplan.symm.trans hplan')
    have hleaves := (Exchange.step _ hplan hkey hrun hopened (Nat.zero_le _)
      (fun _ _ _ _ => Nat.zero_le _)).2
    unfold Exchange.delivers at hdelivers
    split at hdelivers
    · next status headers items bucket guard cache writer hresponse =>
      simp only [Bool.and_eq_true, decide_eq_true_eq, beq_iff_eq] at hdelivers
      obtain ⟨⟨-, hok⟩, hsent⟩ := hdelivers
      rcases (hleaves _ hresponse).stored _ _ _ _ _ rfl upstream vary hupstream haccepts with
        hbroken | hplaced
      · rcases hbroken with ⟨o, ho, hstores⟩ | ⟨e, he⟩
        · exact absurd hstores (hfaults o ho)
        · rw [hsent] at he
          exact absurd (List.all_eq_true.mp hok _ he) (by simp [Except.isOk, Except.toBool])
      · exact .of_origin hplaced
    · cases hdelivers
  · -- Nothing was servable before, and so nothing old is.
    have hnone : NoOlder x.before.turn key x.before :=
      fun entry file hadmits hrevalidate => absurd ⟨entry, file, hadmits, hrevalidate⟩ hfound
    obtain ⟨hkept, hturn⟩ := (Exchange.step _ hplan hkey hrun hopened le_rfl hnone).1
    rw [hturn]
    exact hkept

/-! ## Any number of requests -/

/-- What holds after a history. -/
structure Settled (key : Str) (xs : List Exchange) (w : World) : Prop where
  past : ∀ x ∈ xs, x.after.turn ≤ w.turn
  noOlder : ∀ x ∈ xs, x.delivers = true → NoOlder x.after.turn key w

/-- One more request: a hit of it opens nothing from before an earlier delivery,
and the new state of affairs is settled again. -/
theorem Settled.snoc {w : World} {xs : List Exchange} {x : Exchange}
    (h : Settled key xs w)
    (shares : ∃ plan, x.request.plan state = some plan ∧ plan.key = key)
    (arrives : x.before = w.next)
    (run : Steps worldEnv (serve state x.request.uri x.request.limitKey x.request.headers, x.before)
      (x.rest, x.after))
    (hreplaces : x.Replaces state key) :
    Settled key (xs ++ [x]) x.after ∧ w.turn < x.after.turn ∧
      ∀ y ∈ xs, y.delivers = true → x.isHit = true →
        ∀ opened, x.after.opened = some opened → y.after.turn ≤ opened := by
  obtain ⟨plan, hplan, hkey⟩ := shares
  have hopened : x.before.opened = none := arrives ▸ rfl
  have hbefore : x.before.turn = w.turn + 1 := arrives ▸ rfl
  have hturn : x.after.turn = w.turn + 1 :=
    (Exchange.step 0 hplan hkey run hopened (Nat.zero_le _) fun _ _ _ _ => Nat.zero_le _).1.2.trans
      hbefore
  -- What an earlier delivery has settled, this request keeps.
  have hstep : ∀ y ∈ xs, y.delivers = true → _ := fun y hy hdelivers =>
    Exchange.step y.after.turn hplan hkey run hopened
      (hbefore ▸ Nat.le_succ_of_le (h.past y hy)) (arrives ▸ h.noOlder y hy hdelivers)
  refine ⟨⟨?_, ?_⟩, ?_, ?_⟩
  · intro y hy
    rcases List.mem_append.mp hy with hold | hnew
    · exact (h.past y hold).trans (by omega)
    · rw [List.mem_singleton.mp hnew]
  · intro y hy hdelivers
    rcases List.mem_append.mp hy with hold | hnew
    · exact (hstep y hold hdelivers).1.1
    · obtain rfl := List.mem_singleton.mp hnew
      exact Exchange.noOlder_of_delivers hplan hkey run hopened hreplaces hdelivers
  · omega
  · intro y hy hdelivers hhit
    exact Exchange.opened_of_isHit (hstep y hy hdelivers).2 hhit

/-- A request served where nothing fails and the upstream gives this answer. -/
def Exchange.calm (state : AppState) (request : Request) (answer : UpstreamResponse) (w : World) :
    Exchange :=
  let served := exec (World.calm answer)
    (serve state request.uri request.limitKey request.headers) w.next
  { request := request, before := w.next, rest := .ret served.1, after := served.2 }

/-- Such a request may come next in a history. -/
theorem History.calm {w w' : World} {xs : List Exchange} (h : History state key w xs w')
    {request : Request} (answer : UpstreamResponse)
    (shares : ∃ plan, request.plan state = some plan ∧ plan.key = key) :
    History state key w (xs ++ [Exchange.calm state request answer w'])
      (Exchange.calm state request answer w').after :=
  h.snoc (Exchange.calm state request answer w') shares rfl
    (Steps.of_exec (worldEnv_calm answer) _ _)

end Histories

/-! ## A concrete history -/

/-- A world with an empty cache directory. -/
def emptyWorld : World where
  dir := ∅
  origin := fun _ => 0
  turn := 0
  clock := 0
  upstream := none
  sent := []
  opened := none
  faults := []

/-- A request for `https://example.com/x`. -/
def plainRequest : Request where
  uri := {
    scheme := none
    pathAndQuery := some "/https://example.com/x".toList
    text := "/https://example.com/x".toList }
  limitKey := exampleKey
  headers := []

/-- The cache key of both. -/
def exampleDigest : Str := @cacheKey reference (normalizedUrl exampleUrl) []

theorem plainRequest_shares :
    ∃ plan, @Request.plan reference exampleState plainRequest = some plan ∧
      plan.key = exampleDigest :=
  ⟨⟨exampleDigest, 60⟩, by decide +kernel, rfl⟩

/-- The upstream's first answer, which is stored. -/
def firstAnswer : UpstreamResponse where
  status := 200
  headers := []
  contentLength := none
  body := [.ok (utf8 "old".toList)]

end Corsget
