import Corsget.AccessPolicy
import Corsget.Forwarding
import Corsget.Reference
import Corsget.Storing

/-!
# Who may share a cache entry

Two questions about `Cache::plan` and the key it computes.

**Credentials.**  A request with an `Authorization` or `Cookie` header has no
plan, so its response is neither stored nor served to anyone.  A user name and
password in the target URL are credentials too (the HTTP client turns them into
an `Authorization: Basic` header), but `plan` does not look at them and
`normalized_url` drops them from the key (`plan_ignores_userinfo`).
`authenticated_never_cached_iff` says exactly when authenticated responses stay
out of the cache.

**Variation.**  The key hashes, for each header a response may vary on, the
*first* line the client sent, whether or not that line is forwarded.
The hashed bytes can be read back from the right, field by field
(`cacheKeyInput_inj`), so equal keys mean equal first lines; and
`key_covers_vary_iff` says what has to hold beyond that for the upstream to have
seen the same values.
-/

namespace Corsget

open Text Effect

/-! ## Plans -/

/-- The age that applies to a URL: that of the last rule matching it, if any. -/
theorem ruleMaxAge_eq (cache : Cache) (subject : Str) :
    cache.ruleMaxAge subject =
      (cache.rules.filter fun rule => rule.pattern.isMatch subject).getLast?.map
        CompiledRule.maxAge := by
  unfold Cache.ruleMaxAge
  induction cache.rules using List.reverseRecOn with
  | nil => rfl
  | append_singleton rules rule ih =>
      rw [List.foldl_append, List.filter_append]
      cases h : rule.pattern.isMatch subject with
      | false => simpa [h] using ih
      | true => simp [h]

/-- **Caching is off for a URL**: no rule matches it, the last rule that does has
age zero, or the configured age is zero. -/
def Cache.Dormant (cache : Cache) (url : Url) : Prop :=
  ((cache.rules.filter fun rule => rule.pattern.isMatch (normalizedUrl url)).getLast?.map
    CompiledRule.maxAge).getD 0 = 0 ∨ cache.defaultMaxAge = 0

section Plans

variable [Crates]

/-- A plan exists exactly when the request has no header that excludes it and
caching is on for its URL. -/
theorem plan_isSome_iff {cache : Cache} {url : Url} {headers : HeaderMap} :
    (cache.plan url headers).isSome = true ↔
      headers.containsKey .authorization = false ∧ headers.containsKey .cookie = false ∧
        headers.containsKey .range = false ∧ ¬ cache.Dormant url := by
  unfold Cache.plan Cache.Dormant
  rw [← ruleMaxAge_eq]
  split
  · next h =>
    simp only [Bool.or_eq_true] at h
    rcases h with (h | h) | h
    · simp [h]
    · simp [h]
    · simp [h]
  · next h =>
    simp only [Bool.or_eq_true, not_or, Bool.not_eq_true] at h
    obtain ⟨⟨hauth, hcookie⟩, hrange⟩ := h
    simp only [hauth, hcookie, hrange, true_and]
    cases cache.ruleMaxAge (normalizedUrl url) with
    | none => simp
    | some maxAge =>
        dsimp only
        split
        · next hzero => simpa using by omega
        · next hpos => simpa using by omega

/-- What a plan consists of. -/
theorem plan_eq_some {cache : Cache} {url : Url} {headers : HeaderMap} {plan : CachePlan}
    (h : cache.plan url headers = some plan) :
    plan.key = cacheKey (normalizedUrl url) headers ∧ plan.ttl ≠ 0 := by
  unfold Cache.plan at h
  split at h
  · cases h
  · dsimp only at h
    split at h
    · cases h
    · split at h
      · cases h
      · next hpos =>
        cases h
        exact ⟨rfl, hpos⟩

/-- **User name and password do not reach the cache**: neither the decision nor
the key depends on them. -/
theorem plan_ignores_userinfo (cache : Cache) (url : Url) (username : Str) (password : Option Str)
    (headers : HeaderMap) :
    cache.plan { url with username := username, password := password } headers =
      cache.plan url headers := rfl

end Plans

/-! ## Credentials -/

/-- The credentials an upstream request carries: an `Authorization` or `Cookie`
header, or the user name and password of the target URL, which the HTTP client
sends as `Authorization: Basic`. -/
def UpstreamRequest.carriesCredentials (request : UpstreamRequest) (target : Url) : Bool :=
  request.headers.containsKey .authorization || request.headers.containsKey .cookie ||
    (request.url == target && target.hasUserinfo)

section Credentials

variable [Crates]

/-- **Authenticated responses are never cached**: a request that sends credentials
to the upstream has no plan and never touches the store. -/
def NeverCachesAuthenticated (state : AppState) (uri : OriginalUri) (key : RateLimitKey)
    (requestHeaders : HeaderMap) : Prop :=
  ∀ target, parseTargetUrl uri = .ok target →
    ∀ es result, Trace (serve state uri key requestHeaders) es result →
      (∃ request answer, (⟨.send request, answer⟩ : Event Io) ∈ es ∧
        request.carriesCredentials target = true) →
      (state.cache.bind fun cache => cache.plan target requestHeaders) = none ∧
        ∀ e ∈ es, e.1.touchesStore = false

omit [Crates] in
/-- The tiers have a run in which all of them allow the request. -/
theorem checkTiers_allowed (key : RateLimitKey) (tiers : List LimitTier) :
    ∃ es, Trace (checkTiers key tiers) es (.ok none) := by
  induction tiers with
  | nil => exact ⟨[], .ret _⟩
  | cons tier rest ih =>
      obtain ⟨es, hes⟩ := ih
      unfold checkTiers
      simp only [Io.checkLimit_bind]
      let quota : Quota :=
        { max := min tier.max (2 ^ 64 - 1), periodMs := min (tier.window * 1000) (2 ^ 64 - 1) }
      let allowed : Except Str Snapshot := .ok ⟨true, []⟩
      exact ⟨⟨.checkLimit key quota, allowed⟩ :: es, .op hes⟩

/-- When the upstream cannot be reached, the redirect loop ends at once. -/
theorem followRedirects_refused (state : AppState) (origin : Origin) (requestHeaders : HeaderMap)
    (bucket : Str) (target : Url) (plan : Option CachePlan) (cachedEntry : Option CacheEntry)
    (left : ℕ) (url : Url) (e : ClientError) :
    Trace (followRedirects state origin requestHeaders bucket target plan cachedEntry left url)
      [⟨.send { url := url, headers := upstreamHeaders requestHeaders cachedEntry url },
        (.error e : Except ClientError UpstreamResponse)⟩]
      (.error (.fromClient e)) := by
  cases left with
  | zero => exact .op (.ret _)
  | succ left => exact .op (.ret _)

/-- **A planned request looks its entry up and, finding none, is sent**: some run
of it does both. -/
theorem serve_of_plan {state : AppState} {uri : OriginalUri} {key : RateLimitKey}
    {requestHeaders : HeaderMap} {target : Url} {cache : Cache} {plan : CachePlan}
    (htarget : parseTargetUrl uri = .ok target) (hpermitted : Permitted state key.origin target)
    (hcache : state.cache = some cache) (hplan : cache.plan target requestHeaders = some plan) :
    ∃ es result, Trace (serve state uri key requestHeaders) es result ∧
      (∃ answer, (⟨.fs (.read (metaPath plan.key)), answer⟩ : Event Io) ∈ es) ∧
      ∃ answer, (⟨.send { url := target, headers := forwardHeaders requestHeaders target },
        answer⟩ : Event Io) ∈ es := by
  -- The run: all tiers allow it, the metadata is missing, and the upstream refuses.
  obtain ⟨es₁, htiers⟩ := checkTiers_allowed key state.rateLimit
  let missing : Except IoError FileData := .error notFound
  let refused : Except ClientError UpstreamResponse := .error ⟨false, false, []⟩
  let now : ℕ := 0
  let request : UpstreamRequest :=
    { url := target, headers := forwardHeaders requestHeaders target }
  let es₂ : List (Event Io) :=
    [⟨.systemTime, now⟩, ⟨.fs (.read (metaPath plan.key)), missing⟩, ⟨.send request, refused⟩]
  have hrest : Trace (afterTiers state key requestHeaders target (.ok none)) es₂
      (.error (.fromClient ⟨false, false, []⟩)) := by
    have hlookup : Trace (lookupPlanned state (some plan))
        [⟨.systemTime, now⟩, ⟨.fs (.read (metaPath plan.key)), missing⟩] none := by
      unfold lookupPlanned
      rw [hcache]
      exact .op (.op (.ret _))
    have hsend := followRedirects_refused state key.origin requestHeaders key.bucket target
      (some plan) none state.maxRedirects target ⟨false, false, []⟩
    have hfetch : Trace (fetchUpstream state key requestHeaders target (some plan) none
        (requestRequiresRevalidation requestHeaders)) [⟨.send request, refused⟩]
        (.error (.fromClient ⟨false, false, []⟩)) :=
      Trace.bind_iff.mpr ⟨_, _, [], rfl, hsend, .ret _⟩
    have hadmitted : Trace (answerAdmitted state key requestHeaders target) es₂
        (.error (.fromClient ⟨false, false, []⟩)) := by
      unfold answerAdmitted
      simp only [hcache, hplan, Option.bind_some]
      exact Trace.bind_iff.mpr ⟨_, none, _, rfl, hlookup, hfetch⟩
    exact Trace.bind_iff.mpr ⟨es₂, _, [], by simp, hadmitted, .ret _⟩
  refine ⟨es₁ ++ es₂, .error (.fromClient ⟨false, false, []⟩), ?_, ⟨missing, by simp [es₂]⟩,
    ⟨refused, by simp [es₂, request]⟩⟩
  rw [serve_of_permitted htarget hpermitted, Trace.bind_iff]
  exact ⟨es₁, _, es₂, rfl, htiers, hrest⟩

/-- A planned request whose target carries a user name or a password defeats the
property. -/
theorem not_neverCaches_of_plan {state : AppState} {uri : OriginalUri} {key : RateLimitKey}
    {requestHeaders : HeaderMap} {target : Url} {cache : Cache}
    (htarget : parseTargetUrl uri = .ok target) (hpermitted : Permitted state key.origin target)
    (huserinfo : target.hasUserinfo = true) (hcache : state.cache = some cache)
    (hplan : (cache.plan target requestHeaders).isSome = true) :
    ¬ NeverCachesAuthenticated state uri key requestHeaders := by
  intro h
  obtain ⟨plan, hplan⟩ := Option.isSome_iff_exists.mp hplan
  obtain ⟨es, result, htrace, -, answer, hsend⟩ :=
    serve_of_plan htarget hpermitted hcache hplan
  have hcredentials : UpstreamRequest.carriesCredentials
      { url := target, headers := forwardHeaders requestHeaders target } target = true := by
    simp [UpstreamRequest.carriesCredentials, huserinfo]
  have hnone := (h target htarget es result htrace ⟨_, answer, hsend, hcredentials⟩).1
  rw [hcache, Option.bind_some, hplan] at hnone
  cases hnone

/-- Without a plan the store is not touched. -/
theorem untouched_of_no_plan {state : AppState} {uri : OriginalUri} {key : RateLimitKey}
    {requestHeaders : HeaderMap} {target : Url} (htarget : parseTargetUrl uri = .ok target)
    (hplan : (state.cache.bind fun cache => cache.plan target requestHeaders) = none)
    {es : List (Event Io)} {result : Except AppError Response}
    (htrace : Trace (serve state uri key requestHeaders) es result) :
    ∀ e ∈ es, e.1.touchesStore = false := by
  have hconfined : (∀ e ∈ es, Confined ⟨fun _ => True, False, True⟩ e.1) ∧
      Answered False result := by
    refine (serve_confined (fun _ _ => trivial) trivial ?_).of_trace htrace
    intro target' htarget' hsome
    obtain rfl : target = target' := by
      rw [htarget] at htarget'
      exact Except.ok.inj htarget'
    rw [hplan] at hsome
    cases hsome
  intro e he
  obtain ⟨o, r⟩ := e
  have ho := hconfined.1 _ he
  cases o with
  | fs o => exact ho.elim
  | tempCounter => exact ho.elim
  | _ => rfl

/-- **Credentials and the cache.**  Authenticated responses stay out of the cache
exactly when, for a configured cache and a target that is permitted, one of these
holds: the target has no user name and no password, the client's own headers
exclude caching, or caching is off for the URL. -/
theorem authenticated_never_cached_iff (state : AppState) (uri : OriginalUri)
    (key : RateLimitKey) (requestHeaders : HeaderMap) :
    NeverCachesAuthenticated state uri key requestHeaders ↔
      ∀ target cache, parseTargetUrl uri = .ok target → state.cache = some cache →
        Permitted state key.origin target →
          target.hasUserinfo = false ∨ requestHeaders.containsKey .authorization = true ∨
            requestHeaders.containsKey .cookie = true ∨ requestHeaders.containsKey .range = true ∨
            cache.Dormant target := by
  constructor
  · intro h target cache htarget hcache hpermitted
    by_contra hnot
    simp only [not_or, Bool.not_eq_false, Bool.not_eq_true] at hnot
    obtain ⟨huserinfo, hauth, hcookie, hrange, hdormant⟩ := hnot
    have hplan : (cache.plan target requestHeaders).isSome = true :=
      plan_isSome_iff.mpr ⟨hauth, hcookie, hrange, hdormant⟩
    exact not_neverCaches_of_plan htarget hpermitted huserinfo hcache hplan h
  · rintro h target htarget es result htrace ⟨request, answer, hsend, hcredentials⟩
    -- Every request sent is permitted and carries the client's forwarded headers.
    have hsends : (∀ e ∈ es,
        Confined ⟨PermittedSend state key.origin requestHeaders, True, True⟩ e.1) ∧ _ :=
      (serve_confined (fun _ h => h) trivial fun _ _ _ => trivial).of_trace htrace
    obtain ⟨hpermitted, entry, hheaders⟩ := hsends.1 _ hsend
    have hplan : (state.cache.bind fun cache => cache.plan target requestHeaders) = none := by
      cases hcache : state.cache with
      | none => rfl
      | some cache =>
          rw [Option.bind_some]
          by_contra hsome
          obtain ⟨hauth, hcookie, hrange, hdormant⟩ :=
            plan_isSome_iff.mp (Option.ne_none_iff_isSome.mp hsome)
          -- The headers carry no credentials, so the target URL does.
          unfold UpstreamRequest.carriesCredentials at hcredentials
          rw [hheaders,
            containsKey_upstreamHeaders_eq_false hauth entry _ (by decide) (by decide) (by decide),
            containsKey_upstreamHeaders_eq_false hcookie entry _ (by decide) (by decide)
              (by decide)] at hcredentials
          obtain ⟨hurl, huserinfo⟩ : request.url = target ∧ target.hasUserinfo = true := by
            simpa using hcredentials
          have hcond := h target cache htarget hcache (hurl ▸ hpermitted)
          simp [huserinfo, hauth, hcookie, hrange, hdormant] at hcond
    exact ⟨hplan, untouched_of_no_plan htarget hplan htrace⟩

end Credentials

/-- **A user name and password in the URL reach the cache.** -/
theorem userinfo_is_cached :
    ¬ @NeverCachesAuthenticated reference exampleState userinfoUri exampleKey [] := by
  have hpermitted : Permitted exampleState exampleKey.origin userinfoUrl :=
    ⟨.inr rfl, ⟨"example.com".toList, rfl, rfl⟩, rfl⟩
  exact @not_neverCaches_of_plan reference exampleState userinfoUri exampleKey [] userinfoUrl
    exampleCache (by rfl) hpermitted (by decide) rfl (by decide)

/-! ## Variation -/

/-- The bytes the key takes from a header: those of its first line, none when
there is no line. -/
def keyedBytes (headers : HeaderMap) (name : HeaderName) : Bytes :=
  ((headers.get name).map HeaderValue.bytes).getD []

theorem zero_notMem_keyedBytes (headers : HeaderMap) (name : HeaderName) :
    (0 : UInt8) ∉ keyedBytes headers name := by
  unfold keyedBytes
  cases headers.get name with
  | none => simp
  | some value => exact value.zero_notMem_bytes

/-- **The hashed bytes can be read back**: they determine the URL and the first
line of every supported header. -/
theorem cacheKeyInput_inj {subject₁ subject₂ : Str} {headers₁ headers₂ : HeaderMap}
    (h : cacheKeyInput subject₁ headers₁ = cacheKeyInput subject₂ headers₂) :
    utf8 subject₁ = utf8 subject₂ ∧
      ∀ name ∈ supportedVaryHeaders, keyedBytes headers₁ name = keyedBytes headers₂ name :=
  append_flatMap_segment_inj (zero_notMem_keyedBytes headers₁) (zero_notMem_keyedBytes headers₂)
    supportedVaryHeaders h

/-- **The preimage of a key is unambiguous.**  Two requests feed the hasher the same bytes
exactly when they have the same subject and, for each supported header, the same first
value, an absent header counting as the empty value. -/
theorem cacheKeyInput_eq_iff (subject₁ subject₂ : Str) (headers₁ headers₂ : HeaderMap) :
    cacheKeyInput subject₁ headers₁ = cacheKeyInput subject₂ headers₂ ↔
      subject₁ = subject₂ ∧
        ∀ name ∈ supportedVaryHeaders,
          ((headers₁.get name).map HeaderValue.bytes).getD [] =
            ((headers₂.get name).map HeaderValue.bytes).getD [] := by
  constructor
  · intro h
    obtain ⟨hsubject, hvalues⟩ := cacheKeyInput_inj h
    exact ⟨utf8_injective hsubject, hvalues⟩
  · rintro ⟨rfl, hvalues⟩
    have hfields : ∀ name ∈ supportedVaryHeaders,
        cacheKeyField headers₁ name = cacheKeyField headers₂ name := by
      intro name hname
      unfold cacheKeyField
      rw [hvalues name hname]
    exact congrArg (utf8 subject₁ ++ ·) (List.flatMap_congr hfields)

/-- Two first lines with the same bytes are the same line. -/
theorem head?_eq_of_keyedBytes_eq {headers₁ headers₂ : HeaderMap} {name : HeaderName}
    (h : keyedBytes headers₁ name = keyedBytes headers₂ name)
    (h₁ : headers₁.containsKey name = true) (h₂ : headers₂.containsKey name = true) :
    (headers₁.getAll name).head? = (headers₂.getAll name).head? := by
  obtain ⟨v₁, l₁, hl₁⟩ := List.exists_cons_of_ne_nil (MultiMap.containsKey_iff.mp h₁)
  obtain ⟨v₂, l₂, hl₂⟩ := List.exists_cons_of_ne_nil (MultiMap.containsKey_iff.mp h₂)
  unfold keyedBytes MultiMap.get at h
  rw [hl₁, hl₂] at h ⊢
  exact congrArg some (HeaderValue.ext_bytes h)

/-- A header the upstream sees: the client sent it and `Connection` does not
nominate it. -/
def Reaches (headers : HeaderMap) (name : HeaderName) : Prop :=
  headers.containsKey name = true ∧ isNominated headers name = false

/-- The lines of a supported header that `forward_headers` lets through. -/
theorem getAll_forwardHeaders_of_supported {name : HeaderName}
    (hname : name ∈ supportedVaryHeaders) (headers : HeaderMap) (url : Url) :
    (forwardHeaders headers url).getAll name =
      if isNominated headers name then [] else headers.getAll name := by
  have hhost : name ≠ .host := by
    have hall : ∀ n ∈ supportedVaryHeaders, n ≠ .host := by decide
    exact hall name hname
  rw [getAll_forwardHeaders headers url hhost, isForwarded_of_supported hname]
  cases isNominated headers name with
  | false => rfl
  | true => rfl

/-- A supported header is forwarded with some line exactly when it reaches the
upstream. -/
theorem getAll_forwardHeaders_ne_nil_iff {name : HeaderName}
    (hname : name ∈ supportedVaryHeaders) (headers : HeaderMap) (url : Url) :
    (forwardHeaders headers url).getAll name ≠ [] ↔ Reaches headers name := by
  unfold Reaches
  rw [getAll_forwardHeaders_of_supported hname, MultiMap.containsKey_iff]
  cases isNominated headers name with
  | false => simp
  | true => simp

/-- **One header of two requests with equal first lines.**  The upstream saw the
same values exactly when the header reached it in both requests or in neither,
with the same further lines. -/
theorem forwarded_eq_iff {name : HeaderName} (hname : name ∈ supportedVaryHeaders)
    {headers₁ headers₂ : HeaderMap} (url₁ url₂ : Url)
    (hkey : keyedBytes headers₁ name = keyedBytes headers₂ name) :
    (forwardHeaders headers₁ url₁).getAll name = (forwardHeaders headers₂ url₂).getAll name ↔
      (Reaches headers₁ name ↔ Reaches headers₂ name) ∧
        (Reaches headers₁ name →
          (headers₁.getAll name).tail = (headers₂.getAll name).tail) := by
  have hne₁ := getAll_forwardHeaders_ne_nil_iff hname headers₁ url₁
  have hne₂ := getAll_forwardHeaders_ne_nil_iff hname headers₂ url₂
  have hlines : ∀ {headers : HeaderMap} (url : Url), Reaches headers name →
      (forwardHeaders headers url).getAll name = headers.getAll name := by
    intro headers url hreaches
    rw [getAll_forwardHeaders_of_supported hname, hreaches.2]
    rfl
  constructor
  · intro h
    have hiff : Reaches headers₁ name ↔ Reaches headers₂ name := by
      rw [← hne₁, ← hne₂, h]
    refine ⟨hiff, fun hreaches => ?_⟩
    rw [← hlines url₁ hreaches, ← hlines url₂ (hiff.mp hreaches), h]
  · rintro ⟨hiff, htail⟩
    by_cases hreaches : Reaches headers₁ name
    -- The key gives the first line, the condition the others.
    · have hreaches₂ := hiff.mp hreaches
      rw [hlines url₁ hreaches, hlines url₂ hreaches₂]
      have hhead := head?_eq_of_keyedBytes_eq hkey hreaches.1 hreaches₂.1
      obtain ⟨v, l, hl⟩ := List.exists_cons_of_ne_nil (MultiMap.containsKey_iff.mp hreaches.1)
      obtain ⟨v', l', hl'⟩ := List.exists_cons_of_ne_nil (MultiMap.containsKey_iff.mp hreaches₂.1)
      have htail := htail hreaches
      rw [hl, hl'] at hhead htail ⊢
      rw [Option.some.inj hhead]
      exact congrArg _ htail
    · have hnil₁ := not_not.mp (mt hne₁.mp hreaches)
      have hnil₂ := not_not.mp (mt hne₂.mp (mt hiff.mpr hreaches))
      rw [hnil₁, hnil₂]

section Variation

variable [Crates]

/-- **The upstream saw the same values** in two requests, under every name of a
`Vary` list. -/
def SameVaried (vary : List Str) (headers₁ headers₂ : HeaderMap) (url₁ url₂ : Url) : Prop :=
  ∀ name : HeaderName, name.text ∈ vary →
    (forwardHeaders headers₁ url₁).getAll name = (forwardHeaders headers₂ url₂).getAll name

/-- **The cache identity covers what the upstream varied on**: a response to the
first request that is accepted was varied only on values the second request
shares, whenever both have the same key. -/
def KeyCoversVary (cache : Cache) (headers₁ headers₂ : HeaderMap) (url₁ url₂ : Url)
    (status : ℕ) (headers : HeaderMap) : Prop :=
  ∀ plan₁ plan₂, cache.plan url₁ headers₁ = some plan₁ → cache.plan url₂ headers₂ = some plan₂ →
    plan₁.key = plan₂.key →
      ∀ es writer, Trace (beginWrite plan₁ status headers headers₁) es (some writer) →
        SameVaried writer.entry.vary headers₁ headers₂ url₁ url₂

/-- Equal keys mean equal first lines. -/
theorem keyedBytes_eq_of_key_eq (hsha : Function.Injective Crates.sha256) {cache : Cache}
    {headers₁ headers₂ : HeaderMap} {url₁ url₂ : Url} {plan₁ plan₂ : CachePlan}
    (hplan₁ : cache.plan url₁ headers₁ = some plan₁)
    (hplan₂ : cache.plan url₂ headers₂ = some plan₂) (hkey : plan₁.key = plan₂.key) :
    ∀ name ∈ supportedVaryHeaders, keyedBytes headers₁ name = keyedBytes headers₂ name := by
  rw [(plan_eq_some hplan₁).1, (plan_eq_some hplan₂).1] at hkey
  exact (cacheKeyInput_inj (hsha hkey)).2

/-- **Key and variation.**  For two planned requests with one key and an accepted
response to the first, the upstream saw the same values under every name of the
response's `Vary` exactly when each of these headers reached it in both requests
or in neither, with the same lines after the first. -/
theorem key_covers_vary_iff (hsha : Function.Injective Crates.sha256) {cache : Cache}
    {headers₁ headers₂ : HeaderMap} {url₁ url₂ : Url} {plan₁ plan₂ : CachePlan}
    (hplan₁ : cache.plan url₁ headers₁ = some plan₁)
    (hplan₂ : cache.plan url₂ headers₂ = some plan₂) (hkey : plan₁.key = plan₂.key)
    {status : ℕ} {headers : HeaderMap} {vary : List Str} {now : ℕ}
    (haccepts : Accepts plan₁ status headers headers₁ vary now) :
    KeyCoversVary cache headers₁ headers₂ url₁ url₂ status headers ↔
      ∀ name : HeaderName, name.text ∈ vary →
        (Reaches headers₁ name ↔ Reaches headers₂ name) ∧
          (Reaches headers₁ name →
            (headers₁.getAll name).tail = (headers₂.getAll name).tail) := by
  have hbytes := keyedBytes_eq_of_key_eq hsha hplan₁ hplan₂ hkey
  have hsupported : ∀ name : HeaderName, name.text ∈ vary → name ∈ supportedVaryHeaders := by
    intro name hname
    obtain ⟨n, hn, htext⟩ :=
      List.mem_map.mp (supported_of_mem_parseVary haccepts.varied name.text hname)
    exact HeaderName.ext_text htext ▸ hn
  have hsame : SameVaried vary headers₁ headers₂ url₁ url₂ ↔
      ∀ name : HeaderName, name.text ∈ vary →
        (Reaches headers₁ name ↔ Reaches headers₂ name) ∧
          (Reaches headers₁ name →
            (headers₁.getAll name).tail = (headers₂.getAll name).tail) := by
    refine forall_congr' fun name => imp_congr_right fun hname => ?_
    exact forwarded_eq_iff (hsupported name hname) url₁ url₂ (hbytes name (hsupported name hname))
  rw [← hsame]
  constructor
  · intro h
    obtain ⟨es, writer, htrace, hentry⟩ := haccepts.exists_writer
    have hwriter := h plan₁ plan₂ hplan₁ hplan₂ hkey es writer htrace
    rw [hentry] at hwriter
    exact hwriter
  · intro h p₁ p₂ hp₁ hp₂ _ es writer htrace
    rw [hplan₁] at hp₁
    cases hp₁
    obtain ⟨vary', created, accessed, now', tempId, haccepts', rfl, -⟩ :=
      beginWrite_trace_iff.mp htrace
    obtain rfl : vary = vary' := by
      have hvaried := haccepts'.varied
      rw [haccepts.varied] at hvaried
      exact Option.some.inj hvaried
    exact h

end Variation

/-- A request with two `Accept` lines. -/
def twoAccepts : HeaderMap :=
  [(.accept, .fromStatic "text/html".toList), (.accept, .fromStatic "text/plain".toList)]

/-- A request with the first of them only. -/
def oneAccept : HeaderMap := [(.accept, .fromStatic "text/html".toList)]

/-- The headers of a response that varies on `Accept`. -/
def variedOnAccept : HeaderMap := [(.vary, .fromStatic "Accept".toList)]

/-- The plan of both requests. -/
def acceptPlan : CachePlan where
  key := @cacheKey reference (normalizedUrl exampleUrl) oneAccept
  ttl := 60

theorem twoAccepts_plan :
    @Cache.plan reference exampleCache exampleUrl twoAccepts = some acceptPlan := by rfl

theorem oneAccept_plan :
    @Cache.plan reference exampleCache exampleUrl oneAccept = some acceptPlan := by rfl

theorem variedOnAccept_accepts :
    @Accepts reference acceptPlan 200 variedOnAccept twoAccepts ["accept".toList] 0 :=
  @Accepts.mk reference acceptPlan 200 variedOnAccept twoAccepts _ _ (by decide) (by decide)
    (by decide) (by decide) (by decide)

/-- The theorem at the request with two lines, asked twice. -/
theorem key_covers_vary_twoAccepts :
    @KeyCoversVary reference exampleCache twoAccepts twoAccepts exampleUrl exampleUrl 200
      variedOnAccept :=
  (@key_covers_vary_iff reference reference_sha256_injective exampleCache twoAccepts twoAccepts
    exampleUrl exampleUrl acceptPlan acceptPlan twoAccepts_plan twoAccepts_plan rfl 200
    variedOnAccept ["accept".toList] 0 variedOnAccept_accepts).mpr
    fun _ _ => ⟨Iff.rfl, fun _ => rfl⟩

/-- **A second line is not in the key.**  A response varied on `Accept` is stored
under a key that a request with other `Accept` lines shares. -/
theorem second_line_is_not_keyed :
    ¬ @KeyCoversVary reference exampleCache twoAccepts oneAccept exampleUrl exampleUrl 200
      variedOnAccept := by
  intro h
  obtain ⟨es, writer, htrace, hentry⟩ :=
    @Accepts.exists_writer reference acceptPlan 200 variedOnAccept twoAccepts ["accept".toList] 0
      variedOnAccept_accepts
  have hsame := h acceptPlan acceptPlan twoAccepts_plan oneAccept_plan rfl es writer htrace
    .accept (by rw [hentry]; decide)
  exact absurd hsame (by decide)

end Corsget
