import Corsget.CacheIdentity

/-!
# Which targets share a cache key

The key of a plan hashes the normalised URL: host, port, path and query without
delimiters of its own.  For the URLs that come out of the parser the text can
still be read back (`normalizedUrl_inj`), because the path starts at the first
`/`, the query at the first `?`, and a `:` in a host stands between brackets.

What the text does not have cannot be read back.  Neither rules nor keys look at
the scheme, so equal keys leave the scheme and the fragment open and nothing
else (`equal_keys_same_target`); the two schemes of one host share an entry
(`scheme_is_not_keyed`).
-/

namespace Corsget

open Text

/-! ## URLs -/

/-- What the parser guarantees of an `http` or `https` URL: there is a host, in
lower case, in which a `:` occurs between brackets only, and a path from its
first `/` on. -/
structure Url.WellFormed (url : Url) : Prop where
  host : ∃ host, url.host = some host ∧ toAsciiLowercase host = host ∧ '/' ∉ host ∧
    (':' ∈ host → host.getLast? = some ']')
  path : ∃ rest, url.path = '/' :: rest ∧ '?' ∉ rest

/-- `Url::port_or_known_default` of an `http` or `https` URL. -/
def Url.effectivePort (url : Url) : ℕ :=
  url.port.getD (if url.scheme = "http".toList then 80 else 443)

/-- Two URLs differ at most in their fragments. -/
def Url.SameUpToFragment (url₁ url₂ : Url) : Prop :=
  { url₁ with fragment := url₂.fragment } = url₂

/-- Two URLs differ at most in their schemes and fragments. -/
def Url.SameUpToScheme (url₁ url₂ : Url) : Prop :=
  { url₁ with scheme := url₂.scheme, fragment := url₂.fragment } = url₂

/-- The host and the port of a URL, as the normalised text begins. -/
def Url.authority (url : Url) : Str :=
  toAsciiLowercase (url.host.getD []) ++
    (match url.port with
      | none => []
      | some port => ':' :: decimal port)

/-- The query of a URL, as the normalised text ends. -/
def Url.queryPart (url : Url) : Str :=
  match url.query with
  | none => []
  | some query => '?' :: query

namespace Url

variable {url url₁ url₂ : Url}

/-- **The parts of the normalised text.** -/
theorem WellFormed.normalizedUrl_eq (h : url.WellFormed) :
    normalizedUrl url = url.authority ++ url.path ++ url.queryPart := by
  obtain ⟨rest, hpath, -⟩ := h.path
  unfold normalizedUrl authority queryPart
  rewrite [if_neg (by rw [hpath]; exact List.cons_ne_nil _ _)]
  rfl

theorem WellFormed.slash_notMem_authority (h : url.WellFormed) : '/' ∉ url.authority := by
  obtain ⟨host, hhost, hlower, hslash, -⟩ := h.host
  unfold authority
  rw [hhost, Option.getD_some, hlower]
  intro hmem
  rcases List.mem_append.mp hmem with hmem | hmem
  · exact hslash hmem
  · cases hport : url.port with
    | none =>
        rw [hport] at hmem
        cases hmem
    | some port =>
        rw [hport] at hmem
        rcases List.mem_cons.mp hmem with heq | hmem
        · exact absurd heq (by decide)
        · exact absurd (isDigit_of_mem_decimal hmem) (by decide)

/-- A host alone is not a host with a port: a `:` in it is followed by a
bracket. -/
theorem host_ne_host_port {host host' : Str} {port : ℕ}
    (hbracket : ':' ∈ host → host.getLast? = some ']') : host ≠ host' ++ ':' :: decimal port := by
  intro h
  have hlast := hbracket (h ▸ List.mem_append_right _ List.mem_cons_self)
  have hmem : ']' ∈ ':' :: decimal port := by
    rw [h, List.getLast?_append_of_ne_nil _ (List.cons_ne_nil _ _)] at hlast
    exact List.mem_of_getLast? hlast
  rcases List.mem_cons.mp hmem with heq | hdigit
  · exact absurd heq (by decide)
  · exact absurd (isDigit_of_mem_decimal hdigit) (by decide)

/-- The authority determines host and port. -/
theorem WellFormed.authority_inj (h₁ : url₁.WellFormed) (h₂ : url₂.WellFormed)
    (h : url₁.authority = url₂.authority) : url₁.host = url₂.host ∧ url₁.port = url₂.port := by
  obtain ⟨host₁, hhost₁, hlower₁, -, hbracket₁⟩ := h₁.host
  obtain ⟨host₂, hhost₂, hlower₂, -, hbracket₂⟩ := h₂.host
  unfold authority at h
  rw [hhost₁, hhost₂, Option.getD_some, Option.getD_some, hlower₁, hlower₂] at h
  rw [hhost₁, hhost₂]
  cases hport₁ : url₁.port with
  | none =>
      cases hport₂ : url₂.port with
      | none =>
          rw [hport₁, hport₂] at h
          exact ⟨congrArg some (List.append_cancel_right h), rfl⟩
      | some port₂ =>
          rw [hport₁, hport₂] at h
          exact absurd ((List.append_nil _).symm.trans h) (host_ne_host_port hbracket₁)
  | some port₁ =>
      cases hport₂ : url₂.port with
      | none =>
          rw [hport₁, hport₂] at h
          exact absurd ((List.append_nil _).symm.trans h.symm) (host_ne_host_port hbracket₂)
      | some port₂ =>
          rw [hport₁, hport₂] at h
          have hcolon : ∀ port : ℕ, ':' ∉ decimal port := fun port hmem =>
            absurd (isDigit_of_mem_decimal hmem) (by decide)
          obtain ⟨rfl, hdecimal⟩ := snoc_segment_inj (hcolon port₁) (hcolon port₂) h
          exact ⟨rfl, congrArg some (decimal_injective hdecimal)⟩

/-- Path and query determine each other's bounds. -/
theorem path_query_inj {rest₁ rest₂ : Str} (h₁ : '?' ∉ rest₁) (h₂ : '?' ∉ rest₂)
    (h : rest₁ ++ url₁.queryPart = rest₂ ++ url₂.queryPart) :
    rest₁ = rest₂ ∧ url₁.query = url₂.query := by
  unfold queryPart at h
  cases hquery₁ : url₁.query with
  | none =>
      cases hquery₂ : url₂.query with
      | none =>
          rw [hquery₁, hquery₂] at h
          exact ⟨List.append_cancel_right h, rfl⟩
      | some query₂ =>
          rw [hquery₁, hquery₂] at h
          have heq : rest₁ = rest₂ ++ '?' :: query₂ := (List.append_nil _).symm.trans h
          exact absurd (heq ▸ List.mem_append_right _ List.mem_cons_self) h₁
  | some query₁ =>
      cases hquery₂ : url₂.query with
      | none =>
          rw [hquery₁, hquery₂] at h
          have heq : rest₂ = rest₁ ++ '?' :: query₁ := (List.append_nil _).symm.trans h.symm
          exact absurd (heq ▸ List.mem_append_right _ List.mem_cons_self) h₂
      | some query₂ =>
          rw [hquery₁, hquery₂] at h
          obtain ⟨rfl, rfl⟩ := segment_append_inj h₁ h₂ h
          exact ⟨rfl, rfl⟩

/-- **The normalised text can be read back**: it determines host, port, path and
query. -/
theorem WellFormed.normalizedUrl_inj (h₁ : url₁.WellFormed) (h₂ : url₂.WellFormed)
    (h : normalizedUrl url₁ = normalizedUrl url₂) :
    url₁.host = url₂.host ∧ url₁.port = url₂.port ∧ url₁.path = url₂.path ∧
      url₁.query = url₂.query := by
  obtain ⟨rest₁, hpath₁, hquestion₁⟩ := h₁.path
  obtain ⟨rest₂, hpath₂, hquestion₂⟩ := h₂.path
  rw [h₁.normalizedUrl_eq, h₂.normalizedUrl_eq, hpath₁, hpath₂, List.append_assoc,
    List.append_assoc, List.cons_append, List.cons_append] at h
  -- The path begins at the first `/`.
  obtain ⟨hauthority, hrest⟩ :=
    segment_append_inj h₁.slash_notMem_authority h₂.slash_notMem_authority h
  obtain ⟨hhost, hport⟩ := h₁.authority_inj h₂ hauthority
  obtain ⟨rfl, hquery⟩ := path_query_inj hquestion₁ hquestion₂ hrest
  exact ⟨hhost, hport, hpath₁.trans hpath₂.symm, hquery⟩

theorem SameUpToScheme.of_parts (huser : url₁.username = url₂.username)
    (hpass : url₁.password = url₂.password) (hhost : url₁.host = url₂.host)
    (hport : url₁.port = url₂.port) (hpath : url₁.path = url₂.path)
    (hquery : url₁.query = url₂.query) : url₁.SameUpToScheme url₂ := by
  unfold SameUpToScheme
  cases url₁
  cases url₂
  dsimp only at huser hpass hhost hport hpath hquery ⊢
  rw [huser, hpass, hhost, hport, hpath, hquery]

/-- With one scheme there is one port. -/
theorem SameUpToScheme.sameUpToFragment (h : url₁.SameUpToScheme url₂)
    (hscheme : url₁.scheme = url₂.scheme) :
    url₁.SameUpToFragment url₂ ∧ url₁.effectivePort = url₂.effectivePort := by
  unfold SameUpToScheme at h
  rw [← hscheme] at h
  refine ⟨h, ?_⟩
  rw [← h]
  rfl

end Url

/-! ## Keys -/

section Keys

variable [Crates]

/-- A URL that a request asks for and the scheme check lets through. -/
structure IsTarget (uri : OriginalUri) (url : Url) : Prop where
  parsed : parseTargetUrl uri = .ok url
  schemeOk : checkScheme url = .ok ()

/-- The target of a request comes out of the URL parser. -/
theorem exists_urlParse {uri : OriginalUri} {url : Url} (h : parseTargetUrl uri = .ok url) :
    ∃ text, Crates.urlParse text = .ok url := by
  have hmap : ∀ {result : Except Str Url}, result.mapError AppError.badUrl = .ok url →
      result = .ok url := by
    intro result hresult
    cases result with
    | error e => cases hresult
    | ok parsed => exact congrArg Except.ok (Except.ok.inj hresult)
  unfold parseTargetUrl at h
  split at h
  · split at h
    · cases h
    · exact ⟨_, hmap h⟩
  · dsimp only at h
    generalize (if startsWith (uri.pathAndQuery.getD []) ['/'] then
      (uri.pathAndQuery.getD []).drop 1 else uri.pathAndQuery.getD []) = raw at h
    split at h
    · cases h
    · exact ⟨_, hmap h⟩

/-- The parser's guarantee about `http` and `https` URLs. -/
def ParsesWellFormed : Prop :=
  ∀ text url, Crates.urlParse text = .ok url →
    url.scheme = "http".toList ∨ url.scheme = "https".toList → url.WellFormed

theorem IsTarget.wellFormed (hparse : ParsesWellFormed) {uri : OriginalUri} {url : Url}
    (h : IsTarget uri url) : url.WellFormed := by
  obtain ⟨text, htext⟩ := exists_urlParse h.parsed
  refine hparse text url htext ?_
  have hscheme := h.schemeOk
  unfold checkScheme at hscheme
  split at hscheme
  · assumption
  · cases hscheme

/-- **Keys separate targets up to the scheme**, for every two planned requests
whose target URLs have no user name and password. -/
theorem equal_keys_same_target (hsha : Function.Injective Crates.sha256)
    (hparse : ParsesWellFormed) {cache₁ cache₂ : Cache} {uri₁ uri₂ : OriginalUri}
    {url₁ url₂ : Url} {headers₁ headers₂ : HeaderMap} {plan₁ plan₂ : CachePlan}
    (htarget₁ : IsTarget uri₁ url₁) (htarget₂ : IsTarget uri₂ url₂)
    (huser₁ : url₁.hasUserinfo = false) (huser₂ : url₂.hasUserinfo = false)
    (hplan₁ : cache₁.plan url₁ headers₁ = some plan₁)
    (hplan₂ : cache₂.plan url₂ headers₂ = some plan₂) (hkey : plan₁.key = plan₂.key) :
    url₁.SameUpToScheme url₂ ∧
      (url₁.scheme = url₂.scheme →
        url₁.SameUpToFragment url₂ ∧ url₁.effectivePort = url₂.effectivePort) := by
  have hinput : cacheKeyInput (normalizedUrl url₁) headers₁ =
      cacheKeyInput (normalizedUrl url₂) headers₂ := by
    rw [(plan_eq_some hplan₁).1, (plan_eq_some hplan₂).1] at hkey
    exact hsha hkey
  have htext := utf8_injective (cacheKeyInput_inj hinput).1
  obtain ⟨hhost, hport, hpath, hquery⟩ :=
    (htarget₁.wellFormed hparse).normalizedUrl_inj (htarget₂.wellFormed hparse) htext
  have hnone : ∀ {url : Url}, url.hasUserinfo = false →
      url.username = [] ∧ url.password = none := by
    intro url h
    simpa [Url.hasUserinfo] using h
  obtain ⟨hname₁, hpass₁⟩ := hnone huser₁
  obtain ⟨hname₂, hpass₂⟩ := hnone huser₂
  have hsame : url₁.SameUpToScheme url₂ :=
    .of_parts (hname₁.trans hname₂.symm) (hpass₁.trans hpass₂.symm) hhost hport hpath hquery
  exact ⟨hsame, hsame.sameUpToFragment⟩

end Keys

/-! ## Two schemes -/

/-- `http://example.com/x`. -/
def plainUrl : Url := { exampleUrl with scheme := "http".toList }

/-- A parser that knows both schemes of `exampleUrl`. -/
@[reducible] def bothSchemes : Crates := knowing [exampleUrl, plainUrl]

theorem bothSchemes_parsesWellFormed : @ParsesWellFormed bothSchemes := by
  intro text url h _
  have hmem : url ∈ [exampleUrl, plainUrl] := mem_of_knowing h
  have hhost : ∃ host, some "example.com".toList = some host ∧ toAsciiLowercase host = host ∧
      '/' ∉ host ∧ (':' ∈ host → host.getLast? = some ']') :=
    ⟨"example.com".toList, rfl, by decide, by decide, by decide⟩
  have hpath : ∃ rest, "/x".toList = '/' :: rest ∧ '?' ∉ rest := ⟨['x'], rfl, by decide⟩
  simp only [List.mem_cons, List.not_mem_nil, or_false] at hmem
  rcases hmem with rfl | rfl
  · exact ⟨hhost, hpath⟩
  · exact ⟨hhost, hpath⟩

/-- A request for `/https://example.com/x`. -/
def secureUri : OriginalUri where
  scheme := none
  pathAndQuery := some "/https://example.com/x".toList
  text := "/https://example.com/x".toList

/-- A request for `/http://example.com/x`. -/
def plainUri : OriginalUri where
  scheme := none
  pathAndQuery := some "/http://example.com/x".toList
  text := "/http://example.com/x".toList

theorem secureUri_isTarget : @IsTarget bothSchemes secureUri exampleUrl :=
  @IsTarget.mk bothSchemes secureUri exampleUrl (by decide) (by decide)

theorem plainUri_isTarget : @IsTarget bothSchemes plainUri plainUrl :=
  @IsTarget.mk bothSchemes plainUri plainUrl (by decide) (by decide)

/-- The plan of both. -/
def bothPlan : CachePlan where
  key := @cacheKey bothSchemes (normalizedUrl exampleUrl) []
  ttl := 60

theorem exampleUrl_bothPlan :
    @Cache.plan bothSchemes exampleCache exampleUrl [] = some bothPlan := by rfl

theorem plainUrl_bothPlan :
    @Cache.plan bothSchemes exampleCache plainUrl [] = some bothPlan := by rfl

/-- The theorem at the two schemes. -/
theorem equal_keys_same_target_bothSchemes :
    plainUrl.SameUpToScheme exampleUrl ∧ (plainUrl.scheme = exampleUrl.scheme →
      plainUrl.SameUpToFragment exampleUrl ∧
        plainUrl.effectivePort = exampleUrl.effectivePort) :=
  @equal_keys_same_target bothSchemes reference_sha256_injective bothSchemes_parsesWellFormed
    exampleCache exampleCache plainUri secureUri plainUrl exampleUrl [] [] bothPlan bothPlan
    plainUri_isTarget secureUri_isTarget (by decide) (by decide) plainUrl_bothPlan
    exampleUrl_bothPlan rfl

/-- **The scheme is not part of the key.**  Requests for `http://example.com/x`
and `https://example.com/x` have one plan, and their URLs differ in scheme and
port. -/
theorem scheme_is_not_keyed :
    Function.Injective bothSchemes.sha256 ∧ @ParsesWellFormed bothSchemes ∧
      @IsTarget bothSchemes plainUri plainUrl ∧ @IsTarget bothSchemes secureUri exampleUrl ∧
      plainUrl.hasUserinfo = false ∧ exampleUrl.hasUserinfo = false ∧
      @Cache.plan bothSchemes exampleCache plainUrl [] = some bothPlan ∧
      @Cache.plan bothSchemes exampleCache exampleUrl [] = some bothPlan ∧
      ¬ plainUrl.SameUpToFragment exampleUrl ∧
      plainUrl.effectivePort ≠ exampleUrl.effectivePort :=
  ⟨reference_sha256_injective, bothSchemes_parsesWellFormed, plainUri_isTarget,
    secureUri_isTarget, by decide, by decide, plainUrl_bothPlan, exampleUrl_bothPlan,
    fun h => absurd (congrArg Url.scheme h) (by decide), by decide⟩

end Corsget
