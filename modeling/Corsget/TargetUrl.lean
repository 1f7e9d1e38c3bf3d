import Corsget.KeySeparation
import Corsget.Reference

/-!
# The scheme of the target

A request in origin form writes its target into the path, with or without a scheme.
`parse_target_url` looks for the two prefixes `http://` and `https://` as they are written
here; whatever begins with anything else it reads behind `https://`.

So a scheme that it does not recognise becomes the name of a host, and the target is read
as it is written exactly when there is nothing to recognise, or the URL parser refuses the
scheme as a host, or `https` in other letters happens to stand in front of a host of that
name (`target_read_iff`).  What the proof uses of the URL parser is `ReadsSpecial`.
-/

namespace Corsget

open Text

/-! ## Schemes -/

/-- The characters of a scheme, but for the first, which is a letter. -/
def isSchemeChar (c : Char) : Bool := c.isAlphanum || c == '+' || c == '-' || c == '.'

/-- The syntax of a URI scheme. -/
def isScheme : Str → Bool
  | [] => false
  | c :: rest => c.isAlpha && rest.all isSchemeChar

/-- A text begins with a scheme and `://`. -/
def HasScheme (t scheme rest : Str) : Prop :=
  isScheme scheme = true ∧ t = scheme ++ "://".toList ++ rest

/-- The scheme is `http` or `https`, in any case. -/
def IsHttp (scheme : Str) : Prop :=
  toAsciiLowercase scheme = "http".toList ∨ toAsciiLowercase scheme = "https".toList

/-- A text without its leading slashes. -/
def dropSlashes (t : Str) : Str := t.dropWhile (· == '/')

/-- The target in a text: what follows the scheme, if there is one, and the slashes. -/
def IsTargetText (t target : Str) : Prop :=
  (∃ scheme rest, HasScheme t scheme rest ∧ target = dropSlashes rest) ∨
    (∀ scheme rest, ¬HasScheme t scheme rest) ∧ target = dropSlashes t

/-- A request for `/t`. -/
def originForm (t : Str) : OriginalUri where
  scheme := none
  pathAndQuery := some ('/' :: t)
  text := '/' :: t

theorem isSchemeChar_of_isScheme {scheme : Str} (h : isScheme scheme = true) :
    ∀ c ∈ scheme, isSchemeChar c = true := by
  cases scheme with
  | nil => cases h
  | cons first rest =>
      unfold isScheme at h
      rw [Bool.and_eq_true, List.all_eq_true] at h
      obtain ⟨hfirst, hrest⟩ := h
      intro c hc
      rcases List.mem_cons.mp hc with rfl | hc
      · simp [isSchemeChar, Char.isAlphanum, hfirst]
      · exact hrest c hc

theorem notMem_of_isScheme {scheme : Str} (h : isScheme scheme = true) {c : Char}
    (hc : isSchemeChar c = false) : c ∉ scheme := by
  intro hmem
  rw [isSchemeChar_of_isScheme h c hmem] at hc
  cases hc

/-- A text has one scheme at most. -/
theorem HasScheme.unique {t scheme scheme' rest rest' : Str} (h : HasScheme t scheme rest)
    (h' : HasScheme t scheme' rest') : scheme = scheme' ∧ rest = rest' := by
  obtain ⟨hscheme, rfl⟩ := h
  obtain ⟨hscheme', hsame⟩ := h'
  rw [List.append_assoc, List.append_assoc] at hsame
  obtain ⟨rfl, hrest⟩ :=
    segment_append_inj (notMem_of_isScheme hscheme (by decide))
      (notMem_of_isScheme hscheme' (by decide)) hsame
  exact ⟨rfl, List.append_cancel_left (List.cons.inj hrest).2⟩

theorem HasScheme.ne_nil {t scheme rest : Str} (h : HasScheme t scheme rest) : t ≠ [] := by
  obtain ⟨hscheme, rfl⟩ := h
  cases scheme with
  | nil => cases hscheme
  | cons c cs => exact List.cons_ne_nil _ _

theorem isHttp_of_written {scheme : Str} (h : scheme = "http".toList ∨ scheme = "https".toList) :
    IsHttp scheme := by
  rcases h with rfl | rfl
  · exact Or.inl (by decide)
  · exact Or.inr (by decide)

theorem startsWith_iff {s pre : Str} : startsWith s pre = true ↔ pre <+: s := by
  unfold startsWith
  exact List.isPrefixOf_iff_prefix

/-- A text begins with `http://` or `https://` just if that is its scheme. -/
theorem startsWith_scheme_iff {t scheme : Str} (hscheme : isScheme scheme = true) :
    startsWith t (scheme ++ "://".toList) = true ↔ ∃ rest, HasScheme t scheme rest := by
  rw [startsWith_iff]
  constructor
  · rintro ⟨rest, htext⟩
    exact ⟨rest, hscheme, htext.symm⟩
  · rintro ⟨rest, -, htext⟩
    exact ⟨rest, htext.symm⟩

theorem mapError_badUrl_eq_ok {result : Except Str Url} {url : Url}
    (h : result.mapError AppError.badUrl = .ok url) : result = .ok url := by
  cases result with
  | error text => cases h
  | ok parsed => exact congrArg Except.ok (Except.ok.inj h)

section Targets

variable [Crates]

/-! ## The URL parser -/

/-- How the parser reads an `http` or `https` URL from behind its slashes on: the path, the
query and the fragment, and which names it takes for a host. -/
structure UrlReading where
  host : Str → Option Str
  path : Str → Str
  query : Str → Option Str
  fragment : Str → Option Str

/-- The URL of a text that begins with the name of a host and has no user and no port. -/
def UrlReading.hostUrl (r : UrlReading) (host t : Str) : Url where
  scheme := "https".toList
  username := []
  password := none
  host := some host
  port := none
  path := r.path t
  query := r.query t
  fragment := r.fragment t

/-- What the URL parser does with `http` and `https` URLs: the slashes behind the scheme do
not matter, the scheme is lowered, path and query are read off what follows the slashes, a
name in front of `:` and a slash is the host if it can be one, and `http` and `https` can. -/
structure ReadsSpecial (r : UrlReading) : Prop where
  slashes : ∀ rest, Crates.urlParse ("https://".toList ++ '/' :: rest) =
    Crates.urlParse ("https://".toList ++ rest)
  scheme : ∀ scheme rest url, isScheme scheme = true → IsHttp scheme →
    Crates.urlParse (scheme ++ "://".toList ++ rest) = .ok url →
      url.scheme = toAsciiLowercase scheme
  target : ∀ scheme rest url, isScheme scheme = true → IsHttp scheme →
    Crates.urlParse (scheme ++ "://".toList ++ rest) = .ok url →
      url.path = r.path (dropSlashes rest) ∧ url.query = r.query (dropSlashes rest)
  host : ∀ name rest host, isScheme name = true → r.host name = some host →
    Crates.urlParse ("https://".toList ++ (name ++ "://".toList ++ rest)) =
      .ok (r.hostUrl host (name ++ "://".toList ++ rest))
  noHost : ∀ name rest, isScheme name = true → r.host name = none →
    ∃ text, Crates.urlParse ("https://".toList ++ (name ++ "://".toList ++ rest)) = .error text
  httpHost : ∀ name, isScheme name = true → IsHttp name →
    r.host name = some (toAsciiLowercase name)

variable {r : UrlReading}

theorem ReadsSpecial.urlParse_dropSlashes (h : ReadsSpecial r) (t : Str) :
    Crates.urlParse ("https://".toList ++ dropSlashes t) =
      Crates.urlParse ("https://".toList ++ t) := by
  induction t with
  | nil => rfl
  | cons c rest ih =>
      by_cases hslash : c = '/'
      · subst hslash
        rw [h.slashes, ← ih]
        rfl
      · unfold dropSlashes
        rw [List.dropWhile_cons_of_neg (by simpa using hslash)]

/-! ## The claim and its condition -/

/-- **The target is read as it is written**: with its own scheme, which has to be `http` or
`https`, or with `https` when it has none. -/
structure TargetRead (r : UrlReading) (t : Str) (result : Except AppError Url) : Prop where
  own : ∀ scheme rest, HasScheme t scheme rest → IsHttp scheme →
    result = (Crates.urlParse t).mapError .badUrl
  other : ∀ scheme rest, HasScheme t scheme rest → ¬IsHttp scheme →
    ∃ text, result = .error (.badUrl text)
  empty : t = [] → ∃ text, result = .error (.badUrl text)
  none : t ≠ [] → (∀ scheme rest, ¬HasScheme t scheme rest) →
    result = (Crates.urlParse ("https://".toList ++ dropSlashes t)).mapError .badUrl
  target : ∀ url target, result = .ok url → IsTargetText t target →
    url.path = r.path target ∧ url.query = r.query target

/-- **The scheme makes no difference**: there is none, or it is written as the code writes
it, or it is no name of a host, or it is `https` in other letters, in front of a URL whose
host is itself called `https`, and which has the path, query and fragment of the whole. -/
def SchemeHarmless (r : UrlReading) (t : Str) : Prop :=
  ∀ scheme rest, HasScheme t scheme rest →
    scheme = "http".toList ∨ scheme = "https".toList ∨
      (¬IsHttp scheme ∧ r.host scheme = none) ∨
        toAsciiLowercase scheme = "https".toList ∧
          Crates.urlParse t = .ok (r.hostUrl "https".toList t)

/-! ## What the code does -/

/-- Nothing but a slash names no target. -/
theorem parseTargetUrl_of_empty : ∃ text, parseTargetUrl (originForm []) =
    .error (.badUrl text) :=
  ⟨_, rfl⟩

/-- `parse_target_url` of a text behind the slash. -/
theorem parseTargetUrl_originForm {t : Str} (hne : t ≠ []) :
    parseTargetUrl (originForm t) = (Crates.urlParse
      (if startsWith t "http://".toList || startsWith t "https://".toList then t
      else if startsWith t "//".toList then "https://".toList ++ t.drop 2
      else "https://".toList ++ t)).mapError .badUrl :=
  if_neg hne

/-- A text that begins with one of the two prefixes is parsed as it is. -/
theorem parseTargetUrl_of_written {t scheme rest : Str} (h : HasScheme t scheme rest)
    (hwritten : scheme = "http".toList ∨ scheme = "https".toList) :
    parseTargetUrl (originForm t) = (Crates.urlParse t).mapError .badUrl := by
  have hprefix : (startsWith t "http://".toList || startsWith t "https://".toList) = true := by
    rw [Bool.or_eq_true]
    rcases hwritten with rfl | rfl
    · exact Or.inl ((startsWith_scheme_iff h.1).mpr ⟨rest, h⟩)
    · exact Or.inr ((startsWith_scheme_iff h.1).mpr ⟨rest, h⟩)
  rw [parseTargetUrl_originForm h.ne_nil, if_pos hprefix]

/-- Any other text is read behind `https://`. -/
theorem parseTargetUrl_of_unwritten (hparse : ReadsSpecial r) {t : Str} (hne : t ≠ [])
    (h : ∀ scheme rest, HasScheme t scheme rest →
      ¬(scheme = "http".toList ∨ scheme = "https".toList)) :
    parseTargetUrl (originForm t) =
      (Crates.urlParse ("https://".toList ++ t)).mapError .badUrl := by
  have hprefix : ¬(startsWith t "http://".toList || startsWith t "https://".toList) = true := by
    rw [Bool.or_eq_true]
    rintro (hhttp | hhttps)
    · have hscheme : isScheme "http".toList = true := by decide
      obtain ⟨rest, hscheme⟩ := (startsWith_scheme_iff hscheme).mp hhttp
      exact h _ rest hscheme (Or.inl rfl)
    · have hscheme : isScheme "https".toList = true := by decide
      obtain ⟨rest, hscheme⟩ := (startsWith_scheme_iff hscheme).mp hhttps
      exact h _ rest hscheme (Or.inr rfl)
  rw [parseTargetUrl_originForm hne, if_neg hprefix]
  by_cases hslashes : startsWith t "//".toList = true
  · rw [if_pos hslashes]
    obtain ⟨rest, rfl⟩ := startsWith_iff.mp hslashes
    show (Crates.urlParse ("https://".toList ++ rest)).mapError _ =
      (Crates.urlParse ("https://".toList ++ '/' :: '/' :: rest)).mapError _
    rw [hparse.slashes, hparse.slashes]
  · rw [if_neg hslashes]

/-- A scheme that is not recognised is read as a host, if it can be one. -/
theorem parseTargetUrl_of_host (hparse : ReadsSpecial r) {t scheme rest host : Str}
    (h : HasScheme t scheme rest)
    (hunwritten : ¬(scheme = "http".toList ∨ scheme = "https".toList))
    (hhost : r.host scheme = some host) :
    parseTargetUrl (originForm t) = .ok (r.hostUrl host t) := by
  rw [parseTargetUrl_of_unwritten hparse h.ne_nil fun _ _ h' => (h.unique h').1 ▸ hunwritten]
  obtain ⟨hscheme, rfl⟩ := h
  rw [hparse.host scheme rest host hscheme hhost]
  rfl

/-- A scheme that is not recognised and cannot be a host makes the target a bad one. -/
theorem parseTargetUrl_of_noHost (hparse : ReadsSpecial r) {t scheme rest : Str}
    (h : HasScheme t scheme rest)
    (hunwritten : ¬(scheme = "http".toList ∨ scheme = "https".toList))
    (hhost : r.host scheme = none) :
    ∃ text, parseTargetUrl (originForm t) = .error (.badUrl text) := by
  rw [parseTargetUrl_of_unwritten hparse h.ne_nil fun _ _ h' => (h.unique h').1 ▸ hunwritten]
  obtain ⟨hscheme, rfl⟩ := h
  obtain ⟨text, herror⟩ := hparse.noHost scheme rest hscheme hhost
  rw [herror]
  exact ⟨text, rfl⟩

/-! ## When the scheme counts -/

/-- Where the scheme makes a difference the target is read as another one. -/
theorem TargetRead.harmless (hparse : ReadsSpecial r) {t : Str}
    (h : TargetRead r t (parseTargetUrl (originForm t))) : SchemeHarmless r t := by
  intro scheme rest hscheme
  by_cases hwritten : scheme = "http".toList ∨ scheme = "https".toList
  · exact hwritten.imp_right Or.inl
  right; right
  by_cases hhttp : IsHttp scheme
  · right
    have hhost := hparse.httpHost scheme hscheme.1 hhttp
    have hread := h.own scheme rest hscheme hhttp
    rw [parseTargetUrl_of_host hparse hscheme hwritten hhost] at hread
    have hurl := mapError_badUrl_eq_ok hread.symm
    have hlower : "https".toList = toAsciiLowercase scheme := by
      obtain ⟨hvalid, rfl⟩ := hscheme
      exact hparse.scheme scheme rest _ hvalid hhttp hurl
    rw [← hlower] at hurl
    exact ⟨hlower.symm, hurl⟩
  · left
    refine ⟨hhttp, ?_⟩
    obtain ⟨text, herror⟩ := h.other scheme rest hscheme hhttp
    cases hhost : r.host scheme with
    | none => rfl
    | some host =>
        rw [parseTargetUrl_of_host hparse hscheme hwritten hhost] at herror
        cases herror

/-- A harmless scheme of the web is the target's own. -/
theorem SchemeHarmless.own (hparse : ReadsSpecial r) {t scheme rest : Str}
    (h : SchemeHarmless r t) (hscheme : HasScheme t scheme rest) (hhttp : IsHttp scheme) :
    parseTargetUrl (originForm t) = (Crates.urlParse t).mapError .badUrl := by
  by_cases hwritten : scheme = "http".toList ∨ scheme = "https".toList
  · exact parseTargetUrl_of_written hscheme hwritten
  rcases h scheme rest hscheme with hhere | hhere | ⟨hother, -⟩ | ⟨hlower, hurl⟩
  · exact absurd (Or.inl hhere) hwritten
  · exact absurd (Or.inr hhere) hwritten
  · exact absurd hhttp hother
  · have hhost := hparse.httpHost scheme hscheme.1 hhttp
    rw [hlower] at hhost
    rw [parseTargetUrl_of_host hparse hscheme hwritten hhost, hurl]
    rfl

/-- A harmless scheme of any other kind is refused. -/
theorem SchemeHarmless.other (hparse : ReadsSpecial r) {t scheme rest : Str}
    (h : SchemeHarmless r t) (hscheme : HasScheme t scheme rest) (hother : ¬IsHttp scheme) :
    ∃ text, parseTargetUrl (originForm t) = .error (.badUrl text) := by
  have hunwritten : ¬(scheme = "http".toList ∨ scheme = "https".toList) :=
    fun hwritten => hother (isHttp_of_written hwritten)
  rcases h scheme rest hscheme with hhere | hhere | ⟨-, hhost⟩ | ⟨hlower, -⟩
  · exact absurd (Or.inl hhere) hunwritten
  · exact absurd (Or.inr hhere) hunwritten
  · exact parseTargetUrl_of_noHost hparse hscheme hunwritten hhost
  · exact absurd (Or.inr hlower) hother

/-- Without a scheme the target is read behind `https://`, whatever slashes it begins with. -/
theorem parseTargetUrl_of_none (hparse : ReadsSpecial r) {t : Str} (hne : t ≠ [])
    (h : ∀ scheme rest, ¬HasScheme t scheme rest) :
    parseTargetUrl (originForm t) =
      (Crates.urlParse ("https://".toList ++ dropSlashes t)).mapError .badUrl := by
  rw [parseTargetUrl_of_unwritten hparse hne fun scheme rest h' => absurd h' (h scheme rest),
    hparse.urlParse_dropSlashes]

/-- What is parsed as the target's own has the path and the query of the target. -/
theorem SchemeHarmless.target (hparse : ReadsSpecial r) {t target : Str} {url : Url}
    (h : SchemeHarmless r t) (hread : parseTargetUrl (originForm t) = .ok url)
    (htarget : IsTargetText t target) :
    url.path = r.path target ∧ url.query = r.query target := by
  rcases htarget with ⟨scheme, rest, hscheme, rfl⟩ | ⟨hnone, rfl⟩
  · have hhttp : IsHttp scheme := by
      by_contra hother
      obtain ⟨text, herror⟩ := h.other hparse hscheme hother
      rw [hread] at herror
      cases herror
    rw [h.own hparse hscheme hhttp] at hread
    obtain ⟨hvalid, rfl⟩ := hscheme
    exact hparse.target scheme rest url hvalid hhttp (mapError_badUrl_eq_ok hread)
  · have hne : t ≠ [] := by
      rintro rfl
      obtain ⟨text, herror⟩ := parseTargetUrl_of_empty
      rw [hread] at herror
      cases herror
    rw [parseTargetUrl_of_none hparse hne hnone, hparse.urlParse_dropSlashes] at hread
    exact hparse.target "https".toList t url (by decide) (Or.inr (by decide))
      (mapError_badUrl_eq_ok hread)

/-- **A target is read as it is written just if its scheme is harmless**, for every text
behind the slash. -/
theorem target_read_iff (hparse : ReadsSpecial r) (t : Str) :
    TargetRead r t (parseTargetUrl (originForm t)) ↔ SchemeHarmless r t := by
  refine ⟨fun h => h.harmless hparse, fun h => ?_⟩
  constructor
  · exact fun scheme rest hscheme hhttp => h.own hparse hscheme hhttp
  · exact fun scheme rest hscheme hother => h.other hparse hscheme hother
  · rintro rfl
    exact parseTargetUrl_of_empty
  · exact parseTargetUrl_of_none hparse
  · exact fun url target hread htarget => h.target hparse hread htarget

end Targets

/-! ## A parser -/

/-- The part of a URL up to its path. -/
def inAuthority (c : Char) : Bool := c != '/' && c != '?' && c != '#'

/-- A reading that takes every name for a host and leaves the path as it is. -/
def plainReading : UrlReading where
  host name := if name = [] then none else some (toAsciiLowercase name)
  path t :=
    let path := (t.dropWhile inAuthority).takeWhile fun c => c != '?' && c != '#'
    if path = [] then ['/'] else path
  query t :=
    match t.dropWhile fun c => c != '?' && c != '#' with
    | '?' :: rest => some (rest.takeWhile (· != '#'))
    | _ => none
  fragment t :=
    match t.dropWhile (· != '#') with
    | '#' :: rest => some rest
    | _ => none

/-- What follows the slashes, without users and ports. -/
def readTarget (scheme target : Str) : Except Str Url :=
  let authority := target.takeWhile inAuthority
  let name := authority.takeWhile (· != ':')
  if authority ≠ name ∧ authority ≠ name ++ [':'] then .error "invalid port number".toList
  else
    match plainReading.host name with
    | none => .error "empty host".toList
    | some host => .ok { plainReading.hostUrl host target with scheme := scheme }

instance (scheme : Str) : Decidable (IsHttp scheme) :=
  inferInstanceAs (Decidable (_ ∨ _))

/-- A parser of `http` and `https` URLs. -/
def readPlain (text : Str) : Except Str Url :=
  let scheme := text.takeWhile (· != ':')
  if IsHttp scheme then
    readTarget (toAsciiLowercase scheme) (dropSlashes (text.drop (scheme.length + 1)))
  else .error "relative URL without a base".toList

/-- `reference` with this parser. -/
@[reducible] def plainParser : Crates := { reference with urlParse := readPlain }

theorem readPlain_of_isHttp {scheme : Str} (hscheme : isScheme scheme = true)
    (hhttp : IsHttp scheme) (rest : Str) :
    readPlain (scheme ++ "://".toList ++ rest) =
      readTarget (toAsciiLowercase scheme) (dropSlashes rest) := by
  have hcolon : ∀ c ∈ scheme, (c != ':') = true := fun c hc =>
    bne_iff_ne.mpr fun heq => notMem_of_isScheme hscheme (by decide) (heq ▸ hc)
  have htake : (scheme ++ "://".toList ++ rest).takeWhile (· != ':') = scheme := by
    rw [List.append_assoc, List.takeWhile_append_of_pos hcolon]
    exact List.append_nil scheme
  have hdrop : dropSlashes ((scheme ++ "://".toList ++ rest).drop (scheme.length + 1)) =
      dropSlashes rest := by
    rw [List.append_assoc, List.drop_append, List.drop_eq_nil_of_le (Nat.le_succ _),
      Nat.add_sub_cancel_left]
    rfl
  unfold readPlain
  rw [htake]
  exact (if_pos hhttp).trans (congrArg _ hdrop)

theorem readTarget_eq_ok {scheme target : Str} {url : Url}
    (h : readTarget scheme target = .ok url) :
    url.scheme = scheme ∧ url.path = plainReading.path target ∧
      url.query = plainReading.query target := by
  unfold readTarget at h
  dsimp only at h
  split at h
  · cases h
  · split at h
    · cases h
    · obtain rfl := Except.ok.inj h
      exact ⟨rfl, rfl, rfl⟩

theorem plainReading_host {name : Str} (hname : isScheme name = true) :
    plainReading.host name = some (toAsciiLowercase name) := by
  refine if_neg ?_
  rintro rfl
  cases hname

/-- A name in front of `:` and a slash is the host. -/
theorem readTarget_of_name {name : Str} (hname : isScheme name = true) (rest : Str) :
    readTarget "https".toList (dropSlashes (name ++ "://".toList ++ rest)) =
      .ok (plainReading.hostUrl (toAsciiLowercase name) (name ++ "://".toList ++ rest)) := by
  have hchar : ∀ x, isSchemeChar x = false → ∀ c ∈ name, (c != x) = true := fun x hx c hc =>
    bne_iff_ne.mpr fun heq => notMem_of_isScheme hname hx (heq ▸ hc)
  have hinside : ∀ c ∈ name, inAuthority c = true := fun c hc => by
    unfold inAuthority
    rw [hchar '/' (by decide) c hc, hchar '?' (by decide) c hc, hchar '#' (by decide) c hc]
    rfl
  have hslashes : dropSlashes (name ++ "://".toList ++ rest) = name ++ "://".toList ++ rest := by
    cases name with
    | nil => cases hname
    | cons first name =>
        refine List.dropWhile_cons_of_neg ?_
        simpa using hchar '/' (by decide) first List.mem_cons_self
  have hauthority : (name ++ "://".toList ++ rest).takeWhile inAuthority = name ++ [':'] := by
    rw [List.append_assoc, List.takeWhile_append_of_pos hinside]
    rfl
  have hhost : (name ++ [':']).takeWhile (· != ':') = name := by
    rw [List.takeWhile_append_of_pos (hchar ':' (by decide))]
    exact List.append_nil name
  unfold readTarget
  dsimp only
  rw [hslashes, hauthority, hhost, if_neg (by simp), plainReading_host hname]
  rfl

theorem plainParser_readsSpecial : @ReadsSpecial plainParser plainReading := by
  have hhttps : ∀ rest, readPlain ("https://".toList ++ rest) =
      readTarget "https".toList (dropSlashes rest) :=
    @readPlain_of_isHttp "https".toList (by decide) (Or.inr (by decide))
  refine @ReadsSpecial.mk plainParser _ ?_ ?_ ?_ ?_ ?_ ?_
  · intro rest
    exact (hhttps _).trans (hhttps rest).symm
  · intro scheme rest url hscheme hhttp hread
    have htarget := (readPlain_of_isHttp hscheme hhttp rest).symm.trans hread
    exact (readTarget_eq_ok htarget).1
  · intro scheme rest url hscheme hhttp hread
    have htarget := (readPlain_of_isHttp hscheme hhttp rest).symm.trans hread
    exact (readTarget_eq_ok htarget).2
  · intro name rest host hname hhost
    rw [plainReading_host hname] at hhost
    obtain rfl := Option.some.inj hhost
    exact (hhttps _).trans (readTarget_of_name hname rest)
  · intro name rest hname hhost
    rw [plainReading_host hname] at hhost
    cases hhost
  · intro name hname hhttp
    exact plainReading_host hname

/-- The theorem at `/http://example.com/file`. -/
theorem target_read_iff_http :
    @TargetRead plainParser plainReading "http://example.com/file".toList
      (@parseTargetUrl plainParser (originForm "http://example.com/file".toList)) := by
  refine (@target_read_iff plainParser _ plainParser_readsSpecial _).mpr ?_
  intro scheme rest hscheme
  have hhttp : HasScheme "http://example.com/file".toList "http".toList
      "example.com/file".toList := ⟨by decide, by decide⟩
  exact Or.inl (hscheme.unique hhttp).1

/-- **`ftp` is taken for a host**: `/ftp://example.com/file` is answered with a URL. -/
theorem ftp_is_a_host : ¬∀ (crates : Crates) (r : UrlReading), @ReadsSpecial crates r →
    ∀ t, @TargetRead crates r t (@parseTargetUrl crates (originForm t)) := by
  intro hall
  have hread := hall plainParser plainReading plainParser_readsSpecial
    "ftp://example.com/file".toList
  obtain ⟨text, herror⟩ := @TargetRead.other plainParser _ _ _ hread "ftp".toList
    "example.com/file".toList ⟨by decide, by decide⟩ (by decide)
  have hok : (@parseTargetUrl plainParser (originForm "ftp://example.com/file".toList)).isOk =
      true := by
    decide +kernel
  rw [herror] at hok
  cases hok

end Corsget
