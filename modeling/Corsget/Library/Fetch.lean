import Corsget.Library.Text

/-!
# The CORS protocol of a browser

What a browser demands of a response before a script of another origin may read it.  `corsCheck`
is the check that every response has to pass, and `preflightCheck` what is asked besides of the
answer to a preflight, as the Fetch standard describes them.  Both look at a response only through
its status and the combined value of a few headers (`ResponseView`).

The rules of the last section say what a server has to answer: the origin that asked, the word
`true`, and the names that were asked for.
-/

namespace Fetch

open Text

/-- What the checks read of a response: its status, and the values of a header joined by commas,
by its name in lower case. -/
structure ResponseView where
  status : ℕ
  header : Str → Option Str

/-- The characters of a token. -/
def isTokenChar (c : Char) : Bool :=
  c.isAlphanum || ("!#$%&'*+-.^_|~".toList ++ [Char.ofNat 96]).contains c

/-- A method or a header name. -/
def IsToken (s : Str) : Prop := s ≠ [] ∧ s.all isTokenChar = true

instance (s : Str) : Decidable (IsToken s) := by
  unfold IsToken
  infer_instance

/-- Optional white space around the items of a list. -/
def isOws (c : Char) : Bool := c == ' ' || c == '\t'

/-- Extracting header list values: the tokens between the commas, or a failure when something else
stands there. -/
def extractTokens (value : Str) : Option (List Str) :=
  let items := ((value.splitOn ',').map fun item =>
    (item.dropWhile isOws).rdropWhile isOws).filter fun item => item ≠ []
  if items.all fun item => decide (IsToken item) then some items else none

/-- A header that is absent lists nothing. -/
def listed (value : Option Str) : Option (List Str) := value.elim (some []) extractTokens

/-- The methods that need no permission. -/
def safelistedMethods : List Str := ["GET".toList, "HEAD".toList, "POST".toList]

/-- **The CORS check**, for a request from `origin` with or without credentials. -/
def corsCheck (credentials : Bool) (origin : Str) (response : ResponseView) : Bool :=
  match response.header "access-control-allow-origin".toList with
  | none => false
  | some allowed =>
      if credentials = false ∧ allowed = "*".toList then true
      else if allowed ≠ origin then false
      else
        !credentials ||
          response.header "access-control-allow-credentials".toList == some "true".toList

/-- Whether a preflight answer permits a header that is not safe by itself. -/
def permitsHeader (credentials : Bool) (allowed : List Str) (name : Str) : Bool :=
  allowed.any (eqIgnoreAsciiCase name) ||
    (!credentials && allowed.contains "*".toList &&
      !eqIgnoreAsciiCase name "authorization".toList)

/-- **The check of a preflight answer**, for a request from `origin` with a method and with the
headers `unsafeNames` that are not safe by themselves. -/
def preflightCheck (credentials : Bool) (origin method : Str) (unsafeNames : List Str)
    (response : ResponseView) : Bool :=
  corsCheck credentials origin response &&
    decide (200 ≤ response.status ∧ response.status < 300) &&
    match listed (response.header "access-control-allow-methods".toList),
        listed (response.header "access-control-allow-headers".toList) with
    | some methods, some allowed =>
        (methods.contains method || safelistedMethods.contains method ||
            (!credentials && methods.contains "*".toList)) &&
          unsafeNames.all (permitsHeader credentials allowed)
    | _, _ => false

/-- What a preflight says under `Access-Control-Request-Headers`: the headers that are not safe by
themselves, and no such header where there are none. -/
def askedHeaders (unsafeNames : List Str) : Option Str :=
  if unsafeNames = [] then none else some ([','].intercalate unsafeNames)

/-! ## What a server has to answer -/

variable {credentials : Bool} {origin method : Str} {unsafeNames : List Str}
  {response : ResponseView}

/-- An answer that names the origin and allows credentials passes. -/
theorem corsCheck_of_echo
    (horigin : response.header "access-control-allow-origin".toList = some origin)
    (hcredentials : response.header "access-control-allow-credentials".toList =
      some "true".toList) : corsCheck credentials origin response = true := by
  unfold corsCheck
  rw [horigin, hcredentials]
  dsimp only
  split
  · rfl
  · simp

theorem not_comma_of_isTokenChar {c : Char} (h : isTokenChar c = true) : c ≠ ',' := by
  rintro rfl
  exact absurd h (by decide)

theorem not_isOws_of_isTokenChar {c : Char} (h : isTokenChar c = true) : isOws c = false := by
  have hspace : c ≠ ' ' := by
    rintro rfl
    exact absurd h (by decide)
  have htab : c ≠ '\t' := by
    rintro rfl
    exact absurd h (by decide)
  unfold isOws
  simp [hspace, htab]

/-- Trimming leaves a token alone. -/
theorem trimOws_token {s : Str} (h : IsToken s) :
    (s.dropWhile isOws).rdropWhile isOws = s := by
  have hall := List.all_eq_true.mp h.2
  have hfront : s.dropWhile isOws = s := by
    rcases s with _ | ⟨c, s⟩
    · rfl
    · exact List.dropWhile_cons_of_neg (by simp [not_isOws_of_isTokenChar (hall c (by simp))])
  rw [hfront]
  refine (List.rdropWhile_eq_self_iff).mpr fun hne => ?_
  simp [not_isOws_of_isTokenChar (hall _ (List.getLast_mem hne))]

/-- **Tokens joined by commas are read back.** -/
theorem extractTokens_intercalate {names : List Str} (hne : names ≠ [])
    (h : ∀ name ∈ names, IsToken name) :
    extractTokens ([','].intercalate names) = some names := by
  have hsplit : ([','].intercalate names).splitOn ',' = names :=
    List.splitOn_intercalate ',' (fun name hname hmem =>
      not_comma_of_isTokenChar (List.all_eq_true.mp (h name hname).2 _ hmem) rfl) hne
  have htrim : (names.map fun item => (item.dropWhile isOws).rdropWhile isOws) = names := by
    calc names.map (fun item => (item.dropWhile isOws).rdropWhile isOws)
        = names.map id := List.map_congr_left fun name hname => trimOws_token (h name hname)
      _ = names := List.map_id _
  have hfilter : (names.filter fun item => item ≠ []) = names :=
    List.filter_eq_self.mpr fun name hname => by simpa using (h name hname).1
  unfold extractTokens
  dsimp only
  rw [hsplit, htrim, hfilter, if_pos]
  exact List.all_eq_true.mpr fun name hname => decide_eq_true (h name hname)

/-- **A preflight answer that lists what was asked passes.** -/
theorem preflightCheck_of_listed {methods allowed : List Str}
    (horigin : response.header "access-control-allow-origin".toList = some origin)
    (hcredentials : response.header "access-control-allow-credentials".toList =
      some "true".toList)
    (hstatus : 200 ≤ response.status ∧ response.status < 300)
    (hmethods : listed (response.header "access-control-allow-methods".toList) = some methods)
    (hmethod : method ∈ methods)
    (hheaders : listed (response.header "access-control-allow-headers".toList) = some allowed)
    (hallowed : ∀ name ∈ unsafeNames, name ∈ allowed) :
    preflightCheck credentials origin method unsafeNames response = true := by
  unfold preflightCheck
  rw [corsCheck_of_echo horigin hcredentials, hmethods, hheaders]
  simp only [hstatus, and_self, decide_true, Bool.true_and, Bool.and_true]
  rw [Bool.and_eq_true]
  refine ⟨by simp [hmethod], List.all_eq_true.mpr fun name hname => ?_⟩
  unfold permitsHeader
  rw [List.any_eq_true.mpr ⟨name, hallowed name hname, by simp [eqIgnoreAsciiCase]⟩]
  rfl

/-- An answer that is no success fails. -/
theorem preflightCheck_of_status (hstatus : ¬(200 ≤ response.status ∧ response.status < 300)) :
    preflightCheck credentials origin method unsafeNames response = false := by
  unfold preflightCheck
  simp [hstatus]

end Fetch
