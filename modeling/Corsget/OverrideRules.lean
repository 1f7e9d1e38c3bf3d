import Corsget.Cors
import Corsget.Overrides
import Corsget.Patterns

/-!
# Reading override rules

`HeaderOverridePolicy::new` of `headers.rs` compiles the rules of the configuration.  Every
name in one of the three actions of a rule is checked (`parseHeaderName`): trimmed and
lower-cased it must be neither a hop-by-hop header nor one that the proxy manages itself.

So the rules that are accepted name no protected header, and applying them, in any number
and order, leaves the lines of every protected header as they are
(`header_override_policy`); more generally they change no header that no rule names.
-/

namespace Corsget

open Text Validation

/-! ## The compiler -/

/-- `FORBIDDEN_HEADER_NAMES`. -/
def forbiddenHeaderNames : List Str :=
  ["content-length".toList, "access-control-allow-origin".toList,
    "access-control-allow-credentials".toList, "access-control-allow-headers".toList,
    "access-control-allow-methods".toList, "access-control-max-age".toList,
    "x-cache".toList]

/-- `HeaderPair`. -/
structure HeaderPair where
  name : Str
  value : Str

/-- `ResponseHeaderOverrideConfig`. -/
structure ResponseHeaderOverrideConfig where
  site : Str
  removeHeaders : List Str
  addHeaders : List HeaderPair
  setHeaders : List HeaderPair

/-- `HeaderOverrideError`. -/
inductive HeaderOverrideError where
  | site (pattern : Str) (source : MatchError)
  | headerName (name reason : Str)
  | headerValue (name reason : Str)
deriving DecidableEq

/-- `parse_header_name`. -/
def parseHeaderName (name : Str) : Except HeaderOverrideError HeaderName :=
  let trimmed := trim name
  let lower := toAsciiLowercase trimmed
  if isHopByHop lower then
    .error (.headerName trimmed
      "hop-by-hop and proxy-injected headers must not be overridden".toList)
  else if forbiddenHeaderNames.contains lower then
    .error (.headerName trimmed
      "this header is managed by the proxy and must not be overridden".toList)
  else match HeaderName.fromBytes trimmed with
    | some name => .ok name
    | none => .error (.headerName trimmed "invalid HTTP header name".toList)

/-- `parse_header_pairs`, for one pair. -/
def parseHeaderPair (pair : HeaderPair) : Except HeaderOverrideError (HeaderName × HeaderValue) :=
  (parseHeaderName pair.name).bind fun name =>
    match HeaderValue.fromStr (trim pair.value) with
    | some value => .ok (name, value)
    | none => .error (.headerValue pair.name "failed to parse header value".toList)

/-- `parse_header_pairs`. -/
def parseHeaderPairs (pairs : List HeaderPair) :
    Except HeaderOverrideError (List (HeaderName × HeaderValue)) :=
  pairs.mapM parseHeaderPair

section Compiler

variable [RegexCrate] [UnicodeTables]

/-- `HeaderOverrideRule::new`. -/
def HeaderOverrideRule.new (rule : ResponseHeaderOverrideConfig) :
    Except HeaderOverrideError HeaderOverrideRule :=
  ((MatchEntry.parse rule.site).mapError (.site rule.site)).bind fun site =>
    (rule.removeHeaders.mapM parseHeaderName).bind fun remove =>
      (parseHeaderPairs rule.addHeaders).bind fun add =>
        (parseHeaderPairs rule.setHeaders).map fun set => ⟨site, remove, add, set⟩

/-- `HeaderOverridePolicy::new`. -/
def HeaderOverridePolicy.new (rules : List ResponseHeaderOverrideConfig) :
    Except HeaderOverrideError HeaderOverridePolicy :=
  (rules.mapM HeaderOverrideRule.new).map fun rules => ⟨rules⟩

end Compiler

/-! ## Names -/

/-- The headers that no rule may name. -/
def isProtected (name : Str) : Bool := isHopByHop name || forbiddenHeaderNames.contains name

/-- **An accepted name** is not protected, in the spelling of a header map. -/
theorem parseHeaderName_eq_ok {raw : Str} {name : HeaderName}
    (h : parseHeaderName raw = .ok name) :
    name.text = toAsciiLowercase (trim raw) ∧ isProtected name.text = false := by
  unfold parseHeaderName at h
  dsimp only at h
  split at h
  · cases h
  · next hhop =>
    split at h
    · cases h
    · next hforbidden =>
      split at h
      · next found hfound =>
        obtain rfl := Except.ok.inj h
        have htext : found.text = toAsciiLowercase (trim raw) := by
          unfold HeaderName.fromBytes at hfound
          split at hfound
          · obtain rfl := Option.some.inj hfound
            rfl
          · cases hfound
        refine ⟨htext, ?_⟩
        unfold isProtected
        rw [htext, Bool.or_eq_false_iff]
        exact ⟨Bool.eq_false_iff.mpr hhop, Bool.eq_false_iff.mpr hforbidden⟩
      · cases h

/-- **A protected name** is refused, in any case and with white space around it. -/
theorem parseHeaderName_ne_ok {raw : Str} (h : isProtected (toAsciiLowercase (trim raw)) = true)
    (name : HeaderName) : parseHeaderName raw ≠ .ok name := by
  intro hok
  obtain ⟨htext, hfree⟩ := parseHeaderName_eq_ok hok
  rw [htext, h] at hfree
  cases hfree

theorem parseHeaderPair_eq_ok {pair : HeaderPair} {line : HeaderName × HeaderValue}
    (h : parseHeaderPair pair = .ok line) : parseHeaderName pair.name = .ok line.1 := by
  obtain ⟨name, hname, h⟩ := bind_eq_ok_iff.mp h
  split at h
  · obtain rfl := Except.ok.inj h
    exact hname
  · cases h

/-! ## Rules -/

/-- The headers that a rule names. -/
def HeaderOverrideRule.names (rule : HeaderOverrideRule) : List HeaderName :=
  rule.remove ++ rule.add.map Prod.fst ++ rule.set.map Prod.fst

/-- The texts that stand for header names in the configuration of a rule. -/
def ResponseHeaderOverrideConfig.names (rule : ResponseHeaderOverrideConfig) : List Str :=
  rule.removeHeaders ++ rule.addHeaders.map HeaderPair.name ++ rule.setHeaders.map HeaderPair.name

/-- **The frame of a rule**: what it does not name it does not change. -/
theorem HeaderOverrideRule.getAll_apply_of_notMem {rule : HeaderOverrideRule} {name : HeaderName}
    (h : name ∉ rule.names) (headers : HeaderMap) :
    (rule.apply headers).getAll name = headers.getAll name := by
  unfold HeaderOverrideRule.names at h
  rw [List.mem_append, List.mem_append, not_or, not_or] at h
  obtain ⟨⟨hremove, hadd⟩, hset⟩ := h
  have hpair : ∀ {lines : List (HeaderName × HeaderValue)}, name ∉ lines.map Prod.fst →
      ∀ line ∈ lines, ¬ name = line.1 :=
    fun hlines line hline heq => hlines (heq ▸ List.mem_map_of_mem hline)
  unfold HeaderOverrideRule.apply
  dsimp only
  rw [MultiMap.getAll_foldl_of_forall, MultiMap.getAll_foldl_of_forall,
    MultiMap.getAll_foldl_of_forall]
  · intro removed hmem headers
    rw [MultiMap.getAll_remove, if_neg]
    rintro rfl
    exact hremove hmem
  · intro line hline headers
    rw [MultiMap.getAll_append_key, if_neg (hpair hadd line hline)]
  · intro line hline headers
    rw [MultiMap.getAll_insert, if_neg (hpair hset line hline)]

/-- **The frame of a policy**: what no matching rule names it does not change. -/
theorem HeaderOverridePolicy.getAll_apply_of_notMem {policy : HeaderOverridePolicy}
    {requested finalUrl : Url} {name : HeaderName}
    (h : ∀ rule ∈ policy.rules, rule.applies requested finalUrl = true → name ∉ rule.names)
    (headers : HeaderMap) :
    (policy.apply headers requested finalUrl).getAll name = headers.getAll name := by
  unfold HeaderOverridePolicy.apply
  refine MultiMap.getAll_foldl_of_forall (fun rule hrule headers => ?_) headers
  by_cases happlies : rule.applies requested finalUrl = true
  · rw [if_pos happlies]
    exact HeaderOverrideRule.getAll_apply_of_notMem (h rule hrule happlies) headers
  · rw [if_neg happlies]

section Compiled

variable [RegexCrate] [UnicodeTables]

/-- **What a rule compiles to**: its actions are those of the configuration, name by
name. -/
theorem HeaderOverrideRule.new_eq_ok {config : ResponseHeaderOverrideConfig}
    {rule : HeaderOverrideRule} (h : HeaderOverrideRule.new config = .ok rule) :
    MatchEntry.parse config.site = .ok rule.site ∧
      config.removeHeaders.mapM parseHeaderName = .ok rule.remove ∧
        config.addHeaders.mapM parseHeaderPair = .ok rule.add ∧
          config.setHeaders.mapM parseHeaderPair = .ok rule.set := by
  obtain ⟨site, hsite, h⟩ := bind_eq_ok_iff.mp h
  obtain ⟨remove, hremove, h⟩ := bind_eq_ok_iff.mp h
  obtain ⟨add, hadd, h⟩ := bind_eq_ok_iff.mp h
  obtain ⟨set, hset, rfl⟩ := map_eq_ok_iff.mp h
  exact ⟨mapError_eq_ok_iff.mp hsite, hremove, hadd, hset⟩

/-- Every name of a compiled rule was accepted from its configuration. -/
theorem HeaderOverrideRule.exists_of_mem_names {config : ResponseHeaderOverrideConfig}
    {rule : HeaderOverrideRule} (h : HeaderOverrideRule.new config = .ok rule)
    {name : HeaderName} (hname : name ∈ rule.names) :
    ∃ raw ∈ config.names, parseHeaderName raw = .ok name := by
  obtain ⟨-, hremove, hadd, hset⟩ := HeaderOverrideRule.new_eq_ok h
  have hpairs : ∀ {pairs : List HeaderPair} {lines : List (HeaderName × HeaderValue)},
      pairs.mapM parseHeaderPair = .ok lines → name ∈ lines.map Prod.fst →
        ∃ raw ∈ pairs.map HeaderPair.name, parseHeaderName raw = .ok name := by
    intro pairs lines hparse hmem
    obtain ⟨line, hline, rfl⟩ := List.mem_map.mp hmem
    obtain ⟨pair, hpair, hok⟩ := exists_of_mem_of_mapM hparse hline
    exact ⟨pair.name, List.mem_map_of_mem hpair, parseHeaderPair_eq_ok hok⟩
  unfold ResponseHeaderOverrideConfig.names
  unfold HeaderOverrideRule.names at hname
  rcases List.mem_append.mp hname with hname | hname
  · rcases List.mem_append.mp hname with hname | hname
    · obtain ⟨raw, hraw, hok⟩ := exists_of_mem_of_mapM hremove hname
      exact ⟨raw, List.mem_append_left _ (List.mem_append_left _ hraw), hok⟩
    · obtain ⟨raw, hraw, hok⟩ := hpairs hadd hname
      exact ⟨raw, List.mem_append_left _ (List.mem_append_right _ hraw), hok⟩
  · obtain ⟨raw, hraw, hok⟩ := hpairs hset hname
    exact ⟨raw, List.mem_append_right _ hraw, hok⟩

/-- Every name in the configuration of a compiled rule was accepted. -/
theorem HeaderOverrideRule.exists_of_mem_config_names {config : ResponseHeaderOverrideConfig}
    {rule : HeaderOverrideRule} (h : HeaderOverrideRule.new config = .ok rule) {raw : Str}
    (hraw : raw ∈ config.names) : ∃ name, parseHeaderName raw = .ok name := by
  obtain ⟨-, hremove, hadd, hset⟩ := HeaderOverrideRule.new_eq_ok h
  have hpairs : ∀ {pairs : List HeaderPair} {lines : List (HeaderName × HeaderValue)},
      pairs.mapM parseHeaderPair = .ok lines → raw ∈ pairs.map HeaderPair.name →
        ∃ name, parseHeaderName raw = .ok name := by
    intro pairs lines hparse hmem
    obtain ⟨pair, hpair, rfl⟩ := List.mem_map.mp hmem
    obtain ⟨line, -, hok⟩ := exists_result_of_mapM hparse hpair
    exact ⟨line.1, parseHeaderPair_eq_ok hok⟩
  unfold ResponseHeaderOverrideConfig.names at hraw
  rcases List.mem_append.mp hraw with hraw | hraw
  · rcases List.mem_append.mp hraw with hraw | hraw
    · obtain ⟨name, -, hok⟩ := exists_result_of_mapM hremove hraw
      exact ⟨name, hok⟩
    · exact hpairs hadd hraw
  · exact hpairs hset hraw

/-- A compiled policy changes no protected header. -/
theorem HeaderOverridePolicy.getAll_apply_of_isProtected
    {configs : List ResponseHeaderOverrideConfig} {policy : HeaderOverridePolicy}
    (hnew : HeaderOverridePolicy.new configs = .ok policy) {name : HeaderName}
    (hprotected : isProtected name.text = true) (headers : HeaderMap) (requested finalUrl : Url) :
    (policy.apply headers requested finalUrl).getAll name = headers.getAll name := by
  obtain ⟨rules, hrules, rfl⟩ := map_eq_ok_iff.mp hnew
  refine HeaderOverridePolicy.getAll_apply_of_notMem (fun rule hrule _ hname => ?_) headers
  obtain ⟨config, -, hconfig⟩ := exists_of_mem_of_mapM hrules hrule
  obtain ⟨raw, -, hok⟩ := HeaderOverrideRule.exists_of_mem_names hconfig hname
  rw [(parseHeaderName_eq_ok hok).2] at hprotected
  cases hprotected

/-- **Overrides spare the protected headers.**  A policy that is accepted changes no header
but those that a matching rule names, and no protected header; a list of rules that names
a protected header in any action, in any case and with white space around it, is
refused. -/
theorem header_override_policy (configs : List ResponseHeaderOverrideConfig) :
    (∀ policy, HeaderOverridePolicy.new configs = .ok policy →
      ∀ (headers : HeaderMap) (requested finalUrl : Url) (name : HeaderName),
        (isProtected name.text = true →
          (policy.apply headers requested finalUrl).getAll name = headers.getAll name) ∧
        ((∀ config ∈ configs, ∀ rule, HeaderOverrideRule.new config = .ok rule →
            rule.applies requested finalUrl = true →
              ∀ raw ∈ config.names, toAsciiLowercase (trim raw) ≠ name.text) →
          (policy.apply headers requested finalUrl).getAll name = headers.getAll name)) ∧
    (∀ config ∈ configs, ∀ raw ∈ config.names,
      isProtected (toAsciiLowercase (trim raw)) = true →
        ∃ e, HeaderOverridePolicy.new configs = .error e) := by
  constructor
  · intro policy hnew headers requested finalUrl name
    constructor
    · intro hprotected
      exact HeaderOverridePolicy.getAll_apply_of_isProtected hnew hprotected headers _ _
    · intro hunnamed
      obtain ⟨rules, hrules, rfl⟩ := map_eq_ok_iff.mp hnew
      refine HeaderOverridePolicy.getAll_apply_of_notMem
        (fun rule hrule happlies hname => ?_) headers
      obtain ⟨config, hmem, hconfig⟩ := exists_of_mem_of_mapM hrules hrule
      obtain ⟨raw, hraw, hok⟩ := HeaderOverrideRule.exists_of_mem_names hconfig hname
      exact hunnamed config hmem rule hconfig happlies raw hraw (parseHeaderName_eq_ok hok).1.symm
  · intro config hmem raw hraw hprotected
    have hfail : ∀ rule, HeaderOverrideRule.new config ≠ .ok rule := by
      intro rule hconfig
      obtain ⟨name, hok⟩ := HeaderOverrideRule.exists_of_mem_config_names hconfig hraw
      exact parseHeaderName_ne_ok hprotected name hok
    obtain ⟨e, he⟩ := exists_mapM_eq_error hmem hfail
    refine ⟨e, ?_⟩
    unfold HeaderOverridePolicy.new
    rw [he]
    rfl

end Compiled

/-- A rule for the example site, which lets a page be framed. -/
def framingConfig : ResponseHeaderOverrideConfig where
  site := "https://example.com/x".toList
  removeHeaders := [" X-Frame-Options ".toList]
  addHeaders := []
  setHeaders := [⟨"Cross-Origin-Embedder-Policy".toList, "require-corp".toList⟩]

/-- What it compiles to. -/
def framingRule : HeaderOverrideRule where
  site := .exact "https://example.com/x".toList
  remove := [⟨"x-frame-options".toList, by decide⟩]
  add := []
  set := [(⟨"cross-origin-embedder-policy".toList, by decide⟩,
    .fromStatic "require-corp".toList)]

/-- The policy of that rule, and one that would also remove `X-Cache`. -/
theorem header_override_policy_framing :
    (∃ policy, @HeaderOverridePolicy.new fragmentRegex asciiTables [framingConfig] = .ok policy ∧
      (policy.apply [(.contentLength, .fromStatic "3".toList)] exampleUrl exampleUrl).getAll
        .contentLength = [.fromStatic "3".toList]) ∧
    ∃ e, @HeaderOverridePolicy.new fragmentRegex asciiTables
      [{ framingConfig with removeHeaders := [" X-CACHE".toList] }] = .error e := by
  have hnew : @HeaderOverridePolicy.new fragmentRegex asciiTables [framingConfig] =
      .ok ⟨[framingRule]⟩ := rfl
  have hspec := @header_override_policy fragmentRegex asciiTables
  constructor
  · exact ⟨_, hnew, ((hspec [framingConfig]).1 _ hnew _ _ _ _).1 (by decide)⟩
  · exact (hspec _).2 _ List.mem_cons_self " X-CACHE".toList (by decide) (by decide)

end Corsget
