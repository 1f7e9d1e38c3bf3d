import Corsget.KeySeparation
import Corsget.Patterns

/-!
# Reading cache rules

`CompiledRule::new` of `cache.rs` reads a rule of the cache whitelist.  A rule that is no
regular expression is cut at its first `/` into a pattern for the host and one for the
path, and compiled in one of two ways: without a star to a pair of texts that must make
up the subject, with a star to two expressions that are asked about the two parts of the
subject.

For the URLs that come out of the parser both amount to the same (`isMatch_iff_globs`):
the host pattern is a glob on host and port, in any case, and the path pattern a glob on
path and query, so no star of the host reaches over the first `/`.
-/

namespace Corsget

open Text Glob Validation

/-! ## The compiler -/

/-- `CacheRule` of the configuration. -/
structure CacheRule where
  pattern : Str
  maxAge : ℕ

/-- `strip_scheme`. -/
def stripScheme (value : Str) : Str :=
  ((value.dropPrefix? "http://".toList).or (value.dropPrefix? "https://".toList)).getD value

/-- The host and path patterns of a rule: the text before its first `/` and the text from
there on, which is `/` when there is none. -/
def splitRule (raw : Str) : Str × Str :=
  match splitOnce '/' raw with
  | none => (raw, ['/'])
  | some (host, suffix) => (host, '/' :: suffix)

/-- `CompiledRule::new`. -/
def CompiledRule.new [RegexCrate] (rule : CacheRule) : Except Str CompiledRule :=
  let raw := trim rule.pattern
  if raw = [] then .error "empty cache rule".toList
  else match regexForm raw with
    | some (pattern, flags) =>
        (buildRegex pattern flags).map fun re => ⟨.regex re, rule.maxAge⟩
    | none =>
        let raw := stripScheme raw
        if raw = ['*'] then
          -- Two fixed expressions; the code panics if they do not compile.
          (Crates.regex {} "^.*$".toList).bind fun host =>
            (Crates.regex {} "^/.*$".toList).map fun path =>
              ⟨.wildcard host path, rule.maxAge⟩
        else
          let parts := splitRule raw
          let host := toAsciiLowercase parts.1
          if '*' ∈ raw then
            (Crates.regex {} (globSource host)).bind fun host =>
              (Crates.regex {} (globSource parts.2)).map fun path =>
                ⟨.wildcard host path, rule.maxAge⟩
          else .ok ⟨.exact host parts.2, rule.maxAge⟩

/-! ## The two parts of a rule -/

theorem splitRule_spec (raw : Str) :
    '/' ∉ (splitRule raw).1 ∧ ∃ rest, (splitRule raw).2 = '/' :: rest := by
  unfold splitRule
  cases h : splitOnce '/' raw with
  | none => exact ⟨notMem_of_splitOnce_eq_none h, [], rfl⟩
  | some parts => exact ⟨notMem_of_splitOnce h, parts.2, rfl⟩

/-- Every star of a rule is in one of its parts. -/
theorem star_mem_iff_splitRule (raw : Str) :
    '*' ∈ raw ↔ '*' ∈ (splitRule raw).1 ∨ '*' ∈ (splitRule raw).2 := by
  unfold splitRule
  cases h : splitOnce '/' raw with
  | none => simp
  | some parts =>
      obtain ⟨host, suffix⟩ := parts
      rw [eq_append_of_splitOnce h]
      exact List.mem_append

section Rules

variable [RegexCrate]

/-- **What a rule compiles to** when it is no regular expression. -/
theorem CompiledRule.new_cases {rule : CacheRule} {compiled : CompiledRule} {raw : Str}
    (h : CompiledRule.new rule = .ok compiled) (hplain : IsPlainEntry rule.pattern)
    (hraw : stripScheme (trim rule.pattern) = raw) :
    (raw = ['*'] ∧ ∃ host path,
      Crates.regex {} "^.*$".toList = .ok host ∧ Crates.regex {} "^/.*$".toList = .ok path ∧
        compiled.pattern = .wildcard host path) ∨
    (raw ≠ ['*'] ∧ '*' ∈ raw ∧ ∃ host path,
      Crates.regex {} (globSource (toAsciiLowercase (splitRule raw).1)) = .ok host ∧
        Crates.regex {} (globSource (splitRule raw).2) = .ok path ∧
          compiled.pattern = .wildcard host path) ∨
    (raw ≠ ['*'] ∧ '*' ∉ raw ∧
      compiled.pattern = .exact (toAsciiLowercase (splitRule raw).1) (splitRule raw).2) := by
  subst hraw
  unfold CompiledRule.new at h
  dsimp only at h
  split at h
  · cases h
  · rw [show regexForm (trim rule.pattern) = none from hplain] at h
    dsimp only at h
    split at h
    · next hbare =>
      obtain ⟨host, hhost, h⟩ := bind_eq_ok_iff.mp h
      obtain ⟨path, hpath, rfl⟩ := map_eq_ok_iff.mp h
      exact .inl ⟨hbare, host, path, hhost, hpath, rfl⟩
    · next hbare =>
      split at h
      · next hstar =>
        obtain ⟨host, hhost, h⟩ := bind_eq_ok_iff.mp h
        obtain ⟨path, hpath, rfl⟩ := map_eq_ok_iff.mp h
        exact .inr (.inl ⟨hbare, hstar, host, path, hhost, hpath, rfl⟩)
      · next hstar =>
        obtain rfl := Except.ok.inj h
        exact .inr (.inr ⟨hbare, hstar, rfl⟩)

end Rules

/-! ## The two parts of a URL -/

namespace Url

variable {url : Url}

/-- Host and port are in lower case. -/
theorem WellFormed.toAsciiLowercase_authority (h : url.WellFormed) :
    toAsciiLowercase url.authority = url.authority := by
  obtain ⟨host, hhost, hlower, -, -⟩ := h.host
  have hdecimal : ∀ (port : ℕ), ∀ c ∈ decimal port, c.toLower = c := by
    intro port c hc
    have hname : isNameChar c = true := by simp [isNameChar, isDigit_of_mem_decimal hc]
    exact HeaderName.toLower_of_isNameChar hname
  rw [toAsciiLowercase_eq_self_iff] at hlower ⊢
  unfold authority
  rw [hhost, Option.getD_some, toAsciiLowercase_eq_self_iff.mpr hlower]
  intro c hc
  rcases List.mem_append.mp hc with hc | hc
  · exact hlower c hc
  · cases hport : url.port with
    | none =>
        rw [hport] at hc
        cases hc
    | some port =>
        rw [hport] at hc
        rcases List.mem_cons.mp hc with rfl | hc
        · rfl
        · exact hdecimal port c hc

/-- A pair of expressions is asked about host and port, and about path and query. -/
theorem WellFormed.isMatch_wildcard (h : url.WellFormed) (host path : Str → Bool) :
    (CachePattern.wildcard host path).isMatch (normalizedUrl url) =
      (host url.authority && path (url.path ++ url.queryPart)) := by
  obtain ⟨rest, hpath, -⟩ := h.path
  rw [h.normalizedUrl_eq, hpath, List.append_assoc, List.cons_append]
  unfold CachePattern.isMatch
  dsimp only
  rw [splitOnce_append h.slash_notMem_authority]

/-- A pair of texts is compared with host and port, and with path and query. -/
theorem WellFormed.isMatch_exact_iff (h : url.WellFormed) {host rest : Str} (hhost : '/' ∉ host) :
    (CachePattern.exact host ('/' :: rest)).isMatch (normalizedUrl url) = true ↔
      host = url.authority ∧ '/' :: rest = url.path ++ url.queryPart := by
  obtain ⟨pathRest, hpath, -⟩ := h.path
  rw [h.normalizedUrl_eq, hpath, List.append_assoc, List.cons_append]
  unfold CachePattern.isMatch
  rw [Bool.and_eq_true, List.isPrefixOf_iff_prefix, beq_iff_eq]
  constructor
  · rintro ⟨⟨tail, htail⟩, hdrop⟩
    rw [← htail, List.drop_left] at hdrop
    subst hdrop
    obtain ⟨rfl, hrest⟩ := segment_append_inj hhost h.slash_notMem_authority htail
    exact ⟨rfl, congrArg _ hrest⟩
  · rintro ⟨rfl, hrest⟩
    rw [hrest]
    exact ⟨List.prefix_append _ _, List.drop_left⟩

end Url

/-! ## Rules are globs -/

/-- The host pattern in lower case is a glob in any case on texts in lower case. -/
theorem globs_toAsciiLowercase_iff {p s : Str} (hs : toAsciiLowercase s = s) :
    Globs '*' Eq (toAsciiLowercase p) s ↔ Globs '*' (fun c d => c.toLower = d.toLower) p s := by
  have hstar : ∀ c : Char, c.toLower = '*' ↔ c = '*' := by
    intro c
    constructor
    · exact eq_of_toLower_eq (by decide)
    · rintro rfl
      rfl
  have hlower : ∀ d ∈ s, d.toLower = d := toAsciiLowercase_eq_self_iff.mp hs
  unfold toAsciiLowercase
  rw [Globs.map_pattern_iff hstar]
  constructor
  · intro h
    exact h.imp fun c _ d hd hcd => hcd.trans (hlower d hd).symm
  · intro h
    exact h.imp fun c _ d hd hcd => hcd.trans (hlower d hd)

/-- A pattern without a star is compared for equality. -/
theorem globs_eq_iff {p s : Str} (hp : '*' ∉ p) : Globs '*' Eq p s ↔ p = s := by
  rw [Globs.iff_forall₂ hp, List.forall₂_eq_eq_eq]

section Rules

variable [RegexCrate] [UnicodeTables]

/-- A case-sensitive expression of a glob compares characters. -/
theorem isMatch_globSource_eq_iff (hreads : ReadsPieces) {pattern : Str} {re : Str → Bool}
    (hre : Crates.regex {} (globSource pattern) = .ok re) {subject : Str}
    (hline : '\n' ∉ subject) : re subject = true ↔ Globs '*' Eq pattern subject := by
  have hsame : @SameChar _ false = Eq := by
    ext c d
    exact iff_of_eq (if_neg Bool.false_ne_true)
  rw [isMatch_globSource_iff hreads hre hline, hsame]

/-- The two expressions of the bare star match every URL. -/
theorem isMatch_bare_star (hreads : ReadsPieces) {host path : Str → Bool}
    (hhost : Crates.regex {} "^.*$".toList = .ok host)
    (hpath : Crates.regex {} "^/.*$".toList = .ok path) {authority rest : Str}
    (hauthority : '\n' ∉ authority) (hrest : '\n' ∉ '/' :: rest) :
    host authority = true ∧ path ('/' :: rest) = true := by
  have hstar : "^.*$".toList = globSource "*".toList := by
    have hsplit : "*".toList.splitOn '*' = [[], []] := by decide
    unfold globSource
    rw [hsplit, List.map_cons, List.map_singleton, hreads.escape_nil]
    rfl
  have hslash : "^/.*$".toList = globSource "/*".toList := by
    have hsplit : "/*".toList.splitOn '*' = [['/'], []] := by decide
    unfold globSource
    rw [hsplit, List.map_cons, List.map_singleton, hreads.escape_nil, hreads.escape_slash]
    rfl
  have hall : ∀ s : Str, Globs '*' Eq ['*'] s := by
    intro s
    have h := (@Globs.nil Char '*' Eq).star s
    rw [List.append_nil] at h
    exact h
  rw [hstar] at hhost
  rw [hslash] at hpath
  refine ⟨(isMatch_globSource_eq_iff hreads hhost hauthority).mpr (hall authority), ?_⟩
  exact (isMatch_globSource_eq_iff hreads hpath hrest).mpr ((hall rest).char (by decide) rfl)

/-- **A compiled rule is a pair of globs.**  A rule that is no regular expression matches the
URL of a target exactly when its host pattern is a glob on host and port, in any case, and
its path pattern a glob on path and query.  The one exception is the bare star, which
matches every URL.  A rule without a star compares both parts for equality. -/
theorem compiledRule_isMatch_iff (hreads : ReadsPieces) {rule : CacheRule}
    {compiled : CompiledRule} (hnew : CompiledRule.new rule = .ok compiled)
    (hplain : IsPlainEntry rule.pattern) {raw host path : Str}
    (hraw : stripScheme (trim rule.pattern) = raw) (hparts : splitRule raw = (host, path))
    {url : Url} (hurl : url.WellFormed) (hline : '\n' ∉ normalizedUrl url) :
    (raw = ['*'] → compiled.pattern.isMatch (normalizedUrl url) = true) ∧
    (raw ≠ ['*'] → (compiled.pattern.isMatch (normalizedUrl url) = true ↔
      Globs '*' (fun c d => c.toLower = d.toLower) host url.authority ∧
        Globs '*' Eq path (url.path ++ url.queryPart))) ∧
    ('*' ∉ raw → (compiled.pattern.isMatch (normalizedUrl url) = true ↔
      toAsciiLowercase host = url.authority ∧ path = url.path ++ url.queryPart)) := by
  obtain ⟨hslash, rest, hrest⟩ := splitRule_spec raw
  have hstars := star_mem_iff_splitRule raw
  rw [hparts] at hslash hrest hstars
  dsimp only at hslash hrest hstars
  obtain ⟨pathRest, hpath, -⟩ := hurl.path
  rw [hurl.normalizedUrl_eq, List.append_assoc, List.mem_append, not_or] at hline
  obtain ⟨hauthority, htarget⟩ := hline
  rcases CompiledRule.new_cases hnew hplain hraw with
    ⟨hbare, hostRe, pathRe, hhostRe, hpathRe, hpattern⟩ |
      ⟨hbare, hstar, hostRe, pathRe, hhostRe, hpathRe, hpattern⟩ | ⟨hbare, hstar, hpattern⟩
  · rw [hpattern, hurl.isMatch_wildcard, Bool.and_eq_true]
    refine ⟨fun _ => ?_, fun h => absurd hbare h, fun h => absurd (hbare ▸ List.mem_cons_self) h⟩
    rw [hpath, List.cons_append] at htarget ⊢
    exact isMatch_bare_star hreads hhostRe hpathRe hauthority htarget
  · refine ⟨fun h => absurd h hbare, fun _ => ?_, fun h => absurd hstar h⟩
    rw [hparts] at hhostRe hpathRe
    rw [hpattern, hurl.isMatch_wildcard, Bool.and_eq_true,
      isMatch_globSource_eq_iff hreads hhostRe hauthority,
      isMatch_globSource_eq_iff hreads hpathRe htarget,
      globs_toAsciiLowercase_iff hurl.toAsciiLowercase_authority]
  · have hnone := not_or.mp (mt hstars.mpr hstar)
    have hequal : compiled.pattern.isMatch (normalizedUrl url) = true ↔
        toAsciiLowercase host = url.authority ∧ path = url.path ++ url.queryPart := by
      rw [hpattern, hparts]
      dsimp only
      rw [hrest]
      exact hurl.isMatch_exact_iff (mt (mem_toAsciiLowercase_iff (by decide)).mp hslash)
    refine ⟨fun h => absurd h hbare, fun _ => ?_, fun _ => hequal⟩
    rw [hequal, ← globs_toAsciiLowercase_iff hurl.toAsciiLowercase_authority,
      globs_eq_iff (mt (mem_toAsciiLowercase_iff (by decide)).mp hnone.1), globs_eq_iff hnone.2]

end Rules

/-- The compiler of the fragment takes every glob. -/
theorem exists_compileFragment_globSource (caseInsensitive : Bool) (pattern : Str) :
    ∃ re, compileFragment { caseInsensitive := caseInsensitive }
      (@globSource fragmentRegex pattern) = .ok re := by
  have h := compileFragment_piecesSource caseInsensitive (anchored '*' pattern)
  rw [@piecesSource_anchored fragmentRegex] at h
  exact ⟨_, h⟩

theorem exampleUrl_wellFormed : exampleUrl.WellFormed :=
  ⟨⟨_, rfl, by decide, by decide, by decide⟩, ⟨_, rfl, by decide⟩⟩

/-- The rule `https://*.Example.com/*` and the URL of the example. -/
theorem compiledRule_isMatch_iff_subdomains :
    ∃ compiled, @CompiledRule.new fragmentRegex ⟨"https://*.Example.com/*".toList, 60⟩ =
        .ok compiled ∧
      (compiled.pattern.isMatch (normalizedUrl exampleUrl) = true ↔
        Globs '*' (fun c d => c.toLower = d.toLower) "*.Example.com".toList exampleUrl.authority ∧
          Globs '*' Eq "/*".toList (exampleUrl.path ++ exampleUrl.queryPart)) := by
  have hraw : stripScheme (trim "https://*.Example.com/*".toList) = "*.Example.com/*".toList := by
    decide
  have hparts : splitRule "*.Example.com/*".toList = ("*.Example.com".toList, "/*".toList) := by
    decide
  obtain ⟨hostRe, hhostRe⟩ :=
    exists_compileFragment_globSource false (toAsciiLowercase "*.Example.com".toList)
  obtain ⟨pathRe, hpathRe⟩ := exists_compileFragment_globSource false "/*".toList
  have hnew : @CompiledRule.new fragmentRegex ⟨"https://*.Example.com/*".toList, 60⟩ =
      .ok ⟨.wildcard hostRe pathRe, 60⟩ := by
    unfold CompiledRule.new
    dsimp only
    rw [if_neg (by decide), show regexForm (trim "https://*.Example.com/*".toList) = none by decide]
    dsimp only
    rw [hraw, if_neg (by decide), hparts, if_pos (by decide)]
    exact bind_eq_ok_iff.mpr ⟨hostRe, hhostRe, map_eq_ok_iff.mpr ⟨pathRe, hpathRe, rfl⟩⟩
  have hspec := @compiledRule_isMatch_iff fragmentRegex asciiTables readsPieces_fragmentRegex
    _ _ hnew (by decide) _ _ _ hraw hparts exampleUrl exampleUrl_wellFormed (by decide)
  exact ⟨_, hnew, hspec.2.1 (by decide)⟩

end Corsget
