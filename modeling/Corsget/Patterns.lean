import Corsget.Library.Glob
import Corsget.Library.Validation
import Corsget.Matcher
import Corsget.Reference
import Mathlib

/-!
# Reading list entries

`MatchEntry::parse` of `matcher.rs` detects whether an entry is a regular expression, a
wildcard or an exact host, and `wildcard_to_regex` writes the expression of a wildcard.
The regex compiler is not under `src/`.  Of it the module assumes `ReadsPieces`: that it
reads escaped text, `.*`, `^` and `$` as its documentation says.

Under that assumption a wildcard entry is a glob (`isMatch_of_parse_wildcard`), because
the source that `wildcard_to_regex` writes, with the run it appends behind the last
segment and takes away again, is the glob cut at its stars and joined by `.*` between
the anchors (`wildcardToRegex_eq`).
-/

namespace Corsget

open Text Glob Validation

/-! ## Letters -/

/-- A character that lower-cases to something other than a letter is that character. -/
theorem eq_of_toLower_eq {c k : Char} (hk : k.isAlpha = false) (h : c.toLower = k) : c = k := by
  have hlower : c.toLower.isAlpha = false := by rw [h, hk]
  rw [Char.isAlpha_toLower_eq_isAlpha, Char.isAlpha, Bool.or_eq_false_iff] at hlower
  rw [← h, Char.toLower_eq_of_not_isUpper (by simp [hlower.1])]

/-- Lower-casing neither makes nor takes away what is no letter. -/
theorem mem_toAsciiLowercase_iff {k : Char} (hk : k.isAlpha = false) {s : Str} :
    k ∈ toAsciiLowercase s ↔ k ∈ s := by
  constructor
  · intro hmem
    obtain ⟨c, hc, hlower⟩ := List.mem_map.mp hmem
    exact eq_of_toLower_eq hk hlower ▸ hc
  · intro hmem
    rw [Char.isAlpha, Bool.or_eq_false_iff] at hk
    exact List.mem_map.mpr ⟨k, hmem, Char.toLower_eq_of_not_isUpper (by simp [hk.1])⟩

/-- A text is in lower case when its characters are. -/
theorem toAsciiLowercase_eq_self_iff {s : Str} :
    toAsciiLowercase s = s ↔ ∀ c ∈ s, c.toLower = c := by
  have h : toAsciiLowercase s = s.map id ↔ ∀ c ∈ s, c.toLower = id c := List.map_inj_left
  rw [List.map_id] at h
  exact h

theorem toAsciiLowercase_toAsciiLowercase (s : Str) :
    toAsciiLowercase (toAsciiLowercase s) = toAsciiLowercase s := by
  refine toAsciiLowercase_eq_self_iff.mpr fun c hc => ?_
  obtain ⟨d, -, rfl⟩ := List.mem_map.mp hc
  exact Char.toLower_toLower_eq_toLower d

theorem eqIgnoreAsciiCase_iff {s t : Str} :
    eqIgnoreAsciiCase s t = true ↔ toAsciiLowercase s = toAsciiLowercase t := beq_iff_eq

/-! ## The regex crate -/

/-- `Crates` with the second function of the regex crate. -/
class RegexCrate extends Crates where
  /-- `regex::escape`. -/
  escape : Str → Str

/-- The source text of a piece. -/
def pieceSource [RegexCrate] : Piece Char → Str
  | .start => ['^']
  | .stop => ['$']
  | .run => ".*".toList
  | .text t => RegexCrate.escape t

/-- The source text of a sequence of pieces. -/
def piecesSource [RegexCrate] (ps : List (Piece Char)) : Str := ps.flatMap pieceSource

/-- The characters a compiled expression takes for the same. -/
def SameChar [UnicodeTables] (caseInsensitive : Bool) (c d : Char) : Prop :=
  if caseInsensitive then UnicodeTables.foldCase c = UnicodeTables.foldCase d else c = d

/-- On ASCII the comparison of a case-insensitive expression is the one of
`eq_ignore_ascii_case`. -/
theorem sameChar_iff_toLower [UnicodeTables] (hcase : AsciiCase) {c d : Char} (hc : c.toNat < 128)
    (hd : d.toNat < 128) : SameChar true c d ↔ c.toLower = d.toLower := by
  unfold SameChar
  rw [if_pos rfl, hcase.foldCase c hc, hcase.foldCase d hd]

section Sources

variable [RegexCrate]

/-- What the regex crate promises of the expressions the program writes: escaped text
stands for itself, `.*` for any text on one line, `^` and `$` for the two ends. -/
structure ReadsPieces [UnicodeTables] : Prop where
  escape_nil : RegexCrate.escape [] = []
  escape_slash : RegexCrate.escape ['/'] = ['/']
  isMatch_iff : ∀ (caseInsensitive : Bool) (ps : List (Piece Char)) (re : Str → Bool),
    Crates.regex { caseInsensitive := caseInsensitive } (piecesSource ps) = .ok re →
      ∀ subject, re subject = true ↔
        Found (· ≠ '\n') (SameChar caseInsensitive) ps subject

/-- The source of a glob as `CompiledRule::new` writes it: the escaped segments joined by
`.*`, between the anchors. -/
def globSource (pattern : Str) : Str :=
  '^' :: ".*".toList.intercalate ((pattern.splitOn '*').map RegexCrate.escape) ++ ['$']

/-- Texts with runs between them are written as the escaped texts joined by `.*`. -/
theorem piecesSource_intersperse (segments : List Str) :
    piecesSource ((segments.map Piece.text).intersperse .run) =
      ".*".toList.intercalate (segments.map RegexCrate.escape) := by
  induction segments with
  | nil => rfl
  | cons segment segments ih =>
      cases segments with
      | nil => simp [piecesSource, pieceSource]
      | cons next segments =>
          rw [List.map_cons, List.map_cons, List.map_cons, List.map_cons,
            List.intersperse_cons_cons, List.intercalate_cons_cons, ← List.map_cons,
            ← List.map_cons, ← ih]
          simp [piecesSource, pieceSource]

/-- That source is the source of the anchored search. -/
theorem piecesSource_anchored (pattern : Str) :
    piecesSource (anchored '*' pattern) = globSource pattern := by
  have hpieces : piecesSource (pieces '*' pattern) =
      ".*".toList.intercalate ((pattern.splitOn '*').map RegexCrate.escape) :=
    piecesSource_intersperse _
  unfold globSource
  rw [← hpieces]
  simp [piecesSource, anchored, pieceSource]

/-- **A compiled glob source matches as the glob does**, on one line of text. -/
theorem isMatch_globSource_iff [UnicodeTables] (hreads : ReadsPieces) {caseInsensitive : Bool}
    {pattern : Str} {re : Str → Bool}
    (hre : Crates.regex { caseInsensitive := caseInsensitive } (globSource pattern) = .ok re)
    {subject : Str} (hline : '\n' ∉ subject) :
    re subject = true ↔ Globs '*' (SameChar caseInsensitive) pattern subject := by
  rw [← piecesSource_anchored] at hre
  rw [hreads.isMatch_iff caseInsensitive _ re hre subject]
  exact found_anchored_iff fun c hc h => hline (h ▸ hc)

end Sources

/-! ## Entries -/

theorem star_mem_trim {raw : Str} (h : '*' ∈ raw) : '*' ∈ trim raw :=
  mem_trim (by decide) h

/-- The `/pattern/flags` form, which both list entries and cache rules may have. -/
def regexForm (s : Str) : Option (Str × Str) :=
  if 2 ≤ s.length ∧ s.head? = some '/' then
    (rfind '/' s).bind fun close =>
      if 0 < close then some ((s.take close).drop 1, s.drop (close + 1)) else none
  else none

/-- An entry that is not of the `/pattern/flags` form. -/
def IsPlainEntry (raw : Str) : Prop := regexForm (trim raw) = none

instance (raw : Str) : Decidable (IsPlainEntry raw) :=
  inferInstanceAs (Decidable (regexForm (trim raw) = none))

/-- One flag of the `/pattern/flags` form. -/
def addRegexFlag (flags : RegexFlags) : Char → Except Str RegexFlags
  | 'i' => .ok { flags with caseInsensitive := true }
  | 'm' => .ok { flags with multiLine := true }
  | 's' => .ok { flags with dotMatchesNewLine := true }
  | 'x' => .ok { flags with ignoreWhitespace := true }
  | f => .error ("unknown regex flag `".toList ++ [f] ++ "`".toList)

/-- The expression of the `/pattern/flags` form. -/
def buildRegex [Crates] (pattern flags : Str) : Except Str (Str → Bool) :=
  (flags.foldlM addRegexFlag {}).bind fun flags => Crates.regex flags pattern

/-- `MatchError`. -/
inductive MatchError where
  | invalidRegex (pattern source : Str)
deriving DecidableEq

/-- The `Display` of an error. -/
def MatchError.text : MatchError → Str
  | .invalidRegex pattern source =>
      "invalid regex `".toList ++ pattern ++ "`: ".toList ++ source

section Parsing

variable [RegexCrate]

/-- `wildcard_to_regex`. -/
def wildcardToRegex (pattern : Str) : Str :=
  let out := (pattern.splitOn '*').foldl
    (fun out segment =>
      (if segment ≠ [] then out ++ RegexCrate.escape segment else out) ++ ".*".toList) ['^']
  -- The run behind the last segment stands for no star.
  let out := if ".*".toList.isSuffixOf out then out.take (out.length - 2) else out
  out ++ ['$']

/-- The source of a wildcard is the one that `CompiledRule::new` writes. -/
theorem wildcardToRegex_eq (hnil : RegexCrate.escape [] = []) (pattern : Str) :
    wildcardToRegex pattern = globSource pattern := by
  have hfold : ∀ (segments : List Str) (out : Str),
      segments.foldl (fun out segment =>
        (if segment ≠ [] then out ++ RegexCrate.escape segment else out) ++ ".*".toList) out =
      out ++ (segments.map RegexCrate.escape).flatMap fun text => text ++ ".*".toList := by
    intro segments
    induction segments with
    | nil =>
        intro out
        exact (List.append_nil out).symm
    | cons segment segments ih =>
        intro out
        rw [List.foldl_cons, ih, List.map_cons, List.flatMap_cons]
        by_cases hsegment : segment = []
        · rw [if_neg (not_not_intro hsegment), hsegment, hnil]
          simp only [List.nil_append, List.append_assoc]
        · rw [if_pos hsegment]
          simp only [List.append_assoc]
  have hne : (pattern.splitOn '*').map RegexCrate.escape ≠ [] :=
    fun h => List.splitOn_ne_nil '*' pattern (List.map_eq_nil_iff.mp h)
  unfold wildcardToRegex globSource
  rw [hfold, flatMap_append_eq_intercalate _ _ hne, ← List.append_assoc]
  have hsuffix : ".*".toList.isSuffixOf
      (['^'] ++ ".*".toList.intercalate ((pattern.splitOn '*').map RegexCrate.escape) ++
        ".*".toList) = true :=
    List.isSuffixOf_iff_suffix.mpr (List.suffix_append _ _)
  dsimp only
  rw [if_pos hsuffix, List.length_append]
  rw [show ".*".toList.length = 2 from rfl, Nat.add_sub_cancel, List.take_left]
  rfl

variable [UnicodeTables]

/-- `MatchEntry::parse`. -/
def MatchEntry.parse (raw : Str) : Except MatchError MatchEntry :=
  let trimmed := trim raw
  match regexForm trimmed with
  | some (pattern, flags) =>
      ((buildRegex pattern flags).map MatchEntry.regex).mapError (.invalidRegex raw)
  | none =>
      if '*' ∈ trimmed then
        ((Crates.regex { caseInsensitive := true } (wildcardToRegex trimmed)).map
          MatchEntry.wildcard).mapError (.invalidRegex raw)
      else .ok (.exact (UnicodeTables.toLowercase trimmed))

/-- **What an entry can be.**  The form of the trimmed text decides. -/
theorem MatchEntry.parse_cases {raw : Str} {entry : MatchEntry}
    (h : MatchEntry.parse raw = .ok entry) :
    (∃ pattern flags re, regexForm (trim raw) = some (pattern, flags) ∧
      buildRegex pattern flags = .ok re ∧ entry = .regex re) ∨
    (regexForm (trim raw) = none ∧ '*' ∈ trim raw ∧
      ∃ re, Crates.regex { caseInsensitive := true } (wildcardToRegex (trim raw)) = .ok re ∧
        entry = .wildcard re) ∨
    (regexForm (trim raw) = none ∧ '*' ∉ trim raw ∧
      entry = .exact (UnicodeTables.toLowercase (trim raw))) := by
  unfold MatchEntry.parse at h
  dsimp only at h
  split at h
  · next pattern flags hform =>
    obtain ⟨re, hbuild, rfl⟩ := map_eq_ok_iff.mp (mapError_eq_ok_iff.mp h)
    exact .inl ⟨pattern, flags, re, hform, hbuild, rfl⟩
  · next hform =>
    split at h
    · next hstar =>
      obtain ⟨re, hbuild, rfl⟩ := map_eq_ok_iff.mp (mapError_eq_ok_iff.mp h)
      exact .inr (.inl ⟨hform, hstar, re, hbuild, rfl⟩)
    · next hstar => exact .inr (.inr ⟨hform, hstar, (Except.ok.inj h).symm⟩)

/-- `TargetList::new`. -/
def TargetList.new (blacklist whitelist : List Str) : Except MatchError TargetList :=
  (blacklist.mapM MatchEntry.parse).bind fun blacklist =>
    (whitelist.mapM MatchEntry.parse).map fun whitelist => ⟨blacklist, whitelist⟩

/-- `MatchPolicy::new`. -/
def MatchPolicy.new (targetBlacklist targetWhitelist originBlacklist originWhitelist : List Str) :
    Except MatchError MatchPolicy :=
  (TargetList.new targetBlacklist targetWhitelist).bind fun target =>
    (TargetList.new originBlacklist originWhitelist).map fun origin => ⟨target, origin⟩

end Parsing

/-! ## A compiler of the fragment -/

/-- The characters that `regex::escape` puts a backslash before. -/
def isMetaChar (c : Char) : Bool := "\\.+*?()|[]\x7b\x7d^$#&-~".toList.contains c

/-- `regex::escape`, for one character. -/
def escapeChar (c : Char) : Str := if isMetaChar c then ['\\', c] else [c]

/-- The pieces written in a source of the fragment. -/
def readPieces : Str → Option (List (Piece Char))
  | [] => some []
  | c :: rest =>
      if c = '\\' then
        match rest with
        | [] => none
        | d :: rest => (readPieces rest).map (.text [d] :: ·)
      else if c = '.' then
        match rest with
        | [] => none
        | d :: rest => if d = '*' then (readPieces rest).map (.run :: ·) else none
      else if c = '^' then (readPieces rest).map (.start :: ·)
      else if c = '$' then (readPieces rest).map (.stop :: ·)
      else if isMetaChar c then none
      else (readPieces rest).map (.text [c] :: ·)

/-- The tables of Unicode, as far as ASCII goes. -/
@[reducible] def asciiTables : UnicodeTables := ⟨toAsciiLowercase, Char.toLower⟩

theorem asciiCase_asciiTables : @AsciiCase asciiTables :=
  @AsciiCase.mk asciiTables (fun _ _ => rfl) fun _ _ => rfl

instance [UnicodeTables] (caseInsensitive : Bool) (c d : Char) :
    Decidable (SameChar caseInsensitive c d) :=
  inferInstanceAs (Decidable (if caseInsensitive then _ else _))

/-- The compiler of the fragment, which knows the flag `i` only. -/
def compileFragment (flags : RegexFlags) (source : Str) : Except Str (Str → Bool) :=
  if flags.multiLine || flags.dotMatchesNewLine || flags.ignoreWhitespace then
    .error "unsupported flag".toList
  else match readPieces source with
    | none => .error "unsupported syntax".toList
    | some ps => .ok fun subject =>
        decide (Found (· ≠ '\n') (@SameChar asciiTables flags.caseInsensitive) ps subject)

/-- `reference` with the compiler of the fragment. -/
@[reducible] def fragmentRegex : RegexCrate :=
  { reference with
    escape := fun s => s.flatMap escapeChar
    regex := compileFragment }

/-- A character that opens no pair of characters is a piece of its own. -/
theorem readPieces_cons {c : Char} (hslash : c ≠ '\\') (hdot : c ≠ '.') (rest : Str) :
    readPieces (c :: rest) =
      if c = '^' then (readPieces rest).map (.start :: ·)
      else if c = '$' then (readPieces rest).map (.stop :: ·)
      else if isMetaChar c then none
      else (readPieces rest).map (.text [c] :: ·) := by
  conv_lhs => unfold readPieces
  rw [if_neg hslash, if_neg hdot]

/-- A character is read back from what `escape` writes for it. -/
theorem readPieces_escapeChar (c : Char) (rest : Str) :
    readPieces (escapeChar c ++ rest) = (readPieces rest).map (.text [c] :: ·) := by
  unfold escapeChar
  by_cases hmeta : isMetaChar c = true
  · rw [if_pos hmeta, List.cons_append, List.singleton_append]
    conv_lhs => unfold readPieces
    exact if_pos rfl
  · rw [if_neg hmeta, List.singleton_append]
    have hne : ∀ d, isMetaChar d = true → c ≠ d := fun d hd h => hmeta (h ▸ hd)
    rw [readPieces_cons (hne '\\' (by decide)) (hne '.' (by decide)),
      if_neg (hne '^' (by decide)), if_neg (hne '$' (by decide)), if_neg hmeta]

/-- Literal text, one piece for each character. -/
def spell : Piece Char → List (Piece Char)
  | .text t => t.map fun c => .text [c]
  | p => [p]

/-- A piece is read back from its source. -/
theorem readPieces_pieceSource (p : Piece Char) (rest : Str) :
    readPieces (@pieceSource fragmentRegex p ++ rest) = (readPieces rest).map (spell p ++ ·) := by
  cases p with
  | start => exact (readPieces_cons (by decide) (by decide) rest).trans (if_pos rfl)
  | stop =>
      have hcons := readPieces_cons (c := '$') (by decide) (by decide) rest
      rw [if_neg (by decide), if_pos rfl] at hcons
      exact hcons
  | run => simp [pieceSource, spell, readPieces]
  | text t =>
      change readPieces (t.flatMap escapeChar ++ rest) = _
      induction t with
      | nil => exact (Option.map_id_apply).symm
      | cons c t ih =>
          rw [List.flatMap_cons, List.append_assoc, readPieces_escapeChar, ih, Option.map_map]
          rfl

theorem readPieces_piecesSource (ps : List (Piece Char)) :
    readPieces (@piecesSource fragmentRegex ps) = some (ps.flatMap spell) := by
  induction ps with
  | nil => rfl
  | cons p ps ih =>
      unfold piecesSource at ih ⊢
      rw [List.flatMap_cons, readPieces_pieceSource, ih]
      rfl

/-- Spelling literal text out changes no match. -/
theorem matchesAt_flatMap_spell {inRun : Char → Prop} {same : Char → Char → Prop}
    (ps : List (Piece Char)) {before rest : Str} :
    MatchesAt inRun same (ps.flatMap spell) before rest ↔ MatchesAt inRun same ps before rest := by
  induction ps generalizing before rest with
  | nil => exact Iff.rfl
  | cons p ps ih =>
      rw [List.flatMap_cons]
      cases p with
      | start => exact and_congr_right' ih
      | stop => exact and_congr_right' ih
      | run =>
          exact exists_congr fun a => exists_congr fun b => and_congr_right' (and_congr_right' ih)
      | text t =>
          induction t generalizing before rest with
          | nil => exact ih.trans matchesAt_text_nil_iff.symm
          | cons c t iht =>
              change MatchesAt inRun same (.text [c] :: (spell (.text t) ++ ps.flatMap spell))
                before rest ↔ _
              rw [matchesAt_text_cons_iff, matchesAt_text_cons_iff]
              refine exists_congr fun d => exists_congr fun rest' => and_congr_right' ?_
              exact and_congr_right' (matchesAt_text_nil_iff.trans iht)

/-- Every sequence of pieces compiles. -/
theorem compileFragment_piecesSource (caseInsensitive : Bool) (ps : List (Piece Char)) :
    compileFragment { caseInsensitive := caseInsensitive } (@piecesSource fragmentRegex ps) =
      .ok fun subject => decide
        (Found (· ≠ '\n') (@SameChar asciiTables caseInsensitive) (ps.flatMap spell) subject) := by
  unfold compileFragment
  rw [if_neg (by simp), readPieces_piecesSource]

/-- The compiler of the fragment reads its pieces. -/
theorem readsPieces_fragmentRegex : @ReadsPieces fragmentRegex asciiTables := by
  refine @ReadsPieces.mk fragmentRegex asciiTables rfl rfl ?_
  intro caseInsensitive ps re hre subject
  obtain rfl := Except.ok.inj ((compileFragment_piecesSource caseInsensitive ps).symm.trans hre)
  rw [decide_eq_true_iff]
  exact exists_congr fun before => exists_congr fun rest =>
    and_congr_right' (matchesAt_flatMap_spell ps)

/-- Every entry but those of the `/pattern/flags` form compiles. -/
theorem exists_parse_fragmentRegex {raw : Str} (hplain : IsPlainEntry raw) :
    ∃ entry, @MatchEntry.parse fragmentRegex asciiTables raw = .ok entry := by
  have hcompiles := compileFragment_piecesSource true (anchored '*' (trim raw))
  rw [@piecesSource_anchored fragmentRegex, ← @wildcardToRegex_eq fragmentRegex rfl] at hcompiles
  unfold MatchEntry.parse
  dsimp only
  rw [show regexForm (trim raw) = none from hplain]
  dsimp only
  split
  · exact ⟨_, congrArg (fun re => (Except.map MatchEntry.wildcard re).mapError _) hcompiles⟩
  · exact ⟨_, rfl⟩

/-! ## Wildcards are globs -/

section Wildcards

variable [RegexCrate] [UnicodeTables]

/-- An ASCII entry that is not of the `/pattern/flags` form is a glob, with or without a
star. -/
theorem MatchEntry.isMatch_iff_globs (hcase : AsciiCase) (hreads : ReadsPieces) {raw : Str}
    {entry : MatchEntry} (hascii : IsAscii raw) (hplain : IsPlainEntry raw)
    (hparse : MatchEntry.parse raw = .ok entry) {subject : Str} (hsubject : IsAscii subject)
    (hline : '\n' ∉ subject) :
    entry.isMatch subject = true ↔
      Globs '*' (fun c d => c.toLower = d.toLower) (trim raw) subject := by
  have hsame : ∀ c ∈ trim raw, ∀ d ∈ subject, SameChar true c d ↔ c.toLower = d.toLower :=
    fun c hc d hd => sameChar_iff_toLower hcase (hascii c (mem_of_mem_trim hc)) (hsubject d hd)
  rcases MatchEntry.parse_cases hparse with
    ⟨_, _, _, hsome, _⟩ | ⟨-, -, re, hre, rfl⟩ | ⟨-, hstar, rfl⟩
  · rw [IsPlainEntry, hsome] at hplain
    cases hplain
  · rw [wildcardToRegex_eq hreads.escape_nil] at hre
    have hglobs := isMatch_globSource_iff hreads hre hline
    constructor
    · intro hmatch
      exact (hglobs.mp hmatch).imp fun c hc d hd => (hsame c hc d hd).mp
    · intro hlower
      exact hglobs.mpr (hlower.imp fun c hc d hd => (hsame c hc d hd).mpr)
  · have hlower : eqIgnoreAsciiCase (UnicodeTables.toLowercase (trim raw)) subject = true ↔
        (trim raw).map Char.toLower = subject.map Char.toLower := by
      rw [eqIgnoreAsciiCase_iff, hcase.toLowercase _ fun c hc => hascii c (mem_of_mem_trim hc),
        toAsciiLowercase_toAsciiLowercase]
      exact Iff.rfl
    have hmap : (trim raw).map Char.toLower = subject.map Char.toLower ↔
        List.Forall₂ (fun c d => c.toLower = d.toLower) (trim raw) subject := by
      rw [← List.forall₂_eq_eq_eq, List.forall₂_map_left_iff, List.forall₂_map_right_iff]
    exact (hlower.trans hmap).trans (Globs.iff_forall₂ hstar).symm

/-- **A wildcard entry is a glob.**  An ASCII entry that contains a star and is not of the
`/pattern/flags` form matches a line of ASCII text exactly when the text is the trimmed
entry with a text in place of each star, up to case.  Its expression is the escaped
segments joined by `.*` between the anchors, and it is refused only when the regex
compiler refuses that expression. -/
theorem wildcard_isMatch_iff_globs (hcase : AsciiCase) (hreads : ReadsPieces) {raw : Str}
    (hascii : IsAscii raw) (hstar : '*' ∈ raw) (hplain : IsPlainEntry raw) :
    (∀ entry, MatchEntry.parse raw = .ok entry → ∀ subject, IsAscii subject → '\n' ∉ subject →
      (entry.isMatch subject = true ↔
        Globs '*' (fun c d => c.toLower = d.toLower) (trim raw) subject)) ∧
    wildcardToRegex (trim raw) =
      '^' :: ".*".toList.intercalate (((trim raw).splitOn '*').map RegexCrate.escape) ++ ['$'] ∧
    ((∃ entry, MatchEntry.parse raw = .ok entry) ↔
      ∃ re, Crates.regex { caseInsensitive := true } (wildcardToRegex (trim raw)) = .ok re) := by
  have hsource := wildcardToRegex_eq hreads.escape_nil (trim raw)
  refine ⟨fun entry hentry subject hsubject hline =>
    MatchEntry.isMatch_iff_globs hcase hreads hascii hplain hentry hsubject hline, hsource, ?_⟩
  constructor
  · rintro ⟨entry, hentry⟩
    rcases MatchEntry.parse_cases hentry with ⟨_, _, _, hsome, _⟩ | ⟨-, -, re, hre, -⟩ | hexact
    · rw [IsPlainEntry, hsome] at hplain
      cases hplain
    · exact ⟨re, hre⟩
    · exact absurd (star_mem_trim hstar) hexact.2.1
  · rintro ⟨re, hre⟩
    refine ⟨.wildcard re, ?_⟩
    unfold MatchEntry.parse
    dsimp only
    rw [IsPlainEntry] at hplain
    rw [hplain]
    dsimp only
    rw [if_pos (star_mem_trim hstar), hre]
    rfl

end Wildcards

/-- The entry ` *.Example.com` and a host. -/
theorem wildcard_isMatch_iff_globs_subdomains :
    ∃ entry, @MatchEntry.parse fragmentRegex asciiTables " *.Example.com".toList = .ok entry ∧
      (entry.isMatch "a.b.example.COM".toList = true ↔
        Globs '*' (fun c d => c.toLower = d.toLower) (trim " *.Example.com".toList)
          "a.b.example.COM".toList) := by
  obtain ⟨hmatch, -, -⟩ := @wildcard_isMatch_iff_globs fragmentRegex asciiTables
    asciiCase_asciiTables readsPieces_fragmentRegex " *.Example.com".toList (by decide) (by decide)
    (by decide)
  obtain ⟨entry, hentry⟩ := exists_parse_fragmentRegex (show IsPlainEntry " *.Example.com".toList by
    decide)
  exact ⟨entry, hentry, hmatch entry hentry _ (by decide) (by decide)⟩

end Corsget
