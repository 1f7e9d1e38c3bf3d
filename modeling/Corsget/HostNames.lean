import Corsget.Library.Validation
import Corsget.Patterns

/-!
# Spellings of a host name

`TargetList::is_allowed` is asked about the host of a URL as the URL parser spells it.
For lists of exact and wildcard entries the answer depends on the letters of the host,
not on their case (`isMatch_toAsciiLowercase`).  It does depend on everything else: the
absolute form of a name, with its trailing dot, is a host string of its own, which only
an entry that ends in a star or in a dot can match (`isMatch_absolute`).
-/

namespace Corsget

open Text Glob Validation

/-! ## Letters -/

/-- Lower-casing keeps ASCII. -/
theorem toNat_toLower_lt {c : Char} (hc : c.toNat < 128) : c.toLower.toNat < 128 := by
  have hall : ∀ n : Fin 128, (Char.ofNat n.val).toLower.toNat < 128 := by decide
  have h := hall ⟨c.toNat, hc⟩
  rw [Char.ofNat_toNat] at h
  exact h

section Names

variable [UnicodeTables]

/-- A case-insensitive expression does not see the case of ASCII letters. -/
theorem sameChar_toLower_iff (hcase : AsciiCase) (c d : Char) :
    SameChar true c d.toLower ↔ SameChar true c d := by
  have hfold : UnicodeTables.foldCase d.toLower = UnicodeTables.foldCase d := by
    by_cases hd : d.toNat < 128
    · rw [hcase.foldCase _ (toNat_toLower_lt hd), hcase.foldCase _ hd,
        Char.toLower_toLower_eq_toLower]
    · rw [toLower_of_not_upper fun h => hd (by omega)]
  unfold SameChar
  rw [if_pos rfl, if_pos rfl, hfold]

variable [RegexCrate]

/-- **An entry does not see the case of the host.** -/
theorem MatchEntry.isMatch_toAsciiLowercase (hcase : AsciiCase) (hreads : ReadsPieces)
    {raw : Str} {entry : MatchEntry} (hplain : IsPlainEntry raw)
    (hparse : MatchEntry.parse raw = .ok entry) {subject : Str} (hline : '\n' ∉ subject) :
    entry.isMatch (toAsciiLowercase subject) = entry.isMatch subject := by
  rw [Bool.eq_iff_iff]
  rcases MatchEntry.parse_cases hparse with ⟨_, _, _, hsome, _⟩ | ⟨-, -, re, hre, rfl⟩ | ⟨-, -, rfl⟩
  · rw [IsPlainEntry, hsome] at hplain
    cases hplain
  · rw [wildcardToRegex_eq hreads.escape_nil] at hre
    have hlower := isMatch_globSource_iff hreads hre
      (mt (mem_toAsciiLowercase_iff (by decide)).mp hline)
    have hmap : Globs '*' (SameChar true) (trim raw) (subject.map Char.toLower) ↔
        Globs '*' (SameChar true) (trim raw) subject :=
      Globs.map_iff (sameChar_toLower_iff hcase)
    exact (hlower.trans hmap).trans (isMatch_globSource_iff hreads hre hline).symm
  · exact (eqIgnoreAsciiCase_iff.trans (by rw [toAsciiLowercase_toAsciiLowercase])).trans
      eqIgnoreAsciiCase_iff.symm

/-! ## The absolute form -/

/-- **The absolute form of a name** is matched by no entry that ends in neither a star nor
a dot. -/
theorem MatchEntry.isMatch_absolute (hcase : AsciiCase) (hreads : ReadsPieces) {raw : Str}
    {entry : MatchEntry} (hascii : IsAscii raw) (hplain : IsPlainEntry raw)
    (hparse : MatchEntry.parse raw = .ok entry)
    (hlast : (trim raw).getLast? ≠ some '*' ∧ (trim raw).getLast? ≠ some '.')
    {host : Str} (hhost : IsAscii host) (hline : '\n' ∉ host) :
    entry.isMatch (host ++ ['.']) = false := by
  have hdot : IsAscii (host ++ ['.']) := by
    intro c hc
    rcases List.mem_append.mp hc with hc | hc
    · exact hhost c hc
    · rw [List.mem_singleton.mp hc]
      decide
  have hdotLine : '\n' ∉ host ++ ['.'] := by simp [hline]
  rw [Bool.eq_false_iff, Ne, MatchEntry.isMatch_iff_globs hcase hreads hascii hplain hparse hdot
    hdotLine]
  intro hglobs
  rcases List.eq_nil_or_concat (trim raw) with hnil | ⟨p, c, hsnoc⟩
  · rw [hnil, Globs.nil_iff] at hglobs
    exact List.append_ne_nil_of_right_ne_nil host (by simp) hglobs
  · rw [List.concat_eq_append] at hsnoc
    rw [hsnoc, List.getLast?_concat] at hlast
    rw [hsnoc] at hglobs
    have hsame := Globs.same_of_snoc (fun h => hlast.1 (congrArg some h)) hglobs
    exact hlast.2 (congrArg some (eq_of_toLower_eq (by decide) hsame))

/-! ## Lists -/

/-- A compiled list consists of its compiled entries. -/
theorem TargetList.new_eq_ok {blacklist whitelist : List Str} {l : TargetList}
    (h : TargetList.new blacklist whitelist = .ok l) :
    blacklist.mapM MatchEntry.parse = .ok l.blacklist ∧
      whitelist.mapM MatchEntry.parse = .ok l.whitelist := by
  obtain ⟨black, hblack, h⟩ := bind_eq_ok_iff.mp h
  obtain ⟨white, hwhite, rfl⟩ := map_eq_ok_iff.mp h
  exact ⟨hblack, hwhite⟩

/-- Whether some entry of a list matches does not depend on the case of the host. -/
theorem any_isMatch_eq_of_case (hcase : AsciiCase) (hreads : ReadsPieces) {raws : List Str}
    {entries : List MatchEntry} (hplain : ∀ raw ∈ raws, IsPlainEntry raw)
    (hparse : raws.mapM MatchEntry.parse = .ok entries) {host spelling : Str}
    (hcaseEq : toAsciiLowercase spelling = toAsciiLowercase host) (hline : '\n' ∉ host) :
    (entries.any fun e => e.isMatch spelling) = entries.any fun e => e.isMatch host := by
  have hspelling : '\n' ∉ spelling := by
    rw [← mem_toAsciiLowercase_iff (by decide), hcaseEq, mem_toAsciiLowercase_iff (by decide)]
    exact hline
  have hentry : ∀ entry ∈ entries, entry.isMatch spelling = entry.isMatch host := by
    intro entry hmem
    obtain ⟨raw, hraw, hentry⟩ := exists_of_mem_of_mapM hparse hmem
    rw [← MatchEntry.isMatch_toAsciiLowercase hcase hreads (hplain raw hraw) hentry hline,
      ← MatchEntry.isMatch_toAsciiLowercase hcase hreads (hplain raw hraw) hentry hspelling,
      hcaseEq]
  rw [Bool.eq_iff_iff, List.any_eq_true, List.any_eq_true]
  exact exists_congr fun entry => and_congr_right fun hmem => by rw [hentry entry hmem]

/-- The decision for a host does not depend on its case. -/
theorem TargetList.isAllowed_eq_of_case (hcase : AsciiCase) (hreads : ReadsPieces)
    {blacklist whitelist : List Str} {l : TargetList}
    (hnew : TargetList.new blacklist whitelist = .ok l)
    (hplain : ∀ raw ∈ blacklist ++ whitelist, IsPlainEntry raw) {host spelling : Str}
    (hcaseEq : toAsciiLowercase spelling = toAsciiLowercase host) (hline : '\n' ∉ host) :
    l.isAllowed spelling = l.isAllowed host := by
  obtain ⟨hblack, hwhite⟩ := TargetList.new_eq_ok hnew
  unfold TargetList.isAllowed
  dsimp only
  rw [any_isMatch_eq_of_case hcase hreads (fun raw h => hplain raw (List.mem_append_left _ h))
      hblack hcaseEq hline,
    any_isMatch_eq_of_case hcase hreads (fun raw h => hplain raw (List.mem_append_right _ h))
      hwhite hcaseEq hline]

/-- An entry that has neither a star nor a dot at its end. -/
def EndsInName (raw : Str) : Prop :=
  (trim raw).getLast? ≠ some '*' ∧ (trim raw).getLast? ≠ some '.'

instance (raw : Str) : Decidable (EndsInName raw) := inferInstanceAs (Decidable (_ ∧ _))

/-- No entry of such a list matches an absolute form. -/
theorem any_isMatch_absolute (hcase : AsciiCase) (hreads : ReadsPieces) {raws : List Str}
    {entries : List MatchEntry} (hplain : ∀ raw ∈ raws, IsPlainEntry raw)
    (hname : ∀ raw ∈ raws, IsAscii raw ∧ EndsInName raw)
    (hparse : raws.mapM MatchEntry.parse = .ok entries) {host : Str} (hhost : IsAscii host)
    (hline : '\n' ∉ host) : (entries.any fun e => e.isMatch (host ++ ['.'])) = false := by
  refine List.any_eq_false.mpr fun entry hmem => ?_
  obtain ⟨raw, hraw, hentry⟩ := exists_of_mem_of_mapM hparse hmem
  rw [MatchEntry.isMatch_absolute hcase hreads (hname raw hraw).1 (hplain raw hraw) hentry
    (hname raw hraw).2 hhost hline]
  exact Bool.false_ne_true

/-- **Spellings of a host name.**  For lists of exact and wildcard entries the decision for
a host, and for its absolute form, does not depend on the case of its letters.  The
absolute form is a host string of its own: a list of which no entry ends in a star or a dot
allows it exactly when its whitelist is empty. -/
theorem isAllowed_spellings (hcase : AsciiCase) (hreads : ReadsPieces)
    {blacklist whitelist : List Str} {l : TargetList}
    (hnew : TargetList.new blacklist whitelist = .ok l)
    (hplain : ∀ raw ∈ blacklist ++ whitelist, IsPlainEntry raw) {host : Str}
    (hhost : IsAscii host) (hline : '\n' ∉ host) :
    (∀ spelling, toAsciiLowercase spelling = toAsciiLowercase host →
      l.isAllowed spelling = l.isAllowed host ∧
        l.isAllowed (spelling ++ ['.']) = l.isAllowed (host ++ ['.'])) ∧
    ((∀ raw ∈ blacklist ++ whitelist, IsAscii raw ∧ EndsInName raw) →
      l.isAllowed (host ++ ['.']) = whitelist.isEmpty) := by
  constructor
  · intro spelling hspelling
    have hdot : toAsciiLowercase (spelling ++ ['.']) = toAsciiLowercase (host ++ ['.']) := by
      unfold toAsciiLowercase at hspelling ⊢
      rw [List.map_append, List.map_append, hspelling]
    exact ⟨TargetList.isAllowed_eq_of_case hcase hreads hnew hplain hspelling hline,
      TargetList.isAllowed_eq_of_case hcase hreads hnew hplain hdot (by simp [hline])⟩
  · intro hname
    obtain ⟨hblack, hwhite⟩ := TargetList.new_eq_ok hnew
    have hempty : l.whitelist.isEmpty = whitelist.isEmpty := by
      have hlength := (mapM_eq_ok_iff.mp hwhite).length_eq
      rw [Bool.eq_iff_iff, List.isEmpty_iff_length_eq_zero, List.isEmpty_iff_length_eq_zero,
        hlength]
    unfold TargetList.isAllowed
    dsimp only
    rw [any_isMatch_absolute hcase hreads
        (fun raw h => hplain raw (List.mem_append_left _ h))
        (fun raw h => hname raw (List.mem_append_left _ h)) hblack hhost hline,
      any_isMatch_absolute hcase hreads
        (fun raw h => hplain raw (List.mem_append_right _ h))
        (fun raw h => hname raw (List.mem_append_right _ h)) hwhite hhost hline, hempty]
    rfl

end Names

/-- `evil.com` is denied and `evil.com.` is not. -/
theorem absolute_form_escapes_blacklist :
    ∃ l, @TargetList.new fragmentRegex asciiTables ["evil.com".toList] [] = .ok l ∧
      l.isAllowed "evil.com".toList = false ∧ l.isAllowed "EVIL.com".toList = false ∧
        l.isAllowed "evil.com.".toList = true :=
  ⟨⟨[.exact "evil.com".toList], []⟩, rfl, by decide, by decide, by decide⟩

/-- A blacklist with an exact and a wildcard entry. -/
theorem isAllowed_spellings_subdomains :
    ∃ l, @TargetList.new fragmentRegex asciiTables ["evil.com".toList, "*.evil.com".toList] [] =
        .ok l ∧
      l.isAllowed "A.Evil.com".toList = l.isAllowed "a.evil.com".toList ∧
        l.isAllowed "a.evil.com.".toList = true := by
  have hplain : ∀ raw ∈ ["evil.com".toList, "*.evil.com".toList], IsPlainEntry raw := by decide
  obtain ⟨black, hblack⟩ :=
    exists_mapM_eq_ok fun raw hraw => exists_parse_fragmentRegex (hplain raw hraw)
  have hnew : @TargetList.new fragmentRegex asciiTables
      ["evil.com".toList, "*.evil.com".toList] [] = .ok ⟨black, []⟩ :=
    bind_eq_ok_iff.mpr ⟨black, hblack, rfl⟩
  obtain ⟨hspelling, habsolute⟩ := @isAllowed_spellings asciiTables fragmentRegex
    asciiCase_asciiTables readsPieces_fragmentRegex _ _ _ hnew (by decide) "a.evil.com".toList
    (by decide) (by decide)
  exact ⟨_, hnew, (hspelling _ (by decide)).1, habsolute (by decide)⟩

end Corsget
