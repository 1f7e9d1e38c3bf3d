import Mathlib.Algebra.Group.Nat.Defs
import Mathlib.Data.List.Basic
import Mathlib.Data.List.DropRight
import Mathlib.Data.List.Infix

/-!
# Text as lists of characters

String handling on `List Char`, with the meaning the Rust standard library
gives the methods of the same names: `trim` removes Unicode white space,
`splitOnce` cuts at the first separator, `parseU64` reads an unsigned decimal
number with an optional leading `+`.  Splitting at every separator is
`List.splitOn` and prefix removal is `List.dropPrefix?`; both exist already and
are used by name.

The last section is about byte strings made of segments that a separator
terminates.  Such strings can be read **from the right** without knowing what
the front holds (`snoc_segment_inj`), which is what makes a concatenation of
terminated fields uniquely readable behind an arbitrary prefix.
-/

namespace Text

/-- A string, as its list of characters. -/
abbrev Str := List Char

/-! ## White space and case -/

/-- The code points with the Unicode property `White_Space`. -/
def isWhitespace (c : Char) : Bool :=
  let n := c.toNat
  (9 ≤ n && n ≤ 13) || n == 0x20 || n == 0x85 || n == 0xA0 || n == 0x1680 ||
    (0x2000 ≤ n && n ≤ 0x200A) || n == 0x2028 || n == 0x2029 || n == 0x202F ||
    n == 0x205F || n == 0x3000

/-- `str::trim`: white space removed at both ends. -/
def trim (s : Str) : Str :=
  (s.dropWhile isWhitespace).rdropWhile isWhitespace

/-- Trimming only takes characters away. -/
theorem mem_of_mem_trim {c : Char} {s : Str} (h : c ∈ trim s) : c ∈ s := by
  have hprefix := (List.rdropWhile_prefix isWhitespace _).subset h
  exact (List.dropWhile_suffix isWhitespace).subset hprefix

/-- Trimming takes only white space away. -/
theorem mem_trim {c : Char} (hc : isWhitespace c = false) {s : Str} (h : c ∈ s) : c ∈ trim s := by
  have hdrop : ∀ t : Str, c ∈ t → c ∈ t.dropWhile isWhitespace := by
    intro t ht
    rw [← List.takeWhile_append_dropWhile (p := isWhitespace) (l := t)] at ht
    rcases List.mem_append.mp ht with hfront | hback
    · rw [List.mem_takeWhile_imp hfront] at hc
      cases hc
    · exact hback
  have hback := hdrop _ (List.mem_reverse.mpr (hdrop s h))
  exact List.mem_reverse.mpr hback

/-- `str::trim_matches(c)`: the character `c` removed at both ends. -/
def trimMatches (c : Char) (s : Str) : Str :=
  (s.dropWhile (· == c)).rdropWhile (· == c)

/-- `str::to_ascii_lowercase`.  `Char.toLower` moves `A` to `Z` only. -/
def toAsciiLowercase (s : Str) : Str := s.map Char.toLower

/-- `str::eq_ignore_ascii_case`. -/
def eqIgnoreAsciiCase (s t : Str) : Bool :=
  toAsciiLowercase s == toAsciiLowercase t

/-- `str::is_ascii`. -/
def IsAscii (s : Str) : Prop := ∀ c ∈ s, c.toNat < 128

instance (s : Str) : Decidable (IsAscii s) :=
  List.decidableBAll (fun c : Char => c.toNat < 128) s

/-- Outside `A` to `Z`, `toLower` does nothing. -/
theorem toLower_of_not_upper {c : Char} (h : ¬ (65 ≤ c.toNat ∧ c.toNat ≤ 90)) :
    c.toLower = c := by
  refine dif_neg ?_
  simpa [UInt32.le_iff_toNat_le] using h

/-! ## Cutting -/

/-- `str::split_once(c)`: the parts before and after the first `c`. -/
def splitOnce (c : Char) : Str → Option (Str × Str)
  | [] => none
  | x :: xs =>
      if x = c then some ([], xs)
      else (splitOnce c xs).map fun p => (x :: p.1, p.2)

/-- The first separator is the one behind a part without it. -/
theorem splitOnce_append {c : Char} {a : Str} (ha : c ∉ a) (b : Str) :
    splitOnce c (a ++ c :: b) = some (a, b) := by
  induction a with
  | nil => exact if_pos rfl
  | cons x xs ih =>
      have hx : x ≠ c := fun h => ha (h ▸ List.mem_cons_self)
      rw [List.cons_append]
      unfold splitOnce
      rw [if_neg hx, ih fun h => ha (List.mem_cons_of_mem _ h)]
      rfl

theorem eq_append_of_splitOnce {c : Char} {s a b : Str} (h : splitOnce c s = some (a, b)) :
    s = a ++ c :: b := by
  induction s generalizing a with
  | nil => cases h
  | cons x xs ih =>
      unfold splitOnce at h
      split at h
      · next hx =>
        cases h
        rw [hx]
        rfl
      · obtain ⟨⟨a', b'⟩, hrest, hcons⟩ := Option.map_eq_some_iff.mp h
        cases hcons
        exact congrArg (x :: ·) (ih hrest)

/-- The part before the first separator has none. -/
theorem notMem_of_splitOnce {c : Char} {s a b : Str} (h : splitOnce c s = some (a, b)) :
    c ∉ a := by
  induction s generalizing a with
  | nil => cases h
  | cons x xs ih =>
      unfold splitOnce at h
      split at h
      · cases h
        exact List.not_mem_nil
      · next hx =>
        obtain ⟨⟨a', b'⟩, hrest, hcons⟩ := Option.map_eq_some_iff.mp h
        cases hcons
        exact List.not_mem_cons_of_ne_of_not_mem (Ne.symm hx) (ih hrest)

/-- A text that is not cut has no separator. -/
theorem notMem_of_splitOnce_eq_none {c : Char} {s : Str} (h : splitOnce c s = none) : c ∉ s := by
  intro hmem
  obtain ⟨a, b, rfl, ha⟩ := List.eq_append_cons_of_mem hmem
  rw [splitOnce_append ha] at h
  cases h

/-- Splitting texts joined by the separator splits each of them. -/
theorem splitOn_intercalate_flatMap (c : Char) :
    ∀ texts : List Str, texts ≠ [] →
      ([c].intercalate texts).splitOn c = texts.flatMap fun text => text.splitOn c
  | [], h => absurd rfl h
  | [text], _ => by simp
  | text :: text' :: texts, _ => by
      have ih := splitOn_intercalate_flatMap c (text' :: texts) (by simp)
      rw [List.intercalate_cons_cons, List.append_assoc, List.singleton_append,
        List.splitOn_append_cons_self, ih]
      rfl

/-- `str::rfind(c)`: the index of the last `c`. -/
def rfind (c : Char) (s : Str) : Option ℕ :=
  (s.reverse.idxOf? c).map fun i => s.length - 1 - i

/-- Texts each followed by the separator are the texts joined by it, and one more. -/
theorem flatMap_append_eq_intercalate (sep : Str) :
    ∀ texts : List Str, texts ≠ [] →
      texts.flatMap (fun text => text ++ sep) = sep.intercalate texts ++ sep
  | [], h => absurd rfl h
  | [text], _ => by simp
  | text :: text' :: texts, _ => by
      have ih := flatMap_append_eq_intercalate sep (text' :: texts) (by simp)
      rw [List.flatMap_cons, ih, List.intercalate_cons_cons]
      simp only [List.append_assoc]

/-! ## Numbers -/

/-- The value of a nonempty string of decimal digits. -/
def parseDigits (s : Str) : Option ℕ :=
  if s ≠ [] ∧ s.all Char.isDigit then some (Nat.ofDigitChars 10 s 0) else none

/-- `str::parse::<u64>`: decimal digits after an optional `+`, rejected when the
value does not fit. -/
def parseU64 (s : Str) : Option ℕ :=
  let digits := match s with
    | '+' :: rest => rest
    | _ => s
  (parseDigits digits).bind fun n => if n < 2 ^ 64 then some n else none

/-- The decimal form of a number. -/
def decimal (n : ℕ) : Str := Nat.toDigits 10 n

/-- Different numbers have different decimal forms. -/
theorem decimal_injective : Function.Injective decimal := by
  intro m n h
  have hm := Nat.ofDigitChars_toDigits (b := 10) (n := m) (by omega) (by omega)
  have hn := Nat.ofDigitChars_toDigits (b := 10) (n := n) (by omega) (by omega)
  rw [decimal] at h
  rw [← hm, h]
  exact hn

theorem isDigit_of_mem_decimal {n : ℕ} {c : Char} (h : c ∈ decimal n) :
    c.isDigit = true :=
  Nat.isDigit_of_mem_toDigits (by omega) (by omega) h

/-! ## Fields that a separator terminates -/

section Segments

variable {α : Type*}

/-- The first field of two equal strings is the same when neither field
contains the separator. -/
theorem segment_append_inj {sep : α} {a b x y : List α} (ha : sep ∉ a) (hb : sep ∉ b)
    (h : a ++ sep :: x = b ++ sep :: y) : a = b ∧ x = y := by
  induction a generalizing b with
  | nil =>
      cases b with
      | nil => simpa using h
      | cons d ds =>
          simp only [List.nil_append, List.cons_append, List.cons.injEq] at h
          exact absurd (h.1 ▸ List.mem_cons_self) hb
  | cons c cs ih =>
      cases b with
      | nil =>
          simp only [List.nil_append, List.cons_append, List.cons.injEq] at h
          exact absurd (h.1 ▸ List.mem_cons_self) ha
      | cons d ds =>
          simp only [List.cons_append, List.cons.injEq] at h
          obtain ⟨rfl, h⟩ := h
          obtain ⟨rfl, rfl⟩ := ih (fun m => ha (List.mem_cons_of_mem _ m))
            (fun m => hb (List.mem_cons_of_mem _ m)) h
          exact ⟨rfl, rfl⟩

/-- **Reading from the right.**  The last field of two equal strings is the
same when neither field contains the separator, whatever stands in front. -/
theorem snoc_segment_inj {sep : α} {x y a b : List α} (ha : sep ∉ a) (hb : sep ∉ b)
    (h : x ++ sep :: a = y ++ sep :: b) : x = y ∧ a = b := by
  have hrev : a.reverse ++ sep :: x.reverse = b.reverse ++ sep :: y.reverse := by
    simpa using congrArg List.reverse h
  obtain ⟨hab, hxy⟩ := segment_append_inj (by simpa using ha) (by simpa using hb) hrev
  exact ⟨List.reverse_injective hxy, List.reverse_injective hab⟩

/-- **Unique reading of tagged fields.**  A sequence of fields, each a tag, a
separator, a value and a separator, determines its values and what stands in
front, when no value contains the separator. -/
theorem append_flatMap_segment_inj {ι : Type*} {sep : α} {tag f g : ι → List α}
    (hf : ∀ i, sep ∉ f i) (hg : ∀ i, sep ∉ g i) (is : List ι) :
    ∀ {x y : List α},
      x ++ is.flatMap (fun i => tag i ++ [sep] ++ f i ++ [sep]) =
        y ++ is.flatMap (fun i => tag i ++ [sep] ++ g i ++ [sep]) →
      x = y ∧ ∀ i ∈ is, f i = g i := by
  induction is using List.reverseRecOn with
  | nil =>
      intro x y h
      exact ⟨by simpa using h, by simp⟩
  | append_singleton is i ih =>
      intro x y h
      have h : (x ++ is.flatMap (fun i => tag i ++ [sep] ++ f i ++ [sep]) ++ tag i ++
            sep :: f i) ++ sep :: [] =
          (y ++ is.flatMap (fun i => tag i ++ [sep] ++ g i ++ [sep]) ++ tag i ++
            sep :: g i) ++ sep :: [] := by
        simpa using h
      obtain ⟨h, -⟩ := snoc_segment_inj (by simp) (by simp) h
      obtain ⟨h, hi⟩ := snoc_segment_inj (hf i) (hg i) h
      obtain ⟨hxy, his⟩ := ih (List.append_cancel_right h)
      refine ⟨hxy, fun j hj => ?_⟩
      rcases List.mem_append.mp hj with hmem | hmem
      · exact his j hmem
      · rw [List.mem_singleton.mp hmem]
        exact hi

end Segments

end Text
