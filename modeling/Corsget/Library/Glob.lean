import Mathlib.Data.List.Forall2
import Mathlib.Data.List.Basic

/-!
# Globs and anchored searches

A **glob** is a pattern in which one symbol, the star, stands for any text and every
other symbol for itself, up to a relation `same` between the symbols of the pattern
and those of the subject (equality, or equality up to case).

Programs match globs by searching for a regular expression.  The fragment they need has
four `Piece`s: the two anchors, a run of arbitrary symbols (`.*`), and literal text.
`Found` is the meaning of a search for a sequence of pieces anywhere in a subject.
Cutting a glob at its stars and joining the parts by runs, between the two anchors
(`anchored`), gives a search with the meaning of the glob (`found_anchored_iff`).
-/

namespace Glob

variable {α : Type*}

/-! ## Globs -/

/-- The subject is the pattern with a text in place of each star and, in place of each
other symbol, one that is the same. -/
inductive Globs (star : α) (same : α → α → Prop) : List α → List α → Prop where
  | nil : Globs star same [] []
  | star {p s : List α} (t : List α) :
      Globs star same p s → Globs star same (star :: p) (t ++ s)
  | char {c d : α} {p s : List α} :
      c ≠ star → same c d → Globs star same p s → Globs star same (c :: p) (d :: s)

namespace Globs

variable {star : α} {same : α → α → Prop}

theorem nil_iff {s : List α} : Globs star same [] s ↔ s = [] := by
  constructor
  · intro h
    cases h
    rfl
  · rintro rfl
    exact nil

theorem star_cons_iff {p s : List α} :
    Globs star same (star :: p) s ↔ ∃ t rest, s = t ++ rest ∧ Globs star same p rest := by
  constructor
  · intro h
    cases h with
    | star t hrest => exact ⟨t, _, rfl, hrest⟩
    | char hne => exact absurd rfl hne
  · rintro ⟨t, rest, rfl, hrest⟩
    exact hrest.star t

theorem cons_iff {c : α} (hc : c ≠ star) {p s : List α} :
    Globs star same (c :: p) s ↔ ∃ d rest, s = d :: rest ∧ same c d ∧ Globs star same p rest := by
  constructor
  · intro h
    cases h with
    | star => exact absurd rfl hc
    | char _ hsame hrest => exact ⟨_, _, rfl, hsame, hrest⟩
  · rintro ⟨d, rest, rfl, hsame, hrest⟩
    exact hrest.char hc hsame

/-- **Without a star** a glob is a comparison symbol by symbol. -/
theorem iff_forall₂ {p : List α} (hp : star ∉ p) {s : List α} :
    Globs star same p s ↔ List.Forall₂ same p s := by
  induction p generalizing s with
  | nil => rw [nil_iff, List.forall₂_nil_left_iff]
  | cons c p ih =>
      have hc : c ≠ star := fun h => hp (h ▸ List.mem_cons_self)
      have hrest : star ∉ p := fun h => hp (List.mem_cons_of_mem c h)
      rw [cons_iff hc, List.forall₂_cons_left_iff]
      constructor
      · rintro ⟨d, rest, rfl, hsame, hglobs⟩
        exact ⟨d, rest, hsame, (ih hrest).mp hglobs, rfl⟩
      · rintro ⟨d, rest, hsame, hglobs, rfl⟩
        exact ⟨d, rest, rfl, hsame, (ih hrest).mpr hglobs⟩

/-- A glob in two parts matches a subject in two parts. -/
theorem append_iff {p q s : List α} :
    Globs star same (p ++ q) s ↔
      ∃ a b, s = a ++ b ∧ Globs star same p a ∧ Globs star same q b := by
  constructor
  · intro h
    induction p generalizing s with
    | nil => exact ⟨[], s, rfl, nil, h⟩
    | cons c p ih =>
        by_cases hc : c = star
        · subst hc
          obtain ⟨t, rest, rfl, hrest⟩ := star_cons_iff.mp h
          obtain ⟨a, b, rfl, hp, hq⟩ := ih hrest
          exact ⟨t ++ a, b, (List.append_assoc t a b).symm, hp.star t, hq⟩
        · obtain ⟨d, rest, rfl, hsame, hrest⟩ := (cons_iff hc).mp h
          obtain ⟨a, b, rfl, hp, hq⟩ := ih hrest
          exact ⟨d :: a, b, rfl, hp.char hc hsame, hq⟩
  · rintro ⟨a, b, rfl, hp, hq⟩
    induction hp with
    | nil => exact hq
    | star t _ ih =>
        rw [List.append_assoc]
        exact ih.star t
    | char hne hsame _ ih => exact ih.char hne hsame

/-- A last symbol that is no star matches the last symbol of the subject. -/
theorem same_of_snoc {c d : α} (hc : c ≠ star) {p s : List α}
    (h : Globs star same (p ++ [c]) (s ++ [d])) : same c d := by
  obtain ⟨a, b, hsplit, -, hlast⟩ := append_iff.mp h
  obtain ⟨e, rest, rfl, hsame, hnil⟩ := (cons_iff hc).mp hlast
  obtain rfl := nil_iff.mp hnil
  obtain ⟨-, hde⟩ := List.append_inj' hsplit rfl
  cases hde
  exact hsame

/-- A change of the subject that `same` does not see changes no match. -/
theorem map_iff {f : α → α} (hf : ∀ c d, same c (f d) ↔ same c d) {p s : List α} :
    Globs star same p (s.map f) ↔ Globs star same p s := by
  constructor
  · intro h
    induction p generalizing s with
    | nil => exact nil_iff.mpr (List.map_eq_nil_iff.mp (nil_iff.mp h))
    | cons c p ih =>
        by_cases hc : c = star
        · subst hc
          obtain ⟨t, rest, hsplit, hrest⟩ := star_cons_iff.mp h
          obtain ⟨a, b, rfl, rfl, rfl⟩ := List.map_eq_append_iff.mp hsplit
          exact (ih hrest).star a
        · obtain ⟨d, rest, hsplit, hsame, hrest⟩ := (cons_iff hc).mp h
          obtain ⟨e, b, rfl, rfl, rfl⟩ := List.map_eq_cons_iff.mp hsplit
          exact (ih hrest).char hc ((hf c e).mp hsame)
  · intro h
    induction h with
    | nil => exact nil
    | star t _ ih =>
        rw [List.map_append]
        exact ih.star (t.map f)
    | char hne hsame _ ih => exact ih.char hne ((hf _ _).mpr hsame)

/-- A change of the pattern that keeps its stars changes the comparison. -/
theorem map_pattern_iff {f : α → α} (hf : ∀ c, f c = star ↔ c = star) {p s : List α} :
    Globs star same (p.map f) s ↔ Globs star (fun c d => same (f c) d) p s := by
  induction p generalizing s with
  | nil => rw [List.map_nil, nil_iff, nil_iff]
  | cons c p ih =>
      rw [List.map_cons]
      by_cases hc : c = star
      · rw [(hf c).mpr hc, hc, star_cons_iff, star_cons_iff]
        exact exists_congr fun t => exists_congr fun rest => and_congr_right' ih
      · rw [cons_iff fun h => hc ((hf c).mp h), cons_iff hc]
        exact exists_congr fun d => exists_congr fun rest =>
          and_congr_right' (and_congr_right' ih)

/-- Only what `same` says of the symbols of the pattern and of the subject counts. -/
theorem imp {same' : α → α → Prop} {p s : List α} (hglobs : Globs star same p s)
    (h : ∀ c ∈ p, ∀ d ∈ s, same c d → same' c d) : Globs star same' p s := by
  induction hglobs with
  | nil => exact nil
  | star t _ ih =>
      have hrest := ih fun c hc d hd =>
        h c (List.mem_cons_of_mem _ hc) d (List.mem_append_right _ hd)
      exact hrest.star t
  | char hne hsame _ ih =>
      have hrest := ih fun c hc d hd =>
        h c (List.mem_cons_of_mem _ hc) d (List.mem_cons_of_mem _ hd)
      exact hrest.char hne (h _ List.mem_cons_self _ List.mem_cons_self hsame)

end Globs

/-! ## Searches -/

/-- A piece of a search pattern: the beginning or the end of the subject, a run of
symbols, or literal text. -/
inductive Piece (α : Type*) where
  | start
  | stop
  | run
  | text (t : List α)

section Search

variable (inRun : α → Prop) (same : α → α → Prop)

/-- A match of the pieces begins where `before` has been passed and `rest` follows. -/
def MatchesAt : List (Piece α) → List α → List α → Prop
  | [], _, _ => True
  | .start :: pieces, before, rest => before = [] ∧ MatchesAt pieces before rest
  | .stop :: pieces, before, rest => rest = [] ∧ MatchesAt pieces before rest
  | .run :: pieces, before, rest =>
      ∃ a b, rest = a ++ b ∧ (∀ c ∈ a, inRun c) ∧ MatchesAt pieces (before ++ a) b
  | .text t :: pieces, before, rest =>
      ∃ a b, rest = a ++ b ∧ List.Forall₂ same t a ∧ MatchesAt pieces (before ++ a) b

/-- The pieces match somewhere in the subject. -/
def Found (pieces : List (Piece α)) (subject : List α) : Prop :=
  ∃ before rest, subject = before ++ rest ∧ MatchesAt inRun same pieces before rest

/-! ### Deciding a search -/

/-- A subject has finitely many cuts. -/
theorem exists_append_iff {P : List α → List α → Prop} {s : List α} :
    (∃ a b, s = a ++ b ∧ P a b) ↔ ∃ n < s.length + 1, P (s.take n) (s.drop n) := by
  constructor
  · rintro ⟨a, b, rfl, hP⟩
    refine ⟨a.length, ?_, ?_⟩
    · rw [List.length_append]
      omega
    · rw [List.take_left, List.drop_left]
      exact hP
  · rintro ⟨n, -, hP⟩
    exact ⟨s.take n, s.drop n, (List.take_append_drop n s).symm, hP⟩

instance decidableMatchesAt [DecidablePred inRun] [DecidableRel same] :
    ∀ (ps : List (Piece α)) (before rest : List α),
      Decidable (MatchesAt inRun same ps before rest)
  | [], _, _ => inferInstanceAs (Decidable True)
  | .start :: ps, before, rest =>
      have := decidableMatchesAt ps before rest
      decidable_of_iff (before.isEmpty = true ∧ MatchesAt inRun same ps before rest)
        (and_congr_left' List.isEmpty_iff)
  | .stop :: ps, before, rest =>
      have := decidableMatchesAt ps before rest
      decidable_of_iff (rest.isEmpty = true ∧ MatchesAt inRun same ps before rest)
        (and_congr_left' List.isEmpty_iff)
  | .run :: ps, _, _ =>
      have := decidableMatchesAt ps
      decidable_of_iff _ exists_append_iff.symm
  | .text _ :: ps, _, _ =>
      have := decidableMatchesAt ps
      decidable_of_iff _ exists_append_iff.symm

instance [DecidablePred inRun] [DecidableRel same] (ps : List (Piece α)) (subject : List α) :
    Decidable (Found inRun same ps subject) :=
  decidable_of_iff _ exists_append_iff.symm

end Search

/-- The parts between the stars, with runs in place of the stars. -/
def pieces [BEq α] (star : α) (p : List α) : List (Piece α) :=
  ((p.splitOn star).map Piece.text).intersperse .run

/-- The search for the whole subject. -/
def anchored [BEq α] (star : α) (p : List α) : List (Piece α) :=
  .start :: (pieces star p ++ [.stop])

section Equivalence

variable {inRun : α → Prop} {same : α → α → Prop}

/-- Literal text is found symbol by symbol. -/
theorem matchesAt_text_cons_iff {c : α} {t : List α} {ps : List (Piece α)}
    {before rest : List α} :
    MatchesAt inRun same (.text (c :: t) :: ps) before rest ↔
      ∃ d rest', rest = d :: rest' ∧ same c d ∧
        MatchesAt inRun same (.text t :: ps) (before ++ [d]) rest' := by
  constructor
  · rintro ⟨a, b, rfl, hsame, hmatch⟩
    obtain ⟨d, a', hcd, htail, rfl⟩ := List.forall₂_cons_left_iff.mp hsame
    refine ⟨d, a' ++ b, rfl, hcd, a', b, rfl, htail, ?_⟩
    rw [List.append_assoc]
    exact hmatch
  · rintro ⟨d, rest', rfl, hcd, a, b, rfl, htail, hmatch⟩
    refine ⟨d :: a, b, rfl, htail.cons hcd, ?_⟩
    rw [List.append_assoc] at hmatch
    exact hmatch

/-- The empty text is found everywhere. -/
@[simp] theorem matchesAt_text_nil_iff {ps : List (Piece α)} {before rest : List α} :
    MatchesAt inRun same (.text [] :: ps) before rest ↔ MatchesAt inRun same ps before rest := by
  constructor
  · rintro ⟨a, b, rfl, hnil, hmatch⟩
    obtain rfl := List.forall₂_nil_left_iff.mp hnil
    rw [List.append_nil] at hmatch
    exact hmatch
  · intro hmatch
    refine ⟨[], rest, rfl, .nil, ?_⟩
    rw [List.append_nil]
    exact hmatch

@[simp] theorem pieces_nil [BEq α] (star : α) : pieces star [] = [.text []] := rfl

variable [BEq α] [LawfulBEq α]

/-- A star ends the part before it. -/
theorem pieces_star_cons (star : α) (p : List α) :
    pieces star (star :: p) = .text [] :: .run :: pieces star p := by
  unfold pieces
  rw [List.splitOn_cons_eq_if_modifyHead, if_pos (beq_self_eq_true star), List.map_cons]
  cases hparts : p.splitOn star with
  | nil => exact absurd hparts (List.splitOn_ne_nil star p)
  | cons part parts => rfl

/-- Any other symbol belongs to the first part. -/
theorem pieces_cons {star c : α} (hc : c ≠ star) (p : List α) :
    ∃ t ps, pieces star p = .text t :: ps ∧ pieces star (c :: p) = .text (c :: t) :: ps := by
  unfold pieces
  rw [List.splitOn_cons_eq_if_modifyHead, if_neg (by simpa using hc)]
  cases hparts : p.splitOn star with
  | nil => exact absurd hparts (List.splitOn_ne_nil star p)
  | cons part parts =>
      cases parts with
      | nil => exact ⟨part, [], rfl, rfl⟩
      | cons next parts => exact ⟨part, _, rfl, rfl⟩

/-- From any place, the pieces of a glob and the end of the subject are found exactly
where the glob matches what follows. -/
theorem matchesAt_pieces_iff {star : α} {p before s : List α} (hrun : ∀ c ∈ s, inRun c) :
    MatchesAt inRun same (pieces star p ++ [.stop]) before s ↔ Globs star same p s := by
  induction p generalizing before s with
  | nil =>
      rw [pieces_nil, List.singleton_append, matchesAt_text_nil_iff, Globs.nil_iff]
      exact and_iff_left trivial
  | cons c p ih =>
      by_cases hc : c = star
      · subst hc
        rw [pieces_star_cons, List.cons_append, matchesAt_text_nil_iff, Globs.star_cons_iff]
        constructor
        · rintro ⟨a, b, rfl, -, hmatch⟩
          exact ⟨a, b, rfl, (ih fun d hd => hrun d (List.mem_append_right a hd)).mp hmatch⟩
        · rintro ⟨a, b, rfl, hglobs⟩
          exact ⟨a, b, rfl, fun d hd => hrun d (List.mem_append_left b hd),
            (ih fun d hd => hrun d (List.mem_append_right a hd)).mpr hglobs⟩
      · obtain ⟨t, ps, hp, hcp⟩ := pieces_cons hc p
        rw [hcp, List.cons_append, matchesAt_text_cons_iff, Globs.cons_iff hc]
        rw [hp, List.cons_append] at ih
        constructor
        · rintro ⟨d, rest, rfl, hsame, hmatch⟩
          exact ⟨d, rest, rfl, hsame,
            (ih fun e he => hrun e (List.mem_cons_of_mem d he)).mp hmatch⟩
        · rintro ⟨d, rest, rfl, hsame, hglobs⟩
          exact ⟨d, rest, rfl, hsame,
            (ih fun e he => hrun e (List.mem_cons_of_mem d he)).mpr hglobs⟩

/-- **A glob is an anchored search**, on subjects of which every symbol may stand in a
run. -/
theorem found_anchored_iff {star : α} {p s : List α} (hrun : ∀ c ∈ s, inRun c) :
    Found inRun same (anchored star p) s ↔ Globs star same p s := by
  constructor
  · rintro ⟨before, rest, rfl, rfl, hmatch⟩
    exact (matchesAt_pieces_iff hrun).mp hmatch
  · intro hglobs
    exact ⟨[], s, rfl, rfl, (matchesAt_pieces_iff hrun).mpr hglobs⟩

end Equivalence

end Glob
