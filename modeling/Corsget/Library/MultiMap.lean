import Mathlib.Data.List.Basic

/-!
# Ordered multi-maps

A multi-map keeps, for each key, an ordered list of values.  It is represented
by the list of its `(key, value)` lines in insertion order; what matters about
two multi-maps is only the list of values under each key, so equality *as
multi-maps* is `Same`, which ignores how lines of different keys interleave.

Every operation is characterised by what it does to `getAll`.  Those equations
are the simp set; nothing downstream looks at the list of lines.
-/

universe u v

/-- An ordered multi-map, as its list of lines. -/
abbrev MultiMap (κ : Type u) (ν : Type v) := List (κ × ν)

namespace MultiMap

variable {κ : Type u} {ν : Type v} [DecidableEq κ]

/-! ## Reading -/

/-- The values under a key, in order. -/
def getAll (m : MultiMap κ ν) (k : κ) : List ν :=
  m.filterMap fun line => if line.1 = k then some line.2 else none

/-- The first value under a key. -/
def get (m : MultiMap κ ν) (k : κ) : Option ν := (getAll m k).head?

/-- Whether a key has a value. -/
def containsKey (m : MultiMap κ ν) (k : κ) : Bool := m.any fun line => line.1 = k

/-- Equality as multi-maps: the same values in the same order under each key. -/
def Same (m m' : MultiMap κ ν) : Prop := ∀ k, getAll m k = getAll m' k

@[simp] theorem getAll_nil (k : κ) : getAll ([] : MultiMap κ ν) k = [] := rfl

theorem getAll_cons (line : κ × ν) (m : MultiMap κ ν) (k : κ) :
    getAll (line :: m) k =
      if line.1 = k then line.2 :: getAll m k else getAll m k := by
  by_cases h : line.1 = k
  · simp [getAll, h]
  · simp [getAll, h]

@[simp] theorem getAll_append (m m' : MultiMap κ ν) (k : κ) :
    getAll (m ++ m') k = getAll m k ++ getAll m' k := by
  simp [getAll, List.filterMap_append]

theorem mem_getAll {m : MultiMap κ ν} {k : κ} {v : ν} :
    v ∈ getAll m k ↔ (k, v) ∈ m := by
  simp only [getAll, List.mem_filterMap, Option.ite_none_right_eq_some,
    Option.some.injEq, Prod.exists]
  constructor
  · rintro ⟨k', v', hmem, rfl, rfl⟩
    exact hmem
  · intro hmem
    exact ⟨k, v, hmem, rfl, rfl⟩

/-- A key has a value exactly when its list of values is not empty. -/
theorem containsKey_iff {m : MultiMap κ ν} {k : κ} :
    containsKey m k = true ↔ getAll m k ≠ [] := by
  rw [containsKey, List.any_eq_true, List.ne_nil_iff_exists_cons]
  constructor
  · rintro ⟨⟨k', v⟩, hmem, hk⟩
    obtain rfl : k' = k := by simpa using hk
    exact List.exists_cons_of_ne_nil (List.ne_nil_of_mem (mem_getAll.mpr hmem))
  · rintro ⟨v, vs, hvs⟩
    refine ⟨(k, v), mem_getAll.mp ?_, by simp⟩
    rw [hvs]
    exact List.mem_cons_self

theorem containsKey_eq_false_iff {m : MultiMap κ ν} {k : κ} :
    containsKey m k = false ↔ getAll m k = [] := by
  rw [← Bool.not_eq_true, containsKey_iff, not_not]

/-! ## Writing -/

/-- Add a value after those the key already has. -/
def append (m : MultiMap κ ν) (k : κ) (v : ν) : MultiMap κ ν := m ++ [(k, v)]

/-- Delete every value of a key. -/
def remove (m : MultiMap κ ν) (k : κ) : MultiMap κ ν :=
  m.filter fun line => line.1 ≠ k

/-- Make `v` the only value of a key. -/
def insert (m : MultiMap κ ν) (k : κ) (v : ν) : MultiMap κ ν :=
  append (remove m k) k v

/-- Every key of `r` takes the values it has in `r`; the other keys keep
theirs. -/
def update (m r : MultiMap κ ν) : MultiMap κ ν :=
  m.filter (fun line => !containsKey r line.1) ++ r

/-- Keeping the lines that satisfy a test keeps, under each key, the values
that satisfy it there. -/
theorem getAll_filter (p : κ × ν → Bool) (m : MultiMap κ ν) (k : κ) :
    getAll (m.filter p) k = (getAll m k).filter fun v => p (k, v) := by
  induction m with
  | nil => rfl
  | cons line m ih =>
      obtain ⟨k', v⟩ := line
      by_cases hk : k' = k
      · subst hk
        by_cases hp : p (k', v) = true
        · simp [getAll_cons, hp, ih]
        · simp [getAll_cons, hp, ih]
      · by_cases hp : p (k', v) = true
        · simp [getAll_cons, hp, hk, ih]
        · simp [getAll_cons, hp, hk, ih]

/-- A test on keys alone keeps all values of a key or none. -/
theorem getAll_filter_key (p : κ → Bool) (m : MultiMap κ ν) (k : κ) :
    getAll (m.filter fun line => p line.1) k = if p k then getAll m k else [] := by
  rw [getAll_filter]
  by_cases h : p k = true
  · simp [h]
  · simp [h]

@[simp] theorem getAll_remove (m : MultiMap κ ν) (k k' : κ) :
    getAll (remove m k) k' = if k' = k then [] else getAll m k' := by
  rw [remove, getAll_filter_key (fun x => decide (x ≠ k))]
  by_cases h : k' = k
  · simp [h]
  · simp [h]

@[simp] theorem getAll_append_key (m : MultiMap κ ν) (k k' : κ) (v : ν) :
    getAll (append m k v) k' =
      if k' = k then getAll m k' ++ [v] else getAll m k' := by
  rw [append, getAll_append, getAll_cons, getAll_nil]
  by_cases h : k' = k
  · simp [h]
  · simp [h, Ne.symm h]

@[simp] theorem getAll_insert (m : MultiMap κ ν) (k k' : κ) (v : ν) :
    getAll (insert m k v) k' = if k' = k then [v] else getAll m k' := by
  by_cases h : k' = k
  · simp [insert, h]
  · simp [insert, h]

theorem getAll_update (m r : MultiMap κ ν) (k : κ) :
    getAll (update m r) k =
      if containsKey r k then getAll r k else getAll m k := by
  rw [update, getAll_append, getAll_filter_key (fun x => !containsKey r x)]
  by_cases h : containsKey r k = true
  · simp [h]
  · have hnil := containsKey_eq_false_iff.mp (Bool.not_eq_true _ ▸ h)
    simp [h, hnil]

/-- Edits that leave a key alone, one after the other, leave it alone. -/
theorem getAll_foldl_of_forall {ι : Type*} {edit : MultiMap κ ν → ι → MultiMap κ ν} {k : κ}
    {edits : List ι} (h : ∀ x ∈ edits, ∀ m, getAll (edit m x) k = getAll m k) (m : MultiMap κ ν) :
    getAll (edits.foldl edit m) k = getAll m k := by
  induction edits generalizing m with
  | nil => rfl
  | cons x edits ih =>
      rw [List.foldl_cons, ih (fun y hy => h y (List.mem_cons_of_mem x hy)),
        h x List.mem_cons_self]

/-- Inserting lines with different keys one after the other gives these keys the
values of the lines. -/
theorem getAll_foldl_insert (lines m : MultiMap κ ν) (hkeys : (lines.map Prod.fst).Nodup) (k : κ) :
    getAll (lines.foldl (fun m line => insert m line.1 line.2) m) k =
      if containsKey lines k then getAll lines k else getAll m k := by
  induction lines generalizing m with
  | nil => rfl
  | cons line lines ih =>
      obtain ⟨hline, hlines⟩ := List.nodup_cons.mp hkeys
      rw [List.foldl_cons, ih _ hlines]
      by_cases hk : line.1 = k
      · -- No later line has the key of the first.
        subst hk
        have hnone : getAll lines line.1 = [] := by
          refine List.eq_nil_iff_forall_not_mem.mpr fun v hv => hline ?_
          exact List.mem_map.mpr ⟨_, mem_getAll.mp hv, rfl⟩
        rw [containsKey_eq_false_iff.mpr hnone, getAll_cons, hnone]
        simp [containsKey]
      · have hcontains : containsKey (line :: lines) k = containsKey lines k := by
          unfold containsKey
          rw [List.any_cons, decide_eq_false hk, Bool.false_or]
        rw [getAll_insert, if_neg (Ne.symm hk), hcontains, getAll_cons, if_neg hk]

end MultiMap
