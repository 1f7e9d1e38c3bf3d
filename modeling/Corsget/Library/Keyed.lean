import Mathlib.Data.List.AList
import Mathlib.Data.List.Induction

/-!
# Machines by key

A `Machine` takes inputs one after the other and answers each of them.  Its state is
created when the first input comes, from that input.

A finite map that holds the state of one machine for each key, and creates it when the
key is first used, is the product of machines that know nothing of each other: what it
holds for a key, and what it answers at the key, is what a lone machine does that is fed
the inputs of that key only (`lookup_after`, `answer_eq`).

`transcript` is what a lone machine does, input by input; a property of the states is
shown of it by adding one input at the end (`transcript_snoc`).
-/

namespace Keyed

variable {κ ι σ ω : Type*}

/-- A machine whose state is created by its first input. -/
structure Machine (ι σ ω : Type*) where
  /-- The state that an input finds when there was none. -/
  create : ι → σ
  /-- The answer to an input, and the state after it. -/
  step : σ → ι → ω × σ

/-- One input in the history of a machine, its answer and the state after it. -/
structure Turn (ι σ ω : Type*) where
  input : ι
  answer : ω
  after : σ

namespace Machine

variable (M : Machine ι σ ω)

/-- An input of a machine that may have no state yet. -/
def feed (state : Option σ) (input : ι) : ω × σ := M.step (state.getD (M.create input)) input

/-- The state of a lone machine after some inputs. -/
def after (inputs : List ι) : Option σ :=
  inputs.foldl (fun state input => some (M.feed state input).2) none

/-- What a machine does on some inputs, from a state. -/
def transcriptFrom : Option σ → List ι → List (Turn ι σ ω)
  | _, [] => []
  | state, input :: rest =>
      ⟨input, (M.feed state input).1, (M.feed state input).2⟩ ::
        transcriptFrom (some (M.feed state input).2) rest

/-- What a lone machine does on some inputs. -/
def transcript (inputs : List ι) : List (Turn ι σ ω) := M.transcriptFrom none inputs

theorem after_snoc (inputs : List ι) (input : ι) :
    M.after (inputs ++ [input]) = some (M.feed (M.after inputs) input).2 := by
  unfold after
  rw [List.foldl_append]
  rfl

theorem after_eq_none_iff {inputs : List ι} : M.after inputs = none ↔ inputs = [] := by
  induction inputs using List.reverseRecOn with
  | nil => exact iff_of_true rfl rfl
  | append_singleton inputs input _ =>
      rw [after_snoc]
      exact iff_of_false (Option.some_ne_none _) (List.append_ne_nil_of_right_ne_nil _ (by simp))

theorem transcriptFrom_append (state : Option σ) (inputs more : List ι) :
    M.transcriptFrom state (inputs ++ more) = M.transcriptFrom state inputs ++
      M.transcriptFrom (inputs.foldl (fun state input => some (M.feed state input).2) state)
        more := by
  induction inputs generalizing state with
  | nil => rfl
  | cons input rest ih => exact congrArg (_ :: ·) (ih _)

/-- **One more input** is one more turn, from the state after the others. -/
theorem transcript_snoc (inputs : List ι) (input : ι) :
    M.transcript (inputs ++ [input]) = M.transcript inputs ++
      [⟨input, (M.feed (M.after inputs) input).1, (M.feed (M.after inputs) input).2⟩] :=
  M.transcriptFrom_append none inputs [input]

/-- **A state that is not seen**: a machine that meets an input as if it had no state goes on
as if it had begun with that input. -/
theorem feed_append_of_unseen {earlier later : List ι} {input : ι}
    (h : ∀ first, (later ++ [input]).head? = some first →
      M.feed (M.after earlier) first = M.feed none first) :
    M.feed (M.after (earlier ++ later)) input = M.feed (M.after later) input := by
  cases later with
  | nil =>
      rw [List.append_nil]
      exact h input rfl
  | cons first rest =>
      have hafter : M.after (earlier ++ first :: rest) = M.after (first :: rest) := by
        unfold after
        rw [List.foldl_append, List.foldl_cons, List.foldl_cons]
        have hfirst := h first rfl
        unfold after at hfirst
        rw [hfirst]
      rw [hafter]

end Machine

/-! ## One machine for each key -/

section States

variable [DecidableEq κ] (M : Machine ι σ ω)

/-- An input at a key: the answer, and the states after it. -/
def feedAt (states : AList fun _ : κ => σ) (key : κ) (input : ι) :
    ω × AList fun _ : κ => σ :=
  ((M.feed (states.lookup key) input).1, states.insert key (M.feed (states.lookup key) input).2)

/-- The states after inputs at keys. -/
def after (inputs : List (κ × ι)) : AList fun _ : κ => σ :=
  inputs.foldl (fun states input => (feedAt M states input.1 input.2).2) ∅

/-- The inputs at one key. -/
def inputsAt (key : κ) (inputs : List (κ × ι)) : List ι :=
  (inputs.filter fun input => input.1 = key).map Prod.snd

theorem after_snoc (inputs : List (κ × ι)) (key : κ) (input : ι) :
    after M (inputs ++ [(key, input)]) = (feedAt M (after M inputs) key input).2 := by
  unfold after
  rw [List.foldl_append]
  rfl

theorem inputsAt_append (key : κ) (inputs more : List (κ × ι)) :
    inputsAt key (inputs ++ more) = inputsAt key inputs ++ inputsAt key more := by
  unfold inputsAt
  rw [List.filter_append, List.map_append]

theorem inputsAt_snoc_self (key : κ) (inputs : List (κ × ι)) (input : ι) :
    inputsAt key (inputs ++ [(key, input)]) = inputsAt key inputs ++ [input] := by
  rw [inputsAt_append]
  simp [inputsAt]

theorem inputsAt_snoc_ne {key other : κ} (h : other ≠ key) (inputs : List (κ × ι)) (input : ι) :
    inputsAt key (inputs ++ [(other, input)]) = inputsAt key inputs := by
  rw [inputsAt_append]
  simp [inputsAt, h]

/-- **The map is a product**: what it holds for a key is the state of a lone machine. -/
theorem lookup_after (key : κ) (inputs : List (κ × ι)) :
    (after M inputs).lookup key = M.after (inputsAt key inputs) := by
  induction inputs using List.reverseRecOn with
  | nil => rfl
  | append_singleton inputs input ih =>
      obtain ⟨other, input⟩ := input
      rw [after_snoc]
      by_cases h : other = key
      · subst h
        rw [inputsAt_snoc_self, Machine.after_snoc, ← ih]
        exact AList.lookup_insert _
      · rw [inputsAt_snoc_ne h, ← ih]
        exact AList.lookup_insert_ne (Ne.symm h)

/-- And what it answers at a key is the answer of a lone machine. -/
theorem answer_eq (key : κ) (inputs : List (κ × ι)) (input : ι) :
    (feedAt M (after M inputs) key input).1 = (M.feed (M.after (inputsAt key inputs)) input).1 := by
  unfold feedAt
  rw [lookup_after]

end States

end Keyed
