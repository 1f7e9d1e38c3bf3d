import Mathlib.Logic.Function.Basic
import Mathlib.Data.List.Induction

/-!
# The history of a map

A map that is only ever changed in three ways: a value is put under a key, the value under a
key is updated, and keys are removed.  The history of its changes determines it (`replay`).

What the map holds under a key can be read off the history: there is a value exactly when the
latest put of the key has not been followed by a removal (`replay_isSome_iff`), and it is the
value put then with the later updates (`replay_eq_of_latest`).  What no update changes is as it
was put (`updateAll_eq`).
-/

namespace Ledger

variable {κ V U : Type*}

/-- A change of a map. -/
inductive Change (κ V U : Type*) where
  | put (key : κ) (value : V)
  | update (key : κ) (u : U)
  | remove (gone : List κ)

variable [DecidableEq κ] (act : U → V → V)

/-- The map after a change. -/
def Change.apply (m : κ → Option V) : Change κ V U → κ → Option V
  | put key value => Function.update m key (some value)
  | update key u => Function.update m key ((m key).map (act u))
  | remove gone => fun key => if key ∈ gone then none else m key

/-- The map after a history, from the empty one. -/
def replay (history : List (Change κ V U)) : κ → Option V :=
  history.foldl (Change.apply act) fun _ => none

/-- A value after the updates of a key in a history. -/
def updateAll (key : κ) (history : List (Change κ V U)) (value : V) : V :=
  history.foldl
    (fun value change =>
      match change with
      | .update key' u => if key' = key then act u value else value
      | _ => value)
    value

/-- `after` is what has happened since the latest put of the key. -/
structure Latest (key : κ) (value : V) (history after : List (Change κ V U)) : Prop where
  split : ∃ before, history = before ++ .put key value :: after
  latest : ∀ value', .put key value' ∉ after

/-- No removal in the history is one of the key. -/
def Survives (key : κ) (history : List (Change κ V U)) : Prop :=
  ∀ gone, .remove gone ∈ history → key ∉ gone

variable {act} {key : κ} {value : V} {history after : List (Change κ V U)}

/-- The value that an update leaves. -/
theorem apply_update_self {m : κ → Option V} (u : U) (h : m key = some value) :
    (Change.update key u).apply act m key = some (act u value) := by
  refine (Function.update_self _ _ _).trans ?_
  rw [h]
  rfl

theorem replay_append (history more : List (Change κ V U)) :
    replay act (history ++ more) = more.foldl (Change.apply act) (replay act history) :=
  List.foldl_append

theorem replay_snoc (history : List (Change κ V U)) (change : Change κ V U) :
    replay act (history ++ [change]) = change.apply act (replay act history) :=
  replay_append history [change]

omit [DecidableEq κ] in
theorem Latest.snoc {change : Change κ V U} (h : Latest key value history after)
    (hchange : ∀ value', change ≠ .put key value') :
    Latest key value (history ++ [change]) (after ++ [change]) := by
  obtain ⟨before, rfl⟩ := h.split
  refine ⟨⟨before, by rw [List.append_assoc, List.cons_append]⟩, fun value' hmem => ?_⟩
  rcases List.mem_append.mp hmem with hmem | hmem
  · exact h.latest value' hmem
  · exact hchange value' (List.mem_singleton.mp hmem).symm

omit [DecidableEq κ] in
/-- The latest put of a history that goes on is in what comes last, or nothing there is a put
of the key. -/
theorem Latest.of_append {more : List (Change κ V U)}
    (h : Latest key value (history ++ more) after) :
    .put key value ∈ more ∨ (∀ value', .put key value' ∉ more) ∧
      ∃ after', Latest key value history after' := by
  obtain ⟨before, hsplit⟩ := h.split
  rcases List.append_eq_append_iff.mp hsplit with ⟨middle, rfl, hmore⟩ | ⟨middle, hbefore, hafter⟩
  · refine .inl ?_
    rw [hmore]
    exact List.mem_append_right _ List.mem_cons_self
  · cases middle with
    | nil =>
        rw [List.nil_append] at hafter
        refine .inl ?_
        rw [← hafter]
        exact List.mem_cons_self
    | cons change middle =>
        obtain ⟨rfl, rfl⟩ := List.cons.inj hafter
        refine .inr ⟨fun value' hmem => h.latest value' (List.mem_append_right _ hmem), middle,
          ⟨before, hbefore⟩, fun value' hmem => ?_⟩
        exact h.latest value' (List.mem_append_left _ hmem)

theorem updateAll_append (key : κ) (history more : List (Change κ V U)) (value : V) :
    updateAll act key (history ++ more) value =
      updateAll act key more (updateAll act key history value) :=
  List.foldl_append

/-- The value after an update of the key and then more. -/
theorem updateAll_update (key : κ) (u : U) (rest : List (Change κ V U)) (value : V) :
    updateAll act key (.update key u :: rest) value = updateAll act key rest (act u value) := by
  have hone : (if key = key then act u value else value) = act u value := if_pos rfl
  exact congrArg (updateAll act key rest) hone

/-- What no update of the key changes is as it was put. -/
theorem updateAll_eq {γ : Type*} (π : V → γ) {key : κ} {history : List (Change κ V U)}
    (h : ∀ u, .update key u ∈ history → ∀ v, π (act u v) = π v) (value : V) :
    π (updateAll act key history value) = π value := by
  induction history generalizing value with
  | nil => rfl
  | cons change rest ih =>
      refine (ih (fun u hmem => h u (List.mem_cons_of_mem _ hmem)) _).trans ?_
      cases change with
      | update key' u =>
          dsimp only
          split
          · next hkey =>
            subst hkey
            exact h u List.mem_cons_self value
          · rfl
      | _ => rfl

/-- **What the map holds** under a key whose latest put has survived. -/
theorem replay_eq_of_latest (h : Latest key value history after) (hsurvives : Survives key after) :
    replay act history key = some (updateAll act key after value) := by
  obtain ⟨before, rfl⟩ := h.split
  have hput : replay act (before ++ [.put key value]) key = some value := by
    rw [replay_snoc]
    exact Function.update_self _ _ _
  have hrest : ∀ (m : κ → Option V) (value : V), m key = some value →
      after.foldl (Change.apply act) m key = some (updateAll act key after value) := by
    have hlatest := h.latest
    clear h hput
    induction after with
    | nil => exact fun _ _ hm => hm
    | cons change rest ih =>
        intro m value hm
        refine ih (fun gone hmem => hsurvives gone (List.mem_cons_of_mem _ hmem))
          (fun value' hmem => hlatest value' (List.mem_cons_of_mem _ hmem)) _ _ ?_
        cases change with
        | put key' value' =>
            have hne : key ≠ key' := by
              rintro rfl
              exact hlatest value' List.mem_cons_self
            exact (Function.update_of_ne hne _ _).trans hm
        | update key' u =>
            dsimp only
            by_cases hkey : key' = key
            · subst hkey
              rw [if_pos rfl]
              show Function.update m key' ((m key').map (act u)) key' = _
              rw [Function.update_self, hm]
              rfl
            · rw [if_neg hkey]
              exact (Function.update_of_ne (Ne.symm hkey) _ _).trans hm
        | remove gone =>
            exact (if_neg (hsurvives gone List.mem_cons_self)).trans hm
  rw [List.append_cons, replay_append]
  exact hrest _ _ hput

/-- **When the map holds something** under a key: its latest put has survived. -/
theorem exists_latest_of_replay (h : (replay act history key).isSome) :
    ∃ value after, Latest key value history after ∧ Survives key after := by
  induction history using List.reverseRecOn with
  | nil => cases h
  | append_singleton history change ih =>
      rw [replay_snoc] at h
      -- The change is the latest put of the key, or the key has been there before.
      have hbefore : (∀ value', change ≠ .put key value') → (replay act history key).isSome →
          (∀ gone, change = .remove gone → key ∉ gone) →
            ∃ value after, Latest key value (history ++ [change]) after ∧ Survives key after := by
        intro hchange hsome hgone
        obtain ⟨value, after, hlatest, hsurvives⟩ := ih hsome
        refine ⟨value, _, hlatest.snoc hchange, fun gone hmem => ?_⟩
        rcases List.mem_append.mp hmem with hmem | hmem
        · exact hsurvives gone hmem
        · exact hgone gone (List.mem_singleton.mp hmem).symm
      cases change with
      | put key' value =>
          by_cases hkey : key = key'
          · subst hkey
            exact ⟨value, [], ⟨⟨history, rfl⟩, fun _ hmem => nomatch hmem⟩,
              fun _ hmem => nomatch hmem⟩
          · refine hbefore (fun value' heq => hkey ?_) ?_ fun gone heq => nomatch heq
            · exact (Change.put.inj heq).1.symm
            · rwa [Change.apply, Function.update_of_ne hkey] at h
      | update key' u =>
          refine hbefore (fun value' heq => nomatch heq) ?_ fun gone heq => nomatch heq
          by_cases hkey : key = key'
          · subst hkey
            rwa [Change.apply, Function.update_self, Option.isSome_map] at h
          · rwa [Change.apply, Function.update_of_ne hkey] at h
      | remove gone =>
          unfold Change.apply at h
          dsimp only at h
          split at h
          · cases h
          · next hnot =>
            refine hbefore (fun value' heq => nomatch heq) h fun gone' heq => ?_
            obtain rfl := Change.remove.inj heq
            exact hnot

/-- The two together. -/
theorem replay_isSome_iff : (replay act history key).isSome ↔
    ∃ value after, Latest key value history after ∧ Survives key after := by
  refine ⟨exists_latest_of_replay, fun ⟨value, after, hlatest, hsurvives⟩ => ?_⟩
  rw [replay_eq_of_latest hlatest hsurvives]
  rfl

end Ledger
