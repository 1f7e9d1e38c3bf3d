import Corsget.Library.Validation
import Mathlib.Data.List.Nodup
import Mathlib.Data.List.Perm.Basic

/-!
# Reading records

A program reads its settings from a tree: a record from a mapping, whose entries are read in
the order of the document, and the fields that no entry names from their defaults.  `Fields`
describes such a record, `Fields.read` reads a mapping as one and `Fields.readSeq` a sequence
of values in the order of the fields.

* `Fields.read_eq_ok_iff`: a mapping is read exactly when no key is repeated, every key is a
  field and every field has its value.  So the order of the entries is of no consequence
  (`Fields.read_perm`).
* `Image read P`: the values that `read` can return are exactly those with `P`.  A record
  built from fields whose values are known has exactly the records of such values
  (`Fields.Reads.image`).
-/

namespace Decode

open Validation

variable {V W ε ε' α β : Type}

/-! ## What a reader returns -/

/-- The values that `read` returns for some document are exactly those with `P`. -/
def Image (read : V → Except ε α) (P : α → Prop) : Prop := ∀ a, (∃ v, read v = .ok a) ↔ P a

theorem Image.holds {read : V → Except ε α} {P : α → Prop} (h : Image read P) {v : V} {a : α}
    (hread : read v = .ok a) : P a :=
  (h a).mp ⟨v, hread⟩

/-- A reader whose errors are put into other words. -/
theorem Image.mapError {read : V → Except ε α} {P : α → Prop} (h : Image read P) (f : ε → ε') :
    Image (fun v => (read v).mapError f) P := by
  intro a
  rw [← h a]
  exact exists_congr fun v => mapError_eq_ok_iff

/-- A reader whose values are put into another form. -/
theorem Image.map {read : V → Except ε α} {P : α → Prop} (h : Image read P) {f : α → β}
    {Q : β → Prop} (hf : ∀ b, Q b ↔ ∃ a, P a ∧ f a = b) :
    Image (fun v => (read v).map f) Q := by
  intro b
  rw [hf b]
  constructor
  · rintro ⟨v, hread⟩
    obtain ⟨a, ha, hab⟩ := map_eq_ok_iff.mp hread
    exact ⟨a, h.holds ha, hab⟩
  · rintro ⟨a, ha, hab⟩
    obtain ⟨v, hread⟩ := (h a).mpr ha
    exact ⟨v, map_eq_ok_iff.mpr ⟨a, hread, hab⟩⟩

/-- A reader followed by a check. -/
theorem Image.check {read : V → Except ε α} {P : α → Prop} (h : Image read P)
    {f : α → Except ε β} {Q : β → Prop} (hf : ∀ b, Q b ↔ ∃ a, P a ∧ f a = .ok b) :
    Image (fun v => (read v).bind f) Q := by
  intro b
  rw [hf b]
  constructor
  · rintro ⟨v, hread⟩
    obtain ⟨a, ha, hab⟩ := bind_eq_ok_iff.mp hread
    exact ⟨a, h.holds ha, hab⟩
  · rintro ⟨a, ha, hab⟩
    obtain ⟨v, hread⟩ := (h a).mpr ha
    exact ⟨v, bind_eq_ok_iff.mpr ⟨a, hread, hab⟩⟩

/-- **A list**, item by item. -/
theorem Image.list {read : V → Except ε α} {P : α → Prop} (h : Image read P) :
    Image (fun vs : List V => vs.mapM read) fun xs => ∀ x ∈ xs, P x := by
  intro xs
  constructor
  · rintro ⟨vs, hread⟩ x hx
    obtain ⟨v, -, hv⟩ := exists_of_mem_of_mapM hread hx
    exact h.holds hv
  · intro hall
    induction xs with
    | nil => exact ⟨[], rfl⟩
    | cons x xs ih =>
        obtain ⟨v, hv⟩ := (h x).mpr (hall x List.mem_cons_self)
        obtain ⟨vs, hvs⟩ := ih fun y hy => hall y (List.mem_cons_of_mem x hy)
        exact ⟨v :: vs, mapM_eq_ok_iff.mpr ((mapM_eq_ok_iff.mp hvs).cons hv)⟩

/-! ## Documents that read alike -/

/-- The values that `read` returns are kept when the document changes along `R`. -/
def Stable (R : V → V → Prop) (read : V → Except ε α) : Prop :=
  ∀ v v' a, R v v' → read v = .ok a → read v' = .ok a

/-- Unchanged, or changed along `R`. -/
def OrSame (R : V → V → Prop) (v v' : V) : Prop := v' = v ∨ R v v'

theorem Stable.orSame {R : V → V → Prop} {read : V → Except ε α} (h : Stable R read) :
    Stable (OrSame R) read := by
  rintro v v' a (rfl | hR) hread
  · exact hread
  · exact h v v' a hR hread

theorem Stable.mapError {R : V → V → Prop} {read : V → Except ε α} (h : Stable R read)
    (f : ε → ε') : Stable R fun v => (read v).mapError f :=
  fun v v' a hR hread => mapError_eq_ok_iff.mpr (h v v' a hR (mapError_eq_ok_iff.mp hread))

theorem Stable.map {R : V → V → Prop} {read : V → Except ε α} (h : Stable R read) (f : α → β) :
    Stable R fun v => (read v).map f := by
  intro v v' b hR hread
  obtain ⟨a, ha, hab⟩ := map_eq_ok_iff.mp hread
  exact map_eq_ok_iff.mpr ⟨a, h v v' a hR ha, hab⟩

theorem Stable.check {R : V → V → Prop} {read : V → Except ε α} (h : Stable R read)
    (f : α → Except ε β) : Stable R fun v => (read v).bind f := by
  intro v v' b hR hread
  obtain ⟨a, ha, hab⟩ := bind_eq_ok_iff.mp hread
  exact bind_eq_ok_iff.mpr ⟨a, h v v' a hR ha, hab⟩

/-- A list, item by item. -/
theorem Stable.list {R : V → V → Prop} {read : V → Except ε α} (h : Stable R read) :
    Stable (List.Forall₂ R) fun vs : List V => vs.mapM read := by
  intro vs vs' as hR hread
  have hall := mapM_eq_ok_iff.mp hread
  refine mapM_eq_ok_iff.mpr ?_
  clear hread
  induction hR generalizing as with
  | nil => exact hall
  | cons hhead _ ih =>
      cases hall with
      | cons ha has => exact .cons (h _ _ _ hhead ha) (ih _ has)

/-- One item of a list changed. -/
theorem forall₂_orSame {R : V → V → Prop} {v v' : V} (h : R v v') (pre post : List V) :
    List.Forall₂ (OrSame R) (pre ++ v :: post) (pre ++ v' :: post) :=
  List.rel_append (List.forall₂_same.mpr fun _ _ => .inl rfl) <|
    .cons (.inr h) (List.forall₂_same.mpr fun _ _ => .inl rfl)

/-! ## Records -/

variable {κ : Type}

/-- The errors of a record: an unknown key, with the names of the fields; a repeated key; a
field without a value. -/
structure RecordErrors (κ ε : Type) where
  unknown : List κ → κ → ε
  duplicate : κ → ε
  missing : κ → ε

/-- The fields of a record in the order of their declaration, each with its name, its reader
and what stands for it when it is absent. -/
inductive Fields (κ V ε : Type) : Type → Type 1 where
  | done : Fields κ V ε Unit
  | field {α β : Type} (name : κ) (read : V → Except ε α) (absent : Option α)
      (rest : Fields κ V ε β) : Fields κ V ε (α × β)

namespace Fields

/-- The names of the fields. -/
def names : {α : Type} → Fields κ V ε α → List κ
  | _, .done => []
  | _, .field name _ _ rest => name :: rest.names

variable [DecidableEq κ]

/-- Read the value of an entry, when its key is a field. -/
def visit : {α : Type} → Fields κ V ε α → κ → V → Option (Except ε Unit)
  | _, .done, _, _ => none
  | _, .field name read _ rest, key, v =>
      if key = name then some ((read v).map fun _ => ()) else rest.visit key v

/-- The pass over the entries, in the order of the document; `seen` are the keys so far. -/
def scan (errors : RecordErrors κ ε) (fields : Fields κ V ε α) :
    List κ → List (κ × V) → Except ε Unit
  | _, [] => .ok ()
  | seen, (key, v) :: entries =>
      match fields.visit key v with
      | none => .error (errors.unknown fields.names key)
      | some outcome =>
          if key ∈ seen then .error (errors.duplicate key)
          else outcome.bind fun _ => fields.scan errors (key :: seen) entries

/-- The value of one field: what its entry reads as, or its default. -/
def value (read : V → Except ε α) (absent : Option α) (missing : ε) : Option V → Except ε α
  | some v => read v
  | none => absent.elim (.error missing) .ok

/-- The values of the fields, in the order of their declaration. -/
def collect (errors : RecordErrors κ ε) :
    {α : Type} → Fields κ V ε α → (κ → Option V) → Except ε α
  | _, .done, _ => .ok ()
  | _, .field name read absent rest, entry =>
      (value read absent (errors.missing name) (entry name)).bind fun a =>
        (rest.collect errors entry).map fun b => (a, b)

/-- Read a mapping as a record. -/
def read (errors : RecordErrors κ ε) (fields : Fields κ V ε α) (entries : List (κ × V)) :
    Except ε α :=
  (fields.scan errors [] entries).bind fun _ => fields.collect errors (List.lookup · entries)

/-- Read a sequence as a record, one value for each field; `index` is the place of the first
of them.  The values may be too few (`short`) or too many (`excess`). -/
def readSeq (short : ℕ → ε) (excess : ε) :
    {α : Type} → ℕ → Fields κ V ε α → List V → Except ε α
  | _, _, .done, [] => .ok ()
  | _, _, .done, _ :: _ => .error excess
  | _, index, .field _ read absent rest, vs =>
      (value read absent (short index) vs.head?).bind fun a =>
        (rest.readSeq short excess (index + 1) vs.tail).map fun b => (a, b)

/-- The field has the value of its entry, or its default when there is none. -/
def HasValue (read : V → Except ε α) (absent : Option α) (entry : Option V) (a : α) : Prop :=
  (∀ v, entry = some v → read v = .ok a) ∧ (entry = none → absent = some a)

/-- Every field of the record has its value. -/
def Holds : {α : Type} → Fields κ V ε α → (κ → Option V) → α → Prop
  | _, .done, _, _ => True
  | _, .field name read absent rest, entry, a =>
      HasValue read absent (entry name) a.1 ∧ rest.Holds entry a.2

omit [DecidableEq κ] in
theorem value_eq_ok_iff {read : V → Except ε α} {absent : Option α} {missing : ε}
    {entry : Option V} {a : α} :
    value read absent missing entry = .ok a ↔ HasValue read absent entry a := by
  cases entry with
  | some v =>
      constructor
      · intro h
        refine ⟨fun v' hv' => ?_, fun hnone => (by cases hnone)⟩
        obtain rfl := Option.some.inj hv'
        exact h
      · intro h
        exact h.1 v rfl
  | none =>
      constructor
      · intro h
        refine ⟨fun v hv => (by cases hv), fun _ => ?_⟩
        cases absent with
        | none => cases h
        | some b => exact congrArg some (Except.ok.inj h)
      · intro h
        have habsent : absent = some a := h.2 rfl
        rw [habsent]
        rfl

variable {errors : RecordErrors κ ε} {fields : Fields κ V ε α}

omit [DecidableEq κ] in
/-- **The values** of the fields. -/
theorem collect_eq_ok_iff {entry : κ → Option V} {a : α} :
    fields.collect errors entry = .ok a ↔ fields.Holds entry a := by
  induction fields with
  | done => exact iff_of_true rfl trivial
  | field name read absent rest ih =>
      show Except.bind _ _ = _ ↔ _ ∧ _
      rw [bind_eq_ok_iff]
      constructor
      · rintro ⟨b, hb, hrest⟩
        obtain ⟨c, hc, rfl⟩ := map_eq_ok_iff.mp hrest
        exact ⟨value_eq_ok_iff.mp hb, ih.mp hc⟩
      · rintro ⟨hb, hc⟩
        exact ⟨a.1, value_eq_ok_iff.mpr hb, map_eq_ok_iff.mpr ⟨a.2, ih.mpr hc, rfl⟩⟩

theorem mem_names_of_visit {key : κ} {v : V} {outcome : Except ε Unit}
    (h : fields.visit key v = some outcome) : key ∈ fields.names := by
  induction fields with
  | done => cases h
  | field name read absent rest ih =>
      by_cases hkey : key = name
      · rw [hkey]
        exact List.mem_cons_self
      · rw [visit, if_neg hkey] at h
        exact List.mem_cons_of_mem name (ih h)

/-- An entry of a field that has its value is read. -/
theorem Holds.visit {entry : κ → Option V} {a : α} (h : fields.Holds entry a)
    {key : κ} {v : V} (hkey : key ∈ fields.names) (hentry : entry key = some v) :
    fields.visit key v = some (.ok ()) := by
  induction fields with
  | done => cases hkey
  | field name read absent rest ih =>
      rw [Fields.visit]
      by_cases hname : key = name
      · rw [if_pos hname]
        rw [hname] at hentry
        rw [h.1.1 v hentry]
        rfl
      · rw [if_neg hname]
        exact ih h.2 ((List.mem_cons.mp hkey).resolve_left hname)

/-- **The pass over the entries** goes through when each is read and no key is repeated. -/
theorem scan_eq_ok_iff {seen : List κ} {entries : List (κ × V)} :
    fields.scan errors seen entries = .ok () ↔
      (∀ e ∈ entries, fields.visit e.1 e.2 = some (.ok ()) ∧ e.1 ∉ seen) ∧
        (entries.map Prod.fst).Nodup := by
  induction entries generalizing seen with
  | nil =>
      refine iff_of_true rfl ⟨fun e he => ?_, List.nodup_nil⟩
      cases he
  | cons e entries ih =>
      obtain ⟨key, v⟩ := e
      rw [List.map_cons, List.nodup_cons, List.forall_mem_cons, scan]
      cases hvisit : fields.visit key v with
      | none =>
          refine iff_of_false (fun h => by cases h) ?_
          rintro ⟨⟨⟨hsome, -⟩, -⟩, -⟩
          cases hsome
      | some outcome =>
          by_cases hseen : key ∈ seen
          · dsimp only
            rw [if_pos hseen]
            exact iff_of_false (fun h => by cases h) fun h => h.1.1.2 hseen
          · dsimp only
            rw [if_neg hseen, bind_eq_ok_iff]
            constructor
            · rintro ⟨⟨⟩, rfl, hrest⟩
              obtain ⟨hall, hnodup⟩ := ih.mp hrest
              refine ⟨⟨⟨rfl, hseen⟩, fun e' he' => ?_⟩, fun hmem => ?_, hnodup⟩
              · exact ⟨(hall e' he').1, fun h => (hall e' he').2 (List.mem_cons_of_mem key h)⟩
              · obtain ⟨e', he', hkey⟩ := List.mem_map.mp hmem
                exact (hall e' he').2 (hkey ▸ List.mem_cons_self)
            · rintro ⟨⟨⟨hok, -⟩, hall⟩, hnotMem, hnodup⟩
              refine ⟨(), Option.some.inj hok, ih.mpr ⟨fun e' he' => ⟨(hall e' he').1, ?_⟩, hnodup⟩⟩
              intro hmem
              rcases List.mem_cons.mp hmem with hkey | hmem
              · exact hnotMem (List.mem_map.mpr ⟨e', he', hkey⟩)
              · exact (hall e' he').2 hmem

/-- Without repeated keys an entry is what its key looks up. -/
theorem lookup_eq_some_iff {entries : List (κ × V)} (hnodup : (entries.map Prod.fst).Nodup)
    {key : κ} {v : V} : List.lookup key entries = some v ↔ (key, v) ∈ entries := by
  induction entries with
  | nil => exact iff_of_false (fun h => by cases h) (fun h => by cases h)
  | cons e entries ih =>
      obtain ⟨key', v'⟩ := e
      rw [List.map_cons, List.nodup_cons] at hnodup
      rw [List.lookup_cons]
      by_cases hkey : key = key'
      · obtain rfl := hkey
        rw [beq_self_eq_true, List.mem_cons]
        constructor
        · intro h
          obtain rfl := Option.some.inj h
          exact .inl rfl
        · rintro (h | h)
          · exact congrArg some (congrArg Prod.snd h).symm
          · exact absurd (List.mem_map.mpr ⟨_, h, rfl⟩) hnodup.1
      · rw [beq_eq_false_iff_ne.mpr hkey, List.mem_cons]
        refine (ih hnodup.2).trans ⟨.inr, fun h => h.resolve_left fun h => ?_⟩
        exact hkey (congrArg Prod.fst h)

/-- **A mapping is read** exactly when no key is repeated, every key is a field, and every
field has its value. -/
theorem read_eq_ok_iff {entries : List (κ × V)} {a : α} :
    fields.read errors entries = .ok a ↔
      (entries.map Prod.fst).Nodup ∧ (∀ e ∈ entries, e.1 ∈ fields.names) ∧
        fields.Holds (List.lookup · entries) a := by
  rw [read, bind_eq_ok_iff]
  constructor
  · rintro ⟨⟨⟩, hscan, hcollect⟩
    obtain ⟨hall, hnodup⟩ := scan_eq_ok_iff.mp hscan
    exact ⟨hnodup, fun e he => mem_names_of_visit (hall e he).1, collect_eq_ok_iff.mp hcollect⟩
  · rintro ⟨hnodup, hknown, hholds⟩
    refine ⟨(), scan_eq_ok_iff.mpr ⟨fun e he => ⟨?_, List.not_mem_nil⟩, hnodup⟩,
      collect_eq_ok_iff.mpr hholds⟩
    exact hholds.visit (hknown e he) ((lookup_eq_some_iff hnodup).mpr he)

omit [DecidableEq κ] in
theorem Holds.congr {entry entry' : κ → Option V} {a : α} (h : fields.Holds entry a)
    (heq : ∀ name ∈ fields.names, entry' name = entry name) : fields.Holds entry' a := by
  induction fields with
  | done => trivial
  | field name read absent rest ih =>
      refine ⟨?_, ih h.2 fun n hn => heq n (List.mem_cons_of_mem name hn)⟩
      rw [heq name List.mem_cons_self]
      exact h.1

/-- **The order of the entries is of no consequence.** -/
theorem read_perm {entries entries' : List (κ × V)} (hperm : entries.Perm entries') {a : α}
    (h : fields.read errors entries = .ok a) : fields.read errors entries' = .ok a := by
  obtain ⟨hnodup, hknown, hholds⟩ := read_eq_ok_iff.mp h
  have hnodup' : (entries'.map Prod.fst).Nodup := (hperm.map Prod.fst).nodup_iff.mp hnodup
  refine read_eq_ok_iff.mpr ⟨hnodup', fun e he => hknown e (hperm.mem_iff.mpr he),
    hholds.congr fun name _ => Option.ext fun v => ?_⟩
  rw [lookup_eq_some_iff hnodup', lookup_eq_some_iff hnodup]
  exact hperm.mem_iff.symm

/-! ## Entries that change -/

/-- The readers of all fields are stable. -/
inductive StableFields (R : V → V → Prop) : {α : Type} → Fields κ V ε α → Prop where
  | done : StableFields R .done
  | field {α β : Type} {name : κ} {read : V → Except ε α} {absent : Option α}
      {rest : Fields κ V ε β} (hread : Stable R read) (hrest : StableFields R rest) :
      StableFields R (.field name read absent rest)

omit [DecidableEq κ] in
/-- Values of an entry that read alike. -/
theorem HasValue.stable {R : V → V → Prop} {read : V → Except ε α} (hread : Stable R read)
    {absent : Option α} {o o' : Option V} (ho : Option.Rel R o o') {a : α}
    (h : HasValue read absent o a) : HasValue read absent o' a := by
  cases ho with
  | none => exact h
  | @some v v' hR =>
      refine ⟨fun w hw => ?_, fun hnone => (by cases hnone)⟩
      obtain rfl := Option.some.inj hw
      exact hread v v' a hR (h.1 v rfl)

omit [DecidableEq κ] in
theorem Holds.stable {R : V → V → Prop} (hfields : fields.StableFields R)
    {entry entry' : κ → Option V} (hentry : ∀ name, Option.Rel R (entry name) (entry' name))
    {a : α} (h : fields.Holds entry a) : fields.Holds entry' a := by
  induction hfields with
  | done => trivial
  | field hread _ ih => exact ⟨h.1.stable hread (hentry _), ih h.2⟩

/-- The value of one entry changed. -/
theorem lookup_rel {R : V → V → Prop} {v v' : V} (h : R v v') (key : κ)
    (pre post : List (κ × V)) (name : κ) :
    Option.Rel (OrSame R) (List.lookup name (pre ++ (key, v) :: post))
      (List.lookup name (pre ++ (key, v') :: post)) := by
  have hrefl : ∀ o : Option V, Option.Rel (OrSame R) o o := by
    rintro (_ | w)
    · exact .none
    · exact .some (.inl rfl)
  rw [List.lookup_append, List.lookup_append, List.lookup_cons, List.lookup_cons]
  cases List.lookup name pre with
  | some w => exact hrefl _
  | none =>
      rw [Option.none_or, Option.none_or]
      cases name == key with
      | true => exact .some (.inr h)
      | false => exact hrefl _

/-- **A record is read alike** when the value of one entry changes along `R`. -/
theorem read_stable {R : V → V → Prop} (hfields : fields.StableFields (OrSame R)) {v v' : V}
    (hR : R v v') {key : κ} {pre post : List (κ × V)} {a : α}
    (h : fields.read errors (pre ++ (key, v) :: post) = .ok a) :
    fields.read errors (pre ++ (key, v') :: post) = .ok a := by
  obtain ⟨hnodup, hknown, hholds⟩ := read_eq_ok_iff.mp h
  have hkeys : (pre ++ (key, v') :: post).map Prod.fst =
      (pre ++ (key, v) :: post).map Prod.fst := by
    simp
  refine read_eq_ok_iff.mpr ⟨hkeys ▸ hnodup, fun e he => ?_,
    hholds.stable hfields (lookup_rel hR key pre post)⟩
  have hmem : e.1 ∈ (pre ++ (key, v) :: post).map Prod.fst := hkeys ▸ List.mem_map_of_mem he
  obtain ⟨e', he', hkey⟩ := List.mem_map.mp hmem
  exact hkey ▸ hknown e' he'

omit [DecidableEq κ] in
/-- A record in a sequence, value by value. -/
theorem readSeq_stable {R : V → V → Prop} (hfields : fields.StableFields R) {short : ℕ → ε}
    {excess excess' : ε} {index : ℕ} {vs vs' : List V} (hR : List.Forall₂ R vs vs') {a : α}
    (h : fields.readSeq short excess index vs = .ok a) :
    fields.readSeq short excess' index vs' = .ok a := by
  induction hfields generalizing index vs vs' with
  | done =>
      cases hR with
      | nil => exact h
      | cons => cases h
  | field hread _ ih =>
      obtain ⟨b, hb, hrest⟩ := bind_eq_ok_iff.mp h
      obtain ⟨c, hc, rfl⟩ := map_eq_ok_iff.mp hrest
      have hhead : Option.Rel R vs.head? vs'.head? := by
        cases hR with
        | nil => exact .none
        | cons hv _ => exact .some hv
      have htail : List.Forall₂ R vs.tail vs'.tail := by
        cases hR with
        | nil => exact .nil
        | cons _ hvs => exact hvs
      refine bind_eq_ok_iff.mpr ⟨b, ?_, map_eq_ok_iff.mpr ⟨c, ih htail hc, rfl⟩⟩
      exact value_eq_ok_iff.mpr ((value_eq_ok_iff.mp hb).stable hread hhead)

/-! ## The records that can be read -/

/-- The values of the fields are known: the records of such values are those with `P`. -/
inductive Reads : {α : Type} → Fields κ V ε α → (α → Prop) → Prop where
  | done : Reads .done fun _ => True
  | field {α β : Type} {name : κ} {read : V → Except ε α} {absent : Option α}
      {rest : Fields κ V ε β} {P : α → Prop} {Q : β → Prop} (himage : Image read P)
      (habsent : ∀ a, absent = some a → P a) (hrest : Reads rest Q) :
      Reads (.field name read absent rest) fun a => P a.1 ∧ Q a.2

omit [DecidableEq κ] in
/-- A field without a default. -/
theorem Reads.required {name : κ} {read : V → Except ε α} {rest : Fields κ V ε β} {P : α → Prop}
    {Q : β → Prop} (himage : Image read P) (hrest : rest.Reads Q) :
    (Fields.field name read none rest).Reads fun a => P a.1 ∧ Q a.2 :=
  .field himage (fun a ha => (by cases ha)) hrest

omit [DecidableEq κ] in
/-- A field with a default, which is one of its values. -/
theorem Reads.optional {name : κ} {read : V → Except ε α} {absent : α} {rest : Fields κ V ε β}
    {P : α → Prop} {Q : β → Prop} (himage : Image read P) (habsent : P absent)
    (hrest : rest.Reads Q) :
    (Fields.field name read (some absent) rest).Reads fun a => P a.1 ∧ Q a.2 :=
  .field himage (fun _ ha => Option.some.inj ha ▸ habsent) hrest

omit [DecidableEq κ] in
theorem Reads.holds {P : α → Prop} (h : Reads fields P) {entry : κ → Option V} {a : α}
    (hholds : fields.Holds entry a) : P a := by
  induction h with
  | done => trivial
  | field himage habsent _ ih =>
      refine ⟨?_, ih hholds.2⟩
      obtain ⟨hsome, hnone⟩ := hholds.1
      rcases Option.eq_none_or_eq_some (entry _) with hentry | ⟨v, hentry⟩
      · exact habsent _ (hnone hentry)
      · exact himage.holds (hsome v hentry)

/-- A record of such values has a mapping with an entry for each field. -/
theorem Reads.exists_entries {P : α → Prop} (h : Reads fields P) (hnodup : fields.names.Nodup)
    {a : α} (ha : P a) :
    ∃ entries : List (κ × V), entries.map Prod.fst = fields.names ∧
      fields.Holds (List.lookup · entries) a := by
  induction h with
  | done => exact ⟨[], rfl, trivial⟩
  | @field α β name read absent rest P Q himage habsent hrest ih =>
      obtain ⟨hname, hnodup⟩ := List.nodup_cons.mp hnodup
      obtain ⟨entries, hkeys, hholds⟩ := ih hnodup ha.2
      obtain ⟨v, hv⟩ := (himage a.1).mpr ha.1
      refine ⟨(name, v) :: entries, congrArg (name :: ·) hkeys, ?_, hholds.congr fun n hn => ?_⟩
      · show HasValue read absent (List.lookup name ((name, v) :: entries)) a.1
        rw [List.lookup_cons_self]
        refine ⟨fun v' hv' => ?_, fun hnone => (by cases hnone)⟩
        obtain rfl := Option.some.inj hv'
        exact hv
      · have hne : n ≠ name := fun heq => hname (heq ▸ hn)
        rw [List.lookup_cons, beq_eq_false_iff_ne.mpr hne]

/-- **A record of fields whose values are known** has exactly the records of such values. -/
theorem Reads.image {P : α → Prop} (h : Reads fields P) (hnodup : fields.names.Nodup) :
    Image (fields.read errors) P := by
  intro a
  constructor
  · rintro ⟨entries, hread⟩
    exact h.holds (read_eq_ok_iff.mp hread).2.2
  · intro ha
    obtain ⟨entries, hkeys, hholds⟩ := h.exists_entries hnodup ha
    refine ⟨entries, read_eq_ok_iff.mpr ⟨hkeys ▸ hnodup, fun e he => ?_, hholds⟩⟩
    exact hkeys ▸ List.mem_map_of_mem he

omit [DecidableEq κ] in
/-- A record that is read from a sequence is no other. -/
theorem Reads.of_readSeq {P : α → Prop} (h : Reads fields P) {short : ℕ → ε} {excess : ε}
    {index : ℕ} {vs : List V} {a : α}
    (hread : fields.readSeq short excess index vs = .ok a) : P a := by
  induction h generalizing vs index with
  | done => trivial
  | field himage habsent _ ih =>
      obtain ⟨b, hb, hrest⟩ := bind_eq_ok_iff.mp hread
      obtain ⟨c, hc, rfl⟩ := map_eq_ok_iff.mp hrest
      refine ⟨?_, ih hc⟩
      obtain ⟨hsome, hnone⟩ := value_eq_ok_iff.mp hb
      rcases Option.eq_none_or_eq_some vs.head? with hhead | ⟨v, hhead⟩
      · exact habsent b (hnone hhead)
      · exact himage.holds (hsome v hhead)

end Fields

end Decode
