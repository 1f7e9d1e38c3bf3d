import Corsget.CachePolicy
import Mathlib.Data.List.AList

/-!
# The cache directory

File names, file contents and the single-file operations the cache performs on
its directory.

A file holds bytes, and is kept with the entry that they decode to, if any:
`FileData.decodable` for a text from which the JSON library reads an entry, and
`FileData.raw` for every other content.  Such a text may be any, with other
white space or without a field that has a default.  `FileData.json` is the one
that the program writes itself: `toVec` prints it, and it decodes to its entry.

`Dir.perform` is one operation on a directory.  It is total: an operation that
needs a missing file answers an error and changes nothing, and a `Fault` makes
any operation answer an error, with a part of the data already written where
the operation writes, and a part of the file already read where it streams one.
-/

namespace Corsget

open Text

/-! ## Names -/

/-- `Cache::body_path`, relative to the cache directory. -/
def bodyPath (key : Str) : Str := key ++ ".body".toList

/-- `Cache::meta_path`, relative to the cache directory. -/
def metaPath (key : Str) : Str := key ++ ".json".toList

section Temporary

variable [Crates]

/-- The temporary body file of `begin_write`. -/
def tempBodyPath (key : Str) (tempId : ℕ) : Str :=
  '.' :: key ++ ".body.tmp-".toList ++ decimal Crates.processId ++ '-' :: decimal tempId

/-- The temporary metadata file of `write_metadata`. -/
def tempMetaPath (key : Str) (tempId : ℕ) : Str :=
  '.' :: key ++ ".meta.tmp-".toList ++ decimal Crates.processId ++ '-' :: decimal tempId

end Temporary

/-- A name that ends with a hyphen and a number, as every temporary file's
does. -/
def IsTemporary (path : Str) (tempId : ℕ) : Prop := ∃ front, path = front ++ '-' :: decimal tempId

theorem tempBodyPath_isTemporary [Crates] (key : Str) (tempId : ℕ) :
    IsTemporary (tempBodyPath key tempId) tempId := ⟨_, rfl⟩

theorem tempMetaPath_isTemporary [Crates] (key : Str) (tempId : ℕ) :
    IsTemporary (tempMetaPath key tempId) tempId := ⟨_, rfl⟩

theorem metaPath_injective : Function.Injective metaPath :=
  fun _ _ h => List.append_cancel_right h

theorem getLast?_metaPath (key : Str) : (metaPath key).getLast? = some 'n' := by
  unfold metaPath
  rw [List.getLast?_append]
  rfl

theorem getLast?_bodyPath (key : Str) : (bodyPath key).getLast? = some 'y' := by
  unfold bodyPath
  rw [List.getLast?_append]
  rfl

theorem metaPath_ne_bodyPath (key key' : Str) : metaPath key ≠ bodyPath key' := by
  intro h
  have hlast := congrArg List.getLast? h
  rw [getLast?_metaPath, getLast?_bodyPath] at hlast
  exact absurd hlast (by decide)

namespace IsTemporary

variable {path path' : Str} {m n : ℕ}

/-- The number of a temporary file can be read off its name. -/
theorem tempId_inj (hm : IsTemporary path m) (hn : IsTemporary path n) : m = n := by
  obtain ⟨front, rfl⟩ := hm
  obtain ⟨front', h⟩ := hn
  have hhyphen : ∀ n, '-' ∉ decimal n := by
    intro n hmem
    exact absurd (isDigit_of_mem_decimal hmem) (by decide)
  exact decimal_injective (snoc_segment_inj (hhyphen m) (hhyphen n) h).2

theorem ne_of_ne (hm : IsTemporary path m) (hn : IsTemporary path' n) (hne : m ≠ n) :
    path ≠ path' := by
  rintro rfl
  exact hne (hm.tempId_inj hn)

/-- The name of a temporary file ends with a digit. -/
theorem getLast?_isDigit (h : IsTemporary path n) :
    ∃ c, path.getLast? = some c ∧ c.isDigit = true := by
  obtain ⟨front, rfl⟩ := h
  have hne : decimal n ≠ [] := Nat.toDigits_ne_nil
  refine ⟨(decimal n).getLast hne, ?_, isDigit_of_mem_decimal (List.getLast_mem hne)⟩
  rw [List.getLast?_append, List.getLast?_cons, List.getLast?_eq_some_getLast hne]
  rfl

theorem ne_metaPath (h : IsTemporary path n) (key : Str) : path ≠ metaPath key := by
  rintro rfl
  obtain ⟨c, hlast, hdigit⟩ := h.getLast?_isDigit
  rw [getLast?_metaPath, Option.some.injEq] at hlast
  rw [← hlast] at hdigit
  exact absurd hdigit (by decide)

theorem ne_bodyPath (h : IsTemporary path n) (key : Str) : path ≠ bodyPath key := by
  rintro rfl
  obtain ⟨c, hlast, hdigit⟩ := h.getLast?_isDigit
  rw [getLast?_bodyPath, Option.some.injEq] at hlast
  rw [← hlast] at hdigit
  exact absurd hdigit (by decide)

end IsTemporary

/-- The part before and the part after the last dot of a file name; a leading
dot alone separates nothing. -/
def splitAtDot (name : Str) : Str × Option Str :=
  match splitOnce '.' name.reverse with
  | none => (name, none)
  | some (_, []) => (name, none)
  | some (after, before) => (before.reverse, some after.reverse)

/-- `Path::file_stem`. -/
def fileStem (name : Str) : Str := (splitAtDot name).1

/-- `Path::extension`. -/
def extension (name : Str) : Option Str := (splitAtDot name).2

theorem splitAtDot_append {front ext : Str} (hfront : front ≠ []) (hext : '.' ∉ ext) :
    splitAtDot (front ++ '.' :: ext) = (front, some ext) := by
  have hreverse : (front ++ '.' :: ext).reverse = ext.reverse ++ '.' :: front.reverse := by simp
  unfold splitAtDot
  rw [hreverse, splitOnce_append fun h => hext (List.mem_reverse.mp h)]
  cases hrev : front.reverse with
  | nil => exact absurd (List.reverse_eq_nil_iff.mp hrev) hfront
  | cons x xs =>
      show ((x :: xs).reverse, some ext.reverse.reverse) = _
      rw [← hrev, List.reverse_reverse, List.reverse_reverse]

/-- A name with an extension is its stem, a dot and the extension. -/
theorem eq_of_extension {name ext : Str} (h : extension name = some ext) :
    fileStem name ≠ [] ∧ fileStem name ++ '.' :: ext = name := by
  unfold extension fileStem splitAtDot at *
  split at h
  · cases h
  · cases h
  · next after before hbefore hsplit =>
    obtain rfl := Option.some.inj h
    have hname := congrArg List.reverse (eq_append_of_splitOnce hsplit)
    rw [List.reverse_reverse] at hname
    refine ⟨fun hnil => hbefore (List.reverse_eq_nil_iff.mp hnil), ?_⟩
    simp [hname]

/-- What every key that `cache_key` makes is: hexadecimal digits. -/
structure IsKey (key : Str) : Prop where
  nonempty : key ≠ []
  undotted : '.' ∉ key

section Names

variable {key name : Str}

@[simp] theorem extension_metaPath (h : key ≠ []) :
    extension (metaPath key) = some "json".toList :=
  congrArg Prod.snd (splitAtDot_append h (by decide))

@[simp] theorem fileStem_metaPath (h : key ≠ []) : fileStem (metaPath key) = key :=
  congrArg Prod.fst (splitAtDot_append h (by decide))

@[simp] theorem extension_bodyPath (h : key ≠ []) :
    extension (bodyPath key) = some "body".toList :=
  congrArg Prod.snd (splitAtDot_append h (by decide))

@[simp] theorem fileStem_bodyPath (h : key ≠ []) : fileStem (bodyPath key) = key :=
  congrArg Prod.fst (splitAtDot_append h (by decide))

theorem metaPath_fileStem (h : extension name = some "json".toList) :
    metaPath (fileStem name) = name :=
  (eq_of_extension h).2

theorem bodyPath_injective : Function.Injective bodyPath :=
  fun _ _ h => List.append_cancel_right h

/-- No file belongs to two keys. -/
theorem key_unique {key key' path : Str} (h : path = metaPath key ∨ path = bodyPath key)
    (h' : path = metaPath key' ∨ path = bodyPath key') : key = key' := by
  rcases h with rfl | rfl <;> rcases h' with h' | h'
  · exact metaPath_injective h'
  · exact absurd h' (metaPath_ne_bodyPath _ _)
  · exact absurd h'.symm (metaPath_ne_bodyPath _ _)
  · exact bodyPath_injective h'

end Names

/-! ## Contents -/

/-- The JSON escape of one character. -/
def jsonChar (c : Char) : Str :=
  if c = '"' then "\\\"".toList
  else if c = '\\' then "\\\\".toList
  else if c = '\n' then "\\n".toList
  else if c = '\r' then "\\r".toList
  else if c = '\t' then "\\t".toList
  else if c.toNat = 8 then "\\b".toList
  else if c.toNat = 12 then "\\f".toList
  else if c.toNat < 32 then
    "\\u00".toList ++ [Nat.digitChar (c.toNat / 16), Nat.digitChar (c.toNat % 16)]
  else [c]

/-- A JSON string. -/
def jsonString (s : Str) : Str := '"' :: s.flatMap jsonChar ++ ['"']

/-- A JSON array of the given texts. -/
def jsonArray (items : List Str) : Str := '[' :: [','].intercalate items ++ [']']

/-- A JSON string or `null`. -/
def jsonOption : Option Str → Str
  | none => "null".toList
  | some s => jsonString s

/-- A JSON array of pairs of strings. -/
def jsonPairs (pairs : List (Str × Str)) : Str :=
  jsonArray (pairs.map fun (a, b) => jsonArray [jsonString a, jsonString b])

namespace CacheEntry

/-- `serde_json::to_vec` of an entry: its serialised fields in order. -/
def toVec (e : CacheEntry) : Bytes :=
  utf8 ("\x7b\"version\":".toList ++ decimal e.version ++
    ",\"status\":".toList ++ decimal e.status ++
    ",\"headers\":".toList ++ jsonPairs e.headers ++
    ",\"body_len\":".toList ++ decimal e.bodyLen ++
    ",\"created_at\":".toList ++ decimal e.createdAt ++
    ",\"last_access\":".toList ++ decimal e.lastAccess ++
    ",\"ttl\":".toList ++ decimal e.ttl ++
    ",\"revalidate\":".toList ++ (if e.revalidate then "true".toList else "false".toList) ++
    ",\"etag\":".toList ++ jsonOption e.etag ++
    ",\"last_modified\":".toList ++ jsonOption e.lastModified ++
    ",\"vary\":".toList ++ jsonArray (e.vary.map jsonString) ++
    ",\"request_variants\":".toList ++ jsonPairs e.requestVariants ++ "\x7d".toList)

/-- The entry as it comes back from its JSON text: the skipped fields are
empty. -/
def persisted (e : CacheEntry) : CacheEntry := { e with key := [], bodyPath := [] }

@[simp] theorem toVec_persisted (e : CacheEntry) : e.persisted.toVec = e.toVec := rfl

end CacheEntry

/-- The content of a file. -/
inductive FileData where
  /-- A text that decodes to an entry. -/
  | decodable (text : Bytes) (entry : CacheEntry)
  /-- Bytes that do not decode to an entry. -/
  | raw (bytes : Bytes)
deriving DecidableEq

namespace FileData

/-- The JSON text of an entry, as the program writes it. -/
def json (entry : CacheEntry) : FileData := decodable entry.toVec entry

/-- The bytes of the file. -/
def bytes : FileData → Bytes
  | decodable text _ => text
  | raw bytes => bytes

/-- `Metadata::len`. -/
def len (data : FileData) : ℕ := data.bytes.length

/-- `serde_json::from_slice` of the file. -/
def fromSlice : FileData → Option CacheEntry
  | decodable _ entry => some entry.persisted
  | raw _ => none

@[simp] theorem bytes_json (entry : CacheEntry) : (json entry).bytes = entry.toVec := by
  unfold json bytes
  rfl

theorem len_json (entry : CacheEntry) : (json entry).len = entry.toVec.length :=
  congrArg List.length (bytes_json entry)

@[simp] theorem fromSlice_json (entry : CacheEntry) :
    (json entry).fromSlice = some entry.persisted := rfl

end FileData

/-- A directory: files by name, in the order a scan lists them. -/
abbrev Dir := AList fun _ : Str => FileData

/-! ## Operations -/

/-- The text of an `std::io::Error`. -/
abbrev IoError := Str

/-- The file operations of the cache. -/
inductive FsOp where
  /-- `fs::read` -/
  | read (path : Str)
  /-- `fs::metadata`, for the length -/
  | metadata (path : Str)
  /-- `fs::remove_file` -/
  | removeFile (path : Str)
  /-- `fs::rename` -/
  | rename (source target : Str)
  /-- `fs::write` -/
  | write (path : Str) (data : FileData)
  /-- `File::create` -/
  | create (path : Str)
  /-- `write_all` on the file created at `path` -/
  | writeAll (path : Str) (bytes : Bytes)
  /-- `flush` on the file created at `path` -/
  | flush (path : Str)
  /-- `File::open`, with what reading the handle gives -/
  | openFile (path : Str)
  /-- `fs::read_dir` of the cache directory -/
  | readDir
deriving DecidableEq

/-- What reading an open file to its end gives: bytes, and the error of the read that failed,
if one did. -/
structure FileRead where
  bytes : Bytes
  failed : Option IoError

/-- What a file operation answers when it succeeds. -/
@[reducible] def FsOp.Val : FsOp → Type
  | read _ => FileData
  | metadata _ => ℕ
  | openFile _ => FileRead
  | readDir => List (Except IoError Str)
  | _ => Unit

/-- What a file operation answers. -/
abbrev FsOp.Res (o : FsOp) : Type := Except IoError o.Val

/-- A failing operation: the error, and how many bytes a write had put into the
file, or the reads had taken from it, before it. -/
structure Fault where
  error : IoError
  written : ℕ

/-- The error for a file that does not exist. -/
def notFound : IoError := "No such file or directory (os error 2)".toList

namespace Dir

/-- An operation that succeeds whenever the files it needs exist. -/
def performOk : (o : FsOp) → Dir → o.Res × Dir
  | .read path, d => (match d.lookup path with
      | some data => .ok data
      | none => .error notFound, d)
  | .metadata path, d => (match d.lookup path with
      | some data => .ok data.len
      | none => .error notFound, d)
  | .removeFile path, d => match d.lookup path with
      | some _ => (.ok (), d.erase path)
      | none => (.error notFound, d)
  | .rename source target, d => match d.lookup source with
      | some data => (.ok (), (d.erase source).insert target data)
      | none => (.error notFound, d)
  | .write path data, d => (.ok (), d.insert path data)
  | .create path, d => (.ok (), d.insert path (.raw []))
  -- The handle stays valid when the name is gone; the bytes then reach no name.
  | .writeAll path bytes, d => (.ok (), match d.lookup path with
      | some data => d.insert path (.raw (data.bytes ++ bytes))
      | none => d)
  | .flush _, d => (.ok (), d)
  | .openFile path, d => (match d.lookup path with
      | some data => .ok ⟨data.bytes, none⟩
      | none => .error notFound, d)
  | .readDir, d => (.ok (d.keys.map .ok), d)

/-- What a failing operation leaves: a write may have written a part. -/
def performFault (f : Fault) : FsOp → Dir → Dir
  | .write path data, d => d.insert path (.raw (data.bytes.take f.written))
  | .writeAll path bytes, d => match d.lookup path with
      | some data => d.insert path (.raw (data.bytes ++ bytes.take f.written))
      | none => d
  | _, d => d

/-- What a failing operation answers: a file that could be opened has been read
in part. -/
def answerFault (f : Fault) : (o : FsOp) → Dir → o.Res
  | .openFile path, d => match d.lookup path with
      | some data =>
          if f.written = 0 then .error f.error
          else .ok ⟨data.bytes.take f.written, some f.error⟩
      | none => .error f.error
  | _, _ => .error f.error

/-- One operation on a directory, failing when there is a fault. -/
def perform (o : FsOp) (fault : Option Fault) (d : Dir) : o.Res × Dir :=
  match fault with
  | none => d.performOk o
  | some f => (d.answerFault f o, d.performFault f o)

end Dir

/-- Removing a file leaves no new one. -/
theorem Dir.lookup_of_erase {d : Dir} {path name : Str} {data : FileData}
    (h : (d.erase path).lookup name = some data) : d.lookup name = some data := by
  by_cases hname : name = path
  · subst hname
    rw [AList.lookup_erase] at h
    cases h
  · rwa [AList.lookup_erase_ne hname] at h

/-- The files that an operation writes or removes. -/
def FsOp.touched : FsOp → List Str
  | removeFile path | write path _ | create path | writeAll path _ => [path]
  | rename source target => [source, target]
  | _ => []

/-- **Frame**: no operation changes a file that it does not touch, whether it fails or not. -/
theorem Dir.lookup_perform {o : FsOp} {path : Str} (h : path ∉ o.touched) (fault : Option Fault)
    (d : Dir) : (d.perform o fault).2.lookup path = d.lookup path := by
  unfold Dir.perform
  cases o with
  | removeFile p =>
      have hne : path ≠ p := List.ne_of_not_mem_cons h
      cases fault with
      | some f => rfl
      | none =>
          unfold performOk
          dsimp only
          split
          · exact AList.lookup_erase_ne hne
          · rfl
  | rename source target =>
      have hsource : path ≠ source := List.ne_of_not_mem_cons h
      have htarget : path ≠ target := List.ne_of_not_mem_cons (List.not_mem_of_not_mem_cons h)
      cases fault with
      | some f => rfl
      | none =>
          unfold performOk
          dsimp only
          split
          · exact (AList.lookup_insert_ne htarget).trans (AList.lookup_erase_ne hsource)
          · rfl
  | write p data =>
      have hne : path ≠ p := List.ne_of_not_mem_cons h
      cases fault with
      | some f => exact AList.lookup_insert_ne hne
      | none => exact AList.lookup_insert_ne hne
  | create p =>
      have hne : path ≠ p := List.ne_of_not_mem_cons h
      cases fault with
      | some f => rfl
      | none => exact AList.lookup_insert_ne hne
  | writeAll p bytes =>
      have hne : path ≠ p := List.ne_of_not_mem_cons h
      cases fault with
      | some f =>
          unfold performFault
          dsimp only
          split
          · exact AList.lookup_insert_ne hne
          · rfl
      | none =>
          unfold performOk
          dsimp only
          split
          · exact AList.lookup_insert_ne hne
          · rfl
  | _ => cases fault <;> rfl

end Corsget
