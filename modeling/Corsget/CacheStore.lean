import Corsget.Io
import Mathlib.Data.List.Sort

/-!
# The cache store

The operations of `cache.rs` on the cache directory, as programs over `Io` in
the order of their steps: looking an entry up, refreshing it, writing a body
and committing it, evicting, and the cleanup at startup.

Each `await` on a file and each `std::fs` call is one operation, so a crash
between two of them and an interleaving with another task's operations are both
expressible.
-/

namespace Corsget

open Text Effect

section Store

variable [Crates]

/-! ## Metadata -/

/-- `Cache::write_metadata`.  Serialising an entry cannot fail. -/
def writeMetadata (entry : CacheEntry) : Prog Io (Except IoError Unit) := do
  let tempId ← Io.fetchAdd
  let temp := tempMetaPath entry.key tempId
  match ← Io.write temp (.json entry.persisted) with
  | .error e => return .error e
  | .ok () => Io.rename temp (metaPath entry.key)

/-- `Cache::lookup`, at time `now` in seconds. -/
def lookup (plan : CachePlan) (now : ℕ) : Prog Io (Option CacheEntry) := do
  match ← Io.read (metaPath plan.key) with
  | .error _ => return none
  | .ok data =>
      match data.fromSlice with
      | none =>
          let _ ← Io.removeFile (metaPath plan.key)
          return none
      | some entry =>
          let bodyLen ← Io.metadata (bodyPath plan.key)
          if entry.version ≠ cacheVersion ∨ bodyLen.toOption ≠ some entry.bodyLen then
            let _ ← Io.removeFile (metaPath plan.key)
            return none
          else
            let entry := { entry with
              key := plan.key
              bodyPath := bodyPath plan.key
              lastAccess := now }
            let _ ← writeMetadata entry
            return some entry

/-- The fields `refresh` gives an entry, at time `created` in seconds; `now` is
the later reading of the clock for the `Expires` header. -/
def CacheEntry.refreshed (entry : CacheEntry) (responseHeaders : HeaderMap)
    (configuredTtl created now : ℕ) : CacheEntry :=
  { entry with
    createdAt := created
    lastAccess := created
    ttl := effectiveTtl configuredTtl responseHeaders now
    etag := ((responseHeaders.get .etag).bind HeaderValue.toStr).or entry.etag
    lastModified :=
      ((responseHeaders.get .lastModified).bind HeaderValue.toStr).or entry.lastModified }

/-- `Cache::refresh`: the entry as changed in place, and the outcome of writing
it.  The clock is read again for the `Expires` header, also when there is
none. -/
def refresh (entry : CacheEntry) (responseHeaders : HeaderMap) (configuredTtl : ℕ) :
    Prog Io (CacheEntry × Except IoError Unit) := do
  let created ← Io.nowSeconds
  let now ← Io.systemTime
  let entry := entry.refreshed responseHeaders configuredTtl created now
  let written ← writeMetadata entry
  return (entry, written)

/-! ## Eviction -/

/-- The scan of `Cache::evict`: last access, key and size of each entry found,
and their total. -/
def evictScan : List (Except IoError Str) → List (ℕ × Str × ℕ) → ℕ →
    Prog Io (List (ℕ × Str × ℕ) × ℕ)
  | [], entries, total => return (entries, total)
  -- `while let Ok(Some(item))` ends at the first item that is an error.
  | .error _ :: _, entries, total => return (entries, total)
  | .ok name :: rest, entries, total =>
      if extension name ≠ some "json".toList then evictScan rest entries total
      else do
        match ← Io.metadata name with
        | .error _ => evictScan rest entries total
        | .ok metaLen =>
            match ← Io.read name with
            | .error _ => evictScan rest entries total
            | .ok data =>
                match data.fromSlice with
                | none => evictScan rest entries total
                | some entry =>
                    let key := fileStem name
                    let bodyLen := (← Io.metadata (bodyPath key)).toOption.getD 0
                    evictScan rest
                      (entries ++ [(entry.lastAccess, key, saturatingAdd metaLen bodyLen)])
                      (saturatingAdd (saturatingAdd total metaLen) bodyLen)

/-- The removals of `Cache::evict`: entries in order until the total fits. -/
def evictLoop (maxSize : ℕ) : List (ℕ × Str × ℕ) → ℕ → Prog Io Unit
  | [], _ => return ()
  | (_, key, size) :: rest, total =>
      if total ≤ maxSize then return ()
      else do
        let _ ← Io.removeFile (metaPath key)
        let _ ← Io.removeFile (bodyPath key)
        evictLoop maxSize rest (total - size)

/-- `sort_by_key` on the last access; the sort is stable. -/
def sortByLastAccess (entries : List (ℕ × Str × ℕ)) : List (ℕ × Str × ℕ) :=
  entries.insertionSort fun a b => a.1 ≤ b.1

/-- `Cache::evict`. -/
def evict (cache : Cache) : Prog Io Unit := do
  match ← Io.readDir with
  | .error _ => return ()
  | .ok items =>
      let (entries, total) ← evictScan items [] 0
      if total ≤ cache.maxSize then return ()
      else evictLoop cache.maxSize (sortByLastAccess entries) total

/-! ## Writing -/

/-- `CacheWriter`: the entry to commit and the temporary file of its body. -/
structure CacheWriter where
  entry : CacheEntry
  tempBody : Str
  bodyLen : ℕ
deriving DecidableEq

/-- The `request_variants` of `begin_write`. -/
def requestVariants (vary : List Str) (requestHeaders : HeaderMap) : List (Str × Str) :=
  vary.filterMap fun name =>
    (((HeaderName.fromBytes name).bind requestHeaders.get).bind HeaderValue.toStr).map
      fun value => (name, value)

/-- The entry `begin_write` records, before its `ttl == 0` test: `created` and
`accessed` are its two readings of the clock in seconds, `now` the one of
`effective_ttl`. -/
def CacheEntry.record (plan : CachePlan) (status : ℕ) (headers requestHeaders : HeaderMap)
    (vary : List Str) (created accessed now : ℕ) : CacheEntry where
  version := cacheVersion
  status := status
  headers := cacheHeaders headers
  bodyLen := 0
  createdAt := created
  lastAccess := accessed
  ttl := effectiveTtl plan.ttl headers now
  revalidate := cacheControlRequiresRevalidation headers
  etag := (headers.get .etag).bind HeaderValue.toStr
  lastModified := (headers.get .lastModified).bind HeaderValue.toStr
  vary := vary
  requestVariants := Corsget.requestVariants vary requestHeaders
  key := plan.key
  bodyPath := Corsget.bodyPath plan.key

/-- `Cache::begin_write`. -/
def beginWrite (plan : CachePlan) (status : ℕ) (headers requestHeaders : HeaderMap) :
    Prog Io (Option CacheWriter) :=
  if ¬(200 ≤ status ∧ status < 300) ∨ cacheableHeaders headers = false then return none
  else
    match parseVary headers with
    | none => return none
    | some vary =>
        if requestHeaders.containsKey .authorization then return none
        else do
          let created ← Io.nowSeconds
          let accessed ← Io.nowSeconds
          let now ← Io.systemTime
          let entry :=
            CacheEntry.record plan status headers requestHeaders vary created accessed now
          if entry.ttl = 0 then return none
          else
            let tempId ← Io.fetchAdd
            let tempBody := tempBodyPath plan.key tempId
            match ← Io.create tempBody with
            | .error _ => return none
            | .ok () => return some { entry := entry, tempBody := tempBody, bodyLen := 0 }

/-- `Cache::commit`. -/
def commit (cache : Cache) (entry : CacheEntry) (tempBody : Str) :
    Prog Io (Except IoError Unit) := do
  match ← Io.rename tempBody (bodyPath entry.key) with
  | .error e => return .error e
  | .ok () =>
      match ← writeMetadata { entry with bodyPath := bodyPath entry.key } with
      | .error e => return .error e
      | .ok () =>
          evict cache
          return .ok ()

namespace CacheWriter

/-- `CacheWriter::write`: the writer after it, and the outcome. -/
def write (w : CacheWriter) (bytes : Bytes) : Prog Io (CacheWriter × Except IoError Unit) := do
  match ← Io.writeAll w.tempBody bytes with
  | .error e => return (w, .error e)
  | .ok () => return ({ w with bodyLen := saturatingAdd w.bodyLen bytes.length }, .ok ())

/-- `CacheWriter::finish`. -/
def finish (cache : Cache) (w : CacheWriter) : Prog Io (Except IoError Unit) := do
  match ← Io.flush w.tempBody with
  | .error e => return .error e
  | .ok () => commit cache { w.entry with bodyLen := w.bodyLen } w.tempBody

/-- `CacheWriter::discard`. -/
def discard (w : CacheWriter) : Prog Io Unit := do
  let _ ← Io.removeFile w.tempBody
  return ()

end CacheWriter

/-! ## Startup -/

/-- `CacheCleanupSummary`. -/
structure CacheCleanupSummary where
  staleEntries : ℕ := 0
  invalidEntries : ℕ := 0
  orphanedFiles : ℕ := 0
  temporaryFiles : ℕ := 0
  lruEvictions : ℕ := 0
  bytesRemoved : ℕ := 0
  errors : ℕ := 0
deriving DecidableEq

/-- `is_cache_temp_file`. -/
def isCacheTempFile (name : Str) : Bool := decide (".tmp-".toList <:+: name)

/-- `remove_cache_file`, with the bytes it removed added to the summary as every
caller does. -/
def removeCacheFile (path : Str) (summary : CacheCleanupSummary) :
    Prog Io CacheCleanupSummary := do
  match ← Io.metadata path with
  | .error _ => return summary
  | .ok len =>
      match ← Io.removeFile path with
      -- A `u64` wraps in a release build.
      | .ok () => return { summary with bytesRemoved := (summary.bytesRemoved + len) % 2 ^ 64 }
      | .error _ => return { summary with errors := summary.errors + 1 }

/-- What the first scan of `cleanup_startup` has collected. -/
structure CleanupScan where
  summary : CacheCleanupSummary
  validKeys : List Str
  entries : List (ℕ × Str × ℕ)
  total : ℕ

/-- The first scan of `cleanup_startup`: temporary files, undecodable, incomplete
and stale entries go; the others are collected. -/
def cleanupScan (now : ℕ) : List (Except IoError Str) → CleanupScan → Prog Io CleanupScan
  | [], s => return s
  | .error _ :: rest, s =>
      cleanupScan now rest { s with summary.errors := s.summary.errors + 1 }
  | .ok name :: rest, s =>
      if isCacheTempFile name then do
        let summary ← removeCacheFile name s.summary
        cleanupScan now rest
          { s with summary := { summary with temporaryFiles := summary.temporaryFiles + 1 } }
      else if extension name ≠ some "json".toList then cleanupScan now rest s
      else do
        let key := fileStem name
        let metadataSize := (← Io.metadata name).toOption.getD 0
        match (← Io.read name).toOption.bind FileData.fromSlice with
        | none =>
            let summary ← removeCacheFile name
              { s.summary with invalidEntries := s.summary.invalidEntries + 1 }
            cleanupScan now rest { s with summary := summary }
        | some entry =>
            let bodySize ← Io.metadata (bodyPath key)
            if bodySize.toOption ≠ some entry.bodyLen then
              let summary ← removeCacheFile name
                { s.summary with invalidEntries := s.summary.invalidEntries + 1 }
              let summary ← removeCacheFile (bodyPath key) summary
              cleanupScan now rest { s with summary := summary }
            else if entry.version ≠ cacheVersion ∨ entry.revalidate = true ∨
                entry.ttl ≤ now - entry.createdAt then
              let summary ← removeCacheFile name
                { s.summary with staleEntries := s.summary.staleEntries + 1 }
              let summary ← removeCacheFile (bodyPath key) summary
              cleanupScan now rest { s with summary := summary }
            else
              let size := saturatingAdd metadataSize entry.bodyLen
              cleanupScan now rest
                { s with
                  validKeys := s.validKeys ++ [key]
                  entries := s.entries ++ [(entry.lastAccess, key, size)]
                  total := saturatingAdd s.total size }

/-- The second scan of `cleanup_startup`: bodies without a valid entry go. -/
def cleanupOrphans (validKeys : List Str) : List (Except IoError Str) →
    CacheCleanupSummary → Prog Io CacheCleanupSummary
  | [], summary => return summary
  -- `directory.flatten()` skips the items that are errors.
  | .error _ :: rest, summary => cleanupOrphans validKeys rest summary
  | .ok name :: rest, summary =>
      if extension name ≠ some "body".toList then cleanupOrphans validKeys rest summary
      else if validKeys.contains (fileStem name) then cleanupOrphans validKeys rest summary
      else do
        let summary ← removeCacheFile name
          { summary with orphanedFiles := summary.orphanedFiles + 1 }
        cleanupOrphans validKeys rest summary

/-- The last loop of `cleanup_startup`: least recently used entries go until the
total fits. -/
def cleanupEvict (maxSize : ℕ) : List (ℕ × Str × ℕ) → ℕ → CacheCleanupSummary →
    Prog Io CacheCleanupSummary
  | [], _, summary => return summary
  | (_, key, size) :: rest, total, summary =>
      if total ≤ maxSize then return summary
      else do
        let summary ← removeCacheFile (metaPath key)
          { summary with lruEvictions := summary.lruEvictions + 1 }
        let summary ← removeCacheFile (bodyPath key) summary
        cleanupEvict maxSize rest (total - size) summary

/-- `Cache::cleanup_startup`. -/
def cleanupStartup (cache : Cache) : Prog Io CacheCleanupSummary := do
  let now ← Io.nowSeconds
  match ← Io.readDir with
  | .error _ => return { errors := 1 }
  | .ok items =>
      let s ← cleanupScan now items
        { summary := {}, validKeys := [], entries := [], total := 0 }
      let summary ← match ← Io.readDir with
        | .ok items => cleanupOrphans s.validKeys items s.summary
        | .error _ => pure { s.summary with errors := s.summary.errors + 1 }
      cleanupEvict cache.maxSize (sortByLastAccess s.entries) s.total summary

/-! ## Reading a body -/

/-- The pieces of at most 64 KiB in which a file is read; `fuel` bounds their
number. -/
def fileChunks : ℕ → Bytes → List Bytes
  | 0, _ => []
  | _ + 1, [] => []
  | fuel + 1, bytes => bytes.take (64 * 1024) :: fileChunks fuel (bytes.drop (64 * 1024))

/-- The items of a file that is read: its pieces, and the error of a read that failed. -/
def FileRead.items (read : FileRead) : List (Except Str Bytes) :=
  (fileChunks read.bytes.length read.bytes).map .ok ++ read.failed.toList.map .error

omit [Crates] in
@[simp] theorem FileRead.items_whole (bytes : Bytes) :
    FileRead.items ⟨bytes, none⟩ = (fileChunks bytes.length bytes).map .ok :=
  List.append_nil _

/-- `file_stream`: the items of the stream. -/
def fileStream (path : Str) : Prog Io (List (Except Str Bytes)) := do
  match ← Io.openFile path with
  | .error e => return [.error e]
  | .ok read => return read.items

end Store

end Corsget
