import Corsget.Eviction
import Corsget.Library.Ledger

/-!
# The store as a map

What the cache is for: a map from keys to responses.  A commit puts a response under its key; a
lookup and a refresh update what is there; an eviction and the cleanup at startup remove the
entries of some keys.  `Performs` is this map with the changes that one session of a consumer
makes to it.

`Represents d m` says that directory `d` holds the map `m`, in pairs of files and besides
leftover temporary files.  What the programs of the store leave of such a directory
represents the map that the changes leave: a lookup finds what the map holds
(`Represents.admits_iff`), and an eviction and the cleanup remove the entries of the same keys
(`Represents.afterEviction`, `Represents.cleaned`).
-/

namespace Corsget

open Text Effect Lru Ledger

/-! ## The map -/

/-- A stored response. -/
structure Stored where
  entry : CacheEntry
  body : Bytes
  version : entry.version = cacheVersion
  length : entry.bodyLen = body.length

/-- A change of a stored response. -/
inductive Update where
  /-- A lookup has found it. -/
  | touched (now : ℕ)
  /-- A `304` has confirmed it. -/
  | refreshed (confirmed : HeaderMap) (ttl created now : ℕ)

section Store

variable [Crates]

/-- The stored response after a change. -/
def Stored.update : Update → Stored → Stored
  | .touched now, stored => { stored with
      entry := { stored.entry with lastAccess := now }
      version := stored.version
      length := stored.length }
  | .refreshed confirmed ttl created now, stored => { stored with
      entry := stored.entry.refreshed confirmed ttl created now
      version := stored.version
      length := stored.length }

/-- What is stored under each key. -/
abbrev Store := Str → Option Stored

/-- A change of the map. -/
abbrev StoreChange := Change Str Stored Update

/-- The map after a history of changes. -/
abbrev Store.after (history : List StoreChange) : Store := replay Stored.update history

namespace Store

/-- What the entry of a key takes. -/
def usage (m : Store) (key : Str) : Option (Usage Str) :=
  (m key).map fun stored =>
    (stored.entry.lastAccess, key, saturatingAdd stored.entry.toVec.length stored.body.length)

/-- A list of all keys of the map, in some order. -/
structure Lists (m : Store) (order : List Str) : Prop where
  nodup : order.Nodup
  complete : ∀ key, (m key).isSome → key ∈ order

/-- The keys whose entries go: those used least recently, until the rest is within the limit.
Entries of the same last access go in the order of the list. -/
def evicted (m : Store) (maxSize : ℕ) (order : List Str) : List Str :=
  keys (Dir.evicted maxSize (order.filterMap m.usage))

/-- The map without some keys. -/
def remove (m : Store) (gone : List Str) : Store := (Change.remove gone).apply Stored.update m

/-- The map with a response under a key. -/
def put (m : Store) (key : Str) (stored : Stored) : Store :=
  (Change.put key stored).apply Stored.update m

end Store

theorem Store.remove_apply (m : Store) (gone : List Str) (key : Str) :
    m.remove gone key = if key ∈ gone then none else m key := by
  unfold Store.remove Change.apply
  dsimp only
  by_cases hmem : key ∈ gone
  · rw [if_pos hmem, if_pos hmem]
  · rw [if_neg hmem, if_neg hmem]

/-- A stored response that the cleanup at startup does not keep. -/
def Stored.Stale (now : ℕ) (stored : Stored) : Prop :=
  stored.entry.revalidate = true ∨ stored.entry.ttl ≤ now - stored.entry.createdAt

instance (now : ℕ) (stored : Stored) : Decidable (stored.Stale now) :=
  inferInstanceAs (Decidable (_ ∨ _))

/-- The keys of stale entries. -/
def Store.stale (m : Store) (now : ℕ) (order : List Str) : List Str :=
  order.filter fun key => (m key).any fun stored => stored.Stale now

/-! ## Sessions -/

/-- How a write ends. -/
inductive Ending where
  | finish
  | discard
  | abandon

/-- One session with the store: its operations come one after the other. -/
inductive Session where
  /-- A response is written: `begin_write`, any number of chunks, and the end. -/
  | write (plan : CachePlan) (status : ℕ) (headers requestHeaders : HeaderMap)
      (chunks : List Bytes) (ending : Ending)
  /-- A lookup, at a time in seconds. -/
  | lookup (plan : CachePlan) (now : ℕ)
  /-- A lookup, and a refresh of what it finds. -/
  | revalidate (plan : CachePlan) (now : ℕ) (confirmed : HeaderMap) (ttl : ℕ)
  /-- The process starts again, with any configuration. -/
  | restart (cache : Cache)

/-- The keys of a session are keys. -/
def Session.Keyed : Session → Prop
  | write plan _ _ _ _ _ => IsKey plan.key
  | lookup plan _ => IsKey plan.key
  | revalidate plan _ _ _ => IsKey plan.key
  | restart _ => True

/-- The configuration after a session. -/
def Session.config (cache : Cache) : Session → Cache
  | restart cache' => cache'
  | _ => cache

/-- The chunks of a body are written. -/
def CacheWriter.writeAll : List Bytes → CacheWriter → Prog Io CacheWriter
  | [], w => return w
  | bytes :: rest, w => do
      let (w, _) ← w.write bytes
      CacheWriter.writeAll rest w

/-- What a session has come to. -/
inductive Session.Outcome where
  /-- `begin_write` has returned no writer. -/
  | refused
  /-- The write has been discarded or abandoned. -/
  | dropped
  /-- What `finish` returns. -/
  | finished (result : Except IoError Unit)
  /-- The entry that the consumer holds in the end. -/
  | entry (result : Option CacheEntry)
  | restarted
deriving DecidableEq

/-- A session that has come to its end. -/
abbrev Session.Done := Session × Session.Outcome

/-- What a session does. -/
def Session.prog (cache : Cache) : Session → Prog Io Session.Outcome
  | write plan status headers requestHeaders chunks ending => do
      match ← beginWrite plan status headers requestHeaders with
      | none => return .refused
      | some w =>
          let w ← w.writeAll chunks
          match ending with
          | .finish => return .finished (← w.finish cache)
          | .discard =>
              w.discard
              return .dropped
          | .abandon => return .dropped
  | lookup plan now => return .entry (← Corsget.lookup plan now)
  | revalidate plan now confirmed ttl => do
      match ← Corsget.lookup plan now with
      | none => return .entry none
      | some entry => return .entry (some (← refresh entry confirmed ttl).1)
  | restart cache' => do
      let _ ← cleanupStartup cache'
      return .restarted

/-- A commit of a session: the response that a finished write has put under its key. -/
structure Committed (plan : CachePlan) (status : ℕ) (headers requestHeaders : HeaderMap)
    (chunks : List Bytes) (stored : Stored) : Prop where
  body : stored.body = chunks.flatten
  entry : ∃ vary created accessed now, Accepts plan status headers requestHeaders vary now ∧
    stored.entry =
      { CacheEntry.record plan status headers requestHeaders vary created accessed now with
        bodyLen := chunks.flatten.length }

/-- **What a session does to the map**: what it comes to, and the changes it makes. -/
inductive Performs (cache : Cache) (m : Store) : Session → Session.Outcome → List StoreChange → Prop
  | refused {plan : CachePlan} {status : ℕ} {headers requestHeaders : HeaderMap}
      {chunks : List Bytes} {ending : Ending}
      (h : ∃ now, ∀ vary, ¬Accepts plan status headers requestHeaders vary now) :
      Performs cache m (.write plan status headers requestHeaders chunks ending) .refused []
  | dropped {plan : CachePlan} {status : ℕ} {headers requestHeaders : HeaderMap}
      {chunks : List Bytes} {ending : Ending} (h : ending ≠ .finish) :
      Performs cache m (.write plan status headers requestHeaders chunks ending) .dropped []
  | finished {plan : CachePlan} {status : ℕ} {headers requestHeaders : HeaderMap}
      {chunks : List Bytes} {stored : Stored} {order : List Str}
      (h : Committed plan status headers requestHeaders chunks stored)
      (horder : (m.put plan.key stored).Lists order) :
      Performs cache m (.write plan status headers requestHeaders chunks .finish)
        (.finished (.ok ()))
        [.put plan.key stored,
          .remove ((m.put plan.key stored).evicted cache.maxSize order)]
  | missed {plan : CachePlan} {now : ℕ} (h : m plan.key = none) :
      Performs cache m (.lookup plan now) (.entry none) []
  | found {plan : CachePlan} {now : ℕ} {stored : Stored} (h : m plan.key = some stored) :
      Performs cache m (.lookup plan now) (.entry (some (stored.entry.touched plan.key now)))
        [.update plan.key (.touched now)]
  | nothing {plan : CachePlan} {now : ℕ} {confirmed : HeaderMap} {ttl : ℕ}
      (h : m plan.key = none) :
      Performs cache m (.revalidate plan now confirmed ttl) (.entry none) []
  | confirmed {plan : CachePlan} {now : ℕ} {confirmed : HeaderMap} {ttl created later : ℕ}
      {stored : Stored} (h : m plan.key = some stored) :
      Performs cache m (.revalidate plan now confirmed ttl)
        (.entry (some ((stored.entry.touched plan.key now).refreshed confirmed ttl created later)))
        [.update plan.key (.touched now),
          .update plan.key (.refreshed confirmed ttl created later)]
  | restarted {cache' : Cache} {now : ℕ} {order : List Str} (horder : m.Lists order) :
      Performs cache m (.restart cache') .restarted
        [.remove (m.stale now order),
          .remove ((m.remove (m.stale now order)).evicted cache'.maxSize order)]

/-! ## Representation -/

/-- Directory `d` holds the map `m`: the two files of each key, and besides them only
temporary files of bodies. -/
structure Represents (d : Dir) (m : Store) : Prop where
  holds : ∀ key stored, m key = some stored → IsKey key ∧
    d.view key = ⟨some (.json stored.entry.persisted), some (.raw stored.body)⟩
  names : ∀ name data, d.lookup name = some data →
    (∃ key, (m key).isSome ∧ (name = metaPath key ∨ name = bodyPath key)) ∨
      ∃ key tempId, name = tempBodyPath key tempId

variable {d d' : Dir} {m : Store} {key : Str} {stored : Stored}

theorem Represents.record (h : Represents d m) (hstored : m key = some stored) :
    d.lookup (metaPath key) = some (.json stored.entry.persisted) :=
  congrArg View.record (h.holds key stored hstored).2

theorem Represents.body (h : Represents d m) (hstored : m key = some stored) :
    d.lookup (bodyPath key) = some (.raw stored.body) :=
  congrArg View.body (h.holds key stored hstored).2

theorem Represents.isKey (h : Represents d m) (hstored : m key = some stored) : IsKey key :=
  (h.holds key stored hstored).1

theorem Represents.empty : Represents ∅ fun _ => none := by
  constructor
  · intro key stored h
    cases h
  · intro name data h
    rw [AList.lookup_empty] at h
    cases h

/-- Where the map has nothing, there is no file of the key. -/
theorem Represents.view_of_none (h : Represents d m) (hnone : m key = none) :
    d.view key = ⟨none, none⟩ := by
  have habsent : ∀ path, path = metaPath key ∨ path = bodyPath key → d.lookup path = none := by
    intro path hpath
    cases hdata : d.lookup path with
    | none => rfl
    | some data =>
        rcases h.names path data hdata with ⟨key', hsome, hname⟩ | ⟨key', tempId, rfl⟩
        · rw [← key_unique hpath hname, hnone] at hsome
          cases hsome
        · have htemp := tempBodyPath_isTemporary key' tempId
          rcases hpath with hpath | hpath
          · exact absurd hpath (htemp.ne_metaPath key)
          · exact absurd hpath (htemp.ne_bodyPath key)
  unfold Dir.view
  rw [habsent _ (.inl rfl), habsent _ (.inr rfl)]

/-- **What a lookup finds** is what the map holds. -/
theorem Represents.admits_iff (h : Represents d m) {entry : CacheEntry} {file : FileData} :
    (d.view key).Admits entry file ↔ ∃ stored, m key = some stored ∧
      entry = stored.entry.persisted ∧ file = .raw stored.body := by
  cases hm : m key with
  | none =>
      rw [h.view_of_none hm]
      constructor
      · intro hadmits
        cases hadmits.record
      · rintro ⟨stored, hstored, -⟩
        cases hstored
  | some stored =>
      rw [(h.holds key stored hm).2]
      constructor
      · intro hadmits
        exact ⟨stored, rfl, (Option.some.inj hadmits.record).symm,
          (Option.some.inj hadmits.body).symm⟩
      · rintro ⟨stored', hstored, rfl, rfl⟩
        obtain rfl := Option.some.inj hstored
        exact ⟨rfl, stored.version, rfl, stored.length.symm⟩

/-! ### Directories that change -/

/-- **Metadata are written** over those of a key that the map holds. -/
theorem Represents.recorded (h : Represents d m) {entry : CacheEntry} (tempId : ℕ)
    {stored stored' : Stored} (hm : m entry.key = some stored)
    (hentry : stored'.entry.persisted = entry.persisted) (hbody : stored'.body = stored.body) :
    Represents (d.recorded entry tempId) (Function.update m entry.key (some stored')) := by
  obtain ⟨hkey, hview⟩ := h.holds _ stored hm
  refine ⟨fun key found hfound => ?_, fun name data hdata => ?_⟩
  · by_cases hsame : key = entry.key
    · subst hsame
      rw [Function.update_self] at hfound
      obtain rfl := Option.some.inj hfound
      refine ⟨hkey, ?_⟩
      rw [d.view_recorded, hview, hentry, hbody]
      rfl
    · rw [Function.update_of_ne hsame] at hfound
      rw [d.view_recorded_of_ne entry tempId hsame]
      exact h.holds key found hfound
  · have hsome : ∀ key, (m key).isSome →
        (Function.update m entry.key (some stored') key).isSome := by
      intro key hkey
      by_cases hsame : key = entry.key
      · rw [hsame, Function.update_self]
        rfl
      · rwa [Function.update_of_ne hsame]
    rcases d.eq_or_lookup_of_recorded entry tempId hdata with rfl | hdata
    · exact .inl ⟨entry.key, hsome _ (by rw [hm]; rfl), .inl rfl⟩
    · rcases h.names name data hdata with ⟨key, hin, hname⟩ | hstray
      · exact .inl ⟨key, hsome key hin, hname⟩
      · exact .inr hstray

/-- **Files are removed**: those of some keys, and of the others none. -/
theorem Represents.restrict (h : Represents d m) {gone : List Str}
    (hsub : ∀ path data, d'.lookup path = some data → d.lookup path = some data)
    (hkeep : ∀ key, (m key).isSome → key ∉ gone → d'.view key = d.view key)
    (hgone : ∀ key, (m key).isSome → key ∈ gone → d'.view key = ⟨none, none⟩) :
    Represents d' (m.remove gone) := by
  refine ⟨fun key stored hstored => ?_, fun name data hdata => ?_⟩
  · rw [Store.remove_apply] at hstored
    split at hstored
    · cases hstored
    · next hnot =>
      rw [hkeep key (by rw [hstored]; rfl) hnot]
      exact h.holds key stored hstored
  · rcases h.names name data (hsub name data hdata) with ⟨key, hsome, hname⟩ | hstray
    · refine .inl ⟨key, ?_, hname⟩
      by_cases hmem : key ∈ gone
      · have hview := hgone key hsome hmem
        rcases hname with rfl | rfl
        · rw [show d'.lookup (metaPath key) = none from congrArg View.record hview] at hdata
          cases hdata
        · rw [show d'.lookup (bodyPath key) = none from congrArg View.body hview] at hdata
          cases hdata
      · rw [Store.remove_apply, if_neg hmem]
        exact hsome
    · exact .inr hstray

/-- The files of some entries are removed. -/
theorem Represents.without_files (h : Represents d m) (entries : List (Usage Str)) :
    Represents (d.without (files entries)) (m.remove (keys entries)) := by
  refine h.restrict (d.without_sub _) (fun key _ hnot => ?_) fun key _ hmem => ?_
  · have hkept : ∀ path, path = metaPath key ∨ path = bodyPath key → path ∉ files entries := by
      intro path hpath hmem
      obtain ⟨key', hkey', hpath'⟩ := mem_files.mp hmem
      exact hnot (key_unique hpath hpath' ▸ hkey')
    unfold Dir.view
    rw [d.lookup_without_of_notMem (hkept _ (.inl rfl)),
      d.lookup_without_of_notMem (hkept _ (.inr rfl))]
  · unfold Dir.view
    rw [d.lookup_without, if_pos (mem_files.mpr ⟨key, hmem, .inl rfl⟩), d.lookup_without,
      if_pos (mem_files.mpr ⟨key, hmem, .inr rfl⟩)]

/-! ### Scans -/

omit [Crates] in
/-- The key of a metadata file. -/
def keyOf (name : Str) : Option Str :=
  if extension name = some "json".toList then some (fileStem name) else none

omit [Crates] in
theorem metaPath_of_keyOf {name : Str} (h : keyOf name = some key) : metaPath key = name := by
  unfold keyOf at h
  split at h
  · next hext =>
    obtain rfl := Option.some.inj h
    exact metaPath_fileStem hext
  · cases h

omit [Crates] in
theorem keyOf_metaPath (h : key ≠ []) : keyOf (metaPath key) = some key := by
  unfold keyOf
  rw [if_pos (extension_metaPath h), fileStem_metaPath h]

/-- Every metadata file is that of a key that the map holds. -/
theorem Represents.isSome_of_keyOf (h : Represents d m) {name : Str} {data : FileData}
    (hname : keyOf name = some key) (hdata : d.lookup name = some data) : (m key).isSome := by
  rcases h.names name data hdata with ⟨key', hsome, hpath⟩ | ⟨key', tempId, rfl⟩
  · have hmeta := metaPath_of_keyOf hname
    rcases hpath with rfl | rfl
    · rwa [metaPath_injective hmeta]
    · exact absurd hmeta (metaPath_ne_bodyPath _ _)
  · have htemp := tempBodyPath_isTemporary key' tempId
    exact absurd (metaPath_of_keyOf hname).symm (htemp.ne_metaPath key)

/-- What a scan lists has all keys of the map. -/
theorem Represents.lists (h : Represents d m) {names : List Str} (hnames : names.Perm d.keys) :
    m.Lists (names.filterMap keyOf) := by
  constructor
  · refine (hnames.nodup_iff.mpr (AList.keys_nodup d)).filterMap ?_
    intro name name' key hname hname'
    exact (metaPath_of_keyOf hname).symm.trans (metaPath_of_keyOf hname')
  · intro key hsome
    obtain ⟨stored, hstored⟩ := Option.isSome_iff_exists.mp hsome
    have hmem : metaPath key ∈ names :=
      hnames.symm.subset (d.mem_keys_iff_lookup.mpr ⟨_, h.record hstored⟩)
    exact List.mem_filterMap.mpr ⟨_, hmem, keyOf_metaPath (h.isKey hstored).nonempty⟩

/-- What a scan collects about a metadata file is what the map says. -/
theorem Represents.use_eq (h : Represents d m) (hstored : m key = some stored) :
    d.decoded (metaPath key) = some stored.entry.persisted ∧
      some (d.use (metaPath key) stored.entry.persisted) = m.usage key := by
  constructor
  · unfold Dir.decoded
    rw [h.record hstored]
    rfl
  · unfold Dir.use Store.usage
    rw [fileStem_metaPath (h.isKey hstored).nonempty, Dir.fileLen_of_lookup (h.record hstored),
      Dir.fileLen_of_lookup (h.body hstored), hstored, FileData.len_json,
      CacheEntry.toVec_persisted]
    rfl

theorem Represents.usage_eq (h : Represents d m) {names : List Str} (hnames : names.Perm d.keys) :
    names.filterMap d.usage = (names.filterMap keyOf).filterMap m.usage := by
  rw [List.filterMap_filterMap]
  refine List.filterMap_congr fun name hmem => ?_
  obtain ⟨data, hdata⟩ := d.mem_keys_iff_lookup.mp (hnames.subset hmem)
  unfold Dir.usage
  split
  · next hext =>
    have hname : keyOf name = some (fileStem name) := if_pos hext
    obtain ⟨stored, hstored⟩ :=
      Option.isSome_iff_exists.mp (h.isSome_of_keyOf hname hdata)
    obtain ⟨hdecoded, huse⟩ := h.use_eq hstored
    rw [metaPath_fileStem hext] at hdecoded huse
    rw [hdecoded, hname, Option.map_some, huse]
    rfl
  · next hext =>
    unfold keyOf
    rw [if_neg hext]
    rfl

/-- **An eviction** does to the directory what it does to the map. -/
theorem Represents.afterEviction (h : Represents d m) {names : List Str}
    (hnames : names.Perm d.keys) (maxSize : ℕ) :
    ∃ order, m.Lists order ∧
      Represents (d.afterEviction maxSize names) (m.remove (m.evicted maxSize order)) := by
  refine ⟨_, h.lists hnames, ?_⟩
  unfold Dir.afterEviction Store.evicted
  rw [h.usage_eq hnames]
  exact h.without_files _

omit [Crates] in
theorem Store.mem_stale {now : ℕ} {order : List Str} (horder : m.Lists order) :
    key ∈ m.stale now order ↔ ∃ stored, m key = some stored ∧ stored.Stale now := by
  unfold Store.stale
  rw [List.mem_filter, Option.any_eq_true]
  constructor
  · rintro ⟨-, stored, hstored, hstale⟩
    exact ⟨stored, hstored, of_decide_eq_true hstale⟩
  · rintro ⟨stored, hstored, hstale⟩
    exact ⟨horder.complete key (by rw [hstored]; rfl), stored, hstored, decide_eq_true hstale⟩

omit [Crates] in
theorem IsKey.not_temporary (h : IsKey key) : isCacheTempFile key = false := by
  refine decide_eq_false fun hinner => h.undotted (hinner.subset ?_)
  decide

/-! ### The cleanup -/

/-- The cleanup keeps an entry that is not stale. -/
theorem Represents.fresh_iff (h : Represents d m) (now : ℕ) (hstored : m key = some stored) :
    d.Fresh now (metaPath key) stored.entry.persisted ↔ ¬stored.Stale now := by
  have hlen : (d.lookup (bodyPath (fileStem (metaPath key)))).map FileData.len =
      some stored.entry.persisted.bodyLen := by
    rw [fileStem_metaPath (h.isKey hstored).nonempty, h.body hstored]
    exact congrArg some stored.length.symm
  have hversion : stored.entry.persisted.version = cacheVersion := stored.version
  constructor
  · rintro ⟨-, hfresh⟩ hstale
    exact hfresh (.inr hstale)
  · intro hfresh
    refine ⟨hlen, ?_⟩
    rintro (hne | hstale)
    · exact hne hversion
    · exact hfresh hstale

/-- What the first scan does at the metadata of a key. -/
theorem Represents.scan_metaPath (h : Represents d m) (now : ℕ) (hstored : m key = some stored) :
    d.swept now (metaPath key) =
        (if stored.Stale now then [metaPath key, bodyPath key] else []) ∧
      d.kept now (metaPath key) = if stored.Stale now then none else m.usage key := by
  have hkey := h.isKey hstored
  have htemp : ¬isCacheTempFile (metaPath key) = true := by
    rw [isCacheTempFile_metaPath, hkey.not_temporary]
    exact Bool.false_ne_true
  have hext : ¬extension (metaPath key) ≠ some "json".toList :=
    not_not_intro (extension_metaPath hkey.nonempty)
  obtain ⟨hdecoded, huse⟩ := h.use_eq hstored
  have hfresh := h.fresh_iff now hstored
  unfold Dir.swept Dir.kept
  rw [if_neg htemp, if_neg hext, if_neg htemp, if_neg hext, hdecoded]
  dsimp only
  rw [fileStem_metaPath hkey.nonempty]
  by_cases hstale : stored.Stale now
  · have hnot : ¬d.Fresh now (metaPath key) stored.entry.persisted :=
      fun hf => hfresh.mp hf hstale
    rw [if_neg hnot, if_neg hnot, if_pos hstale, if_pos hstale]
    exact ⟨rfl, rfl⟩
  · have hf := hfresh.mpr hstale
    rw [if_pos hf, if_pos hf, if_neg hstale, if_neg hstale]
    exact ⟨rfl, huse⟩

section Cleanup

variable {now : ℕ} {names : List Str}

/-- What the first scan keeps are the entries that are not stale. -/
theorem Represents.kept_eq (h : Represents d m) (hnames : names.Perm d.keys) :
    names.filterMap (d.kept now) = (names.filterMap keyOf).filterMap
      (m.remove (m.stale now (names.filterMap keyOf))).usage := by
  have horder := h.lists hnames
  rw [List.filterMap_filterMap]
  refine List.filterMap_congr fun name hmem => ?_
  obtain ⟨data, hdata⟩ := d.mem_keys_iff_lookup.mp (hnames.subset hmem)
  cases hname : keyOf name with
  | none =>
      have hext : extension name ≠ some "json".toList := by
        intro hext
        unfold keyOf at hname
        rw [if_pos hext] at hname
        cases hname
      unfold Dir.kept
      rw [if_pos hext, ite_self]
      rfl
  | some key =>
      obtain ⟨stored, hstored⟩ := Option.isSome_iff_exists.mp (h.isSome_of_keyOf hname hdata)
      rw [← metaPath_of_keyOf hname, (h.scan_metaPath now hstored).2]
      show _ = (m.remove _).usage key
      unfold Store.usage
      rw [Store.remove_apply]
      by_cases hstale : stored.Stale now
      · rw [if_pos hstale, if_pos ((Store.mem_stale horder).mpr ⟨stored, hstored, hstale⟩)]
        rfl
      · have hnot : key ∉ m.stale now (names.filterMap keyOf) := by
          intro hmem
          obtain ⟨stored', hstored', hstale'⟩ := (Store.mem_stale horder).mp hmem
          obtain rfl := Option.some.inj (hstored.symm.trans hstored')
          exact hstale hstale'
        rw [if_neg hstale, if_neg hnot]

/-- The files of an entry that is not stale are not swept. -/
theorem Represents.notMem_swept (h : Represents d m) (hstored : m key = some stored)
    (hfresh : ¬stored.Stale now) {path name : Str}
    (hpath : path = metaPath key ∨ path = bodyPath key) : path ∉ d.swept now name := by
  intro hmem
  have hkey := h.isKey hstored
  have hswept : d.swept now (metaPath key) = [] :=
    (h.scan_metaPath now hstored).1.trans (if_neg hfresh)
  have hname : name ≠ metaPath key := by
    rintro rfl
    rw [hswept] at hmem
    cases hmem
  rcases Dir.mem_swept hmem with ⟨rfl, htemp | hext⟩ | ⟨hbody, hext⟩
  · have hnot := hkey.not_temporary
    rcases hpath with rfl | rfl
    · rw [isCacheTempFile_metaPath, hnot] at htemp
      cases htemp
    · rw [isCacheTempFile_bodyPath, hnot] at htemp
      cases htemp
  · rcases hpath with rfl | rfl
    · exact hname rfl
    · rw [extension_bodyPath hkey.nonempty] at hext
      exact absurd hext (by decide)
  · rcases hpath with rfl | rfl
    · exact metaPath_ne_bodyPath _ _ hbody
    · rw [bodyPath_injective hbody] at hname
      exact hname (metaPath_fileStem hext).symm

/-- Neither are they orphans. -/
theorem Represents.not_isOrphan (h : Represents d m) (hstored : m key = some stored)
    (hfresh : ¬stored.Stale now) (hnames : names.Perm d.keys) {path : Str}
    (hpath : path = metaPath key ∨ path = bodyPath key) :
    ¬IsOrphan (keys (names.filterMap (d.kept now))) path := by
  rintro ⟨hext, hstem⟩
  have hkey := h.isKey hstored
  rcases hpath with rfl | rfl
  · rw [extension_metaPath hkey.nonempty] at hext
    exact absurd hext (by decide)
  · rw [fileStem_bodyPath hkey.nonempty] at hstem
    have hmem : metaPath key ∈ names :=
      hnames.symm.subset (d.mem_keys_iff_lookup.mpr ⟨_, h.record hstored⟩)
    have hkept : d.kept now (metaPath key) = m.usage key :=
      (h.scan_metaPath now hstored).2.trans (if_neg hfresh)
    have husage : m.usage key = some (stored.entry.lastAccess, key,
        saturatingAdd stored.entry.toVec.length stored.body.length) := by
      unfold Store.usage
      rw [hstored]
      rfl
    refine hstem (List.mem_map.mpr ⟨_, List.mem_filterMap.mpr ⟨_, hmem, hkept.trans husage⟩, ?_⟩)
    rfl

/-- The files of a stale entry are. -/
theorem Represents.mem_swept (h : Represents d m) (hstored : m key = some stored)
    (hstale : stored.Stale now) (hnames : names.Perm d.keys) {path : Str}
    (hpath : path = metaPath key ∨ path = bodyPath key) :
    path ∈ names.flatMap (d.swept now) := by
  have hmem : metaPath key ∈ names :=
    hnames.symm.subset (d.mem_keys_iff_lookup.mpr ⟨_, h.record hstored⟩)
  have hswept : d.swept now (metaPath key) = [metaPath key, bodyPath key] :=
    (h.scan_metaPath now hstored).1.trans (if_pos hstale)
  refine List.mem_flatMap.mpr ⟨_, hmem, ?_⟩
  rw [hswept]
  exact List.mem_pair.mpr hpath

/-- **The two scans** of the cleanup remove the stale entries. -/
theorem Represents.scanned (h : Represents d m) (hnames : names.Perm d.keys) (names' : List Str) :
    Represents ((d.without (names.flatMap (d.swept now))).without
        (names'.filter fun name => IsOrphan (keys (names.filterMap (d.kept now))) name))
      (m.remove (m.stale now (names.filterMap keyOf))) := by
  have horder := h.lists hnames
  generalize horphans : (names'.filter fun name =>
    IsOrphan (keys (names.filterMap (d.kept now))) name) = orphans
  refine h.restrict
    (fun path data hdata => d.without_sub _ path data (Dir.without_sub _ orphans path data hdata))
    (fun key hsome hnot => ?_) fun key hsome hgone => ?_
  · obtain ⟨stored, hstored⟩ := Option.isSome_iff_exists.mp hsome
    have hfresh : ¬stored.Stale now := fun hstale =>
      hnot ((Store.mem_stale horder).mpr ⟨stored, hstored, hstale⟩)
    have hstays : ∀ path, path = metaPath key ∨ path = bodyPath key →
        ((d.without (names.flatMap (d.swept now))).without orphans).lookup path =
          d.lookup path := by
      intro path hpath
      rw [Dir.lookup_without_of_notMem, Dir.lookup_without_of_notMem]
      · intro hmem
        obtain ⟨name, -, hswept⟩ := List.mem_flatMap.mp hmem
        exact h.notMem_swept hstored hfresh hpath hswept
      · intro hmem
        rw [← horphans] at hmem
        exact h.not_isOrphan hstored hfresh hnames hpath
          (of_decide_eq_true (List.mem_filter.mp hmem).2)
    unfold Dir.view
    rw [hstays _ (.inl rfl), hstays _ (.inr rfl)]
  · obtain ⟨stored, hstored, hstale⟩ := (Store.mem_stale horder).mp hgone
    have hgoes : ∀ path, path = metaPath key ∨ path = bodyPath key →
        ((d.without (names.flatMap (d.swept now))).without orphans).lookup path = none := by
      intro path hpath
      rw [Dir.lookup_without, Dir.lookup_without,
        if_pos (h.mem_swept hstored hstale hnames hpath), ite_self]
    unfold Dir.view
    rw [hgoes _ (.inl rfl), hgoes _ (.inr rfl)]

/-- **The cleanup** removes the stale entries and evicts. -/
theorem Represents.cleaned {maxSize : ℕ} (h : Represents d m)
    (hclean : Cleaned maxSize now d d') :
    ∃ order, m.Lists order ∧ Represents d'
      ((m.remove (m.stale now order)).remove
        ((m.remove (m.stale now order)).evicted maxSize order)) := by
  obtain ⟨names, names', hnames, -, rfl⟩ := hclean
  have hscanned := @Represents.scanned _ _ _ now _ h hnames names'
  refine ⟨_, h.lists hnames, ?_⟩
  unfold Store.evicted
  rw [h.kept_eq hnames] at hscanned ⊢
  exact hscanned.without_files _

end Cleanup

end Store

end Corsget
