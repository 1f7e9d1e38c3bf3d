import Corsget.Reference
import Corsget.StoreMap

/-!
# The store does what the map does

`session_simulates` is the simulation of one session: whatever the directory does in it,
the map can do, and the directory represents the map again.  `Histories` runs sessions on
the map and collects the changes.

`store_refines_map` is about any number of sessions.  A lookup after them returns an entry exactly
when the latest finished commit of its key has not been removed, and the entry shows that
commit and the last refresh after it.
-/

namespace Corsget

open Text Effect Ledger

section Store

variable [Crates] {d d' : Dir} {m : Store} {key : Str} {stored : Stored}

/-! ## One session -/

/-- Every file has a length that fits in 64 bits. -/
def LengthsFit (d : Dir) : Prop := ∀ path ∈ d.keys, d.fileLen path < 2 ^ 64

instance : DecidablePred LengthsFit := fun d =>
  inferInstanceAs (Decidable (∀ path ∈ d.keys, d.fileLen path < 2 ^ 64))

omit [Crates] in
theorem LengthsFit.len_lt (h : LengthsFit d) {path : Str} {data : FileData}
    (hdata : d.lookup path = some data) : data.len < 2 ^ 64 := by
  have hlen := h path (d.mem_keys_iff_lookup.mpr ⟨data, hdata⟩)
  rwa [Dir.fileLen_of_lookup hdata] at hlen

variable {s : Disk}

omit [Crates] in
/-- **A body is written**: its temporary file has the chunks one after the other, and the
writer has counted their bytes. -/
theorem writeAll_ends (chunks : List Bytes) {w : CacheWriter} {written : Bytes}
    (hfits : LengthsFit s.dir) (hfile : s.dir.lookup w.tempBody = some (.raw written))
    (hlen : w.bodyLen = written.length) :
    Ends LengthsFit
      (fun w' s' => w' = { w with bodyLen := (written ++ chunks.flatten).length } ∧
        s'.dir.lookup w.tempBody = some (.raw (written ++ chunks.flatten)) ∧
        ∀ path, path ≠ w.tempBody → s'.dir.lookup path = s.dir.lookup path)
      (w.writeAll chunks) s := by
  induction chunks generalizing w written s with
  | nil =>
      rw [List.flatten_nil, List.append_nil, ← hlen]
      exact .ret ⟨rfl, hfile, fun _ _ => rfl⟩
  | cons bytes rest ih =>
      refine .bind ((write_ends w bytes).and (.fits hfits)) ?_
      rintro _ s' ⟨⟨rfl, rfl⟩, hfits'⟩
      have hdir : (s.dir.performOk (.writeAll w.tempBody bytes)).2 =
          s.dir.insert w.tempBody (.raw (written ++ bytes)) := by
        unfold Dir.performOk
        dsimp only
        rw [hfile]
        rfl
      rw [hdir] at hfits' ⊢
      have hwritten : (s.dir.insert w.tempBody (.raw (written ++ bytes))).lookup w.tempBody =
          some (.raw (written ++ bytes)) := AList.lookup_insert _
      -- The length of the file fits in 64 bits, so the sum is exact.
      have hcount : saturatingAdd w.bodyLen bytes.length = (written ++ bytes).length := by
        have hfit : (written ++ bytes).length < 2 ^ 64 := hfits'.len_lt hwritten
        rw [List.length_append] at hfit ⊢
        rw [hlen]
        unfold saturatingAdd
        omega
      have hrest := @ih _ { w with bodyLen := saturatingAdd w.bodyLen bytes.length } _
        hfits' hwritten hcount
      refine hrest.mono ?_
      rintro w' s' ⟨rfl, hfile', hothers⟩
      rw [List.append_assoc, ← List.flatten_cons] at hfile' ⊢
      refine ⟨rfl, hfile', fun path hne => ?_⟩
      rw [hothers path hne]
      exact AList.lookup_insert_ne hne

/-- A temporary file of a body is written or removed. -/
theorem Represents.of_temporary (h : Represents d m) {tempBody : Str} {tempId : ℕ}
    (hname : tempBody = tempBodyPath key tempId)
    (hothers : ∀ path, path ≠ tempBody → d'.lookup path = d.lookup path) :
    Represents d' m := by
  have htemp : IsTemporary tempBody tempId := hname ▸ tempBodyPath_isTemporary _ _
  refine ⟨fun key stored hstored => ?_, fun name data hdata => ?_⟩
  · unfold Dir.view
    rw [hothers _ (htemp.ne_metaPath key).symm, hothers _ (htemp.ne_bodyPath key).symm]
    exact h.holds key stored hstored
  · by_cases hsame : name = tempBody
    · exact .inr ⟨key, tempId, hsame.trans hname⟩
    · rw [hothers name hsame] at hdata
      exact h.names name data hdata

/-- **A commit** puts a response under its key. -/
theorem Represents.committed (h : Represents d m) {w : CacheWriter} {n : ℕ} (tempId : ℕ)
    (hkey : IsKey w.entry.key) (hname : w.tempBody = tempBodyPath w.entry.key n)
    (hentry : stored.entry = w.final) :
    Represents (d.committed w (.raw stored.body) tempId) (m.put w.entry.key stored) := by
  have htemp : IsTemporary w.tempBody n := hname ▸ tempBodyPath_isTemporary _ _
  have hput : m.put w.entry.key stored w.entry.key = some stored := Function.update_self _ _ _
  have hother : ∀ key, key ≠ w.entry.key → m.put w.entry.key stored key = m key :=
    fun key hne => Function.update_of_ne hne _ _
  refine ⟨fun key found hfound => ?_, fun name data hdata => ?_⟩
  · by_cases hsame : key = w.entry.key
    · subst hsame
      obtain rfl := Option.some.inj (hput.symm.trans hfound)
      refine ⟨hkey, ?_⟩
      rw [Dir.view_committed, hentry]
    · rw [hother key hsame] at hfound
      rw [Dir.view_committed_of_ne htemp hsame]
      exact h.holds key found hfound
  · have hin : (m.put w.entry.key stored w.entry.key).isSome := by rw [hput]; rfl
    rcases Dir.eq_or_lookup_of_recorded _ _ _ hdata with rfl | hdata
    · exact .inl ⟨_, hin, .inl rfl⟩
    by_cases hbody : name = bodyPath w.entry.key
    · exact .inl ⟨_, hin, .inr hbody⟩
    rw [AList.lookup_insert_ne hbody] at hdata
    rcases h.names name data (Dir.lookup_of_erase hdata) with
      ⟨key, hsome, hpath⟩ | hstray
    · refine .inl ⟨key, ?_, hpath⟩
      by_cases hsame : key = w.entry.key
      · rw [hsame]
        exact hin
      · rw [hother key hsame]
        exact hsome
    · exact .inr hstray

/-- **A writer finishes**: its response is put under its key, and then comes an eviction. -/
theorem Represents.finished (h : Represents s.dir m) {w : CacheWriter} {n maxSize : ℕ}
    {body : Bytes} {result : Except IoError Unit} {s' : Disk}
    (hfinished : Finished LengthsFit maxSize w s result s') (hkey : IsKey w.entry.key)
    (hname : w.tempBody = tempBodyPath w.entry.key n) (hversion : w.entry.version = cacheVersion)
    (hfile : s.dir.lookup w.tempBody = some (.raw body)) (hlen : w.bodyLen = body.length) :
    result = .ok () ∧ ∃ order, (m.put w.entry.key ⟨w.final, body, hversion, hlen⟩).Lists order ∧
      Represents s'.dir ((m.put w.entry.key ⟨w.final, body, hversion, hlen⟩).remove
        ((m.put w.entry.key ⟨w.final, body, hversion, hlen⟩).evicted maxSize order)) := by
  cases hfinished with
  | gone hgone =>
      rw [hfile] at hgone
      cases hgone
  | @done data tempId names hdata _ hnames =>
      obtain rfl := Option.some.inj (hfile.symm.trans hdata)
      have hcommitted : Represents (s.dir.committed w (.raw body) tempId)
          (m.put w.entry.key ⟨w.final, body, hversion, hlen⟩) :=
        @Represents.committed _ _ _ ⟨w.final, body, hversion, hlen⟩ h w n tempId hkey hname rfl
      exact ⟨rfl, hcommitted.afterEviction hnames maxSize⟩

/-- **A lookup** finds what the map has, and touches it. -/
theorem Represents.consulted (h : Represents s.dir m) {plan : CachePlan} {now : ℕ}
    {result : Option CacheEntry} {s' : Disk} (hlook : Consulted plan now s result s') :
    (m plan.key = none ∧ result = none ∧ Represents s'.dir m) ∨
      ∃ stored, m plan.key = some stored ∧
        result = some (stored.entry.touched plan.key now) ∧
          Represents s'.dir ((Change.update plan.key (.touched now)).apply Stored.update m) := by
  cases hlook with
  | missed hnone =>
      have hm : m plan.key = none := by
        cases hm : m plan.key with
        | none => rfl
        | some stored => exact absurd (h.admits_iff.mpr ⟨stored, hm, rfl, rfl⟩) (hnone _ _)
      have hview : s.dir.lookup (metaPath plan.key) = none :=
        congrArg View.record (h.view_of_none hm)
      refine .inl ⟨hm, rfl, ?_⟩
      rw [s.dir.erase_of_lookup_eq_none hview]
      exact h
  | found tempId hadmits =>
      obtain ⟨stored, hm, rfl, rfl⟩ := h.admits_iff.mp hadmits
      refine .inr ⟨stored, hm, rfl, ?_⟩
      unfold Change.apply
      dsimp only
      rw [hm]
      exact h.recorded tempId hm rfl rfl

/-- **A refresh** of an entry as the map has it. -/
theorem Represents.refreshed (h : Represents s.dir m) {entry : CacheEntry}
    {confirmed : HeaderMap} {ttl tempId created now : ℕ} (hm : m entry.key = some stored)
    (hentry : stored.entry.persisted = entry.persisted) :
    Represents (s.dir.recorded (entry.refreshed confirmed ttl created now) tempId)
      ((Change.update entry.key (.refreshed confirmed ttl created now)).apply
        Stored.update m) := by
  have hpersisted : (stored.update (.refreshed confirmed ttl created now)).entry.persisted =
      (entry.refreshed confirmed ttl created now).persisted :=
    congrArg (fun e : CacheEntry => e.refreshed confirmed ttl created now) hentry
  unfold Change.apply
  dsimp only
  rw [hm]
  exact h.recorded tempId hm hpersisted rfl

/-- **The simulation**: a session does to the directory what it does to the map. -/
theorem session_simulates {cache : Cache} {x : Session} (hkeyed : x.Keyed)
    (h : Represents s.dir m) (hfits : LengthsFit s.dir) :
    Ends LengthsFit
      (fun outcome s' => ∃ changes, Performs cache m x outcome changes ∧
        Represents s'.dir (changes.foldl (Change.apply Stored.update) m))
      (x.prog cache) s := by
  cases x with
  | write plan status headers requestHeaders chunks ending =>
      refine .bind ((beginWrite_ends plan status headers requestHeaders).and (.fits hfits)) ?_
      rintro _ s₁ ⟨⟨rfl, hdir, hrefused⟩ |
        ⟨vary, created, accessed, now, tempId, haccepts, rfl, hdir⟩, hfits₁⟩
      · refine .ret ⟨[], .refused hrefused, ?_⟩
        rw [hdir]
        exact h
      generalize hw : newWriter plan status headers requestHeaders vary created accessed now
        tempId = w
      have hname : w.tempBody = tempBodyPath plan.key tempId := hw ▸ rfl
      have hfile : s₁.dir.lookup w.tempBody = some (.raw []) := by
        rw [hdir, hname]
        exact AList.lookup_insert _
      have hlen : w.bodyLen = 0 := hw ▸ rfl
      refine .bind ((writeAll_ends chunks hfits₁ hfile hlen).and (.fits hfits₁)) ?_
      rintro w' s₂ ⟨⟨rfl, hfile₂, hothers⟩, hfits₂⟩
      rw [List.nil_append] at hfile₂ ⊢
      -- Only the temporary file has changed so far.
      have h₂ : Represents s₂.dir m := by
        refine h.of_temporary hname fun path hne => ?_
        rw [hothers path hne, hdir]
        exact AList.lookup_insert_ne (hname ▸ hne)
      cases ending with
      | finish =>
          refine .bind (finish_ends cache _) ?_
          intro result s₃ hfinished
          subst hw
          obtain ⟨rfl, order, horder, hevicted⟩ := h₂.finished hfinished hkeyed hname rfl hfile₂ rfl
          exact .ret ⟨_, .finished ⟨rfl, vary, _, _, now, haccepts, rfl⟩ horder, hevicted⟩
      | discard =>
          refine .bind (discard_ends _) ?_
          rintro _ s₃ rfl
          refine .ret ⟨[], .dropped nofun, h₂.of_temporary hname fun path hne => ?_⟩
          exact AList.lookup_erase_ne hne
      | abandon => exact .ret ⟨[], .dropped nofun, h₂⟩
  | lookup plan now =>
      refine .bind (lookup_ends plan now) ?_
      intro result s' hlook
      rcases h.consulted hlook with ⟨hm, rfl, hrep⟩ | ⟨stored, hm, rfl, hrep⟩
      · exact .ret ⟨[], .missed hm, hrep⟩
      · exact .ret ⟨_, .found hm, hrep⟩
  | revalidate plan now confirmed ttl =>
      refine .bind (lookup_ends plan now) ?_
      intro result s' hlook
      rcases h.consulted hlook with ⟨hm, rfl, hrep⟩ | ⟨stored, hm, rfl, hrep⟩
      · exact .ret ⟨[], .nothing hm, hrep⟩
      · refine .bind (refresh_ends _ confirmed ttl) ?_
        rintro _ s'' ⟨rfl, tempId, rfl⟩
        refine .ret ⟨_, .confirmed hm, ?_⟩
        have htouched := @apply_update_self _ _ _ _ Stored.update _ _ _ (.touched now) hm
        exact hrep.refreshed htouched rfl
  | restart cache' =>
      refine .bind (cleanupStartup_ends cache') ?_
      rintro _ s' ⟨-, hcleaned⟩
      obtain ⟨order, horder, hrep⟩ := h.cleaned hcleaned
      exact .ret ⟨_, .restarted horder, hrep⟩

/-! ## Any number of sessions -/

/-- Sessions one after the other on a directory that is empty at first, with what each of
them has come to. -/
inductive Sessions : List Session.Done → Cache → Disk → Prop
  | start (cache : Cache) (clock : ℕ → ℕ) : Sessions [] cache ⟨∅, clock⟩
  | next {xs : List Session.Done} {cache : Cache} {s s' : Disk} {x : Session}
      {outcome : Session.Outcome} (before : Sessions xs cache s) (keyed : x.Keyed)
      (run : Steps (diskEnv LengthsFit) (x.prog cache, s) (.ret outcome, s')) :
      Sessions (xs ++ [(x, outcome)]) (x.config cache) s'

/-- The same sessions on the map, with the history of its changes. -/
inductive Histories : List Session.Done → Cache → List StoreChange → Prop
  | start (cache : Cache) : Histories [] cache []
  | next {xs : List Session.Done} {cache : Cache} {history changes : List StoreChange}
      {x : Session} {outcome : Session.Outcome} (before : Histories xs cache history)
      (performs : Performs cache (Store.after history) x outcome changes) :
      Histories (xs ++ [(x, outcome)]) (x.config cache) (history ++ changes)

/-- A session that has finished a commit of a key. -/
def Commits (key : Str) : Session.Done → Prop
  | (.write plan _ _ _ _ .finish, .finished (.ok ())) => plan.key = key
  | _ => False

/-- The response of the latest finished commit of a key. -/
def LastCommit (xs : List Session.Done) (key : Str) (stored : Stored) : Prop :=
  ∃ plan status headers requestHeaders chunks before later,
    xs = before ++ (.write plan status headers requestHeaders chunks .finish,
      .finished (.ok ())) :: later ∧ plan.key = key ∧
        Committed plan status headers requestHeaders chunks stored ∧ ∀ y ∈ later, ¬Commits key y

/-- What a lookup cannot change: the date, the lifetime and the validators of an entry. -/
def CacheEntry.validity (entry : CacheEntry) : ℕ × ℕ × Option Str × Option Str :=
  (entry.createdAt, entry.ttl, entry.etag, entry.lastModified)

/-- No refresh of the key is in a history. -/
def Unrefreshed (key : Str) (history : List StoreChange) : Prop :=
  ∀ confirmed ttl created now,
    Change.update key (.refreshed confirmed ttl created now) ∉ history

/-- An entry that a lookup returns shows a commit, with the changes after it. -/
structure Shows (d : Dir) (plan : CachePlan) (now : ℕ) (stored : Stored)
    (after : List StoreChange) (entry : CacheEntry) : Prop where
  current : entry = (updateAll Stored.update plan.key after stored).entry.touched plan.key now
  status : entry.status = stored.entry.status
  headers : entry.headers = stored.entry.headers
  vary : entry.vary = stored.entry.vary
  bodyLen : entry.bodyLen = stored.body.length
  body : d.lookup entry.bodyPath = some (.raw stored.body)
  /-- Without a refresh, the date and all that goes with it are those of the commit. -/
  committed : Unrefreshed plan.key after → entry.validity = stored.entry.validity
  /-- Otherwise they are those of the last refresh. -/
  refreshed : ∀ {before rest : List StoreChange} {confirmed : HeaderMap} {ttl created later : ℕ},
    after = before ++ .update plan.key (.refreshed confirmed ttl created later) :: rest →
      Unrefreshed plan.key rest → entry.validity =
        ((updateAll Stored.update plan.key before stored).entry.refreshed confirmed ttl created
          later).validity

/-- **What a lookup answers** after a history: there is an entry exactly when the latest
commit of the key has not been removed, and it is the one of that commit. -/
structure Answers (history : List StoreChange) (d : Dir) (plan : CachePlan) (now : ℕ)
    (result : Option CacheEntry) : Prop where
  found_iff : result.isSome ↔ ∃ stored after,
    Latest plan.key stored history after ∧ Survives plan.key after
  shows : ∀ {entry : CacheEntry} {stored : Stored} {after : List StoreChange},
    result = some entry → Latest plan.key stored history after → Survives plan.key after →
      Shows d plan now stored after entry

/-- **Refinement**, for a whole run of sessions. -/
theorem Sessions.represents {xs : List Session.Done} {cache : Cache}
    (h : Sessions xs cache s) : LengthsFit s.dir ∧ ∃ history, Histories xs cache history ∧
      Represents s.dir (Store.after history) := by
  induction h with
  | start cache clock =>
      have hfits : LengthsFit (∅ : Dir) := by
        intro path hmem
        cases hmem
      exact ⟨hfits, [], .start cache, .empty⟩
  | next before keyed run ih =>
      obtain ⟨hfits, history, hhistory, hrep⟩ := ih
      obtain ⟨changes, hperforms, hrep'⟩ :=
        ((session_simulates keyed hrep hfits).value run).2
      refine ⟨((Ends.fits hfits).value run).2, _, hhistory.next hperforms, ?_⟩
      unfold Store.after
      rw [replay_append]
      exact hrep'

/-- The puts of a session are its commits. -/
theorem Performs.put_iff {cache : Cache} {x : Session} {outcome : Session.Outcome}
    {changes : List StoreChange} (h : Performs cache m x outcome changes) :
    (∃ stored, .put key stored ∈ changes) ↔ Commits key (x, outcome) := by
  cases h with
  | @finished plan _ _ _ _ stored _ _ _ =>
      constructor
      · rintro ⟨stored', hmem⟩
        rcases List.mem_pair.mp hmem with hput | hput
        · exact (Change.put.inj hput).1.symm
        · cases hput
      · rintro rfl
        exact ⟨stored, List.mem_cons_self⟩
  | _ =>
      constructor
      · rintro ⟨stored', hmem⟩
        simp at hmem
      · intro hcommits
        simp [Commits] at hcommits

/-- **The latest put** of a history is that of the latest finished commit. -/
theorem Histories.lastCommit {xs : List Session.Done} {cache : Cache}
    {history after : List StoreChange} (h : Histories xs cache history)
    (hlatest : Latest key stored history after) : LastCommit xs key stored := by
  induction h generalizing after with
  | start cache =>
      obtain ⟨before, hsplit⟩ := hlatest.split
      exact absurd hsplit (List.append_ne_nil_of_right_ne_nil _ (List.cons_ne_nil _ _)).symm
  | @next xs cache history changes x outcome before performs ih =>
      rcases hlatest.of_append with hput | ⟨hnone, after', hlatest'⟩
      · cases performs with
        | @finished plan status headers requestHeaders chunks stored' order hcommitted horder =>
            rcases List.mem_pair.mp hput with hput | hput
            · obtain ⟨rfl, rfl⟩ := Change.put.inj hput
              exact ⟨plan, status, headers, requestHeaders, chunks, xs, [], rfl, rfl, hcommitted,
                fun _ hmem => nomatch hmem⟩
            · cases hput
        | _ => simp at hput
      · obtain ⟨plan, status, headers, requestHeaders, chunks, earlier, later, rfl, hkey,
          hcommitted, hlater⟩ := ih hlatest'
        refine ⟨plan, status, headers, requestHeaders, chunks, earlier, later ++ [(x, outcome)],
          ?_, hkey, hcommitted, ?_⟩
        · rw [List.append_assoc, List.cons_append]
        · rw [List.forall_mem_append, List.forall_mem_singleton]
          refine ⟨hlater, fun hcommits => ?_⟩
          obtain ⟨stored', hmem⟩ := performs.put_iff.mpr hcommits
          exact hnone stored' hmem

/-- The date and all that goes with it, when no refresh is in a history. -/
theorem validity_updateAll {history : List StoreChange} (h : Unrefreshed key history)
    (stored : Stored) :
    (updateAll Stored.update key history stored).entry.validity = stored.entry.validity := by
  refine updateAll_eq (fun stored : Stored => stored.entry.validity) (fun u hmem v => ?_) stored
  cases u with
  | touched now => rfl
  | refreshed confirmed ttl created now => exact absurd hmem (h _ _ _ _)

/-- **A lookup in a directory that holds the map** answers what the history says. -/
theorem Represents.answers {history : List StoreChange} {plan : CachePlan} {now : ℕ}
    {result : Option CacheEntry} {s' : Disk} (h : Represents s.dir (Store.after history))
    (hlook : Consulted plan now s result s') : Answers history s'.dir plan now result := by
  have hiff : (Store.after history plan.key).isSome ↔ ∃ stored after,
      Latest plan.key stored history after ∧ Survives plan.key after := replay_isSome_iff
  rcases h.consulted hlook with ⟨hm, rfl, -⟩ | ⟨stored', hm, rfl, hrep⟩
  · rw [hm] at hiff
    exact ⟨hiff, nofun⟩
  · rw [hm] at hiff
    refine ⟨hiff, fun {entry stored after} hentry hlatest hsurvives => ?_⟩
    obtain rfl := Option.some.inj hentry
    have hcurrent : stored' = updateAll Stored.update plan.key after stored :=
      Option.some.inj (hm.symm.trans (replay_eq_of_latest hlatest hsurvives))
    have hkeeps : ∀ {γ : Type} (π : Stored → γ), (∀ u v, π (Stored.update u v) = π v) →
        π stored' = π stored := by
      intro γ π hπ
      rw [hcurrent]
      exact updateAll_eq π (fun u _ => hπ u) stored
    have hbody : stored'.body = stored.body := hkeeps Stored.body fun u _ => by cases u <;> rfl
    refine ⟨by rw [hcurrent], ?_, ?_, ?_, ?_, ?_, fun hnone => ?_, fun hsplit hnone => ?_⟩
    · exact hkeeps (fun stored => stored.entry.status) fun u _ => by cases u <;> rfl
    · exact hkeeps (fun stored => stored.entry.headers) fun u _ => by cases u <;> rfl
    · exact hkeeps (fun stored => stored.entry.vary) fun u _ => by cases u <;> rfl
    · rw [← hbody]
      exact stored'.length
    · rw [← hbody]
      have htouched := @apply_update_self _ _ _ _ Stored.update _ _ _ (.touched now) hm
      have hfile := hrep.body htouched
      exact hfile
    · rw [hcurrent]
      exact validity_updateAll hnone stored
    · rw [hcurrent, hsplit, updateAll_append, updateAll_update]
      exact validity_updateAll hnone _

/-- **The store is a map**: after any sessions, a lookup answers what the history of their
changes says. -/
theorem store_refines_map {xs : List Session.Done} {cache : Cache}
    (h : Sessions xs cache s) : ∃ history, Histories xs cache history ∧
      (∀ {key : Str} {stored : Stored} {after : List StoreChange},
        Latest key stored history after → LastCommit xs key stored) ∧
      ∀ {plan : CachePlan} {now : ℕ} {result : Option CacheEntry} {s' : Disk},
        Steps (diskEnv LengthsFit) (lookup plan now, s) (.ret result, s') →
          Answers history s'.dir plan now result := by
  obtain ⟨-, history, hhistory, hrep⟩ := h.represents
  refine ⟨history, hhistory, hhistory.lastCommit, fun run => hrep.answers ?_⟩
  exact ((lookup_ends _ _).value run).2

/-- A session in an environment with definite answers. -/
theorem Sessions.calm {xs : List Session.Done} {cache : Cache} {x : Session}
    {outcome : Session.Outcome} (before : Sessions xs cache s) (keyed : x.Keyed)
    (hfits : ExecMeets diskCalm (fun o s => LengthsFit (diskCalm o s).2.dir) (x.prog cache) s)
    (houtcome : (exec diskCalm (x.prog cache) s).1 = outcome) :
    Sessions (xs ++ [(x, outcome)]) (x.config cache) (exec diskCalm (x.prog cache) s).2 := by
  subst houtcome
  exact .next before keyed (Steps.of_execMeets diskEnv_diskCalm hfits)

end Store

/-- A response of three bytes in two chunks. -/
def writeOld (ending : Ending) : Session :=
  .write ⟨"k".toList, 60⟩ 200 [] [] [utf8 "ol".toList, utf8 "d".toList] ending

/-- The directory after the response has been stored. -/
def oldDisk : Disk :=
  (exec diskCalm (@Session.prog reference exampleCache (writeOld .finish)) emptyDisk).2

/-- The same after another response of the key has been discarded. -/
def discardedDisk : Disk :=
  (exec diskCalm (@Session.prog reference exampleCache (writeOld .discard)) oldDisk).2

theorem sessions_discardedDisk : @Sessions reference
    [(writeOld .finish, .finished (.ok ())), (writeOld .discard, .dropped)] exampleCache
    discardedDisk := by
  have hkeyed : ∀ ending, (writeOld ending).Keyed := fun _ => ⟨by decide, by decide⟩
  have hfinish := @Sessions.calm reference _ _ _ (writeOld .finish) (.finished (.ok ()))
    (@Sessions.start reference exampleCache emptyDisk.clock) (hkeyed _) (by decide +kernel)
    (by decide +kernel)
  exact @Sessions.calm reference _ _ _ (writeOld .discard) .dropped hfinish (hkeyed _)
    (by decide +kernel) (by decide +kernel)

/-- The theorem for these sessions. -/
theorem store_refines_map_discardedDisk : ∃ history, @Histories reference
      [(writeOld .finish, .finished (.ok ())), (writeOld .discard, .dropped)] exampleCache history ∧
    (∀ {key stored after}, Latest key stored history after → @LastCommit reference
      [(writeOld .finish, .finished (.ok ())), (writeOld .discard, .dropped)] key stored) ∧
    ∀ {plan now result s'}, Steps (diskEnv LengthsFit) (@lookup reference plan now, discardedDisk)
      (.ret result, s') → @Answers reference history s'.dir plan now result :=
  @store_refines_map reference _ _ _ sessions_discardedDisk

end Corsget
