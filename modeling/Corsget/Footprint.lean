import Corsget.Storing

/-!
# What each part of the program touches

One lemma for each program of the store and of the handler, saying which
operations it can perform.  Everything later that speaks about *all* behaviours
of the environment starts from these, and no proof outside this module unfolds
the programs again for that purpose.

* The store performs only `IsStoreOp` operations: files, the temporary-file
  counter, the clock.
* A request performs only `Confined` operations: it sends to permitted URLs and
  with the headers of `upstreamHeaders`, and it touches the store only when it
  has a cache plan (`serve_confined`).
* It sends at most `maxRedirects + 1` requests (`serve_sends`).
-/

namespace Corsget

open Text Effect

/-- The operations of the store. -/
def IsStoreOp : IoOp → Prop
  | .fs _ => True
  | .tempCounter => True
  | .systemTime => True
  | _ => False

/-- A program that only uses the store. -/
abbrev StoreOnly {α : Type} (p : Prog Io α) : Prop := Meets IsStoreOp (fun _ => True) p

/-- The operations that put no file under the name of a body and look at nothing
but the store. -/
def KeepsBodies : IoOp → Prop
  | .fs (.rename _ target) => ∀ key, target ≠ bodyPath key
  | .fs (.write path _) => ∀ key, path ≠ bodyPath key
  | .fs (.read _) | .fs (.metadata _) | .fs (.removeFile _) | .fs .readDir => True
  | .tempCounter => True
  | _ => False

/-- The operations that change a directory by removals only. -/
def RemovesOnly : IoOp → Prop
  | .fs (.read _) | .fs (.metadata _) | .fs (.removeFile _) | .fs .readDir => True
  | _ => False

/-- The operations of the cache alone: they do not read the clock. -/
def IsCacheOp : IoOp → Prop
  | .fs _ => True
  | .tempCounter => True
  | _ => False

/-- The removals of an eviction: metadata and bodies by their names. -/
def RemovesEntries : IoOp → Prop
  | .fs (.removeFile path) => ∃ key, path = metaPath key ∨ path = bodyPath key
  | .fs (.read _) | .fs (.metadata _) | .fs .readDir => True
  | _ => False

theorem KeepsBodies.isCacheOp {o : IoOp} (h : KeepsBodies o) : IsCacheOp o := by
  cases o with
  | fs o => trivial
  | tempCounter => trivial
  | _ => exact h.elim

theorem RemovesOnly.isCacheOp {o : IoOp} (h : RemovesOnly o) : IsCacheOp o := by
  cases o with
  | fs o => trivial
  | _ => exact h.elim

theorem KeepsBodies.isStoreOp (o : IoOp) (h : KeepsBodies o) : IsStoreOp o := by
  cases o with
  | fs o => trivial
  | tempCounter => trivial
  | _ => cases h

theorem RemovesOnly.keepsBodies (o : IoOp) (h : RemovesOnly o) : KeepsBodies o := by
  cases o with
  | fs o =>
      cases o with
      | read path => trivial
      | metadata path => trivial
      | removeFile path => trivial
      | readDir => trivial
      | _ => cases h
  | _ => cases h

theorem RemovesEntries.removesOnly (o : IoOp) (h : RemovesEntries o) : RemovesOnly o := by
  cases o with
  | fs o =>
      cases o with
      | read path => trivial
      | metadata path => trivial
      | removeFile path => trivial
      | readDir => trivial
      | _ => cases h
  | _ => cases h

theorem RemovesOnly.isStoreOp (o : IoOp) (h : RemovesOnly o) : IsStoreOp o :=
  KeepsBodies.isStoreOp o (RemovesOnly.keepsBodies o h)

section Store

variable [Crates]

/-- Metadata is written under a temporary name and renamed. -/
theorem writeMetadata_keepsBodies (entry : CacheEntry) :
    Meets KeepsBodies (fun _ => True) (writeMetadata entry) := by
  unfold writeMetadata
  simp only [Io.fetchAdd_bind, Io.write_bind]
  refine ⟨trivial, fun tempId => ⟨fun key => ?_, fun r => ?_⟩⟩
  · exact (tempMetaPath_isTemporary entry.key tempId).ne_bodyPath key
  · cases r with
    | error e => trivial
    | ok _ => exact ⟨fun key => metaPath_ne_bodyPath entry.key key, fun _ => trivial⟩

theorem lookup_keepsBodies (plan : CachePlan) (now : ℕ) :
    Meets KeepsBodies (fun _ => True) (lookup plan now) := by
  unfold lookup
  simp only [Io.read_bind, Io.metadata_bind, Io.removeFile_bind]
  refine ⟨trivial, fun r => ?_⟩
  cases r with
  | error e => trivial
  | ok data =>
      dsimp only
      cases data.fromSlice with
      | none => exact ⟨trivial, fun _ => trivial⟩
      | some entry =>
          refine ⟨trivial, fun bodyLen => ?_⟩
          dsimp only
          split
          · exact ⟨trivial, fun _ => trivial⟩
          · exact (writeMetadata_keepsBodies _).bind fun _ _ => trivial

theorem writeMetadata_storeOnly (entry : CacheEntry) : StoreOnly (writeMetadata entry) :=
  (writeMetadata_keepsBodies entry).mono KeepsBodies.isStoreOp fun _ _ => trivial

theorem lookup_storeOnly (plan : CachePlan) (now : ℕ) : StoreOnly (lookup plan now) :=
  (lookup_keepsBodies plan now).mono KeepsBodies.isStoreOp fun _ _ => trivial

theorem refresh_storeOnly (entry : CacheEntry) (responseHeaders : HeaderMap) (ttl : ℕ) :
    StoreOnly (refresh entry responseHeaders ttl) := by
  unfold refresh
  simp only [Io.nowSeconds_bind, Io.systemTime_bind]
  refine ⟨trivial, fun created => ⟨trivial, fun now => ?_⟩⟩
  exact (writeMetadata_storeOnly _).bind fun _ _ => trivial

theorem beginWrite_storeOnly (plan : CachePlan) (status : ℕ) (headers requestHeaders : HeaderMap) :
    StoreOnly (beginWrite plan status headers requestHeaders) := by
  rcases beginWrite_cases plan status headers requestHeaders with
    ⟨hnone, -⟩ | ⟨vary, hopens, -⟩
  · rw [hnone]
    trivial
  · rw [hopens]
    refine ⟨trivial, fun created => ⟨trivial, fun accessed => ⟨trivial, fun now => ?_⟩⟩⟩
    dsimp only
    split
    · trivial
    · refine ⟨trivial, fun tempId => ⟨trivial, fun r => ?_⟩⟩
      cases r with
      | error e => trivial
      | ok _ => trivial

omit [Crates] in
theorem evictScan_removesEntries (items : List (Except IoError Str)) :
    ∀ (entries : List (ℕ × Str × ℕ)) (total : ℕ),
      Meets RemovesEntries (fun _ => True) (evictScan items entries total) := by
  induction items with
  | nil =>
      intro entries total
      trivial
  | cons item rest ih =>
      intro entries total
      cases item with
      | error e => trivial
      | ok name =>
          unfold evictScan
          simp only [Io.metadata_bind, Io.read_bind]
          split
          · exact ih entries total
          · refine ⟨trivial, fun r => ?_⟩
            cases r with
            | error e => exact ih entries total
            | ok metaLen =>
                refine ⟨trivial, fun r => ?_⟩
                cases r with
                | error e => exact ih entries total
                | ok data =>
                    dsimp only
                    cases data.fromSlice with
                    | none => exact ih entries total
                    | some entry => exact ⟨trivial, fun _ => ih _ _⟩

omit [Crates] in
theorem evictLoop_removesEntries (maxSize : ℕ) (entries : List (ℕ × Str × ℕ)) :
    ∀ total : ℕ, Meets RemovesEntries (fun _ => True) (evictLoop maxSize entries total) := by
  induction entries with
  | nil =>
      intro total
      trivial
  | cons entry rest ih =>
      intro total
      unfold evictLoop
      simp only [Io.removeFile_bind]
      split
      · trivial
      · exact ⟨⟨entry.2.1, .inl rfl⟩, fun _ => ⟨⟨entry.2.1, .inr rfl⟩, fun _ => ih _⟩⟩

omit [Crates] in
/-- Evicting only removes entries. -/
theorem evict_removesEntries (cache : Cache) :
    Meets RemovesEntries (fun _ => True) (evict cache) := by
  unfold evict
  simp only [Io.readDir_bind]
  refine ⟨trivial, fun r => ?_⟩
  cases r with
  | error e => trivial
  | ok items =>
      refine (evictScan_removesEntries items [] 0).bind fun scan _ => ?_
      split
      · trivial
      · exact evictLoop_removesEntries _ _ _

omit [Crates] in
theorem evict_removesOnly (cache : Cache) : Meets RemovesOnly (fun _ => True) (evict cache) :=
  (evict_removesEntries cache).mono RemovesEntries.removesOnly fun _ _ => trivial

omit [Crates] in
theorem removeCacheFile_removesOnly (path : Str) (summary : CacheCleanupSummary) :
    Meets RemovesOnly (fun _ => True) (removeCacheFile path summary) := by
  unfold removeCacheFile
  simp only [Io.metadata_bind, Io.removeFile_bind]
  refine ⟨trivial, fun r => ?_⟩
  cases r with
  | error e => trivial
  | ok len =>
      refine ⟨trivial, fun r => ?_⟩
      cases r with
      | error e => trivial
      | ok _ => trivial

omit [Crates] in
theorem cleanupScan_removesOnly (now : ℕ) (items : List (Except IoError Str)) :
    ∀ s : CleanupScan, Meets RemovesOnly (fun _ => True) (cleanupScan now items s) := by
  induction items with
  | nil =>
      intro s
      trivial
  | cons item rest ih =>
      intro s
      cases item with
      | error e => exact ih _
      | ok name =>
          unfold cleanupScan
          simp only [Io.metadata_bind, Io.read_bind]
          split
          · exact (removeCacheFile_removesOnly _ _).bind fun _ _ => ih _
          · split
            · exact ih s
            · refine ⟨trivial, fun _ => ⟨trivial, fun _ => ?_⟩⟩
              dsimp only
              split
              · exact (removeCacheFile_removesOnly _ _).bind fun _ _ => ih _
              · refine ⟨trivial, fun _ => ?_⟩
                dsimp only
                split
                · exact (removeCacheFile_removesOnly _ _).bind fun _ _ =>
                    (removeCacheFile_removesOnly _ _).bind fun _ _ => ih _
                · split
                  · exact (removeCacheFile_removesOnly _ _).bind fun _ _ =>
                      (removeCacheFile_removesOnly _ _).bind fun _ _ => ih _
                  · exact ih _

omit [Crates] in
theorem cleanupOrphans_removesOnly (validKeys : List Str) (items : List (Except IoError Str)) :
    ∀ summary : CacheCleanupSummary,
      Meets RemovesOnly (fun _ => True) (cleanupOrphans validKeys items summary) := by
  induction items with
  | nil =>
      intro summary
      trivial
  | cons item rest ih =>
      intro summary
      cases item with
      | error e => exact ih summary
      | ok name =>
          unfold cleanupOrphans
          split
          · exact ih summary
          · split
            · exact ih summary
            · exact (removeCacheFile_removesOnly _ _).bind fun _ _ => ih _

omit [Crates] in
theorem cleanupEvict_removesOnly (maxSize : ℕ) (entries : List (ℕ × Str × ℕ)) :
    ∀ (total : ℕ) (summary : CacheCleanupSummary),
      Meets RemovesOnly (fun _ => True) (cleanupEvict maxSize entries total summary) := by
  induction entries with
  | nil =>
      intro total summary
      trivial
  | cons entry rest ih =>
      intro total summary
      unfold cleanupEvict
      split
      · trivial
      · exact (removeCacheFile_removesOnly _ _).bind fun _ _ =>
          (removeCacheFile_removesOnly _ _).bind fun _ _ => ih _ _

omit [Crates] in
/-- The cleanup at startup reads the clock and then only removes, too. -/
theorem cleanupStartup_removesOnly (cache : Cache) :
    Meets (fun o => o = IoOp.systemTime ∨ RemovesOnly o) (fun _ => True)
      (cleanupStartup cache) := by
  have hremoves : ∀ p : Prog Io CacheCleanupSummary, Meets RemovesOnly (fun _ => True) p →
      Meets (fun o => o = IoOp.systemTime ∨ RemovesOnly o) (fun _ => True) p :=
    fun p hp => hp.mono (fun _ => .inr) fun _ _ => trivial
  unfold cleanupStartup
  simp only [Io.nowSeconds_bind]
  refine ⟨.inl rfl, fun now => hremoves _ ?_⟩
  simp only [Io.readDir_bind]
  refine ⟨trivial, fun r => ?_⟩
  cases r with
  | error e => trivial
  | ok items =>
      refine (cleanupScan_removesOnly _ items _).bind fun s _ => ⟨trivial, fun r => ?_⟩
      cases r with
      | error e => exact cleanupEvict_removesOnly _ _ _ _
      | ok items =>
          exact (cleanupOrphans_removesOnly _ items _).bind fun _ _ =>
            cleanupEvict_removesOnly _ _ _ _

theorem commit_storeOnly (cache : Cache) (entry : CacheEntry) (tempBody : Str) :
    StoreOnly (commit cache entry tempBody) := by
  unfold commit
  simp only [Io.rename_bind]
  refine ⟨trivial, fun r => ?_⟩
  cases r with
  | error e => trivial
  | ok _ =>
      refine (writeMetadata_storeOnly _).bind fun r _ => ?_
      cases r with
      | error e => trivial
      | ok _ =>
          have hevict : StoreOnly (evict cache) :=
            (evict_removesOnly cache).mono RemovesOnly.isStoreOp fun _ _ => trivial
          exact hevict.bind fun _ _ => trivial

namespace CacheWriter

omit [Crates] in
theorem write_storeOnly (w : CacheWriter) (bytes : Bytes) : StoreOnly (w.write bytes) := by
  unfold CacheWriter.write
  simp only [Io.writeAll_bind]
  refine ⟨trivial, fun r => ?_⟩
  cases r with
  | error e => trivial
  | ok _ => trivial

theorem finish_storeOnly (cache : Cache) (w : CacheWriter) : StoreOnly (w.finish cache) := by
  unfold CacheWriter.finish
  simp only [Io.flush_bind]
  refine ⟨trivial, fun r => ?_⟩
  cases r with
  | error e => trivial
  | ok _ => exact commit_storeOnly cache _ _

omit [Crates] in
theorem discard_storeOnly (w : CacheWriter) : StoreOnly w.discard :=
  ⟨trivial, fun _ => trivial⟩

end CacheWriter

omit [Crates] in
theorem fileStream_storeOnly (path : Str) : StoreOnly (fileStream path) := by
  unfold fileStream
  simp only [Io.openFile_bind]
  refine ⟨trivial, fun r => ?_⟩
  cases r with
  | error e => trivial
  | ok bytes => trivial

end Store

/-! ## Requests -/

section Requests

variable [Crates]

/-- **A URL the policy permits**: an HTTP scheme, a host that the target list
allows, and an origin that the origin list allows (or no origin while that list
has no whitelist). -/
def Permitted (state : AppState) (origin : Origin) (url : Url) : Prop :=
  (url.scheme = "http".toList ∨ url.scheme = "https".toList) ∧
    (∃ host, url.host = some host ∧ state.matchPolicy.target.isAllowed host = true) ∧
    match origin.host with
    | some originHost => state.matchPolicy.origin.isAllowed originHost = true
    | none => state.matchPolicy.origin.hasWhitelist = false

omit [Crates] in
/-- `validate_target_policy` succeeds exactly on the permitted URLs. -/
theorem validateTargetPolicy_eq_ok {state : AppState} {url : Url} {origin : Origin} :
    validateTargetPolicy state url origin = .ok () ↔ Permitted state origin url := by
  unfold validateTargetPolicy checkScheme Permitted
  by_cases hscheme : url.scheme = "http".toList ∨ url.scheme = "https".toList
  · rw [if_pos hscheme]
    cases hhost : url.host with
    | none => simp [bind, Except.bind]
    | some host =>
        cases htarget : state.matchPolicy.target.isAllowed host with
        | false => simp [bind, Except.bind, htarget]
        | true =>
            cases origin.host with
            | none =>
                cases hlist : state.matchPolicy.origin.hasWhitelist with
                | false => simpa [bind, Except.bind, htarget] using hscheme
                | true => simp [bind, Except.bind, htarget]
            | some originHost =>
                cases horigin : state.matchPolicy.origin.isAllowed originHost with
                | false => simp [bind, Except.bind, htarget, horigin]
                | true => simpa [bind, Except.bind, htarget, horigin] using hscheme
  · rw [if_neg hscheme]
    simp only [hscheme, false_and, iff_false]
    intro h
    cases h

/-- What a part of the handler may do: the upstream requests it may send, and
whether it may use the store and the request limiter. -/
structure Rights where
  sends : UpstreamRequest → Prop
  store : Prop
  checks : Prop

/-- An operation within the rights.  Clock, bandwidth limiter and consumer are
always there. -/
def Confined (rights : Rights) : IoOp → Prop
  | .send request => rights.sends request
  | .fs _ => rights.store
  | .tempCounter => rights.store
  | .checkLimit _ _ => rights.checks
  | _ => True

/-- A request to a permitted URL with the headers of `upstreamHeaders`. -/
def PermittedSend (state : AppState) (origin : Origin) (requestHeaders : HeaderMap)
    (request : UpstreamRequest) : Prop :=
  Permitted state origin request.url ∧
    ∃ entry, request.headers = upstreamHeaders requestHeaders entry request.url

/-- A body whose streaming uses the store only when `mayStore` holds. -/
def Body.Within (mayStore : Prop) : Body → Prop
  | .full _ => True
  | .cached _ _ _ => mayStore
  | .live _ _ _ _ writer => writer.isSome = true → mayStore

/-- The same of the response of a handler, when there is one. -/
def Answered (mayStore : Prop) (result : Except AppError Response) : Prop :=
  ∀ response, result = .ok response → response.body.Within mayStore

variable {state : AppState} {origin : Origin} {requestHeaders : HeaderMap}
  {rights : Rights}

omit [Crates] in
theorem StoreOnly.confined {α : Type} {p : Prog Io α} (h : StoreOnly p) (hm : rights.store) :
    Meets (Confined rights) (fun _ => True) p := by
  refine Meets.mono h (fun o ho => ?_) fun _ _ => trivial
  cases o with
  | fs o => exact hm
  | tempCounter => exact hm
  | systemTime => trivial
  | checkLimit key quota => trivial
  | send request => exact ho.elim
  | charge bucket n => trivial
  | yield item => trivial

omit [Crates] in
theorem cachedResponse_answered (entry : CacheEntry) (bucket : Str) (resultMax : ℕ)
    (cacheStatus : HeaderValue) (url : Url) (hm : rights.store) :
    Answered rights.store (cachedResponse state entry bucket resultMax cacheStatus url) := by
  intro response h
  rw [cachedResponse_body h]
  exact hm

/-- The URL of the next hop comes out of the URL parser and has passed the policy. -/
theorem nextHop_eq_ok {base url : Url} {headers : HeaderMap}
    (h : nextHop state origin base headers = .ok url) :
    Permitted state origin url ∧
      ((∃ location, Crates.urlParse location = .ok url) ∨
        ∃ location, Crates.urlJoin base location = .ok url) := by
  have hvalid : ∀ u, (validateTargetPolicy state u origin).map (fun _ => u) = .ok url →
      Permitted state origin url ∧ u = url := by
    intro u hu
    cases hv : validateTargetPolicy state u origin with
    | error e =>
        rw [hv] at hu
        cases hu
    | ok _ =>
        rw [hv] at hu
        obtain rfl : u = url := by simpa [Except.map] using hu
        exact ⟨validateTargetPolicy_eq_ok.mp hv, rfl⟩
  unfold nextHop at h
  split at h
  · cases h
  · next location _ =>
    split at h
    · next parsed hparsed =>
      obtain ⟨hpermitted, rfl⟩ := hvalid parsed h
      exact ⟨hpermitted, .inl ⟨location, hparsed⟩⟩
    · split at h
      · cases h
      · next joined hjoined =>
        obtain ⟨hpermitted, rfl⟩ := hvalid joined h
        exact ⟨hpermitted, .inr ⟨location, hjoined⟩⟩

/-- The URL of the next hop is permitted. -/
theorem nextHop_permitted {base url : Url} {headers : HeaderMap}
    (h : nextHop state origin base headers = .ok url) : Permitted state origin url :=
  (nextHop_eq_ok h).1

/-- What the redirect loop may return. -/
def FetchedWithin (mayStore : Prop) (result : Except AppError Fetched) : Prop :=
  ∀ response, result = .ok (.confirmed response) → response.body.Within mayStore

omit [Crates] in
theorem Answered.confirmed {result : Except AppError Response} (h : Answered rights.store result) :
    FetchedWithin rights.store (result.map .confirmed) := by
  intro response hr
  cases result with
  | error e => cases hr
  | ok _ =>
      cases hr
      exact h response rfl

/-- **The rule of a turn of the redirect loop**: the request, and each way the turn
can go on. -/
theorem redirectTurn_meets {φ : IoOp → Prop} {Q : Except AppError Fetched → Prop} {bucket : Str}
    {target url : Url} {plan : Option CachePlan} {cachedEntry : Option CacheEntry}
    {onward : UpstreamResponse → Prog Io (Except AppError Fetched)}
    (hsend : φ (.send { url := url, headers := upstreamHeaders requestHeaders cachedEntry url }))
    (herror : ∀ e, Q (.error e))
    (hconfirm : ∀ plan' entry confirmed, state.cache ≠ none → plan = some plan' →
      cachedEntry = some entry →
        Meets φ Q (confirmEntry state bucket target plan' entry confirmed))
    (hfinal : ∀ resp, Q (.ok (.final resp url)))
    (honward : ∀ resp, Meets φ Q (onward resp)) :
    Meets φ Q (redirectTurn state requestHeaders bucket target plan cachedEntry url onward) := by
  unfold redirectTurn
  simp only [Io.send_bind]
  refine ⟨hsend, fun r => ?_⟩
  cases r with
  | error e => exact herror _
  | ok resp =>
      dsimp only
      split
      -- The exits of the loop: a 304 for an entry, a final response, no redirects left,
      -- and another turn.
      · next cache plan' entry _ hcache =>
        exact hconfirm plan' entry resp.headers (by rw [hcache]; simp) rfl rfl
      · split
        · exact hfinal resp
        · split
          · exact herror _
          · exact honward resp

/-- **The rule of the redirect loop**, over a class of URLs that every next hop is
in. -/
theorem followRedirects_meets {φ : IoOp → Prop} {Q : Except AppError Fetched → Prop}
    {P : Url → Prop} {bucket : Str} {target : Url} {plan : Option CachePlan}
    {cachedEntry : Option CacheEntry}
    (hhop : ∀ {base url headers}, nextHop state origin base headers = .ok url → P url)
    (hsend : ∀ url, P url →
      φ (.send { url := url, headers := upstreamHeaders requestHeaders cachedEntry url }))
    (herror : ∀ e, Q (.error e))
    (hconfirm : ∀ plan' entry confirmed, state.cache ≠ none → plan = some plan' →
      cachedEntry = some entry →
        Meets φ Q (confirmEntry state bucket target plan' entry confirmed))
    (hfinal : ∀ resp url, Q (.ok (.final resp url))) (left : ℕ) :
    ∀ {url}, P url → Meets φ Q
      (followRedirects state origin requestHeaders bucket target plan cachedEntry left url) := by
  -- Each turn is for a URL of the class; the next hop is in it again.
  induction left with
  | zero =>
      intro url hurl
      exact redirectTurn_meets (hsend url hurl) herror hconfirm (fun resp => hfinal resp url)
        fun resp => herror _
  | succ left ih =>
      intro url hurl
      refine redirectTurn_meets (hsend url hurl) herror hconfirm (fun resp => hfinal resp url)
        fun resp => ?_
      cases hnext : nextHop state origin url resp.headers with
      | error e => exact herror e
      | ok nextUrl => exact ih (hhop hnext)

/-- Confirming an entry uses the store. -/
theorem confirmEntry_confined {bucket : Str} {target : Url} {plan : CachePlan}
    {entry : CacheEntry} {confirmed : HeaderMap} (hm : rights.store) :
    Meets (Confined rights) (FetchedWithin rights.store)
      (confirmEntry state bucket target plan entry confirmed) := by
  unfold confirmEntry
  refine ((refresh_storeOnly entry confirmed plan.ttl).confined hm).bind ?_
  rintro ⟨entry, written⟩ -
  cases written with
  | error e =>
      intro response h
      cases h
  | ok _ =>
      exact (cachedResponse_answered entry bucket state.resultMax cacheRevalidated target
        hm).confirmed

/-- The redirect loop within the rights of the request. -/
theorem followRedirects_confined {P : Url → Prop} {bucket : Str} {target : Url}
    {plan : Option CachePlan} {cachedEntry : Option CacheEntry}
    (hhop : ∀ {base url headers}, nextHop state origin base headers = .ok url → P url)
    (hsend : ∀ url, P url → rights.sends
      { url := url, headers := upstreamHeaders requestHeaders cachedEntry url })
    (hm : plan.isSome = true → rights.store) (left : ℕ) {url : Url} (hurl : P url) :
    Meets (Confined rights) (FetchedWithin rights.store)
      (followRedirects state origin requestHeaders bucket target plan cachedEntry left url) := by
  refine followRedirects_meets hhop hsend ?_ ?_ ?_ left hurl
  · intro e response h
    cases h
  · rintro plan' entry confirmed - rfl -
    exact confirmEntry_confined (hm rfl)
  · intro resp url response h
    cases h

theorem beginWritePlanned_confined {plan : Option CachePlan}
    {upstreamResponse : UpstreamResponse} (hm : plan.isSome = true → rights.store) :
    Meets (Confined rights)
      (fun writer : Option CacheWriter => writer.isSome = true → rights.store)
      (beginWritePlanned state plan upstreamResponse requestHeaders) := by
  unfold beginWritePlanned
  split
  · have hstore : rights.store := hm rfl
    exact ((beginWrite_storeOnly _ _ _ _).confined hstore).mono (fun _ h => h) fun _ _ _ => hstore
  · intro h
    cases h

theorem lookupPlanned_confined {plan : Option CachePlan} (hm : plan.isSome = true → rights.store) :
    Meets (Confined rights)
      (fun entry : Option CacheEntry => entry.isSome = true → rights.store)
      (lookupPlanned state plan) := by
  unfold lookupPlanned
  split
  · have hstore : rights.store := hm rfl
    refine ⟨trivial, fun now => ?_⟩
    exact ((lookup_storeOnly _ _).confined hstore).mono (fun _ h => h) fun _ _ _ => hstore
  · intro h
    cases h

/-- The response to the last upstream response. -/
theorem liveResponse_confined {bucket : Str} {target finalUrl : Url} {plan : Option CachePlan}
    {revalidated : Bool} {upstreamResponse : UpstreamResponse}
    (hm : plan.isSome = true → rights.store) :
    Meets (Confined rights) (Answered rights.store)
      (liveResponse state requestHeaders bucket target finalUrl plan revalidated
        upstreamResponse) := by
  unfold liveResponse
  dsimp only
  split
  · intro response h
    cases h
  · refine (beginWritePlanned_confined hm).bind fun writer hwriter => ?_
    intro response h
    cases h
    exact hwriter

theorem fetchUpstream_confined {P : Url → Prop} {key : RateLimitKey} {target : Url}
    {plan : Option CachePlan} {cachedEntry : Option CacheEntry} {force : Bool}
    (hhop : ∀ {base url headers}, nextHop state key.origin base headers = .ok url → P url)
    (hsend : ∀ url, P url → rights.sends
      { url := url, headers := upstreamHeaders requestHeaders cachedEntry url })
    (hm : plan.isSome = true → rights.store) (htarget : P target) :
    Meets (Confined rights) (Answered rights.store)
      (fetchUpstream state key requestHeaders target plan cachedEntry force) := by
  unfold fetchUpstream
  refine (followRedirects_confined hhop hsend hm _ htarget).bind fun fetched hfetched => ?_
  split
  · intro response h
    cases h
  · next response =>
    intro response' h
    cases h
    exact hfetched response rfl
  · exact liveResponse_confined hm

theorem answerAdmitted_confined {key : RateLimitKey} {target : Url}
    (hsend : ∀ request, PermittedSend state key.origin requestHeaders request →
      rights.sends request)
    (hm : (state.cache.bind fun cache => cache.plan target requestHeaders).isSome = true →
      rights.store)
    (htarget : Permitted state key.origin target) :
    Meets (Confined rights) (Answered rights.store)
      (answerAdmitted state key requestHeaders target) := by
  have hsends : ∀ entry url, Permitted state key.origin url → rights.sends
      { url := url, headers := upstreamHeaders requestHeaders entry url } :=
    fun entry url hurl => hsend _ ⟨hurl, entry, rfl⟩
  unfold answerAdmitted
  dsimp only
  generalize state.cache.bind (fun cache => cache.plan target requestHeaders) = plan at hm ⊢
  refine (lookupPlanned_confined hm).bind fun entry hentry => ?_
  split
  · next cache entry _ _ =>
    refine ⟨trivial, fun (now : ℕ) => ?_⟩
    show Meets _ _ (if isFresh entry (now / 10 ^ 9) = true then _ else _)
    split
    · exact cachedResponse_answered entry key.bucket state.resultMax cacheHit target (hentry rfl)
    · exact fetchUpstream_confined nextHop_permitted (hsends _) hm htarget
  · exact fetchUpstream_confined nextHop_permitted (hsends _) hm htarget

omit [Crates] in
/-- The tiers perform checks and nothing else. -/
theorem checkTiers_confined {key : RateLimitKey} (hc : rights.checks)
    (tiers : List LimitTier) :
    Meets (Confined rights)
      (fun r => ∀ response, r = .ok (some response) → response.body.Within rights.store)
      (checkTiers key tiers) := by
  induction tiers with
  | nil =>
      intro response h
      cases h
  | cons tier rest ih =>
      unfold checkTiers
      simp only [Io.checkLimit_bind]
      refine ⟨hc, fun r => ?_⟩
      cases r with
      | error e =>
          intro response h
          cases h
      | ok snapshot =>
          dsimp only
          split
          · exact ih
          · intro response h
            cases h
            trivial

/-- The handler of an admitted or refused request. -/
theorem proxyHandler_confined {uri : OriginalUri} {key : RateLimitKey}
    (hsend : ∀ request, PermittedSend state key.origin requestHeaders request →
      rights.sends request)
    (hc : rights.checks)
    (hm : ∀ target, parseTargetUrl uri = .ok target →
      (state.cache.bind fun cache => cache.plan target requestHeaders).isSome = true →
        rights.store) :
    Meets (Confined rights) (Answered rights.store)
      (proxyHandler state uri key requestHeaders) := by
  unfold proxyHandler
  split
  · intro response h
    cases h
  · next target htarget =>
    split
    · intro response h
      cases h
    · split
      · intro response h
        cases h
      · next hpolicy =>
        refine (checkTiers_confined hc state.rateLimit).bind fun r hr => ?_
        split
        · intro response h
          cases h
        · next response =>
          intro response' h
          cases h
          exact hr response rfl
        · exact answerAdmitted_confined hsend (hm target htarget)
            (validateTargetPolicy_eq_ok.mp hpolicy)

/-! ## Streaming -/

omit [Crates] in
/-- The metered stream does what its consumer does, and charges. -/
theorem meteredStream_meets {σ : Type} {φ : IoOp → Prop} {I : σ → Prop} {bucket : Str}
    {onItem : σ → Except MeteredError Bytes → Prog Io σ} (hcharge : ∀ n, φ (.charge bucket n))
    (hitem : ∀ s item, I s → Meets φ I (onItem s item)) (items : List (Except Str Bytes)) :
    ∀ {guard : ResultSizeGuard} {s : σ}, I s →
      Meets φ I (meteredStream bucket onItem guard items s) := by
  induction items with
  | nil =>
      intro guard s hs
      exact hs
  | cons item rest ih =>
      intro guard s hs
      cases item with
      | error e => exact hitem s _ hs
      | ok chunk =>
          unfold meteredStream
          split
          · exact hitem s _ hs
          · refine ⟨hcharge _, fun _ => ?_⟩
            exact (hitem s (.ok chunk) hs).bind fun s hs => ih hs

omit [Crates] in
theorem teeWrite_confined (bytes : Bytes) (writer : Option CacheWriter)
    (hw : writer.isSome = true → rights.store) :
    Meets (Confined rights)
      (fun writer : Option CacheWriter => writer.isSome = true → rights.store)
      (teeWrite bytes writer) := by
  cases writer with
  | none =>
      intro h
      cases h
  | some w =>
      refine ((CacheWriter.write_storeOnly w bytes).confined (hw rfl)).bind ?_
      rintro ⟨w, written⟩ -
      cases written with
      | error e =>
          refine ((CacheWriter.discard_storeOnly w).confined (hw rfl)).bind fun _ _ => ?_
          exact fun _ => hw rfl
      | ok _ => exact fun _ => hw rfl

omit [Crates] in
theorem teeDiscard_confined (writer : Option CacheWriter)
    (hw : writer.isSome = true → rights.store) :
    Meets (Confined rights) (fun _ => True) (teeDiscard writer) := by
  cases writer with
  | none => trivial
  | some w => exact (CacheWriter.discard_storeOnly w).confined (hw rfl)

omit [Crates] in
theorem teeItem_confined (writer : Option CacheWriter) (item : Except MeteredError Bytes)
    (hw : writer.isSome = true → rights.store) :
    Meets (Confined rights)
      (fun writer : Option CacheWriter => writer.isSome = true → rights.store)
      (teeItem writer item) := by
  cases item with
  | error e =>
      refine (teeDiscard_confined writer hw).bind fun _ _ => ⟨trivial, fun _ => ?_⟩
      intro h
      cases h
  | ok bytes =>
      exact (teeWrite_confined bytes writer hw).bind fun writer hw => ⟨trivial, fun _ => hw⟩

/-- Streaming a body. -/
theorem Body.stream_confined {body : Body} (h : body.Within rights.store) :
    Meets (Confined rights) (fun _ => True) body.stream := by
  cases body with
  | full bytes => exact ⟨trivial, fun _ => trivial⟩
  | cached path bucket guard =>
      refine ((fileStream_storeOnly path).confined h).bind fun items _ => ?_
      refine meteredStream_meets (I := fun _ => True) (fun _ => trivial) (fun _ item _ => ?_) items
        trivial
      exact ⟨trivial, fun _ => trivial⟩
  | live items bucket guard cache writer =>
      refine (meteredStream_meets (fun _ => trivial)
        (fun writer item hw => teeItem_confined writer item hw) items h).bind fun writer hw => ?_
      split
      · exact (((CacheWriter.finish_storeOnly _ _).confined (hw rfl)).bind fun _ _ => trivial)
      · trivial

/-- Delivering an answer. -/
theorem deliver_confined {result : Except AppError Response} (h : Answered rights.store result) :
    Meets (Confined rights) (Answered rights.store) (deliver result) := by
  cases result with
  | error e => exact h
  | ok response => exact (Body.stream_confined (h response rfl)).bind fun _ _ => h

/-- **A whole request.**  It sends only to permitted URLs, and touches the store
only when it has a cache plan. -/
theorem serve_confined {uri : OriginalUri} {key : RateLimitKey}
    (hsend : ∀ request, PermittedSend state key.origin requestHeaders request →
      rights.sends request)
    (hc : rights.checks)
    (hm : ∀ target, parseTargetUrl uri = .ok target →
      (state.cache.bind fun cache => cache.plan target requestHeaders).isSome = true →
        rights.store) :
    Meets (Confined rights) (Answered rights.store)
      (serve state uri key requestHeaders) := by
  unfold serve
  exact (proxyHandler_confined hsend hc hm).bind fun _ h => deliver_confined h

/-! ## Counting upstream requests -/

/-- Whether an operation is a request to the upstream. -/
def IoOp.isSend : IoOp → Bool
  | .send _ => true
  | _ => false

/-- A program that sends nothing. -/
abbrev Quiet : IoOp → Prop := Confined ⟨fun _ => False, True, True⟩

omit [Crates] in
theorem quiet_isSend (o : IoOp) (h : Quiet o) : o.isSend = false := by
  cases o with
  | send request => exact h.elim
  | _ => rfl

omit [Crates] in
/-- No event of a program that sends nothing is a request. -/
theorem quiet_of_trace {α : Type} {Q : α → Prop} {p : Prog Io α} (h : Meets Quiet Q p)
    {es : List (Event Io)} {a : α} (ht : Trace p es a) : ∀ e ∈ es, Quiet e.1 :=
  (h.of_trace ht).1

omit [Crates] in
theorem quiet_atMost {α : Type} {Q : α → Prop} {p : Prog Io α} (h : Meets Quiet Q p) (n : ℕ) :
    AtMost IoOp.isSend p n := by
  rw [← Prog.bind_ret p]
  exact AtMost.free_bind h quiet_isSend fun _ _ => trivial

omit [Crates] in
theorem Body.within_true (body : Body) : body.Within True := by
  cases body with
  | full bytes => trivial
  | cached path bucket guard => trivial
  | live items bucket guard cache writer => exact fun _ => trivial

omit [Crates] in
theorem answered_true (result : Except AppError Response) : Answered True result :=
  fun response _ => response.body.within_true

/-- A turn of the loop sends one request more than what follows it. -/
theorem redirectTurn_sends {bucket : Str} {target url : Url} {plan : Option CachePlan}
    {cachedEntry : Option CacheEntry}
    {onward : UpstreamResponse → Prog Io (Except AppError Fetched)} {n : ℕ}
    (honward : ∀ resp, AtMost IoOp.isSend (onward resp) n) :
    AtMost IoOp.isSend
      (redirectTurn state requestHeaders bucket target plan cachedEntry url onward) (n + 1) := by
  unfold redirectTurn
  simp only [Io.send_bind]
  refine AtMost.op_counted rfl fun r => ?_
  cases r with
  | error e => trivial
  | ok resp =>
      dsimp only
      split
      · exact quiet_atMost (confirmEntry_confined trivial) n
      · split
        · trivial
        · split
          · trivial
          · exact honward resp

/-- The redirect loop sends at most one request more than it has redirects
left. -/
theorem followRedirects_sends {bucket : Str} {target : Url} {plan : Option CachePlan}
    {cachedEntry : Option CacheEntry} (left : ℕ) :
    ∀ url, AtMost IoOp.isSend
      (followRedirects state origin requestHeaders bucket target plan cachedEntry left url)
      (left + 1) := by
  induction left with
  | zero =>
      intro url
      exact redirectTurn_sends fun resp => trivial
  | succ left ih =>
      intro url
      refine redirectTurn_sends fun resp => ?_
      cases nextHop state origin url resp.headers with
      | error e => trivial
      | ok nextUrl => exact ih nextUrl

theorem fetchUpstream_sends {key : RateLimitKey} {target : Url} {plan : Option CachePlan}
    {cachedEntry : Option CacheEntry} {force : Bool} :
    AtMost IoOp.isSend
      (fetchUpstream state key requestHeaders target plan cachedEntry force)
      (state.maxRedirects + 1) := by
  unfold fetchUpstream
  refine (followRedirects_sends _ _).bind (n := 0) fun fetched => ?_
  split
  · trivial
  · trivial
  · exact quiet_atMost (liveResponse_confined fun _ => trivial) 0

theorem answerAdmitted_sends {key : RateLimitKey} {target : Url} :
    AtMost IoOp.isSend (answerAdmitted state key requestHeaders target)
      (state.maxRedirects + 1) := by
  unfold answerAdmitted
  dsimp only
  refine AtMost.free_bind (lookupPlanned_confined fun _ => trivial) quiet_isSend fun entry _ => ?_
  split
  · refine AtMost.op_free rfl fun (now : ℕ) => ?_
    show AtMost _ (if isFresh _ (now / 10 ^ 9) = true then _ else _) _
    split
    · trivial
    · exact fetchUpstream_sends
  · exact fetchUpstream_sends

theorem proxyHandler_sends {uri : OriginalUri} {key : RateLimitKey} :
    AtMost IoOp.isSend (proxyHandler state uri key requestHeaders) (state.maxRedirects + 1) := by
  unfold proxyHandler
  split
  · trivial
  · split
    · trivial
    · split
      · trivial
      · refine AtMost.free_bind (checkTiers_confined trivial state.rateLimit) quiet_isSend ?_
        intro r _
        split
        · trivial
        · trivial
        · exact answerAdmitted_sends

/-- **The number of upstream requests** of one client request. -/
theorem serve_sends {uri : OriginalUri} {key : RateLimitKey} :
    AtMost IoOp.isSend (serve state uri key requestHeaders) (state.maxRedirects + 1) := by
  unfold serve
  refine AtMost.bind (n := 0) proxyHandler_sends fun result => ?_
  exact quiet_atMost (deliver_confined (answered_true result)) 0

end Requests

end Corsget
