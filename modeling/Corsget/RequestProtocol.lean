import Corsget.Footprint
import Corsget.Library.Protocol

/-!
# The protocol of a request

What a request does to the rest of the world happens in an order.  `requestProtocol` says which
one, as an automaton: the tiers of the request limit are asked one after the other; then the
cache is consulted; then the upstream is asked, once for each hop; then the books are kept, with
a new temporary file or new metadata; then the body goes out, each chunk charged before it is
handed over; and only behind the last chunk comes the commit.

`serve_follows_protocol` is the refinement: whatever the environment answers, every operation of
the program of a request is in order when it is performed.  `moves_of_requestProtocol` is the
inversion of the automaton, one case for each kind of step; what is said about the order of
events rests on it alone.
-/

namespace Corsget

open Text Effect

/-! ## The phases -/

/-- What `proxy_handler` asks the limiter for a tier. -/
def LimitTier.quota (tier : LimitTier) : Quota where
  max := min tier.max (2 ^ 64 - 1)
  periodMs := min (tier.window * 1000) (2 ^ 64 - 1)

/-- Where a request is. -/
inductive Phase where
  /-- A tier is to be asked, and the rest after it. -/
  | limiting (tier : LimitTier) (rest : List LimitTier)
  /-- A tier did not allow the request. -/
  | refused
  /-- The consumer has been told so. -/
  | told
  /-- Every tier allowed the request. -/
  | consulting
  /-- The upstream has been asked, and `left` more requests may follow. -/
  | fetching (left : ℕ)
  /-- The last answer of the upstream is in. -/
  | settling
  /-- The body is going out. -/
  | streaming
  /-- A chunk of this length has been charged and not handed over. -/
  | charged (n : ℕ)
  /-- The consumer has been handed an error. -/
  | broken
  /-- The body is out and the writer is being finished. -/
  | committing
deriving DecidableEq

/-- The first phase when these tiers are to be asked. -/
def Phase.start : List LimitTier → Phase
  | [] => consulting
  | tier :: rest => limiting tier rest

/-- The phase after the answer of the limiter. -/
def Phase.afterCheck (rest : List LimitTier) : Except Str Snapshot → Phase
  | .ok snapshot => if snapshot.allowed then start rest else refused
  | .error _ => refused

/-- The operations of a lookup. -/
def IoOp.consults : IoOp → Bool
  | .fs (.read _) | .fs (.metadata _) | .fs (.removeFile _) | .fs (.write _ _)
  | .fs (.rename _ _) | .tempCounter | .systemTime => true
  | _ => false

/-- The operations that follow the last answer of the upstream: a refresh, or a new temporary
file. -/
def IoOp.settles : IoOp → Bool
  | .fs (.write _ _) | .fs (.rename _ _) | .fs (.create _) | .tempCounter | .systemTime => true
  | _ => false

/-- The operations of a commit after the flush. -/
def IoOp.commits : IoOp → Bool
  | .fs (.rename _ _) | .fs (.write _ _) | .fs .readDir | .fs (.metadata _) | .fs (.read _)
  | .fs (.removeFile _) | .tempCounter => true
  | _ => false

/-- What is in order while a body is going out, between two chunks. -/
def streams (bucket : Str) : (o : IoOp) → Option (Io.Res o → Phase)
  | .charge b n => if b = bucket then some fun _ => .charged n else none
  | .yield (.error _) => some fun _ => .broken
  | .fs (.removeFile _) => some fun _ => .streaming
  | .fs (.flush _) => some fun _ => .committing
  | _ => none

/-- **The protocol of a request** under a key. -/
def requestProtocol (state : AppState) (key : RateLimitKey) : Protocol Io Phase
  | .limiting tier rest, .checkLimit k quota =>
      if k = key ∧ quota = tier.quota then some fun answer => .afterCheck rest answer else none
  | .limiting _ _, _ => none
  | .refused, .yield (.ok _) => some fun _ => .told
  | .refused, _ => none
  | .told, _ => none
  | .consulting, .send _ => some fun _ => .fetching state.maxRedirects
  | .consulting, .fs (.openFile _) => some fun _ => .streaming
  | .consulting, o => if o.consults then some fun _ => .consulting else none
  | .fetching (left + 1), .send _ => some fun _ => .fetching left
  | .fetching _, o => if o.settles then some fun _ => .settling else streams key.bucket o
  | .settling, .fs (.openFile _) => some fun _ => .streaming
  | .settling, o => if o.settles then some fun _ => .settling else streams key.bucket o
  | .streaming, o => streams key.bucket o
  -- While a chunk is in flight, only the writer may have it before the consumer does.
  | .charged n, .fs (.writeAll _ bytes) =>
      if bytes.length = n then some fun _ => .charged n else none
  | .charged n, .fs (.removeFile _) => some fun _ => .charged n
  | .charged n, .yield (.ok bytes) => if bytes.length = n then some fun _ => .streaming else none
  | .charged _, _ => none
  | .broken, _ => none
  | .committing, o => if o.commits then some fun _ => .committing else none

/-- The upstream has given its last answer, or may have. -/
def Phase.Fetched (φ : Phase) : Prop := φ = settling ∨ ∃ left, φ = fetching left

theorem Phase.Fetched.ne_told {φ : Phase} (h : φ.Fetched) : φ ≠ told := by
  rcases h with rfl | ⟨left, rfl⟩ <;> simp

/-- A body may go on, or begin. -/
def Phase.Open (φ : Phase) : Prop := φ = streaming ∨ φ.Fetched

section Rules

variable {state : AppState} {key : RateLimitKey} {φ : Phase} {o : IoOp}

theorem requestProtocol_consulting (h : o.consults = true) :
    requestProtocol state key .consulting o = some fun _ => .consulting := by
  have hconsults : (if o.consults then some fun _ => Phase.consulting
      else (none : Option (Io.Res o → Phase))) = some fun _ => .consulting := if_pos h
  cases o with
  | fs o =>
      cases o with
      | openFile path => cases h
      | _ => exact hconsults
  | send request => cases h
  | _ => exact hconsults

/-- Behind an answer of the upstream, everything but another request and a stored body. -/
theorem requestProtocol_eq_of_fetched (hφ : φ.Fetched) (hsend : ∀ request, o ≠ .send request)
    (hopen : ∀ path, o ≠ .fs (.openFile path)) :
    requestProtocol state key φ o =
      if o.settles then some fun _ => .settling else streams key.bucket o := by
  rcases hφ with rfl | ⟨left, rfl⟩
  · cases o with
    | fs o =>
        cases o with
        | openFile path => exact absurd rfl (hopen path)
        | _ => rfl
    | _ => rfl
  · cases left with
    | zero => rfl
    | succ left =>
        cases o with
        | send request => exact absurd rfl (hsend request)
        | _ => rfl

theorem requestProtocol_fetched (hφ : φ.Fetched) (h : o.settles = true) :
    requestProtocol state key φ o = some fun _ => .settling := by
  have hsend : ∀ request, o ≠ .send request := by
    rintro request rfl
    cases h
  have hopen : ∀ path, o ≠ .fs (.openFile path) := by
    rintro path rfl
    cases h
  rw [requestProtocol_eq_of_fetched hφ hsend hopen, if_pos h]

theorem requestProtocol_committing (h : o.commits = true) :
    requestProtocol state key .committing o = some fun _ => .committing := by
  simp [requestProtocol, h]

/-- What is in order while a body is going out does not come before it. -/
theorem settles_of_streams {bucket : Str} {next : Io.Res o → Phase}
    (h : streams bucket o = some next) : ¬ o.settles = true := by
  intro hsettles
  cases o with
  | fs o =>
      cases o with
      | removeFile path => cases hsettles
      | flush path => cases hsettles
      | _ => cases h
  | charge b n => cases hsettles
  | yield item => cases hsettles
  | _ => cases h

/-- The rules of a body that is going out hold as soon as the upstream has answered. -/
theorem requestProtocol_open (hφ : φ.Open) {next : Io.Res o → Phase}
    (h : streams key.bucket o = some next) : requestProtocol state key φ o = some next := by
  have hsend : ∀ request, o ≠ .send request := by
    rintro request rfl
    cases h
  have hopen : ∀ path, o ≠ .fs (.openFile path) := by
    rintro path rfl
    cases h
  rcases hφ with rfl | hφ
  · exact h
  · rw [requestProtocol_eq_of_fetched hφ hsend hopen, if_neg (settles_of_streams h), h]

/-- A part of the request whose operations all keep one phase. -/
theorem Follows.stay {α : Type} {T : α → Prop} {C : IoOp → Bool} {p : Prog Io α}
    (hp : Meets (fun o => C o = true) T p)
    (hstay : ∀ o, C o = true → requestProtocol state key φ o = some fun _ => φ) :
    Follows (requestProtocol state key) (fun a ψ => T a ∧ ψ = φ) p φ :=
  Follows.of_meets (I := fun ψ => ψ = φ) hp
    (fun _ o hψ ho => ⟨fun _ => φ, hψ ▸ hstay o ho, fun _ => rfl⟩) rfl

end Rules

/-! ## The parts of a request -/

section Parts

variable [Crates] {state : AppState} {key : RateLimitKey} {requestHeaders : HeaderMap} {φ : Phase}

/-- The operations of a metadata write are in every one of the classes. -/
theorem writeMetadata_meets (C : IoOp → Bool) (entry : CacheEntry)
    (hcounter : C .tempCounter = true) (hwrite : ∀ path data, C (.fs (.write path data)) = true)
    (hrename : ∀ source target, C (.fs (.rename source target)) = true) :
    Meets (fun o => C o = true) (fun _ => True) (writeMetadata entry) := by
  unfold writeMetadata
  simp only [Io.fetchAdd_bind, Io.write_bind]
  refine ⟨hcounter, fun tempId => ⟨hwrite _ _, fun r => ?_⟩⟩
  rcases r with e | ⟨⟩
  · trivial
  · exact ⟨hrename _ _, fun _ => trivial⟩

theorem lookup_consults (plan : CachePlan) (now : ℕ) :
    Meets (fun o : IoOp => o.consults = true) (fun _ => True) (lookup plan now) := by
  unfold lookup
  simp only [Io.read_bind, Io.metadata_bind, Io.removeFile_bind]
  refine ⟨rfl, fun r => ?_⟩
  rcases r with e | data
  · trivial
  · dsimp only
    split
    · exact ⟨rfl, fun _ => trivial⟩
    · refine ⟨rfl, fun bodyLen => ?_⟩
      dsimp only
      split
      · exact ⟨rfl, fun _ => trivial⟩
      · exact (writeMetadata_meets IoOp.consults _ rfl (fun _ _ => rfl) fun _ _ => rfl).bind
          fun _ _ => trivial

theorem beginWrite_settles (plan : CachePlan) (status : ℕ) (headers requestHeaders : HeaderMap) :
    Meets (fun o : IoOp => o.settles = true) (fun _ => True)
      (beginWrite plan status headers requestHeaders) := by
  rcases beginWrite_cases plan status headers requestHeaders with
    ⟨hnone, -⟩ | ⟨vary, hopens, -⟩
  · rw [hnone]
    trivial
  · rw [hopens]
    refine ⟨rfl, fun created => ⟨rfl, fun accessed => ⟨rfl, fun now => ?_⟩⟩⟩
    dsimp only
    split
    · trivial
    · refine ⟨rfl, fun tempId => ⟨rfl, fun r => ?_⟩⟩
      rcases r with e | ⟨⟩
      · trivial
      · trivial

theorem commit_commits (cache : Cache) (entry : CacheEntry) (tempBody : Str) :
    Meets (fun o : IoOp => o.commits = true) (fun _ => True) (commit cache entry tempBody) := by
  have hremoves : ∀ o, RemovesOnly o → o.commits = true := by
    intro o h
    cases o with
    | fs o =>
        cases o with
        | read path => rfl
        | metadata path => rfl
        | removeFile path => rfl
        | readDir => rfl
        | _ => exact h.elim
    | _ => exact h.elim
  unfold commit
  simp only [Io.rename_bind]
  refine ⟨rfl, fun r => ?_⟩
  rcases r with e | ⟨⟩
  · trivial
  · refine (writeMetadata_meets IoOp.commits _ rfl (fun _ _ => rfl) fun _ _ => rfl).bind
      fun r _ => ?_
    rcases r with e | ⟨⟩
    · trivial
    · exact ((evict_removesOnly cache).mono hremoves fun _ _ => trivial).bind fun _ _ => trivial

/-- Where the request is when the tiers have been asked. -/
def TiersAsked : Except AppError (Option Response) → Phase → Prop
  | .error _, φ => φ = .refused
  | .ok (some response), φ => φ = .refused ∧ ∃ bytes, response.body = .full bytes
  | .ok none, φ => φ = .consulting

omit [Crates] in
theorem checkTiers_follows (tiers : List LimitTier) :
    Follows (requestProtocol state key) TiersAsked (checkTiers key tiers) (.start tiers) := by
  induction tiers with
  | nil => exact rfl
  | cons tier rest ih =>
      unfold checkTiers
      simp only [Io.checkLimit_bind]
      refine Follows.op (if_pos ⟨rfl, rfl⟩) fun answer => ?_
      rcases answer with e | snapshot
      · exact rfl
      · dsimp only [Phase.afterCheck]
        split
        · exact ih
        · exact ⟨rfl, _, rfl⟩

theorem lookupPlanned_follows (plan : Option CachePlan) :
    Follows (requestProtocol state key) (fun _ φ => φ = .consulting)
      (lookupPlanned state plan) .consulting := by
  unfold lookupPlanned
  split
  · refine Follows.op (requestProtocol_consulting rfl) fun now => ?_
    exact (Follows.stay (lookup_consults _ _) fun o => requestProtocol_consulting).mono
      fun _ _ h => h.2
  · exact rfl

/-- Where the request is when the redirect loop has come to its end. -/
def FetchedAt (key : RateLimitKey) : Except AppError Fetched → Phase → Prop
  | .error _, φ => φ ≠ .told
  | .ok (.confirmed response), φ =>
      φ = .settling ∧ ∃ path guard, response.body = .cached path key.bucket guard
  | .ok (.final _ _), φ => φ.Fetched

theorem confirmEntry_follows {target : Url} {plan : CachePlan} {entry : CacheEntry}
    {confirmed : HeaderMap} (hφ : φ.Fetched) :
    Follows (requestProtocol state key) (FetchedAt key)
      (confirmEntry state key.bucket target plan entry confirmed) φ := by
  have hrefresh : Follows (requestProtocol state key) (fun _ φ => φ = .settling)
      (refresh entry confirmed plan.ttl) φ := by
    unfold refresh
    simp only [Io.nowSeconds_bind, Io.systemTime_bind]
    refine Follows.op (requestProtocol_fetched hφ rfl) fun created => ?_
    refine Follows.op (requestProtocol_fetched (.inl rfl) rfl) fun now => ?_
    refine Follows.bind (Follows.stay
      (writeMetadata_meets IoOp.settles _ rfl (fun _ _ => rfl) fun _ _ => rfl)
      fun o => requestProtocol_fetched (.inl rfl)) fun written φ h => ?_
    exact h.2
  unfold confirmEntry
  refine hrefresh.bind ?_
  rintro ⟨entry, written⟩ φ rfl
  have hne : Phase.settling ≠ .told := Phase.Fetched.ne_told (.inl rfl)
  rcases written with e | ⟨⟩
  · exact hne
  · dsimp only [Follows, pure]
    cases hresponse : cachedResponse state entry key.bucket state.resultMax cacheRevalidated
        target with
    | error e => exact hne
    | ok response => exact ⟨rfl, _, _, cachedResponse_body hresponse⟩

/-- One turn of the redirect loop, from a phase in which a request may be sent. -/
theorem redirectTurn_follows {target url : Url} {plan : Option CachePlan}
    {cachedEntry : Option CacheEntry} {left : ℕ}
    {onward : UpstreamResponse → Prog Io (Except AppError Fetched)}
    (hsend : ∀ request, requestProtocol state key φ (.send request) =
      some fun _ => .fetching left)
    (honward : ∀ resp, Follows (requestProtocol state key) (FetchedAt key) (onward resp)
      (.fetching left)) :
    Follows (requestProtocol state key) (FetchedAt key)
      (redirectTurn state requestHeaders key.bucket target plan cachedEntry url onward) φ := by
  unfold redirectTurn
  simp only [Io.send_bind]
  refine Follows.op (hsend _) fun answer => ?_
  have hfetched : (Phase.fetching left).Fetched := .inr ⟨left, rfl⟩
  rcases answer with e | resp
  · exact hfetched.ne_told
  · dsimp only
    split
    · exact confirmEntry_follows hfetched
    · split
      · exact hfetched
      · split
        · exact hfetched.ne_told
        · exact honward resp

theorem followRedirects_follows {origin : Origin} {target : Url} {plan : Option CachePlan}
    {cachedEntry : Option CacheEntry} (left : ℕ) :
    ∀ {url φ}, (∀ request, requestProtocol state key φ (.send request) =
        some fun _ => .fetching left) →
      Follows (requestProtocol state key) (FetchedAt key)
        (followRedirects state origin requestHeaders key.bucket target plan cachedEntry left url)
        φ := by
  induction left with
  | zero =>
      intro url φ hsend
      exact redirectTurn_follows hsend fun resp => Phase.Fetched.ne_told (.inr ⟨0, rfl⟩)
  | succ left ih =>
      intro url φ hsend
      refine redirectTurn_follows hsend fun resp => ?_
      split
      · exact Phase.Fetched.ne_told (.inr ⟨left + 1, rfl⟩)
      · exact ih fun request => rfl

/-- Where the request is when the handler has returned. -/
def HandledAt (key : RateLimitKey) : Except AppError Response → Phase → Prop
  | .error _, φ => φ ≠ .told
  | .ok response, φ =>
      match response.body with
      | .full _ => φ = .refused
      | .cached _ bucket _ => bucket = key.bucket ∧ (φ = .consulting ∨ φ = .settling)
      | .live _ bucket _ _ _ => bucket = key.bucket ∧ φ.Open

omit [Crates] in
theorem HandledAt.of_cached {response : Response} {path : Str} {guard : ResultSizeGuard}
    (hbody : response.body = .cached path key.bucket guard)
    (hφ : φ = .consulting ∨ φ = .settling) : HandledAt key (.ok response) φ := by
  simpa [HandledAt, hbody] using hφ

theorem beginWritePlanned_follows {plan : Option CachePlan} {upstreamResponse : UpstreamResponse}
    (hφ : φ.Fetched) :
    Follows (requestProtocol state key) (fun _ φ => φ.Fetched)
      (beginWritePlanned state plan upstreamResponse requestHeaders) φ := by
  unfold beginWritePlanned
  split
  · exact (Follows.of_meets (I := Phase.Fetched) (beginWrite_settles _ _ _ _)
      (fun φ o hφ ho => ⟨_, requestProtocol_fetched hφ ho, fun _ => .inl rfl⟩) hφ).mono
        fun _ _ h => h.2
  · exact hφ

theorem liveResponse_follows {target finalUrl : Url} {plan : Option CachePlan}
    {revalidated : Bool} {upstreamResponse : UpstreamResponse} (hφ : φ.Fetched) :
    Follows (requestProtocol state key) (HandledAt key)
      (liveResponse state requestHeaders key.bucket target finalUrl plan revalidated
        upstreamResponse) φ := by
  unfold liveResponse
  dsimp only
  split
  · exact hφ.ne_told
  · exact (beginWritePlanned_follows hφ).bind fun writer φ hφ => ⟨rfl, .inr hφ⟩

theorem fetchUpstream_follows {target : Url} {plan : Option CachePlan}
    {cachedEntry : Option CacheEntry} {force : Bool} :
    Follows (requestProtocol state key) (HandledAt key)
      (fetchUpstream state key requestHeaders target plan cachedEntry force) .consulting := by
  unfold fetchUpstream
  refine (followRedirects_follows _ fun request => rfl).bind fun fetched φ hfetched => ?_
  rcases fetched with e | ⟨response⟩ | ⟨resp, finalUrl⟩
  · exact hfetched
  · obtain ⟨rfl, path, guard, hbody⟩ := hfetched
    exact HandledAt.of_cached hbody (.inr rfl)
  · exact liveResponse_follows hfetched

theorem answerAdmitted_follows {target : Url} :
    Follows (requestProtocol state key) (HandledAt key)
      (answerAdmitted state key requestHeaders target) .consulting := by
  unfold answerAdmitted
  dsimp only
  refine (lookupPlanned_follows _).bind ?_
  rintro entry φ rfl
  split
  · refine Follows.op (requestProtocol_consulting rfl) fun (now : ℕ) => ?_
    show Follows _ _ (if isFresh _ (now / 10 ^ 9) = true then _ else _) _
    split
    · dsimp only [Follows, pure]
      cases hresponse : cachedResponse state _ key.bucket state.resultMax cacheHit target with
      | error e =>
          show Phase.consulting ≠ .told
          simp
      | ok response => exact HandledAt.of_cached (cachedResponse_body hresponse) (.inl rfl)
    · exact fetchUpstream_follows
  · exact fetchUpstream_follows

theorem proxyHandler_follows (uri : OriginalUri) :
    Follows (requestProtocol state key) (HandledAt key)
      (proxyHandler state uri key requestHeaders) (.start state.rateLimit) := by
  have hstart : Phase.start state.rateLimit ≠ .told := by
    cases state.rateLimit <;> simp [Phase.start]
  unfold proxyHandler
  split
  · exact hstart
  · split
    · exact hstart
    · split
      · exact hstart
      · refine (checkTiers_follows state.rateLimit).bind fun asked φ hasked => ?_
        rcases asked with e | _ | response
        · obtain rfl := hasked
          show Phase.refused ≠ .told
          simp
        · obtain rfl := hasked
          exact answerAdmitted_follows
        · obtain ⟨rfl, bytes, hbody⟩ := hasked
          show HandledAt key (.ok response) .refused
          simp only [HandledAt, hbody]

/-! ## The body -/

omit [Crates] in
/-- The chunks of a body, each charged before it is handed over. -/
theorem meteredStream_follows {σ : Type} {R : σ → Prop}
    {onItem : σ → Except MeteredError Bytes → Prog Io σ}
    (hchunk : ∀ s chunk, Follows (requestProtocol state key) (fun _ φ => φ = .streaming)
      (onItem s (.ok chunk)) (.charged chunk.length))
    (herror : ∀ s e φ, φ.Open → Follows (requestProtocol state key)
      (fun s φ => R s ∧ φ = .broken) (onItem s (.error e)) φ)
    (items : List (Except Str Bytes)) :
    ∀ {guard s φ}, φ.Open → Follows (requestProtocol state key)
      (fun s φ => φ.Open ∨ R s ∧ φ = .broken) (meteredStream key.bucket onItem guard items s)
      φ := by
  induction items with
  | nil => exact fun hφ => .inl hφ
  | cons item rest ih =>
      intro guard s φ hφ
      rcases item with e | chunk
      · exact (herror s _ φ hφ).mono fun _ _ h => .inr h
      · unfold meteredStream
        rcases guard.charge chunk.length with ⟨verdict, next⟩
        rcases verdict with e | ⟨⟩
        · exact (herror s _ φ hφ).mono fun _ _ h => .inr h
        · simp only [Io.charge_bind]
          refine Follows.op (requestProtocol_open hφ (if_pos rfl)) fun charged => ?_
          exact (hchunk s chunk).bind fun s φ hs => ih (.inl hs)

omit [Crates] in
theorem discard_follows (w : CacheWriter)
    (h : ∀ path, requestProtocol state key φ (.fs (.removeFile path)) = some fun _ => φ) :
    Follows (requestProtocol state key) (fun _ ψ => ψ = φ) w.discard φ :=
  Follows.op (h w.tempBody) fun _ => rfl

omit [Crates] in
/-- A chunk goes to the writer before it goes to the consumer. -/
theorem teeItem_follows_chunk (writer : Option CacheWriter) (chunk : Bytes) :
    Follows (requestProtocol state key) (fun _ φ => φ = .streaming) (teeItem writer (.ok chunk))
      (.charged chunk.length) := by
  have hwrite : Follows (requestProtocol state key) (fun _ φ => φ = .charged chunk.length)
      (teeWrite chunk writer) (.charged chunk.length) := by
    rcases writer with _ | w
    · exact rfl
    · unfold teeWrite CacheWriter.write
      simp only [Io.writeAll_bind]
      refine Follows.op (if_pos rfl) fun written => ?_
      rcases written with e | ⟨⟩
      · exact (discard_follows w fun path => rfl).bind fun _ φ hφ => hφ
      · exact rfl
  unfold teeItem
  refine hwrite.bind ?_
  rintro writer φ rfl
  exact Follows.op (if_pos rfl) fun _ => rfl

omit [Crates] in
/-- An error is handed over when the writer has been given up. -/
theorem teeItem_follows_error (writer : Option CacheWriter) (e : MeteredError) (φ : Phase)
    (hφ : φ.Open) :
    Follows (requestProtocol state key) (fun writer φ => writer = none ∧ φ = .broken)
      (teeItem writer (.error e)) φ := by
  have hdiscard : Follows (requestProtocol state key) (fun _ φ => φ.Open) (teeDiscard writer)
      φ := by
    rcases writer with _ | w
    · exact hφ
    · exact Follows.op (requestProtocol_open hφ rfl) fun _ => .inl rfl
  unfold teeItem
  refine hdiscard.bind fun _ φ hφ => ?_
  exact Follows.op (requestProtocol_open hφ rfl) fun _ => ⟨rfl, rfl⟩

/-- Where the request is when its body has been streamed. -/
def ServedAt : Except AppError Response → Phase → Prop
  | .error _, φ => φ ≠ .told
  | .ok response, φ =>
      match response.body with
      | .full _ => φ = .told
      | _ => φ.Open ∨ φ = .broken ∨ φ = .committing

theorem stream_follows {response : Response} (hφ : HandledAt key (.ok response) φ) :
    Follows (requestProtocol state key) (fun _ φ => ServedAt (.ok response) φ)
      response.body.stream φ := by
  obtain ⟨status, headers, body⟩ := response
  rcases body with bytes | ⟨path, bucket, guard⟩ | ⟨items, bucket, guard, cache, writer⟩
  · obtain rfl : φ = .refused := hφ
    exact Follows.op rfl fun _ => rfl
  · obtain ⟨rfl, hφ⟩ := hφ
    have hopen : ∀ path, requestProtocol state key φ (.fs (.openFile path)) =
        some fun _ => .streaming := by
      rcases hφ with rfl | rfl <;> exact fun _ => rfl
    show Follows _ _ (fileStream path >>= _) φ
    unfold fileStream
    simp only [Io.openFile_bind]
    refine Follows.op (hopen path) fun answer => ?_
    have hitems : ∀ items : List (Except Str Bytes), Follows (requestProtocol state key)
        (fun _ φ => φ.Open ∨ φ = .broken ∨ φ = .committing)
        (meteredStream key.bucket (fun _ item => Io.yield (item.mapError MeteredError.toText))
          guard items ()) .streaming := by
      intro items
      refine (meteredStream_follows (R := fun _ => True) (fun _ chunk => ?_)
        (fun _ e φ hφ => ?_) items (.inl rfl)).mono fun _ φ h => h.imp_right fun h => .inl h.2
      · exact Follows.op (if_pos rfl) fun _ => rfl
      · exact Follows.op (requestProtocol_open hφ rfl) fun _ => ⟨trivial, rfl⟩
    rcases answer with e | read
    · exact hitems _
    · exact hitems _
  · obtain ⟨rfl, hφ⟩ := hφ
    show Follows _ _ (meteredStream key.bucket teeItem guard items writer >>= _) φ
    refine (meteredStream_follows teeItem_follows_chunk teeItem_follows_error items hφ).bind
      fun writer φ hφ => ?_
    split
    · next cache w =>
      rcases hφ with hφ | ⟨hnone, -⟩
      · refine Follows.bind (Q := fun _ φ => φ = .committing) ?_ fun _ φ hφ => .inr (.inr hφ)
        unfold CacheWriter.finish
        simp only [Io.flush_bind]
        refine Follows.op (requestProtocol_open hφ rfl) fun flushed => ?_
        rcases flushed with e | ⟨⟩
        · exact rfl
        · exact (Follows.stay (commit_commits _ _ _) fun o => requestProtocol_committing).mono
            fun _ _ h => h.2
      · cases hnone
    · exact hφ.imp_right fun h => .inl h.2

/-- **A request follows its protocol**, from its arrival to the end of its body. -/
theorem serve_follows_protocol (uri : OriginalUri) :
    Follows (requestProtocol state key) ServedAt (serve state uri key requestHeaders)
      (.start state.rateLimit) := by
  unfold serve
  refine (proxyHandler_follows uri).bind fun result φ hφ => ?_
  rcases result with e | response
  · exact hφ
  · exact (stream_follows hφ).bind fun _ φ hφ => hφ

end Parts

/-! ## One step of the protocol -/

/-- An event of the protocol, with the phases before and after it. -/
inductive Moves (state : AppState) (key : RateLimitKey) : Phase → Event Io → Phase → Prop
  | ask {tier : LimitTier} {rest : List LimitTier} {answer : Except Str Snapshot} :
      Moves state key (.limiting tier rest) ⟨.checkLimit key tier.quota, answer⟩
        (.afterCheck rest answer)
  | tell {bytes : Bytes} {r : Unit} : Moves state key .refused ⟨.yield (.ok bytes), r⟩ .told
  | consult {e : Event Io} (h : e.1.consults = true) : Moves state key .consulting e .consulting
  | hit {path : Str} {r : Except IoError FileRead} :
      Moves state key .consulting ⟨.fs (.openFile path), r⟩ .streaming
  | fetch {request : UpstreamRequest} {r : Except ClientError UpstreamResponse} :
      Moves state key .consulting ⟨.send request, r⟩ (.fetching state.maxRedirects)
  | hop {left : ℕ} {request : UpstreamRequest} {r : Except ClientError UpstreamResponse} :
      Moves state key (.fetching (left + 1)) ⟨.send request, r⟩ (.fetching left)
  | settle {φ : Phase} {e : Event Io} (hφ : φ.Fetched) (h : e.1.settles = true) :
      Moves state key φ e .settling
  | confirm {path : Str} {r : Except IoError FileRead} :
      Moves state key .settling ⟨.fs (.openFile path), r⟩ .streaming
  | charge {φ : Phase} {n : ℕ} {r : Except BandwidthError Unit} (hφ : φ.Open) :
      Moves state key φ ⟨.charge key.bucket n, r⟩ (.charged n)
  | fail {φ : Phase} {text : Str} {r : Unit} (hφ : φ.Open) :
      Moves state key φ ⟨.yield (.error text), r⟩ .broken
  | giveUp {φ : Phase} {path : Str} {r : Except IoError Unit} (hφ : φ.Open) :
      Moves state key φ ⟨.fs (.removeFile path), r⟩ .streaming
  | finish {φ : Phase} {path : Str} {r : Except IoError Unit} (hφ : φ.Open) :
      Moves state key φ ⟨.fs (.flush path), r⟩ .committing
  | tee {path : Str} {bytes : Bytes} {r : Except IoError Unit} :
      Moves state key (.charged bytes.length) ⟨.fs (.writeAll path bytes), r⟩
        (.charged bytes.length)
  | untee {n : ℕ} {path : Str} {r : Except IoError Unit} :
      Moves state key (.charged n) ⟨.fs (.removeFile path), r⟩ (.charged n)
  | deliver {bytes : Bytes} {r : Unit} :
      Moves state key (.charged bytes.length) ⟨.yield (.ok bytes), r⟩ .streaming
  | commit {e : Event Io} (h : e.1.commits = true) : Moves state key .committing e .committing

section Words

variable {state : AppState} {key : RateLimitKey} {φ : Phase}

theorem moves_of_streams (hφ : φ.Open) {o : IoOp} {next : Io.Res o → Phase}
    (h : streams key.bucket o = some next) (r : Io.Res o) : Moves state key φ ⟨o, r⟩ (next r) := by
  cases o with
  | fs o =>
      cases o with
      | removeFile path => exact Option.some.inj h ▸ .giveUp hφ
      | flush path => exact Option.some.inj h ▸ .finish hφ
      | _ => cases h
  | charge bucket n =>
      obtain ⟨rfl, hnext⟩ := Option.ite_none_right_eq_some.mp h
      exact Option.some.inj hnext ▸ .charge hφ
  | yield item =>
      cases item with
      | error text => exact Option.some.inj h ▸ .fail hφ
      | ok bytes => cases h
  | _ => cases h

/-- Every step of the protocol is one of the listed ones. -/
theorem moves_of_requestProtocol {o : IoOp} {next : Io.Res o → Phase}
    (h : requestProtocol state key φ o = some next) (r : Io.Res o) :
    Moves state key φ ⟨o, r⟩ (next r) := by
  have hfetched : ∀ {φ : Phase}, φ.Fetched →
      (if o.settles then some fun _ => .settling else streams key.bucket o) = some next →
        Moves state key φ ⟨o, r⟩ (next r) := by
    intro φ hφ h
    split at h
    · next hsettles => exact Option.some.inj h ▸ .settle hφ hsettles
    · exact moves_of_streams (.inr hφ) h r
  cases φ with
  | limiting tier rest =>
      cases o with
      | checkLimit k quota =>
          obtain ⟨⟨rfl, rfl⟩, hnext⟩ := Option.ite_none_right_eq_some.mp h
          exact Option.some.inj hnext ▸ .ask
      | _ => cases h
  | refused =>
      cases o with
      | yield item =>
          cases item with
          | error text => cases h
          | ok bytes => exact Option.some.inj h ▸ .tell
      | _ => cases h
  | told => cases h
  | consulting =>
      have hconsult : (if o.consults then some fun _ => Phase.consulting else none) = some next →
          Moves state key .consulting ⟨o, r⟩ (next r) := by
        intro h
        obtain ⟨hconsults, hnext⟩ := Option.ite_none_right_eq_some.mp h
        exact Option.some.inj hnext ▸ .consult hconsults
      cases o with
      | fs o =>
          cases o with
          | openFile path => exact Option.some.inj h ▸ .hit
          | _ => exact hconsult h
      | send request => exact Option.some.inj h ▸ .fetch
      | _ => exact hconsult h
  | fetching left =>
      cases left with
      | zero => exact hfetched (.inr ⟨0, rfl⟩) h
      | succ left =>
          cases o with
          | send request => exact Option.some.inj h ▸ .hop
          | _ => exact hfetched (.inr ⟨left + 1, rfl⟩) h
  | settling =>
      cases o with
      | fs o =>
          cases o with
          | openFile path => exact Option.some.inj h ▸ .confirm
          | _ => exact hfetched (.inl rfl) h
      | _ => exact hfetched (.inl rfl) h
  | streaming => exact moves_of_streams (.inl rfl) h r
  | charged n =>
      cases o with
      | fs o =>
          cases o with
          | removeFile path => exact Option.some.inj h ▸ .untee
          | writeAll path bytes =>
              obtain ⟨rfl, hnext⟩ := Option.ite_none_right_eq_some.mp h
              exact Option.some.inj hnext ▸ .tee
          | _ => cases h
      | yield item =>
          cases item with
          | error text => cases h
          | ok bytes =>
              obtain ⟨rfl, hnext⟩ := Option.ite_none_right_eq_some.mp h
              exact Option.some.inj hnext ▸ .deliver
      | _ => cases h
  | broken => cases h
  | committing =>
      obtain ⟨hcommits, hnext⟩ := Option.ite_none_right_eq_some.mp h
      exact Option.some.inj hnext ▸ .commit hcommits

end Words

end Corsget
