import Corsget.Disciplines
import Corsget.RedirectChain
import Corsget.RequestOrder
import Corsget.Tee
import Corsget.Untorn

/-!
# What the consumer gets

From the first byte to the last, the body of a response is one of three things (`Relayed`): a
text of the proxy's own, the bytes that are read from a stored body, or the body of the answer
with which the redirect chain of this very run has ended, under its status.  In the last two
cases it is cut only where the cap of a result demands it, or where the source of the bytes
fails (a read of the file, or the connection), and then it ends with an error.

`serve_relays` is the theorem over whole runs, for every behaviour of the environment: what the
cache writer does on the way, which tiers are exceeded and which file steps fail makes no
difference to the bytes.
-/

namespace Corsget

open Text Effect

/-! ## Items handed over -/

/-- What a run hands over is what its operations do. -/
theorem handed_eq (es : List (Event Io)) :
    handed es = (es.map Sigma.fst).filterMap IoOp.handed := by
  unfold handed
  rw [List.filterMap_map]
  refine List.filterMap_congr fun e _ => ?_
  obtain ⟨o, r⟩ := e
  cases o with
  | yield item => rfl
  | _ => rfl

theorem handed_append (es es' : List (Event Io)) :
    handed (es ++ es') = handed es ++ handed es' := List.filterMap_append

/-- Items as the consumer sees them. -/
def shown (items : List (Except MeteredError Bytes)) : List (Except Str Bytes) :=
  items.map (Except.mapError MeteredError.toText)

/-- The items of a file, by what opening and reading it answered. -/
def openedItems : Except IoError FileRead → List (Except Str Bytes)
  | .error e => [.error e]
  | .ok read => read.items

/-- A stored body hands over the metered items of its file. -/
theorem handed_cached [Crates] {path bucket : Str} {guard : ResultSizeGuard}
    {es : List (Event Io)} (h : Trace (Body.cached path bucket guard).stream es ()) :
    ∃ answer : Except IoError FileRead, (⟨.fs (.openFile path), answer⟩ : Event Io) ∈ es ∧
      handed es = shown (meteredItems guard (openedItems answer)) := by
  have hitems : ∀ {items : List (Except Str Bytes)} {es : List (Event Io)},
      Trace (meteredStream bucket (fun _ item => Io.yield (item.mapError MeteredError.toText))
        guard items ()) es () → handed es = shown (meteredItems guard items) := by
    intro items es h
    rw [meteredStream_eq_handOver] at h
    obtain ⟨-, hops⟩ := @handOver_trace _ bucket _ (fun _ _ => ()) (fun _ => True)
      (fun _ _ _ => trivial) (fun _ _ _ => rfl) _ _ _ _ trivial h
    rw [handed_eq, hops, handed_itemOps]
    rfl
  obtain ⟨answer, rest, rfl, hrest⟩ := Trace.op_iff.mp h
  refine ⟨answer, List.mem_cons_self, ?_⟩
  show handed rest = _
  cases answer with
  | error e => exact hitems hrest
  | ok read => exact hitems hrest

/-- A live body hands over the metered items of the answer, whatever becomes of the writer. -/
theorem handed_live [Crates] {items : List (Except Str Bytes)} {bucket : Str}
    {guard : ResultSizeGuard} {cache : Option Cache} {writer : Option CacheWriter}
    {es : List (Event Io)} (h : Trace (Body.live items bucket guard cache writer).stream es ()) :
    handed es = shown (meteredItems guard items) := by
  obtain ⟨before, left, after, rfl, htee, hend⟩ := Trace.bind_iff.mp h
  rw [meteredStream_eq_handOver] at htee
  have hbefore : handed before = shown (meteredItems guard items) := by
    rw [handed_eq]
    cases writer with
    | none =>
        obtain ⟨-, hops⟩ := handOver_tee_none _ htee
        rw [hops, handed_itemOps]
        rfl
    | some w => exact (teed_of_trace _ htee).handed
  -- Finishing the writer hands nothing over.
  have hafter : handed after = [] := by
    rw [handed_eq]
    refine handed_eq_nil fun e he => ?_
    split at hend
    · next cache w =>
      obtain ⟨finished, r, rest, rfl, hfinish, hrest⟩ := Trace.bind_iff.mp hend
      obtain ⟨rfl, -⟩ := Trace.ret_iff.mp hrest
      rw [List.append_nil] at he
      exact ((finish_isCommitOp cache w).of_trace hfinish).1 e he
    · obtain ⟨rfl, -⟩ := Trace.ret_iff.mp hend
      cases he
  rw [handed_append, hbefore, hafter, List.append_nil]

/-- No operation of the store hands anything over. -/
theorem handed_eq_none_of_isStoreOp (o : IoOp) (h : IsStoreOp o) : o.handed = none := by
  cases o with
  | yield item => exact h.elim
  | _ => rfl

/-- Before the body nothing is handed over. -/
theorem handed_handler [Crates] {state : AppState} {uri : OriginalUri} {key : RateLimitKey}
    {requestHeaders : HeaderMap} {es : List (Event Io)} {result : Except AppError Response}
    (h : Trace (proxyHandler state uri key requestHeaders) es result) : handed es = [] := by
  have hstore : ∀ {α : Type} {p : Prog Io α}, StoreOnly p →
      Assuming (fun _ => True) (fun o : IoOp => o.handed = none) (fun _ => True) p :=
    fun hp => .of_meets (hp.mono handed_eq_none_of_isStoreOp fun _ _ => trivial)
  have hdiscipline : ∀ plan : CachePlan, Discipline (fun _ => True)
      (fun o : IoOp => o.handed = none) plan (fun _ => True) fun _ => True := by
    intro plan
    refine ⟨fun now => ?_, fun entry headers _ => ?_, fun status headers requestHeaders => ?_⟩
    · exact (hstore (lookup_storeOnly plan now)).mono (fun _ h => h) fun _ _ _ _ => trivial
    · exact hstore (refresh_storeOnly entry headers plan.ttl)
    · exact (hstore (beginWrite_storeOnly plan status headers requestHeaders)).mono
        (fun _ h => h) fun _ _ _ _ => trivial
  have hhandler : Assuming (fun _ => True) (fun o : IoOp => o.handed = none)
      (Obeys (fun _ => True) (fun _ => True) fun _ => True)
      (proxyHandler state uri key requestHeaders) :=
    proxyHandler_assuming ⟨rfl, fun _ _ => rfl, fun _ => rfl⟩ (fun _ _ plan _ => hdiscipline plan)
      (fun _ _ => trivial) fun _ _ => trivial
  refine List.filterMap_eq_nil_iff.mpr fun e he => ?_
  obtain ⟨before, after, hsplit⟩ := List.append_of_mem he
  have hnone := (hhandler.of_trace h).1 before e after hsplit fun _ _ => trivial
  obtain ⟨o, r⟩ := e
  cases o with
  | yield item => cases hnone
  | _ => rfl

/-! ## The answer and the body -/

/-- **What the consumer gets** of a run that answers. -/
inductive Relayed [Crates] (state : AppState) (uri : OriginalUri) (requestHeaders : HeaderMap)
    (es : List (Event Io)) (response : Response) : Prop
  /-- A text of the proxy's own, and the upstream was not asked. -/
  | own (bytes : Bytes) (hbody : response.body = .full bytes) (hhops : hopsOf es = [])
      (hhanded : handed es = [.ok bytes])
  /-- The bytes that were read from a stored body, and the error of the read that failed, if one
  did, as far as the cap allows. -/
  | stored (path bucket : Str) (guard : ResultSizeGuard) (read : FileRead) (chunks : List Bytes)
      (delivered : List Bytes) (yielded : List (Except MeteredError Bytes))
      (hbody : response.body = .cached path bucket guard)
      (hopened : (⟨.fs (.openFile path), (.ok read : Except IoError FileRead)⟩ : Event Io) ∈ es)
      (hbytes : chunks.flatten = read.bytes)
      (hdelivery : Delivery state.resultMax 0
        (chunks.map .ok ++ read.failed.toList.map .error) delivered yielded)
      (hhanded : handed es = shown yielded)
  /-- An error, since the file of a stored body could not be opened. -/
  | lost (path bucket : Str) (guard : ResultSizeGuard) (e : IoError)
      (hbody : response.body = .cached path bucket guard)
      (hopened : (⟨.fs (.openFile path), (.error e : Except IoError FileRead)⟩ : Event Io) ∈ es)
      (hhanded : handed es = [.error (MeteredError.upstream e).toText])
  /-- The answer at the end of the redirect chain: its status, its headers as far as they are
  passed on, and its body as far as the cap allows. -/
  | live (target : Url) (last : Hop) (resp : UpstreamResponse) (revalidated : Bool)
      (delivered : List Bytes) (yielded : List (Except MeteredError Bytes))
      (htarget : parseTargetUrl uri = .ok target) (hlast : (hopsOf es).getLast? = some last)
      (hanswer : last.answer = .ok resp) (hstatus : response.status = resp.status)
      (hheaders : response.headers = liveResponseHeaders state target last.request.url
        (planOf state target requestHeaders) revalidated resp.headers)
      (hdelivery : Delivery state.resultMax 0 resp.body delivered yielded)
      (hhanded : handed es = shown yielded)

/-- The metered items of a new guard are a delivery under its cap. -/
theorem exists_delivery {max : ℕ} (hmax : max < 2 ^ 64 - 1) (items : List (Except Str Bytes)) :
    ∃ delivered, Delivery max 0 items delivered (meteredItems (.new max) items) := by
  have hcounts : (ResultSizeGuard.new max).Counts 0 := fun _ => ⟨rfl, Nat.zero_le _⟩
  exact delivery_meteredItems items hmax hcounts

section Request

variable [Crates] {state : AppState} {uri : OriginalUri} {key : RateLimitKey}
  {requestHeaders : HeaderMap} {handled streamed : List (Event Io)} {response : Response}

/-- A response with a stored body. -/
theorem relayed_of_cached {path bucket : Str} (hmax : state.resultMax < 2 ^ 64 - 1)
    (hbody : response.body = .cached path bucket (.new state.resultMax))
    (hhandled : handed handled = []) (hstream : Trace response.body.stream streamed ()) :
    Relayed state uri requestHeaders (handled ++ streamed) response := by
  rw [hbody] at hstream
  obtain ⟨answer, hopened, hhanded⟩ := handed_cached hstream
  have hmem := List.mem_append_right handled hopened
  have hall : handed (handled ++ streamed) =
      shown (meteredItems (.new state.resultMax) (openedItems answer)) := by
    rw [handed_append, hhandled, List.nil_append, hhanded]
  cases answer with
  | error e => exact .lost path bucket _ e hbody hmem hall
  | ok read =>
      obtain ⟨delivered, hdelivery⟩ := exists_delivery hmax (openedItems (.ok read))
      exact .stored path bucket _ read _ delivered _ hbody hmem (flatten_fileChunks le_rfl)
        hdelivery hall

/-- A response with the body of an answer. -/
theorem relayed_of_live {target finalUrl : Url} {upstream : UpstreamResponse} {revalidated : Bool}
    {bucket : Str} {writer : Option CacheWriter} {last : Hop}
    (hmax : state.resultMax < 2 ^ 64 - 1) (htarget : parseTargetUrl uri = .ok target)
    (hlast : (hopsOf handled).getLast? = some last)
    (hfinal : last.answer = .ok upstream ∧ last.request.url = finalUrl)
    (hresponse : response = {
      status := upstream.status
      headers := liveResponseHeaders state target finalUrl (planOf state target requestHeaders)
        revalidated upstream.headers
      body := .live upstream.body bucket (.new state.resultMax) state.cache writer })
    (hhandled : handed handled = []) (hquiet : ∀ e ∈ streamed, Quiet e.1)
    (hstream : Trace response.body.stream streamed ()) :
    Relayed state uri requestHeaders (handled ++ streamed) response := by
  obtain ⟨hanswer, rfl⟩ := hfinal
  subst hresponse
  obtain ⟨delivered, hdelivery⟩ := exists_delivery hmax upstream.body
  refine .live target last upstream revalidated delivered _ htarget ?_ hanswer rfl rfl
    hdelivery ?_
  · rw [hops_append_quiet hquiet]
    exact hlast
  · rw [handed_append, hhandled, List.nil_append]
    exact handed_live hstream

/-- **The consumer gets the answer**: the proxy's own text, what was read of a stored body, or
what the upstream answered at the end of the redirect chain. -/
theorem serve_relays {es : List (Event Io)} (hmax : state.resultMax < 2 ^ 64 - 1)
    (htrace : Trace (serve state uri key requestHeaders) es (.ok response)) :
    Relayed state uri requestHeaders es response := by
  unfold serve at htrace
  obtain ⟨handled, result, delivered, rfl, hhandler, hdeliver⟩ := Trace.bind_iff.mp htrace
  have hquiet := quiet_of_trace (deliver_confined (answered_true result)) hdeliver
  have hhandled := handed_handler hhandler
  cases result with
  | error e => cases (Trace.ret_iff.mp hdeliver).2
  | ok answered =>
      obtain ⟨streamed, _, rest, rfl, hstream, hret⟩ := Trace.bind_iff.mp hdeliver
      obtain ⟨rfl, hresult⟩ := Trace.ret_iff.mp hret
      obtain rfl := Except.ok.inj hresult
      rw [List.append_nil] at hquiet ⊢
      rcases proxyHandler_cases hhandler with
        ⟨hhandlerQuiet, hown⟩ | ⟨target, tiers, rest, htarget, -, rfl, htiers, hrest⟩
      · obtain ⟨bytes, hbody⟩ := hown _ rfl
        refine .own bytes hbody ?_ ?_
        · rw [hops_append_quiet hquiet, hops_eq_nil_of_quiet hhandlerQuiet]
        · rw [hbody] at hstream
          obtain ⟨_, later, rfl, hend⟩ := Trace.op_iff.mp hstream
          obtain ⟨rfl, -⟩ := Trace.ret_iff.mp hend
          rw [handed_append, hhandled]
          rfl
      · have htiersQuiet := quiet_of_trace (checkTiers_confined trivial state.rateLimit) htiers
        obtain ⟨lookup, entry, fetch, rfl, hlookup, hexit⟩ := answerAdmitted_cases hrest
        have hlookupQuiet := quiet_of_trace (lookupPlanned_confined fun _ => trivial) hlookup
        rcases hexit with ⟨found, now, -, -, -, hcached⟩ | ⟨clock, fetch, rfl, hclock, hfetch⟩
        · exact relayed_of_cached hmax (cachedResponse_body hcached) hhandled hstream
        · obtain ⟨loop, fetched, rest, rfl, hloop, hrestQuiet, hends⟩ := fetchUpstream_cases hfetch
          rcases hends with rfl | ⟨upstream, finalUrl, writer, rfl, hresponse⟩
          · have hended : EndedWith state key.bucket target _ entry loop (.confirmed response) :=
              followRedirects_rule redirectTurn_endedWith state.maxRedirects hloop
            obtain ⟨resp, stored, -, -, -, hcached⟩ := hended
            exact relayed_of_cached hmax (cachedResponse_body hcached) hhandled hstream
          · obtain ⟨-, hlast⟩ := followRedirects_hops state.maxRedirects hloop
            obtain ⟨last, hlast, hend⟩ := hlast _ rfl
            have hclockQuiet : ∀ e ∈ clock, Quiet e.1 := by
              intro e he
              rw [hclock e he]
              trivial
            refine relayed_of_live hmax htarget ?_ (hend.final _ _ rfl) hresponse hhandled hquiet
              hstream
            rw [hops_quiet_append htiersQuiet, hops_quiet_append hlookupQuiet,
              hops_quiet_append hclockQuiet, hops_append_quiet hrestQuiet]
            exact hlast

end Request

/-- The outcome of a request that is redirected once. -/
def redirectedOutcome : Except AppError Response :=
  (exec redirectedWorld
    (@serve redirecting exampleState plainRequest.uri exampleKey tracedHeaders) emptyWorld).1

/-- The theorem for this request. -/
theorem serve_relays_once : ∃ response, redirectedOutcome = .ok response ∧
    @Relayed redirecting exampleState plainRequest.uri tracedHeaders redirectedEvents
      response := by
  have hok : redirectedOutcome.isOk = true := by decide +kernel
  have htrace : Trace (@serve redirecting exampleState plainRequest.uri exampleKey tracedHeaders)
      redirectedEvents redirectedOutcome := trace_exec redirectedWorld _ emptyWorld
  cases houtcome : redirectedOutcome with
  | error e =>
      rw [houtcome] at hok
      cases hok
  | ok response =>
      rw [houtcome] at htrace
      exact ⟨response, rfl, @serve_relays redirecting exampleState plainRequest.uri exampleKey
        tracedHeaders response redirectedEvents (by decide) htrace⟩

end Corsget
