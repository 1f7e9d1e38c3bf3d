import Corsget.RequestProtocol
import Corsget.Supersede

/-!
# The order of events in a request

What the protocol of a request says about every run of the program, and about every beginning of
a run, as a dropped connection or a crash leaves it.

* `asks_tiers_first`: nothing happens before every tier has allowed the request, in the order of
  the configuration, and nothing but the refusal after one has not.
* `charged_before_delivered`: what was handed to the consumer has been charged to its bucket,
  chunk by chunk and in order, and at most one chunk has been charged that was not handed over.
* `commit_comes_last`: a commit begins when the whole body is out, without an error, and behind
  its first step nothing is sent, charged or handed over.
-/

namespace Corsget

open Text Effect

section Histories

variable [Crates] {state : AppState} {key : RateLimitKey} {requestHeaders : HeaderMap}
  {uri : OriginalUri} {cut rest : List (Event Io)} {result : Except AppError Response}

/-- **What every step of the protocol keeps holds at every cut of a request.**  What follows
the cut goes on from the phase there. -/
theorem serve_history {R : List (Event Io) → Phase → Prop}
    (hstep : ∀ es φ e ψ, R es φ → Moves state key φ e ψ → R (es ++ [e]) ψ)
    (hstart : R [] (.start state.rateLimit))
    (htrace : Trace (serve state uri key requestHeaders) (cut ++ rest) result) :
    ∃ φ ψ, R cut φ ∧ (requestProtocol state key).run φ rest = some ψ ∧ ServedAt result ψ := by
  obtain ⟨ψ, hrun, hserved⟩ := (serve_follows_protocol uri).run_of_trace htrace
  obtain ⟨φ, hφ, hrest⟩ := Protocol.run_append_eq_some.mp hrun
  have hkeeps : ∀ past φ o next r, R past φ → requestProtocol state key φ o = some next →
      R (past ++ [⟨o, r⟩]) (next r) :=
    fun past φ o next r hR hnext => hstep past φ ⟨o, r⟩ _ hR (moves_of_requestProtocol hnext r)
  exact ⟨φ, ψ, Protocol.history hkeeps hstart hφ, hrest, hserved⟩

end Histories

/-- **A request refines its protocol.**  Whatever the environment answers, what a request has done
is a word of the automaton at every cut, and at its end it has come to a phase that fits the
result. -/
theorem serve_refines_protocol [Crates] {state : AppState} {uri : OriginalUri}
    {key : RateLimitKey} {requestHeaders : HeaderMap} {es : List (Event Io)}
    {result : Except AppError Response}
    (htrace : Trace (serve state uri key requestHeaders) es result) :
    (∃ φ, (requestProtocol state key).run (.start state.rateLimit) es = some φ ∧
        ServedAt result φ) ∧
      ∀ cut, cut <+: es → ∃ φ, (requestProtocol state key).run (.start state.rateLimit) cut =
        some φ :=
  ⟨(serve_follows_protocol uri).run_of_trace htrace,
    fun _ hcut => (serve_follows_protocol uri).run_of_cut htrace hcut⟩

/-! ## The tiers come first -/

/-- The questions for some tiers. -/
def questions (key : RateLimitKey) (tiers : List LimitTier) : List IoOp :=
  tiers.map fun tier => .checkLimit key tier.quota

/-- Whether an operation is a question to the request limiter. -/
def IoOp.isCheck : IoOp → Bool
  | .checkLimit _ _ => true
  | _ => false

/-- The limiter answered that the request is allowed. -/
def Allows : Event Io → Prop
  | ⟨.checkLimit _ _, answer⟩ => ∃ snapshot, answer = .ok snapshot ∧ snapshot.allowed = true
  | _ => False

/-- The events are the questions for these tiers, and each of them was allowed. -/
structure AllAllowed (key : RateLimitKey) (tiers : List LimitTier) (es : List (Event Io)) :
    Prop where
  asked : es.map Sigma.fst = questions key tiers
  allowed : ∀ e ∈ es, Allows e

/-- **How a request comes past the tiers.** -/
inductive Admission (key : RateLimitKey) (tiers : List LimitTier) : List (Event Io) → Prop
  /-- Some tiers have allowed it, the others are still to be asked. -/
  | asking {first rest : List LimitTier} {es : List (Event Io)} (htiers : tiers = first ++ rest)
      (hes : AllAllowed key first es) : Admission key tiers es
  /-- A tier did not allow it: no other tier is asked, and nothing else happens. -/
  | refused {first rest : List LimitTier} {tier : LimitTier} {es told : List (Event Io)}
      {last : Event Io} (htiers : tiers = first ++ tier :: rest) (hes : AllAllowed key first es)
      (hlast : last.1 = .checkLimit key tier.quota) (hrefuses : ¬ Allows last)
      (htold : told = [] ∨ ∃ bytes r, told = [⟨.yield (.ok bytes), r⟩]) :
      Admission key tiers (es ++ last :: told)
  /-- Every tier allowed it, and none is asked again. -/
  | admitted {es rest : List (Event Io)} (hes : AllAllowed key tiers es)
      (hrest : ∀ e ∈ rest, e.1.isCheck = false) : Admission key tiers (es ++ rest)

namespace AllAllowed

variable {key : RateLimitKey} {tiers : List LimitTier} {es : List (Event Io)}

theorem nil : AllAllowed key [] [] := ⟨rfl, fun _ he => absurd he List.not_mem_nil⟩

theorem snoc {tier : LimitTier} {e : Event Io} (h : AllAllowed key tiers es)
    (he : e.1 = .checkLimit key tier.quota) (hallows : Allows e) :
    AllAllowed key (tiers ++ [tier]) (es ++ [e]) where
  asked := by simp [questions, h.asked, he]
  allowed := by
    intro x hx
    rcases List.mem_append.mp hx with hx | hx
    · exact h.allowed x hx
    · rwa [List.mem_singleton.mp hx]

end AllAllowed

/-- Behind the tiers. -/
def Phase.isAdmitted : Phase → Bool
  | limiting _ _ | refused | told => false
  | _ => true

/-- What has happened when a phase is reached, as far as the tiers are concerned. -/
def AdmissionAt (key : RateLimitKey) (tiers : List LimitTier) (es : List (Event Io)) :
    Phase → Prop
  | .limiting tier rest => ∃ first, tiers = first ++ tier :: rest ∧ AllAllowed key first es
  | .refused => ∃ first rest tier es' last, tiers = first ++ tier :: rest ∧
      AllAllowed key first es' ∧ last.1 = .checkLimit key tier.quota ∧ ¬ Allows last ∧
        es = es' ++ [last]
  | .told => ∃ first rest tier es' last bytes r, tiers = first ++ tier :: rest ∧
      AllAllowed key first es' ∧ last.1 = .checkLimit key tier.quota ∧ ¬ Allows last ∧
        es = es' ++ [last, ⟨.yield (.ok bytes), r⟩]
  | _ => ∃ asked rest, es = asked ++ rest ∧ AllAllowed key tiers asked ∧
      ∀ e ∈ rest, e.1.isCheck = false

namespace AdmissionAt

variable {state : AppState} {key : RateLimitKey} {tiers : List LimitTier} {φ ψ : Phase}
  {es : List (Event Io)} {e : Event Io}

theorem of_isAdmitted (hφ : φ.isAdmitted = true) :
    AdmissionAt key tiers es φ ↔ ∃ asked rest, es = asked ++ rest ∧ AllAllowed key tiers asked ∧
      ∀ e ∈ rest, e.1.isCheck = false := by
  cases φ <;> first | rfl | cases hφ

/-- Behind the tiers no tier is asked. -/
theorem admitted_step (hφ : φ.isAdmitted = true) (h : Moves state key φ e ψ) :
    ψ.isAdmitted = true ∧ e.1.isCheck = false := by
  have hclass : ∀ {C : IoOp → Bool}, (∀ k q, C (.checkLimit k q) = false) → C e.1 = true →
      e.1.isCheck = false := by
    intro C hC he
    obtain ⟨o, r⟩ := e
    cases o with
    | checkLimit k q =>
        rw [hC k q] at he
        cases he
    | _ => rfl
  cases h with
  | ask => cases hφ
  | tell => cases hφ
  | consult he => exact ⟨rfl, hclass (fun _ _ => rfl) he⟩
  | settle _ he => exact ⟨rfl, hclass (fun _ _ => rfl) he⟩
  | commit he => exact ⟨rfl, hclass (fun _ _ => rfl) he⟩
  | _ => exact ⟨rfl, rfl⟩

theorem step (h : AdmissionAt key tiers es φ) (hmove : Moves state key φ e ψ) :
    AdmissionAt key tiers (es ++ [e]) ψ := by
  by_cases hφ : φ.isAdmitted = true
  · obtain ⟨hψ, hcheck⟩ := admitted_step hφ hmove
    obtain ⟨asked, rest, rfl, hasked, hrest⟩ := (of_isAdmitted hφ).mp h
    refine (of_isAdmitted hψ).mpr ⟨asked, rest ++ [e], List.append_assoc _ _ _, hasked, ?_⟩
    intro x hx
    rcases List.mem_append.mp hx with hx | hx
    · exact hrest x hx
    · rwa [List.mem_singleton.mp hx]
  · cases hmove with
    | ask =>
        rename_i tier rest answer
        obtain ⟨first, rfl, hfirst⟩ := h
        rcases answer with text | snapshot
        · refine ⟨first, rest, tier, es, ⟨.checkLimit key tier.quota, .error text⟩, rfl, hfirst,
            rfl, ?_, rfl⟩
          rintro ⟨snapshot, h, -⟩
          cases h
        · dsimp only [Phase.afterCheck]
          split
          · next hallowed =>
            have hnow := hfirst.snoc (e := ⟨.checkLimit key tier.quota, .ok snapshot⟩) rfl
              ⟨snapshot, rfl, hallowed⟩
            cases rest with
            | nil => exact ⟨_, [], (List.append_nil _).symm, hnow, by simp⟩
            | cons next rest => exact ⟨_, by simp, hnow⟩
          · next hdenied =>
            refine ⟨first, rest, tier, es, ⟨.checkLimit key tier.quota, .ok snapshot⟩, rfl, hfirst,
              rfl, ?_, rfl⟩
            rintro ⟨snapshot', h, hallowed⟩
            exact hdenied (Except.ok.inj h ▸ hallowed)
    | tell =>
        obtain ⟨first, rest, tier, es', last, rfl, hfirst, hlast, hrefuses, rfl⟩ := h
        exact ⟨first, rest, tier, es', last, _, _, rfl, hfirst, hlast, hrefuses,
          List.append_assoc _ _ _⟩
    | settle hφ' =>
        rcases hφ' with rfl | ⟨left, rfl⟩ <;> exact absurd rfl hφ
    | charge hφ' | fail hφ' | giveUp hφ' | finish hφ' =>
        rcases hφ' with rfl | rfl | ⟨left, rfl⟩ <;> exact absurd rfl hφ
    | _ => exact absurd rfl hφ

theorem start : AdmissionAt key tiers [] (.start tiers) := by
  cases tiers with
  | nil => exact ⟨[], [], rfl, .nil, by simp⟩
  | cons tier rest => exact ⟨[], rfl, .nil⟩

theorem admission (h : AdmissionAt key tiers es φ) : Admission key tiers es := by
  by_cases hφ : φ.isAdmitted = true
  · obtain ⟨asked, rest, rfl, hasked, hrest⟩ := (of_isAdmitted hφ).mp h
    exact .admitted hasked hrest
  · cases φ with
    | limiting tier rest =>
        obtain ⟨first, htiers, hfirst⟩ := h
        exact .asking htiers hfirst
    | refused =>
        obtain ⟨first, rest, tier, es', last, htiers, hfirst, hlast, hrefuses, rfl⟩ := h
        exact .refused htiers hfirst hlast hrefuses (.inl rfl)
    | told =>
        obtain ⟨first, rest, tier, es', last, bytes, r, htiers, hfirst, hlast, hrefuses, rfl⟩ := h
        exact .refused htiers hfirst hlast hrefuses (.inr ⟨bytes, r, rfl⟩)
    | _ => exact absurd rfl hφ

end AdmissionAt

/-- **The tiers come first.**  Whatever the environment answers and wherever a request is cut
off: the tiers are asked one after the other in the order of the configuration, each with its
own quota and all under the request's key; nothing else happens before the last of them has
allowed the request, nothing but the refusal happens after one has not, and no tier is asked
twice. -/
theorem asks_tiers_first [Crates] {state : AppState} {uri : OriginalUri} {key : RateLimitKey}
    {requestHeaders : HeaderMap} {cut rest : List (Event Io)} {result : Except AppError Response}
    (htrace : Trace (serve state uri key requestHeaders) (cut ++ rest) result) :
    Admission key state.rateLimit cut := by
  obtain ⟨φ, -, hφ, -⟩ := serve_history (R := AdmissionAt key state.rateLimit)
    (fun es φ e ψ h hmove => h.step hmove) AdmissionAt.start htrace
  exact hφ.admission

/-! ## Charged, then handed over -/

/-- The bucket and the length that an event charges. -/
def chargeOf : Event Io → Option (Str × ℕ)
  | ⟨.charge bucket n, _⟩ => some (bucket, n)
  | _ => none

/-- The charges, in order. -/
def charges (es : List (Event Io)) : List (Str × ℕ) := es.filterMap chargeOf

/-- The item that an event hands to the consumer. -/
def handedOf : Event Io → Option (Except Str Bytes)
  | ⟨.yield item, _⟩ => some item
  | _ => none

/-- What the consumer was handed, in order. -/
def handed (es : List (Event Io)) : List (Except Str Bytes) := es.filterMap handedOf

/-- The charges that pay for the chunks among some items. -/
def payments (bucket : Str) (items : List (Except Str Bytes)) : List (Str × ℕ) :=
  items.filterMap fun item => item.toOption.map fun chunk => (bucket, chunk.length)

/-- No item is an error. -/
def AllChunks (items : List (Except Str Bytes)) : Prop := ∀ item ∈ items, ∃ chunk, item = .ok chunk

section Paid

variable {state : AppState} {key : RateLimitKey} {φ ψ : Phase} {es : List (Event Io)}
  {e : Event Io}

@[simp] theorem charges_snoc : charges (es ++ [e]) = charges es ++ (chargeOf e).toList := by
  cases h : chargeOf e <;> simp [charges, h]

@[simp] theorem handed_snoc : handed (es ++ [e]) = handed es ++ (handedOf e).toList := by
  cases h : handedOf e <;> simp [handed, h]

@[simp] theorem payments_ok (bucket : Str) (items : List (Except Str Bytes)) (chunk : Bytes) :
    payments bucket (items ++ [.ok chunk]) = payments bucket items ++ [(bucket, chunk.length)] :=
  List.filterMap_append

@[simp] theorem payments_error (bucket : Str) (items : List (Except Str Bytes)) (text : Str) :
    payments bucket (items ++ [.error text]) = payments bucket items :=
  List.filterMap_append.trans (List.append_nil _)

/-- Everything that was handed over is a chunk that has been paid for, and nothing else has
been. -/
def Paid (bucket : Str) (es : List (Event Io)) : Prop :=
  charges es = payments bucket (handed es) ∧ AllChunks (handed es)

/-- What has been paid for and handed over when a phase is reached.  The text of a refusal is
not charged. -/
def PaidAt (bucket : Str) (es : List (Event Io)) : Phase → Prop
  | .told => True
  | .broken => charges es = payments bucket (handed es)
  | .charged n =>
      charges es = payments bucket (handed es) ++ [(bucket, n)] ∧ AllChunks (handed es)
  | _ => Paid bucket es

theorem PaidAt.paid (h : PaidAt key.bucket es φ) (hφ : φ.Open) : Paid key.bucket es := by
  rcases hφ with rfl | rfl | ⟨left, rfl⟩ <;> exact h

/-- An event that neither charges nor hands anything over. -/
theorem Paid.quiet {bucket : Str} (h : Paid bucket es) (hcharge : chargeOf e = none)
    (hhanded : handedOf e = none) : Paid bucket (es ++ [e]) := by
  simpa [Paid, hcharge, hhanded] using h

theorem Paid.of_class {bucket : Str} {C : IoOp → Bool} (h : Paid bucket es) (he : C e.1 = true)
    (hcharge : ∀ b n, C (.charge b n) = false) (hyield : ∀ item, C (.yield item) = false) :
    Paid bucket (es ++ [e]) := by
  obtain ⟨o, r⟩ := e
  cases o with
  | charge b n => exact absurd he (by simp [hcharge])
  | yield item => exact absurd he (by simp [hyield])
  | _ => exact h.quiet rfl rfl

theorem PaidAt.step (h : PaidAt key.bucket es φ) (hmove : Moves state key φ e ψ) :
    PaidAt key.bucket (es ++ [e]) ψ := by
  cases hmove with
  | ask =>
      rename_i tier rest answer
      have hpaid := Paid.quiet (e := ⟨.checkLimit key tier.quota, answer⟩) h rfl rfl
      rcases answer with text | snapshot
      · exact hpaid
      · dsimp only [Phase.afterCheck]
        split
        · cases rest <;> exact hpaid
        · exact hpaid
  | tell => trivial
  | consult he => exact Paid.of_class h he (fun _ _ => rfl) fun _ => rfl
  | settle hφ he => exact (h.paid (.inr hφ)).of_class he (fun _ _ => rfl) fun _ => rfl
  | commit he => exact Paid.of_class h he (fun _ _ => rfl) fun _ => rfl
  | charge hφ =>
      obtain ⟨hpaid, hall⟩ := h.paid hφ
      exact ⟨by simp [chargeOf, handedOf, hpaid], by simpa [handedOf] using hall⟩
  | fail hφ =>
      obtain ⟨hpaid, -⟩ := h.paid hφ
      show charges _ = payments _ _
      simp [chargeOf, handedOf, hpaid]
  | giveUp hφ => exact (h.paid hφ).quiet rfl rfl
  | finish hφ => exact (h.paid hφ).quiet rfl rfl
  | tee => simpa [PaidAt, chargeOf, handedOf] using h
  | untee => simpa [PaidAt, chargeOf, handedOf] using h
  | deliver =>
      obtain ⟨hpaid, hall⟩ := h
      constructor
      · simp [chargeOf, handedOf, hpaid]
      · intro item hitem
        rw [handed_snoc] at hitem
        rcases List.mem_append.mp hitem with hitem | hitem
        · exact hall item hitem
        · exact ⟨_, List.mem_singleton.mp hitem⟩
  | _ => exact Paid.quiet h rfl rfl

theorem PaidAt.start {bucket : Str} (tiers : List LimitTier) :
    PaidAt bucket [] (.start tiers) := by
  cases tiers <;> exact ⟨rfl, by simp [AllChunks, handed]⟩

end Paid

/-- **Charged, then handed over.**  Wherever a request that is not refused by the limiter is cut
off, whatever the environment answers: the chunks that the consumer was handed have been charged
to the bucket of the request, each with its own length and in the order in which they were handed
over, and at most one more charge has been made. -/
theorem charged_before_delivered [Crates] {state : AppState} {uri : OriginalUri}
    {key : RateLimitKey} {requestHeaders : HeaderMap} {cut rest : List (Event Io)}
    {result : Except AppError Response}
    (htrace : Trace (serve state uri key requestHeaders) (cut ++ rest) result)
    (hproxied : ∀ response, result = .ok response → ∀ bytes, response.body ≠ .full bytes) :
    charges cut = payments key.bucket (handed cut) ∨
      ∃ n, charges cut = payments key.bucket (handed cut) ++ [(key.bucket, n)] := by
  obtain ⟨φ, ψ, hφ, hrun, hserved⟩ := serve_history (R := PaidAt key.bucket)
    (fun es φ e ψ h hmove => h.step hmove) (.start _) htrace
  cases φ with
  | told =>
      -- The refusal has been handed over, so the response is one.
      cases rest with
      | cons e rest =>
          obtain ⟨next, hnext, -⟩ := Protocol.run_cons_eq_some.mp hrun
          cases hnext
      | nil =>
          obtain rfl := Option.some.inj hrun
          rcases result with e | ⟨status, headers, body⟩
          · exact absurd rfl hserved
          · rcases body with bytes | ⟨path, bucket, guard⟩ | ⟨items, bucket, guard, cache, writer⟩
            · exact absurd rfl (hproxied _ rfl bytes)
            · rcases hserved with (h | h | ⟨left, h⟩) | h | h <;> cases h
            · rcases hserved with (h | h | ⟨left, h⟩) | h | h <;> cases h
  | broken => exact .inl hφ
  | charged n => exact .inr ⟨n, hφ.1⟩
  | _ => exact .inl hφ.1

/-! ## The commit comes last -/

/-- Whether an operation is the first step of finishing a writer. -/
def IoOp.isFlush : IoOp → Bool
  | .fs (.flush _) => true
  | _ => false

/-- A writer begins to finish where a body may go on. -/
theorem open_of_isFlush {state : AppState} {key : RateLimitKey} {φ ψ : Phase} {e : Event Io}
    (h : Moves state key φ e ψ) (hflush : e.1.isFlush = true) : φ.Open ∧ ψ = .committing := by
  have hclass : ∀ {C : IoOp → Bool}, (∀ path, C (.fs (.flush path)) = false) → C e.1 ≠ true := by
    intro C hC he
    obtain ⟨o, r⟩ := e
    cases o with
    | fs o =>
        cases o with
        | flush path => exact absurd he (by simp [hC path])
        | _ => cases hflush
    | _ => cases hflush
  cases h with
  | finish hφ => exact ⟨hφ, rfl⟩
  | consult he => exact absurd he (hclass fun _ => rfl)
  | settle _ he => exact absurd he (hclass fun _ => rfl)
  | commit he => exact absurd he (hclass fun _ => rfl)
  | _ => cases hflush

/-- Once the writer is being finished, nothing but the commit happens. -/
theorem commits_of_committing {state : AppState} {key : RateLimitKey} {ψ : Phase}
    {es : List (Event Io)} (hrun : (requestProtocol state key).run .committing es = some ψ) :
    ∀ e ∈ es, e.1.commits = true := by
  refine (Protocol.forall_of_closed (I := fun φ => φ = .committing)
    (C := fun o : IoOp => o.commits = true) ?_ rfl hrun).1
  rintro φ o next r rfl hnext
  obtain ⟨hcommits, hnext⟩ := Option.ite_none_right_eq_some.mp hnext
  exact ⟨hcommits, congrFun (Option.some.inj hnext).symm r⟩

/-- **The commit comes last.**  Whatever the environment answers: when the writer of a request
begins to finish, everything that the consumer was handed is a chunk of the body and has been
charged, in order; and behind that point the request does nothing but commit, so it sends,
charges and hands over nothing more, and the outcome of the commit cannot reach the consumer. -/
theorem commit_comes_last [Crates] {state : AppState} {uri : OriginalUri} {key : RateLimitKey}
    {requestHeaders : HeaderMap} {before after : List (Event Io)} {e : Event Io}
    {result : Except AppError Response}
    (htrace : Trace (serve state uri key requestHeaders) (before ++ e :: after) result)
    (hflush : e.1.isFlush = true) :
    Paid key.bucket before ∧ ∀ e' ∈ after, e'.1.commits = true := by
  obtain ⟨φ, ψ, hφ, hrun, -⟩ := serve_history (R := PaidAt key.bucket)
    (fun es φ e ψ h hmove => h.step hmove) (.start _) htrace
  obtain ⟨next, hnext, hrest⟩ := Protocol.run_cons_eq_some.mp hrun
  obtain ⟨hopen, hcommitting⟩ := open_of_isFlush (moves_of_requestProtocol hnext e.2) hflush
  rw [hcommitting] at hrest
  exact ⟨hφ.paid hopen, commits_of_committing hrest⟩

/-! ## A request that is stored -/

/-- A proxy with two tiers. -/
def twoTierState : AppState := { exampleState with rateLimit := [⟨1, 5⟩, ⟨60, 100⟩] }

/-- One environment: nothing fails, every tier allows the request, and the upstream gives the
first answer. -/
def admittingWorld : Handler Io World
  | .checkLimit _ _, w => ((.ok ⟨true, []⟩ : Except Str Snapshot), w)
  | o, w => World.calm firstAnswer o w

/-- A plain request in it. -/
def admittedRequest : Prog Io (Except AppError Response) :=
  @serve reference twoTierState plainRequest.uri exampleKey []

/-- What it does. -/
def admittedEvents : List (Event Io) := execEvents admittingWorld admittedRequest emptyWorld

theorem admittedRequest_trace (n : ℕ) :
    Trace admittedRequest (admittedEvents.take n ++ admittedEvents.drop n)
      (exec admittingWorld admittedRequest emptyWorld).1 := by
  rw [List.take_append_drop]
  exact trace_exec admittingWorld admittedRequest emptyWorld

/-- The refinement, for the whole request. -/
theorem serve_refines_protocol_admitted :
    (∃ φ, (@requestProtocol twoTierState exampleKey).run (.start twoTierState.rateLimit)
        admittedEvents = some φ ∧
        ServedAt (exec admittingWorld admittedRequest emptyWorld).1 φ) ∧
      ∀ cut, cut <+: admittedEvents →
        ∃ φ, (@requestProtocol twoTierState exampleKey).run (.start twoTierState.rateLimit) cut =
          some φ :=
  @serve_refines_protocol reference twoTierState plainRequest.uri exampleKey [] _ _
    (trace_exec admittingWorld admittedRequest emptyWorld)

/-- The first theorem when a connection is dropped after one question. -/
theorem asks_tiers_first_admitted :
    Admission exampleKey twoTierState.rateLimit (admittedEvents.take 1) :=
  @asks_tiers_first reference twoTierState plainRequest.uri exampleKey [] _ _ _
    (admittedRequest_trace 1)

/-- Whether the proxy generated the body. -/
def isGenerated : Except AppError Response → Bool
  | .ok ⟨_, _, .full _⟩ => true
  | _ => false

/-- The response is not a refusal. -/
theorem admittedRequest_proxied : ∀ response,
    (exec admittingWorld admittedRequest emptyWorld).1 = .ok response →
      ∀ bytes, response.body ≠ .full bytes := by
  have hlive : isGenerated (exec admittingWorld admittedRequest emptyWorld).1 = false := by
    decide +kernel
  intro response hresponse bytes hbody
  obtain ⟨status, headers, body⟩ := response
  obtain rfl : body = .full bytes := hbody
  rw [hresponse] at hlive
  cases hlive

/-- The second theorem at every cut of it. -/
theorem charged_before_delivered_admitted :
    charges admittedEvents ≠ [] ∧
      ∀ n, charges (admittedEvents.take n) =
          payments exampleKey.bucket (handed (admittedEvents.take n)) ∨
        ∃ m, charges (admittedEvents.take n) =
          payments exampleKey.bucket (handed (admittedEvents.take n)) ++
            [(exampleKey.bucket, m)] :=
  ⟨by decide +kernel,
    fun n => @charged_before_delivered reference twoTierState plainRequest.uri exampleKey [] _ _ _
      (admittedRequest_trace n) admittedRequest_proxied⟩

/-- The third theorem: the writer is finished, and the chunk has been paid for by then. -/
theorem commit_comes_last_admitted :
    ∃ before e after, admittedEvents = before ++ e :: after ∧ e.1.isFlush = true ∧
      Paid exampleKey.bucket before ∧ ∀ e' ∈ after, e'.1.commits = true := by
  have hany : (admittedEvents.any fun e => e.1.isFlush) = true := by decide +kernel
  obtain ⟨e, he, hflush⟩ := List.any_eq_true.mp hany
  obtain ⟨before, after, hsplit⟩ := List.append_of_mem he
  have htrace := trace_exec admittingWorld admittedRequest emptyWorld
  rw [show execEvents admittingWorld admittedRequest emptyWorld = before ++ e :: after from hsplit]
    at htrace
  obtain ⟨hpaid, hcommits⟩ := @commit_comes_last reference twoTierState plainRequest.uri exampleKey
    [] before after e _ htrace hflush
  exact ⟨before, e, after, hsplit, hflush, hpaid, hcommits⟩

end Corsget
