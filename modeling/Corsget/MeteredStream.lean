import Corsget.Proxy

/-!
# The metered stream

What `metered_stream` hands over is a function of the upstream's items and of the cap
alone: `meteredItems`.  Each chunk among them is charged to the connection tiers before
it is handed over, and the verdict is only logged.  So the stream is the fold of its
consumer over these items (`meteredStream_eq_handOver`), for every consumer.

`Delivery` says what the items are: the longest prefix of chunks within the cap, and one
error where it ends before the upstream does.
-/

namespace Corsget

open Text Effect

/-! ## What is delivered -/

/-- The bytes of some chunks, on top of those used before, are within the cap.  A cap of
zero is none. -/
def Admissible (max used : ℕ) (chunks : List Bytes) : Prop :=
  max = 0 ∨ used + chunks.flatten.length ≤ max

/-- **A delivery under a cap**: the items of the upstream, the chunks of them that are
delivered, and the items that are handed over. -/
inductive Delivery (max used : ℕ) :
    List (Except Str Bytes) → List Bytes → List (Except MeteredError Bytes) → Prop
  /-- The upstream comes to its end. -/
  | whole {delivered : List Bytes} (hfits : Admissible max used delivered) :
      Delivery max used (delivered.map .ok) delivered (delivered.map .ok)
  /-- The upstream fails. -/
  | failed {delivered : List Bytes} (hfits : Admissible max used delivered) (e : Str)
      (rest : List (Except Str Bytes)) :
      Delivery max used (delivered.map .ok ++ .error e :: rest) delivered
        (delivered.map .ok ++ [.error (.upstream e)])
  /-- The next chunk exceeds the cap. -/
  | capped {delivered : List Bytes} (hfits : Admissible max used delivered) (chunk : Bytes)
      (rest : List (Except Str Bytes))
      (hover : ¬Admissible max used (delivered ++ [chunk])) :
      Delivery max used (delivered.map .ok ++ .ok chunk :: rest) delivered
        (delivered.map .ok ++ [.error (.resultExceeded
          (min (used + (delivered ++ [chunk]).flatten.length) (2 ^ 64 - 1)) max)])

/-- A chunk that is admissible comes before a delivery on top of it. -/
theorem Delivery.cons {max used : ℕ} {items : List (Except Str Bytes)} {delivered : List Bytes}
    {yielded : List (Except MeteredError Bytes)} {chunk : Bytes}
    (h : Delivery max (used + chunk.length) items delivered yielded) :
    Delivery max used (.ok chunk :: items) (chunk :: delivered) (.ok chunk :: yielded) := by
  have hmore : ∀ chunks, Admissible max (used + chunk.length) chunks ↔
      Admissible max used (chunk :: chunks) := by
    intro chunks
    unfold Admissible
    rw [List.flatten_cons, List.length_append, Nat.add_assoc]
  cases h with
  | whole hfits => exact .whole ((hmore _).mp hfits)
  | failed hfits e rest => exact .failed ((hmore _).mp hfits) e rest
  | capped hfits chunk' rest hover =>
      have hcapped := Delivery.capped ((hmore _).mp hfits) chunk' rest
        fun h => hover ((hmore _).mpr h)
      rw [List.cons_append, List.flatten_cons, List.length_append, ← Nat.add_assoc] at hcapped
      exact hcapped

/-- The items of the metered stream. -/
def meteredItems : ResultSizeGuard → List (Except Str Bytes) → List (Except MeteredError Bytes)
  | _, [] => []
  | _, .error e :: _ => [.error (.upstream e)]
  | guard, .ok chunk :: rest =>
      match guard.charge chunk.length with
      | (.error e, _) => [.error (.fromBandwidth e)]
      | (.ok (), guard) => .ok chunk :: meteredItems guard rest

/-- A guard that has counted `used` bytes within its cap; without a cap it counts
nothing. -/
def ResultSizeGuard.Counts (guard : ResultSizeGuard) (used : ℕ) : Prop :=
  guard.max ≠ 0 → guard.used = used ∧ used ≤ guard.max

/-- **The specification of `ResultSizeGuard::charge`**, for a cap that the saturating sum
can exceed. -/
theorem ResultSizeGuard.charge_spec {guard : ResultSizeGuard} {used : ℕ}
    (hmax : guard.max < 2 ^ 64 - 1) (h : guard.Counts used) (chunk : Bytes) :
    (Admissible guard.max used [chunk] ∧ ∃ guard', guard.charge chunk.length = (.ok (), guard') ∧
        guard'.max = guard.max ∧ guard'.Counts (used + chunk.length)) ∨
      ¬Admissible guard.max used [chunk] ∧ ∃ guard', guard.charge chunk.length =
        (.error (.resultExceeded (min (used + chunk.length) (2 ^ 64 - 1)) guard.max), guard') := by
  have hflat : [chunk].flatten.length = chunk.length := by simp
  unfold Admissible ResultSizeGuard.charge
  rw [hflat]
  by_cases hzero : guard.max = 0
  · rw [if_pos hzero]
    exact .inl ⟨.inl hzero, guard, rfl, rfl, fun hne => absurd hzero hne⟩
  · obtain ⟨hused, hle⟩ := h hzero
    rw [if_neg hzero, hused]
    dsimp only
    unfold saturatingAdd
    by_cases hfits : used + chunk.length ≤ guard.max
    · have hexact : min (used + chunk.length) (2 ^ 64 - 1) = used + chunk.length := by omega
      rw [hexact, if_neg (by omega)]
      exact .inl ⟨.inr hfits, _, rfl, rfl, fun _ => ⟨rfl, hfits⟩⟩
    · rw [if_pos (by omega)]
      exact .inr ⟨fun hor => hor.elim hzero hfits, _, rfl⟩

/-- **The items are a delivery.** -/
theorem delivery_meteredItems (items : List (Except Str Bytes)) {guard : ResultSizeGuard}
    {used : ℕ} (hmax : guard.max < 2 ^ 64 - 1) (h : guard.Counts used) :
    ∃ delivered, Delivery guard.max used items delivered (meteredItems guard items) := by
  -- An empty delivery is within the cap, since what was counted before is.
  have hnone : Admissible guard.max used [] := by
    by_cases hzero : guard.max = 0
    · exact .inl hzero
    · exact .inr (h hzero).2
  induction items generalizing guard used with
  | nil => exact ⟨[], .whole hnone⟩
  | cons item rest ih =>
      cases item with
      | error e => exact ⟨[], .failed hnone e rest⟩
      | ok chunk =>
          unfold meteredItems
          rcases ResultSizeGuard.charge_spec hmax h chunk with
            ⟨hfits, guard', hcharge, hmax', hcounts⟩ | ⟨hover, guard', hcharge⟩
          · rw [hcharge]
            have hnone' : Admissible guard'.max (used + chunk.length) [] := by
              rw [hmax']
              simpa [Admissible] using hfits
            obtain ⟨delivered, hrest⟩ := ih (hmax' ▸ hmax) hcounts hnone'
            rw [hmax'] at hrest
            exact ⟨chunk :: delivered, hrest.cons⟩
          · rw [hcharge]
            have hcapped := Delivery.capped hnone chunk rest hover
            rw [List.nil_append, List.flatten_singleton] at hcapped
            exact ⟨[], hcapped⟩

/-! ## The stream is a fold -/

/-- A chunk is charged to the connection tiers. -/
def chargeItem (bucket : Str) : Except MeteredError Bytes → Prog Io Unit
  | .error _ => return ()
  | .ok chunk => do
      let _ ← Io.charge bucket chunk.length
      return ()

variable {σ : Type}

/-- The items one after the other, each charged and then handed over. -/
def handOver (bucket : Str) (onItem : σ → Except MeteredError Bytes → Prog Io σ) :
    List (Except MeteredError Bytes) → σ → Prog Io σ
  | [], s => return s
  | item :: rest, s => do
      chargeItem bucket item
      let s ← onItem s item
      handOver bucket onItem rest s

/-- **The metered stream is the fold of its consumer** over its items. -/
theorem meteredStream_eq_handOver (bucket : Str)
    (onItem : σ → Except MeteredError Bytes → Prog Io σ) (items : List (Except Str Bytes)) :
    ∀ (guard : ResultSizeGuard) (s : σ), meteredStream bucket onItem guard items s =
      handOver bucket onItem (meteredItems guard items) s := by
  -- An error is the last item.
  have hlast : ∀ (e : MeteredError) (s : σ),
      onItem s (.error e) = handOver bucket onItem [.error e] s := by
    intro e s
    show onItem s (.error e) = (onItem s (.error e) >>= fun s => Prog.ret s)
    exact (Prog.bind_ret _).symm
  induction items with
  | nil => intro guard s; rfl
  | cons item rest ih =>
      intro guard s
      cases item with
      | error e => exact hlast (.upstream e) s
      | ok chunk =>
          unfold meteredStream meteredItems
          generalize guard.charge chunk.length = charged
          obtain ⟨verdict, guard'⟩ := charged
          cases verdict with
          | error e => exact hlast _ s
          | ok _ =>
              dsimp only
              simp only [ih]
              rfl

/-! ## What a consumer sees -/

/-- A consumer that takes each item and remembers it. -/
def collect (seen : List (Except MeteredError Bytes)) (item : Except MeteredError Bytes) :
    Prog Io (List (Except MeteredError Bytes)) := do
  Io.yield (item.mapError MeteredError.toText)
  return seen ++ [item]

/-- The charge that an operation is. -/
def IoOp.charged : IoOp → Option (Str × ℕ)
  | .charge bucket n => some (bucket, n)
  | _ => none

/-- The operations for one item. -/
def itemOps (bucket : Str) : Except MeteredError Bytes → List IoOp
  | .error e => [.yield (.error e.toText)]
  | .ok chunk => [.charge bucket chunk.length, .yield (.ok chunk)]

/-- **A consumer that does nothing but hand each item over** hands over all of them, whatever
the limiter answers, each after its charge. -/
theorem handOver_trace {bucket : Str} {onItem : σ → Except MeteredError Bytes → Prog Io σ}
    {next : σ → Except MeteredError Bytes → σ} {p : σ → Prop}
    (hnext : ∀ s item, p s → p (next s item))
    (hyields : ∀ s item, p s → onItem s item = do
      Io.yield (item.mapError MeteredError.toText)
      return next s item)
    (items : List (Except MeteredError Bytes)) :
    ∀ {s es result}, p s → Trace (handOver bucket onItem items s) es result →
      result = items.foldl next s ∧ es.map Sigma.fst = items.flatMap (itemOps bucket) := by
  induction items with
  | nil =>
      intro s es result _ h
      obtain ⟨rfl, rfl⟩ := Trace.ret_iff.mp h
      exact ⟨rfl, rfl⟩
  | cons item rest ih =>
      intro s es result hs h
      unfold handOver at h
      rw [hyields s item hs] at h
      cases item with
      | error e =>
          obtain ⟨_, es', rfl, hrest⟩ := Trace.op_iff.mp h
          obtain ⟨hresult, hops⟩ := ih (hnext s _ hs) hrest
          refine ⟨hresult, ?_⟩
          rw [List.map_cons, hops]
          rfl
      | ok chunk =>
          obtain ⟨_, _, rfl, hyield⟩ := Trace.op_iff.mp h
          obtain ⟨_, es', rfl, hrest⟩ := Trace.op_iff.mp hyield
          obtain ⟨hresult, hops⟩ := ih (hnext s _ hs) hrest
          refine ⟨hresult, ?_⟩
          rw [List.map_cons, List.map_cons, hops]
          rfl

/-- What such a consumer remembers is what it was handed. -/
theorem handOver_collect_trace {bucket : Str} (items : List (Except MeteredError Bytes))
    {seen : List (Except MeteredError Bytes)} {es : List (Event Io)}
    {result : List (Except MeteredError Bytes)}
    (h : Trace (handOver bucket collect items seen) es result) :
    result = seen ++ items ∧ es.map Sigma.fst = items.flatMap (itemOps bucket) := by
  obtain ⟨hresult, hops⟩ :=
    @handOver_trace _ bucket collect (fun seen item => seen ++ [item]) (fun _ => True)
      (fun _ _ _ => trivial) (fun _ _ _ => rfl) items _ _ _ trivial h
  refine ⟨?_, hops⟩
  rw [hresult, List.foldl_append_eq_append, ← List.flatMap_def, List.flatMap_singleton']

/-- The charges among the operations are those of the chunks that are delivered. -/
theorem Delivery.charges {max used : ℕ} {items : List (Except Str Bytes)} {delivered : List Bytes}
    {yielded : List (Except MeteredError Bytes)} (h : Delivery max used items delivered yielded)
    (bucket : Str) :
    (yielded.flatMap (itemOps bucket)).filterMap IoOp.charged =
      delivered.map fun chunk => (bucket, chunk.length) := by
  have hchunks : ∀ chunks : List Bytes,
      ((chunks.map .ok).flatMap (itemOps bucket)).filterMap IoOp.charged =
        chunks.map fun chunk => (bucket, chunk.length) := by
    intro chunks
    induction chunks with
    | nil => rfl
    | cons chunk chunks ih => exact congrArg ((bucket, chunk.length) :: ·) ih
  cases h with
  | whole _ => exact hchunks delivered
  | failed _ e _ =>
      rw [List.flatMap_append, List.filterMap_append, hchunks]
      exact List.append_nil _
  | capped _ chunk _ _ =>
      rw [List.flatMap_append, List.filterMap_append, hchunks]
      exact List.append_nil _

/-- **The metered stream delivers the longest admissible prefix**, whatever the limiter
answers, and charges it chunk by chunk. -/
theorem meteredStream_delivers {max : ℕ} (hmax : max < 2 ^ 64 - 1) (bucket : Str)
    (items : List (Except Str Bytes)) :
    ∃ delivered yielded, Delivery max 0 items delivered yielded ∧
      ∀ es result, Trace (meteredStream bucket collect (.new max) items []) es result →
        result = yielded ∧ es.map Sigma.fst = yielded.flatMap (itemOps bucket) ∧
          (es.map Sigma.fst).filterMap IoOp.charged =
            delivered.map fun chunk => (bucket, chunk.length) := by
  have hcounts : (ResultSizeGuard.new max).Counts 0 := fun _ => ⟨rfl, Nat.zero_le _⟩
  obtain ⟨delivered, hdelivery⟩ := delivery_meteredItems items hmax hcounts
  refine ⟨delivered, _, hdelivery, fun es result htrace => ?_⟩
  rw [meteredStream_eq_handOver] at htrace
  obtain ⟨hresult, hops⟩ := handOver_collect_trace _ htrace
  exact ⟨hresult, hops, hops ▸ hdelivery.charges bucket⟩

/-- The theorem for a cap that the second chunk exceeds. -/
theorem meteredStream_delivers_capped :
    ∃ delivered yielded,
      Delivery 3 0 [.ok [104, 105], .ok [106, 107], .ok []] delivered yielded ∧
        ∀ es result, Trace (meteredStream "bucket".toList collect (.new 3)
            [.ok [104, 105], .ok [106, 107], .ok []] []) es result →
          result = yielded ∧ es.map Sigma.fst = yielded.flatMap (itemOps "bucket".toList) ∧
            (es.map Sigma.fst).filterMap IoOp.charged =
              delivered.map fun chunk => ("bucket".toList, chunk.length) :=
  meteredStream_delivers (by omega) "bucket".toList [.ok [104, 105], .ok [106, 107], .ok []]

end Corsget
