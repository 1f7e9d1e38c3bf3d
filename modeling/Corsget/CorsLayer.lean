import Corsget.Cors

/-!
# The generated CORS headers

Whatever a handler answers, the middleware replaces the five generated headers
by those of this request and records in `Vary` that the response depends on the
request's origin.  Nothing of the inner response takes part in that:
`cors_layer_applies` says what a consumer receives for every request and every
inner response.
-/

namespace Corsget

open Text

/-- The headers that the proxy generates. -/
def generatedHeaders : List HeaderName :=
  [.accessControlAllowOrigin, .accessControlAllowCredentials, .accessControlAllowHeaders,
    .accessControlAllowMethods, .accessControlMaxAge]

/-- The fields that the `Vary` lines nominate, in lower case. -/
def varyFields (headers : HeaderMap) : List Str :=
  (((((headers.getAll .vary).filterMap HeaderValue.toStr).flatMap
    fun value => value.splitOn ',').map trim).filter fun field => field ≠ []).map toAsciiLowercase

/-- **A response with the CORS headers of a request**, made from an inner
response. -/
structure AppliesCors (request inner outer : HeaderMap) : Prop where
  /-- Each generated header has one value, the one computed from the request. -/
  generated : ∀ name ∈ generatedHeaders, ∃ value,
    (corsHeaders request).getAll name = [value] ∧ outer.getAll name = [value]
  /-- The allowed origin is the request's own, or any. -/
  own : ∀ value ∈ outer.getAll .accessControlAllowOrigin,
    value = anyOrigin ∨ request.get .origin = some value
  /-- A response for one origin says that it depends on the origin. -/
  varies : (∃ value ∈ outer.getAll .accessControlAllowOrigin, value ≠ anyOrigin) →
    "origin".toList ∈ varyFields outer
  /-- What was nominated still is. -/
  nominated : ∀ field ∈ varyFields inner, field ∈ varyFields outer
  /-- The `Vary` lines stay, with at most one line more. -/
  appended : outer.getAll .vary = inner.getAll .vary ∨
    outer.getAll .vary = inner.getAll .vary ++ [.fromStatic "origin".toList]
  /-- `origin` is not nominated twice. -/
  unrepeated : "origin".toList ∈ varyFields inner → outer.getAll .vary = inner.getAll .vary
  /-- All other headers stay. -/
  others : ∀ name, name ∉ generatedHeaders → name ≠ .vary → outer.getAll name = inner.getAll name

/-! ## The headers of a request -/

/-- What a request allows as origin. -/
def allowedOrigin (request : HeaderMap) : HeaderValue :=
  match request.get .origin with
  | some value => if value.isVisible then value else anyOrigin
  | none => anyOrigin

/-- The lines of `cors_headers`, one under each generated name. -/
theorem corsHeaders_eq (request : HeaderMap) : ∃ allowHeaders, corsHeaders request =
    [(.accessControlAllowOrigin, allowedOrigin request),
      (.accessControlAllowCredentials, .fromStatic "true".toList),
      (.accessControlAllowHeaders, allowHeaders),
      (.accessControlAllowMethods, .fromStatic "GET, OPTIONS".toList),
      (.accessControlMaxAge, .fromStatic "86400".toList)] := by
  refine ⟨((request.get .accessControlRequestHeaders).filter fun v => v.bytes ≠ []).getD
    (.fromStatic "Authorization".toList), ?_⟩
  unfold corsHeaders allowedOrigin
  cases request.get .origin with
  | none => rfl
  | some value =>
      rw [Option.bind_some]
      cases htext : value.toStr with
      | none =>
          have hvisible : value.isVisible = false := by
            unfold HeaderValue.toStr at htext
            simpa using htext
          dsimp only
          rw [hvisible]
          rfl
      | some text =>
          have hvisible := (HeaderValue.toStr_eq_some.mp htext).1
          dsimp only
          rw [hvisible, HeaderValue.fromStr_toStr htext]
          rfl

/-- The names of `cors_headers`. -/
theorem map_fst_corsHeaders (request : HeaderMap) :
    (corsHeaders request).map Prod.fst = generatedHeaders := by
  obtain ⟨_, heq⟩ := corsHeaders_eq request
  rw [heq]
  rfl

theorem generatedHeaders_nodup : generatedHeaders.Nodup := by decide

theorem containsKey_corsHeaders (request : HeaderMap) (name : HeaderName) :
    (corsHeaders request).containsKey name = true ↔ name ∈ generatedHeaders := by
  rw [← map_fst_corsHeaders request, List.mem_map]
  unfold MultiMap.containsKey
  rw [List.any_eq_true]
  constructor
  · rintro ⟨line, hline, hname⟩
    exact ⟨line, hline, of_decide_eq_true hname⟩
  · rintro ⟨line, hline, hname⟩
    exact ⟨line, hline, decide_eq_true hname⟩

/-- The five insertions of the middleware. -/
theorem getAll_insertCors (request inner : HeaderMap) (name : HeaderName) :
    MultiMap.getAll ((corsHeaders request).foldl
        (fun response line => MultiMap.insert response line.1 line.2) inner) name =
      if name ∈ generatedHeaders then (corsHeaders request).getAll name
      else inner.getAll name := by
  have hkeys : ((corsHeaders request).map Prod.fst).Nodup :=
    map_fst_corsHeaders request ▸ generatedHeaders_nodup
  rw [MultiMap.getAll_foldl_insert _ _ hkeys]
  simp only [containsKey_corsHeaders]

/-! ## `Vary` -/

/-- The test of `add_vary_field` is whether the fields contain this one. -/
theorem mem_varyFields_iff (headers : HeaderMap) {field : Str} (hfield : field ≠ []) :
    toAsciiLowercase field ∈ varyFields headers ↔
      (headers.getAll .vary).any (nominatesField field) = true := by
  unfold varyFields nominatesField eqIgnoreAsciiCase
  rw [List.any_eq_true]
  constructor
  · intro h
    obtain ⟨part, hpart, hlower⟩ := List.mem_map.mp h
    obtain ⟨hpart, -⟩ := List.mem_filter.mp hpart
    obtain ⟨item, hitem, rfl⟩ := List.mem_map.mp hpart
    obtain ⟨text, htext, hitem⟩ := List.mem_flatMap.mp hitem
    obtain ⟨value, hvalue, htext⟩ := List.mem_filterMap.mp htext
    refine ⟨value, hvalue, ?_⟩
    rw [htext]
    exact List.any_eq_true.mpr ⟨item, hitem, beq_iff_eq.mpr hlower⟩
  · rintro ⟨value, hvalue, hany⟩
    cases htext : value.toStr with
    | none =>
        rw [htext] at hany
        cases hany
    | some text =>
        rw [htext] at hany
        obtain ⟨item, hitem, hlower⟩ := List.any_eq_true.mp hany
        have hlower := beq_iff_eq.mp hlower
        refine List.mem_map.mpr ⟨trim item, List.mem_filter.mpr ⟨?_, ?_⟩, hlower⟩
        · exact List.mem_map_of_mem (List.mem_flatMap.mpr
            ⟨text, List.mem_filterMap.mpr ⟨value, hvalue, htext⟩, hitem⟩)
        · -- An empty item has the lower case of an empty field only.
          refine decide_eq_true fun hempty => hfield ?_
          rw [hempty] at hlower
          exact List.map_eq_nil_iff.mp hlower.symm

/-- What `add_vary_field` does for `origin`. -/
theorem addVaryField_origin (headers : HeaderMap) :
    ("origin".toList ∈ varyFields headers ∧ addVaryField headers "origin".toList = headers) ∨
      ("origin".toList ∉ varyFields headers ∧ addVaryField headers "origin".toList =
        headers.append .vary (.fromStatic "origin".toList)) := by
  have hiff := @mem_varyFields_iff headers "origin".toList (by decide)
  rw [show toAsciiLowercase "origin".toList = "origin".toList by decide] at hiff
  unfold addVaryField
  by_cases h : "origin".toList ∈ varyFields headers
  · refine .inl ⟨h, ?_⟩
    dsimp only
    rw [if_pos (hiff.mp h)]
  · refine .inr ⟨h, ?_⟩
    dsimp only
    rw [if_neg (mt hiff.mpr h)]
    rfl

/-- A response that has the line nominates `origin`. -/
theorem origin_mem_varyFields_append (headers : HeaderMap) :
    "origin".toList ∈ varyFields (headers.append .vary (.fromStatic "origin".toList)) := by
  unfold varyFields
  rw [MultiMap.getAll_append_key, if_pos rfl, List.filterMap_append, List.flatMap_append,
    List.map_append, List.filter_append, List.map_append]
  exact List.mem_append_right _ (by decide)

/-- More `Vary` lines nominate more. -/
theorem mem_varyFields_of_subset {headers headers' : HeaderMap}
    (h : headers.getAll .vary ⊆ headers'.getAll .vary) {field : Str}
    (hfield : field ∈ varyFields headers) : field ∈ varyFields headers' := by
  unfold varyFields at hfield ⊢
  refine List.map_subset _ (List.filter_subset _ (List.map_subset _ ?_)) hfield
  intro item hitem
  obtain ⟨text, htext, hitem⟩ := List.mem_flatMap.mp hitem
  exact List.mem_flatMap.mpr ⟨text, List.filterMap_subset _ h htext, hitem⟩

/-- The fields are those of the `Vary` lines. -/
theorem varyFields_congr {headers headers' : HeaderMap}
    (h : headers.getAll .vary = headers'.getAll .vary) :
    varyFields headers = varyFields headers' := by
  unfold varyFields
  rw [h]

/-! ## The middleware -/

/-- What the middleware does to the headers of each name: it touches the generated ones and
`Vary` only. -/
theorem getAll_corsLayer (request inner : HeaderMap) :
    (∀ name, name ≠ .vary → (corsLayer request inner).getAll name =
        if name ∈ generatedHeaders then (corsHeaders request).getAll name
        else inner.getAll name) ∧
      ((corsLayer request inner).getAll .vary = inner.getAll .vary ∨
        "origin".toList ∉ varyFields inner ∧ (corsLayer request inner).getAll .vary =
          inner.getAll .vary ++ [.fromStatic "origin".toList]) ∧
      (request.containsKey .origin = true →
        "origin".toList ∈ varyFields (corsLayer request inner)) := by
  have hget := getAll_insertCors request inner
  unfold corsLayer
  generalize (corsHeaders request).foldl
    (fun response line => MultiMap.insert response line.1 line.2) inner = inserted at hget ⊢
  have hvary : inserted.getAll .vary = inner.getAll .vary := by
    rw [hget, if_neg (by decide)]
  have hfields := varyFields_congr hvary
  dsimp only
  cases request.containsKey .origin with
  | false => exact ⟨fun name _ => hget name, .inl hvary, fun h => nomatch h⟩
  | true =>
      rw [if_pos rfl]
      rcases addVaryField_origin inserted with ⟨hmem, heq⟩ | ⟨hmem, heq⟩
      · rw [heq]
        exact ⟨fun name _ => hget name, .inl hvary, fun _ => hmem⟩
      · rw [heq]
        refine ⟨fun name hname => ?_, .inr ⟨hfields ▸ hmem, ?_⟩,
          fun _ => origin_mem_varyFields_append inserted⟩
        · rw [MultiMap.getAll_append_key, if_neg hname]
          exact hget name
        · rw [MultiMap.getAll_append_key, if_pos rfl, hvary]

theorem allowedOrigin_eq (request : HeaderMap) :
    allowedOrigin request = anyOrigin ∨ request.get .origin = some (allowedOrigin request) := by
  unfold allowedOrigin
  split
  · next value horigin =>
    rw [horigin]
    split
    · exact .inr rfl
    · exact .inl rfl
  · exact .inl rfl

/-- Each generated name has one line. -/
theorem exists_getAll_corsHeaders (request : HeaderMap) {name : HeaderName}
    (hname : name ∈ generatedHeaders) : ∃ value, (corsHeaders request).getAll name = [value] := by
  obtain ⟨allowHeaders, hcors⟩ := corsHeaders_eq request
  rw [hcors]
  unfold generatedHeaders at hname
  simp only [List.mem_cons, List.not_mem_nil, or_false] at hname
  rcases hname with rfl | rfl | rfl | rfl | rfl
  · exact ⟨_, rfl⟩
  · exact ⟨_, rfl⟩
  · exact ⟨_, rfl⟩
  · exact ⟨_, rfl⟩
  · exact ⟨_, rfl⟩

/-- **CORS headers depend only on the consumer's request**, for every request and
every inner response. -/
theorem cors_layer_applies (request inner : HeaderMap) :
    AppliesCors request inner (corsLayer request inner) := by
  obtain ⟨hothers, hnominated, horigin⟩ := getAll_corsLayer request inner
  have hgenerated : ∀ name ∈ generatedHeaders,
      (corsLayer request inner).getAll name = (corsHeaders request).getAll name := by
    intro name hname
    have hne : name ≠ .vary := by
      rintro rfl
      exact absurd hname (by decide)
    rw [hothers name hne, if_pos hname]
  obtain ⟨allowHeaders, hcors⟩ := corsHeaders_eq request
  have hallowed : (corsLayer request inner).getAll .accessControlAllowOrigin =
      [allowedOrigin request] := by
    rw [hgenerated _ (by decide), hcors]
    rfl
  refine ⟨?_, ?_, ?_, ?_, hnominated.imp_right And.right, ?_, ?_⟩
  · intro name hname
    obtain ⟨value, hvalue⟩ := exists_getAll_corsHeaders request hname
    exact ⟨value, hvalue, (hgenerated name hname).trans hvalue⟩
  · intro value hvalue
    rw [hallowed, List.mem_singleton] at hvalue
    subst hvalue
    exact allowedOrigin_eq request
  · rintro ⟨value, hvalue, hne⟩
    rw [hallowed, List.mem_singleton] at hvalue
    subst hvalue
    -- An origin other than `*` comes from an `Origin` line.
    refine horigin (MultiMap.containsKey_iff.mpr fun hnone => hne ?_)
    unfold allowedOrigin MultiMap.get
    rw [hnone]
    rfl
  · refine fun field => mem_varyFields_of_subset ?_
    rcases hnominated with heq | ⟨-, heq⟩
    · rw [heq]
      exact List.Subset.refl _
    · rw [heq]
      exact List.subset_append_left _ _
  · intro hmem
    exact hnominated.resolve_right fun h => h.1 hmem
  · intro name hname hvary
    rw [hothers name hvary, if_neg hname]

end Corsget
