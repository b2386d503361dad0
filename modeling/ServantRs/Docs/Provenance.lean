import ServantRs.Docs.Merge

/-!
# Docs — which endpoints are merged

The endpoints of an API, each taken alone, are numbered from the left.  A walk that carries the
numbers along (`tracedDocs`) documents what `docs` does and says of each entry which endpoints were
merged into it.

The key of an endpoint holds its path as a path line shows it, so two parts that show alike are one
to it: a capture and a capture-all of one name, and either of them and a segment that reads like it.

* `gathers_docs`, `gathers_openapiDocs`: a document is its endpoints, merged key by key.
* `render_eq_iff`: which parts show alike.
* `same_doc_iff`: two endpoints are in one entry when host and method agree and their paths show
  alike; `captures_merged`: such paths may be different routes.
-/

namespace ServantRs.Docs

/-! ### Keys -/

/-- The same part of a path, up to the types of captures. -/
inductive PathPart.Same : PathPart → PathPart → Prop where
  | static (s : String) : Same (.static s) (.static s)
  | capture (name A B : String) : Same (.capture name A) (.capture name B)
  | captureAll (name A B : String) : Same (.captureAll name A) (.captureAll name B)

/-- The name of a capture. -/
def PathPart.name? : PathPart → Option String
  | static _                            => none
  | capture name _ | captureAll name _ => some name

/-- Parts that a path line shows alike: the same, or a capture and a capture-all of one name, or one
of them and a segment that reads like it. -/
inductive PathPart.Alike : PathPart → PathPart → Prop where
  | same {p q : PathPart} : Same p q → Alike p q
  | captures (name A B : String) : Alike (.capture name A) (.captureAll name B)
  | captures' (name A B : String) : Alike (.captureAll name A) (.capture name B)
  | segment (name A : String) : Alike (.static (":" ++ name)) (.capture name A)
  | segment' (name A : String) : Alike (.capture name A) (.static (":" ++ name))
  | segmentAll (name A : String) : Alike (.static (":" ++ name)) (.captureAll name A)
  | segmentAll' (name A : String) : Alike (.captureAll name A) (.static (":" ++ name))

theorem colon_inj {a b : String} (h : ":" ++ a = ":" ++ b) : a = b := by
  rw [← String.toList_inj, String.toList_append, String.toList_append] at h
  exact String.toList_inj.mp (List.append_cancel_left h)

/-- **Which parts show alike.** -/
theorem render_eq_iff {p q : PathPart} : p.render = q.render ↔ p.Alike q := by
  constructor
  · intro h
    cases p with
    | static s =>
        cases q with
        | static t => exact (show s = t from h) ▸ .same (.static s)
        | capture name A => exact (show s = ":" ++ name from h) ▸ .segment name A
        | captureAll name A => exact (show s = ":" ++ name from h) ▸ .segmentAll name A
    | capture name A =>
        cases q with
        | static t => exact (show ":" ++ name = t from h) ▸ .segment' name A
        | capture name' B => exact colon_inj h ▸ .same (.capture name A B)
        | captureAll name' B => exact colon_inj h ▸ .captures name A B
    | captureAll name A =>
        cases q with
        | static t => exact (show ":" ++ name = t from h) ▸ .segmentAll' name A
        | capture name' B => exact colon_inj h ▸ .captures' name A B
        | captureAll name' B => exact colon_inj h ▸ .same (.captureAll name A B)
  · intro h
    cases h with
    | same h => cases h <;> rfl
    | _ => rfl

/-- One host, one method or both raw, and paths that agree part by part. -/
structure EndpointDoc.SameRoute (Agree : PathPart → PathPart → Prop) (a b : EndpointDoc) :
    Prop where
  host : a.host.map HostDoc.name = b.host.map HostDoc.name
  method : (a.raw.isSome ∧ b.raw.isSome) ∨ (a.raw = none ∧ b.raw = none ∧ a.method = b.method)
  path : List.Forall₂ Agree a.path b.path

theorem key_eq_iff {a b : EndpointDoc} : a.key = b.key ↔ a.SameRoute PathPart.Alike b := by
  have hpath : a.path.map PathPart.render = b.path.map PathPart.render
      ↔ List.Forall₂ PathPart.Alike a.path b.path := by
    rw [← List.forall₂_eq_eq_eq, List.forall₂_map_left_iff, List.forall₂_map_right_iff]
    simp only [render_eq_iff]
  have hmethod : (if a.raw.isSome then none else some a.method)
        = (if b.raw.isSome then none else some b.method)
      ↔ (a.raw.isSome ∧ b.raw.isSome) ∨ (a.raw = none ∧ b.raw = none ∧ a.method = b.method) := by
    cases a.raw <;> cases b.raw <;> simp
  rw [EndpointDoc.key, EndpointDoc.key, Prod.mk.injEq, Prod.mk.injEq, hpath, hmethod]
  constructor
  · rintro ⟨hhost, hp, hm⟩
    exact ⟨hhost, hm, hp⟩
  · intro h
    exact ⟨h.host, h.path, h.method⟩

section Api

variable [AppTypes]

/-! ### The endpoints of an API -/

section Endpoints

variable (comb : Comb → EndpointDoc → EndpointDoc) (verbDoc : Terminal → EndpointDoc → EndpointDoc)

/-- The endpoints of an API, each documented alone. -/
def ApiDescription.endpointsWalk : ApiDescription → EndpointDoc → List EndpointDoc
  | emptyApi, _ => []
  | alt left right, acc => left.endpointsWalk acc ++ right.endpointsWalk acc
  | verb t, acc => [verbDoc t acc]
  | raw, acc => [{ acc with raw := some .raw }]
  | rawM, acc => [{ acc with raw := some .rawM }]
  | sub c next, acc => next.endpointsWalk (comb c acc)

variable {comb verbDoc} in
/-- **A document is its endpoints**, merged key by key. -/
theorem IsWalk.gathers [MimeEq] {walk : ApiDescription → EndpointDoc → ApiDoc}
    (h : IsWalk comb verbDoc walk) (api : ApiDescription) (acc : EndpointDoc) :
    KeyedList.Gathers EndpointDoc.key EndpointDoc.combine (api.endpointsWalk comb verbDoc acc)
      (walk api acc).endpoints := by
  induction api generalizing acc with
  | emptyApi =>
      rw [h.emptyApi]
      exact KeyedList.gathers_nil
  | alt left right ihl ihr =>
      rw [h.alt, ApiDoc.endpoints_extend]
      exact KeyedList.gathers_extend EndpointDoc.keepsKey (ihl acc) (ihr acc)
  | verb t =>
      rw [h.verb]
      exact KeyedList.gathers_singleton _
  | raw =>
      rw [h.raw]
      exact KeyedList.gathers_singleton _
  | rawM =>
      rw [h.rawM]
      exact KeyedList.gathers_singleton _
  | sub c next ih =>
      rw [h.sub]
      exact ih _

end Endpoints

section Walks

variable [HttpCrate] [TypeNames] [MimeEq]

/-- The endpoints of an API, from the left. -/
def ApiDescription.endpoints (api : ApiDescription) : List EndpointDoc :=
  api.endpointsWalk docsComb docsVerb .empty

theorem gathers_docs (api : ApiDescription) :
    KeyedList.Gathers EndpointDoc.key EndpointDoc.combine api.endpoints api.docs.endpoints :=
  isWalk_docsWalk.gathers api .empty

section

variable [ToSchema]

/-- The endpoints of an API with their schemas, from the left. -/
def ApiDescription.openapiEndpoints (api : ApiDescription) : List EndpointDoc :=
  api.endpointsWalk openapiComb openapiVerb .empty

theorem gathers_openapiDocs (api : ApiDescription) :
    KeyedList.Gathers EndpointDoc.key EndpointDoc.combine api.openapiEndpoints
      api.openapiDocs.endpoints :=
  isWalk_openapiDocsWalk.gathers api .empty

end

/-- An endpoint's number, and those of the endpoints merged with it. -/
abbrev Traced := EndpointDoc × List ℕ

/-- The walk of `docs` with the endpoints numbered, from `n` on. -/
def ApiDescription.tracedWalk : ApiDescription → EndpointDoc → ℕ → List Traced
  | emptyApi, _, _ => []
  | alt left right, acc, n =>
    KeyedList.extend (KeyedList.tagKey EndpointDoc.key) (KeyedList.tagCombine EndpointDoc.combine)
      (left.tracedWalk acc n)
      (right.tracedWalk acc (n + (left.endpointsWalk docsComb docsVerb acc).length))
  | verb t, acc, n => [(docsVerb t acc, [n])]
  | raw, acc, n => [({ acc with raw := some .raw }, [n])]
  | rawM, acc, n => [({ acc with raw := some .rawM }, [n])]
  | sub c next, acc, n => next.tracedWalk (docsComb c acc) n

def ApiDescription.tracedDocs (api : ApiDescription) : List Traced := api.tracedWalk .empty 0

/-- The numbers are carried along: without them the walk is that of `docs`. -/
theorem map_fst_tracedWalk (api : ApiDescription) (acc : EndpointDoc) (n : ℕ) :
    (api.tracedWalk acc n).map Prod.fst = (api.docsWalk acc).endpoints := by
  induction api generalizing acc n with
  | emptyApi => rfl
  | alt left right ihl ihr =>
      rw [ApiDescription.tracedWalk, KeyedList.map_fst_extend, ihl, ihr,
        ApiDescription.docsWalk, ApiDoc.endpoints_extend]
  | verb t => rfl
  | raw | rawM => rfl
  | sub c next ih => exact ih _ _

theorem map_fst_tracedDocs (api : ApiDescription) :
    api.tracedDocs.map Prod.fst = api.docs.endpoints := map_fst_tracedWalk api .empty 0

/-- An endpoint with its number. -/
def numbered (p : EndpointDoc × ℕ) : Traced := (p.1, [p.2])

theorem gathers_tracedWalk (api : ApiDescription) (acc : EndpointDoc) (n : ℕ) :
    KeyedList.Gathers (KeyedList.tagKey EndpointDoc.key) (KeyedList.tagCombine EndpointDoc.combine)
      (((api.endpointsWalk docsComb docsVerb acc).zipIdx n).map numbered)
      (api.tracedWalk acc n) := by
  induction api generalizing acc n with
  | emptyApi => exact KeyedList.gathers_nil
  | alt left right ihl ihr =>
      rw [ApiDescription.tracedWalk, ApiDescription.endpointsWalk, List.zipIdx_append,
        List.map_append]
      exact KeyedList.gathers_extend EndpointDoc.keepsKey.tag (ihl acc n) (ihr acc _)
  | verb t => exact KeyedList.gathers_singleton _
  | raw | rawM => exact KeyedList.gathers_singleton _
  | sub c next ih => exact ih _ _

/-- Two endpoints are in one entry when they have one key. -/
theorem same_doc_iff_key (api : ApiDescription) (i j : ℕ) :
    (∃ d ∈ api.tracedDocs, i ∈ d.2 ∧ j ∈ d.2)
      ↔ ∃ a b, api.endpoints[i]? = some a ∧ api.endpoints[j]? = some b ∧ a.key = b.key := by
  rw [ApiDescription.tracedDocs, KeyedList.mem_tags_iff (gathers_tracedWalk api .empty 0)]
  constructor
  · rintro ⟨p, hp, q, hq, hi, hj, hkey⟩
    obtain ⟨⟨a, i'⟩, ha, rfl⟩ := List.mem_map.mp hp
    obtain ⟨⟨b, j'⟩, hb, rfl⟩ := List.mem_map.mp hq
    obtain rfl : i = i' := List.mem_singleton.mp hi
    obtain rfl : j = j' := List.mem_singleton.mp hj
    exact ⟨a, b, List.mk_mem_zipIdx_iff_getElem?.mp ha, List.mk_mem_zipIdx_iff_getElem?.mp hb, hkey⟩
  · rintro ⟨a, b, ha, hb, hkey⟩
    refine ⟨numbered (a, i), List.mem_map_of_mem ?_, numbered (b, j), List.mem_map_of_mem ?_,
      List.mem_singleton_self i, List.mem_singleton_self j, hkey⟩
    · exact List.mk_mem_zipIdx_iff_getElem?.mpr ha
    · exact List.mk_mem_zipIdx_iff_getElem?.mpr hb

/-- **Which endpoints are documented as one.** -/
theorem same_doc_iff (api : ApiDescription) (i j : ℕ) :
    (∃ d ∈ api.tracedDocs, i ∈ d.2 ∧ j ∈ d.2)
      ↔ ∃ a b, api.endpoints[i]? = some a ∧ api.endpoints[j]? = some b ∧
        a.SameRoute PathPart.Alike b := by
  rw [same_doc_iff_key]
  simp only [key_eq_iff]

end Walks

end Api

/-! ### Two routes documented as one -/

section

attribute [local instance] AppTypes.reference HttpCrate.reference MimeEq.reference
  TypeNames.reference

/-- One segment, and all segments, under one name. -/
def restApi : ApiDescription :=
  .alt (.sub (.capture String .string .strict "rest") (.verb (.noContentVerb .GET)))
    (.sub (.captureAll String .string "rest") (.verb (.noContentVerb .GET)))

theorem captures_merged :
    ¬ ∀ api : ApiDescription, (∀ ep ∈ api.endpoints, (ep.path.filterMap PathPart.name?).Nodup) →
      ∀ i j a b, api.endpoints[i]? = some a → api.endpoints[j]? = some b →
        (∃ d ∈ api.tracedDocs, i ∈ d.2 ∧ j ∈ d.2) → a.SameRoute PathPart.Same b := by
  intro h
  have hmerged : ∃ d ∈ restApi.tracedDocs, 0 ∈ d.2 ∧ 1 ∈ d.2 :=
    (same_doc_iff_key restApi 0 1).mpr ⟨_, _, rfl, rfl, rfl⟩
  have hnames : ∀ ep ∈ restApi.endpoints, (ep.path.filterMap PathPart.name?).Nodup := by
    have hall : restApi.endpoints.map (fun ep => ep.path.filterMap PathPart.name?)
        = [["rest"], ["rest"]] := rfl
    have hnodup : ∀ names ∈ [["rest"], ["rest"]], names.Nodup := by decide
    rw [← hall] at hnodup
    exact List.forall_mem_map.mp hnodup
  have hpath := (h restApi hnames 0 1 _ _ rfl rfl hmerged).path
  rcases hpath with _ | ⟨⟨⟩, -⟩

end

end ServantRs.Docs
