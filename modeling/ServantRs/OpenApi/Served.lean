import ServantRs.Docs.Agreement
import ServantRs.Docs.Served
import ServantRs.OpenApi.Grouping

/-!
# OpenAPI — operations of a served API

A handler that runs has its operation in the OpenAPI document of the API: at the template of its
path, under its method (`handler_operation`).
-/

namespace ServantRs

open Docs OpenApi

section

variable [AppTypes] [HttpCrate] [MimeCrate] [Base64Crate] [TypeNames] [MimeEq] [ToSchema]

omit [MimeCrate] [Base64Crate] in
/-- An entry of the documentation has one of the OpenAPI document, the same but for schemas. -/
theorem exists_openapi_entry {api : ApiDescription} {ep : EndpointDoc}
    (h : ep ∈ api.docs.endpoints) : ∃ ep' ∈ api.openapiDocs.endpoints, ep'.eraseSchemas = ep := by
  have hmap : api.openapiDocs.endpoints.map EndpointDoc.eraseSchemas = api.docs.endpoints :=
    map_eraseSchemas_openapiDocsWalk api .empty
  rw [← hmap] at h
  exact List.mem_map.mp h

omit [AppTypes] [HttpCrate] [MimeCrate] [Base64Crate] [TypeNames] [MimeEq] [ToSchema] in
/-- The operation of an entry is among those at its path and method. -/
theorem operation_at_entry {doc : ApiDoc} {info : OpenApiInfo} {ep : EndpointDoc}
    (h : ep ∈ documented doc) : ∃ main,
      operationAt (toOpenapi doc info) (templatedPath ep.path) (methodKey ep) = some main ∧
        operationFor ep ∈ operations main := by
  have hmem : ep ∈ slot doc (templatedPath ep.path) (methodKey ep) :=
    List.mem_filter.mpr ⟨h, decide_eq_true ⟨rfl, rfl⟩⟩
  have hsome := (slotOperation_isSome _).mpr (List.ne_nil_of_mem hmem)
  obtain ⟨main, hmain⟩ := Option.isSome_iff_exists.mp hsome
  refine ⟨main, (operationAt_toOpenapi doc info _ _).trans hmain, ?_⟩
  rw [operations_of_slot hmain]
  exact List.mem_map_of_mem hmem

/-- **A handler that runs has its operation in the OpenAPI document**: at a template that covers the
path, under the method of the request, or `get` for a `HEAD`. -/
theorem handler_operation {api : Api} (hu : api.description.Unambiguous) (info : OpenApiInfo)
    {context : Context} {segments : List String} {req : RequestData} {body : List BodyEvent}
    {maxBody label : Nat} {chain : Chain} {args : chain.Args}
    (h : .handler label chain args ∈
      (dispatch Leaf.call (serveWithContext api context) segments [] none req
        (.new body maxBody)).2.log) :
    ∃ ep ∈ api.description.openapiDocs.endpoints, ep.Covers segments ∧
      (ep.method = req.method ∨ (req.isHead = true ∧ ep.method = .GET)) ∧
      ∃ main, operationAt (openapiFor api.description info) (templatedPath ep.path) (methodKey ep)
          = some main ∧ operationFor ep ∈ operations main := by
  obtain ⟨_, hentry, hcovers, hraw, hmethod⟩ := exists_entry_of_handler hu h
  obtain ⟨ep, hep, rfl⟩ := exists_openapi_entry hentry
  have hraw : ep.raw = none := hraw
  refine ⟨ep, hep, hcovers, hmethod, operation_at_entry ?_⟩
  exact List.mem_filter.mpr ⟨hep, by rw [hraw]; rfl⟩

end

/-! ### One operation -/

section

attribute [local instance] AppTypes.reference HttpCrate.reference MimeCrate.reference
  Base64Crate.reference MimeEq.reference TypeNames.reference ToSchema.reference

theorem handler_operation_ping : ∃ ep ∈ pingApi.description.openapiDocs.endpoints,
    ep.Covers ["ping"] ∧ (ep.method = .GET ∨ (false = true ∧ ep.method = .GET)) ∧
      ∃ main, operationAt (openapiFor pingApi.description ⟨"ping", "1", none⟩)
          (templatedPath ep.path) (methodKey ep) = some main ∧
        operationFor ep ∈ operations main :=
  handler_operation pingApi_unambiguous ⟨"ping", "1", none⟩ pingApi_handled

end

end ServantRs
