import ServantRs.Docs.Merge

/-!
# Docs — the two walks agree

Taking the schemas out of what `openapiDocs` says leaves what `docs` says
(`map_eraseSchemas_openapiDocsWalk`): it does so at every combinator and every terminal, and
schemas take no part in keys and merging.  Hence `docs_agree`.
-/

namespace ServantRs.Docs

/-- A body without what only `ToSchema` knows of its type. -/
def BodyDoc.eraseSchema (body : BodyDoc) : BodyDoc :=
  { body with schema := .ofTypeName body.typeName }

/-- An endpoint without what only `ToSchema` knows of its types. -/
def EndpointDoc.eraseSchemas (ep : EndpointDoc) : EndpointDoc :=
  { ep with requestBody := ep.requestBody.map BodyDoc.eraseSchema, responseSchema := none }

/-- Two bodies agree but for their schemas. -/
structure BodyDoc.Agrees (a b : BodyDoc) : Prop where
  contentTypes : a.contentTypes = b.contentTypes
  typeName : a.typeName = b.typeName
  streaming : a.streaming = b.streaming

/-- Two endpoints agree but for the schemas of request body and response. -/
structure EndpointDoc.Agrees (a b : EndpointDoc) : Prop where
  path : a.path = b.path
  method : a.method = b.method
  status : a.status = b.status
  queryParams : a.queryParams = b.queryParams
  headers : a.headers = b.headers
  host : a.host = b.host
  requestBody : Option.Rel BodyDoc.Agrees a.requestBody b.requestBody
  responseTypes : a.responseTypes = b.responseTypes
  summary : a.summary = b.summary
  description : a.description = b.description
  operationId : a.operationId = b.operationId
  fragment : a.fragment = b.fragment
  queryString : a.queryString = b.queryString
  deepQueries : a.deepQueries = b.deepQueries
  raw : a.raw = b.raw

namespace EndpointDoc

theorem agrees_eraseSchemas (ep : EndpointDoc) : Agrees ep ep.eraseSchemas where
  path := rfl
  method := rfl
  status := rfl
  queryParams := rfl
  headers := rfl
  host := rfl
  requestBody := by
    rw [eraseSchemas]
    cases ep.requestBody with
    | none => exact .none
    | some body => exact .some ⟨rfl, rfl, rfl⟩
  responseTypes := rfl
  summary := rfl
  description := rfl
  operationId := rfl
  fragment := rfl
  queryString := rfl
  deepQueries := rfl
  raw := rfl

/-! ### Keys and merging -/

theorem key_eraseSchemas (ep : EndpointDoc) : ep.eraseSchemas.key = ep.key := rfl

theorem eraseSchemas_combine [MimeEq] (a b : EndpointDoc) :
    (a.combine b).eraseSchemas = a.eraseSchemas.combine b.eraseSchemas := by
  have hbody : (a.requestBody.or b.requestBody).map BodyDoc.eraseSchema
      = (a.requestBody.map BodyDoc.eraseSchema).or (b.requestBody.map BodyDoc.eraseSchema) := by
    cases a.requestBody <;> rfl
  simp only [eraseSchemas, combine, hbody, Option.or_none]

end EndpointDoc

open EndpointDoc (eraseSchemas)

theorem map_eraseSchemas_extend [MimeEq] (doc other : ApiDoc) :
    ((doc.extend other).endpoints.map eraseSchemas)
      = (ApiDoc.extend ⟨doc.endpoints.map eraseSchemas⟩
          ⟨other.endpoints.map eraseSchemas⟩).endpoints := by
  rw [ApiDoc.endpoints_extend, ApiDoc.endpoints_extend]
  exact KeyedList.map_extend EndpointDoc.key_eraseSchemas EndpointDoc.eraseSchemas_combine _ _

/-! ### The walks -/

variable [TypeNames] [ToSchema]

theorem eraseSchemas_openapiVerb (t : Terminal) (acc : EndpointDoc) :
    (openapiVerb t acc).eraseSchemas = docsVerb t acc.eraseSchemas := by
  cases t <;> rfl

variable [AppTypes] [HttpCrate]

theorem eraseSchemas_openapiComb (c : Comb) (acc : EndpointDoc) :
    (openapiComb c acc).eraseSchemas = docsComb c acc.eraseSchemas := by
  cases c <;> rfl

variable [MimeEq]

/-- The walk with schemas, its schemas taken out, is the walk without them. -/
theorem map_eraseSchemas_openapiDocsWalk (api : ApiDescription) (acc : EndpointDoc) :
    (api.openapiDocsWalk acc).endpoints.map eraseSchemas
      = (api.docsWalk acc.eraseSchemas).endpoints := by
  induction api generalizing acc with
  | emptyApi => rfl
  | alt left right ihl ihr =>
      rw [ApiDescription.openapiDocsWalk, map_eraseSchemas_extend, ihl, ihr,
        ApiDescription.docsWalk]
  | verb t => exact congrArg (fun ep => [ep]) (eraseSchemas_openapiVerb t acc)
  | raw | rawM => rfl
  | sub c next ih =>
      rw [ApiDescription.openapiDocsWalk, ih, eraseSchemas_openapiComb, ApiDescription.docsWalk]

/-- **The two walks agree**, endpoint by endpoint and field by field, but for the schemas of
request bodies and responses. -/
theorem docs_agree (api : ApiDescription) :
    List.Forall₂ EndpointDoc.Agrees api.openapiDocs.endpoints api.docs.endpoints := by
  have hmap : api.openapiDocs.endpoints.map eraseSchemas = api.docs.endpoints :=
    map_eraseSchemas_openapiDocsWalk api .empty
  rw [← hmap, List.forall₂_map_right_iff, List.forall₂_same]
  exact fun ep _ => ep.agrees_eraseSchemas

end ServantRs.Docs
