import ServantRs.OpenApi.Operation
import ServantRs.Docs.Walk

/-!
# OpenAPI — the document

The endpoints of an API, raw ones left out, are put one by one into the object of paths: each under
the template of its path and its method.  A second endpoint there turns the operation into one with
alternatives, the first of which is the operation as it was.

`toCheckedOpenapi` refuses an operation id that two endpoints claim, and a component name two
different schemas claim.
-/

namespace ServantRs.OpenApi

open Docs

structure OpenApiInfo where
  title : String
  version : String
  description : Option String
deriving DecidableEq, Repr

inductive OpenApiError where
  | duplicateOperationId (operationId : String)
  | duplicateSchemaName (schemaName : String)
deriving DecidableEq, Repr

def OpenApiInfo.toJson (info : OpenApiInfo) : Value :=
  let m := SortedMap.insert "title" (.string info.title) []
  let m := SortedMap.insert "version" (.string info.version) m
  .object (insertSome "description" (info.description.map .string) m)

/-- `/s` for a segment, `/{name}` for either capture. -/
def templatedPart : PathPart → String
  | .static s                            => "/" ++ s
  | .capture name _ | .captureAll name _ => "/\x7b" ++ name ++ "\x7d"

def templatedPath (parts : List PathPart) : String :=
  if parts.isEmpty then "/" else parts.foldl (fun out part => out ++ templatedPart part) ""

/-! ### Paths -/

/-- A method as a path's member. -/
def methodKey (ep : EndpointDoc) : String := toAsciiLowercase ep.method.token

def sameMethodAlternative (operation : Members) : Value :=
  let host := (SortedMap.get HOST_EXTENSION operation).getD .null
  let alternative := SortedMap.insert "host" host []
  .object (SortedMap.insert "operation" (.object operation) alternative)

/-- The existing operation with its alternatives: at first, itself. -/
def withAlternatives (existing : Members) : Members :=
  if (SortedMap.get HOST_ALTERNATIVES_EXTENSION existing).isSome then existing
  else SortedMap.insert HOST_ALTERNATIVES_EXTENSION
    (.array [sameMethodAlternative existing]) existing

def appendSameMethodAlternative : Value → Value → Value
  | .object existing, .object operation =>
    let existing := withAlternatives existing
    match SortedMap.get HOST_ALTERNATIVES_EXTENSION existing with
    | some (.array alternatives) =>
      .object (SortedMap.insert HOST_ALTERNATIVES_EXTENSION
        (.array (alternatives ++ [sameMethodAlternative operation])) existing)
    | _ => .object existing
  | existing, _ => existing

def insertMethodOperation (methods : Members) (method : String) (operation : Value) : Members :=
  match SortedMap.get method methods with
  | some existing =>
    SortedMap.insert method (appendSameMethodAlternative existing operation) methods
  | none => SortedMap.insert method operation methods

/-- One endpoint put into the paths. -/
def insertEndpoint (paths : Members) (ep : EndpointDoc) : Members :=
  let pathKey := templatedPath ep.path
  match SortedMap.get pathKey paths with
  | some (.object methods) =>
    SortedMap.insert pathKey
      (.object (insertMethodOperation methods (methodKey ep) (operationFor ep))) paths
  | _ =>
    SortedMap.insert pathKey
      (.object (insertMethodOperation [] (methodKey ep) (operationFor ep))) paths

/-- The endpoints that are written: raw ones have no method. -/
def documented (doc : ApiDoc) : List EndpointDoc := doc.endpoints.filter fun ep => ep.raw.isNone

/-! ### Components -/

/-- The schemas of all bodies. -/
def schemaDocs (doc : ApiDoc) : List SchemaDoc :=
  doc.endpoints.flatMap fun ep =>
    (ep.requestBody.map BodyDoc.schema).toList ++ ep.responseSchema.toList

/-- A schema put under its component name, unless there is one. -/
def insertComponent (components : Members) (schema : SchemaDoc) : Members :=
  match schema.componentName, schema.schema with
  | some name, some value =>
    if (SortedMap.get name components).isSome then components
    else SortedMap.insert name value components
  | _, _ => components

def componentSchemas (doc : ApiDoc) : Members := (schemaDocs doc).foldl insertComponent []

/-! ### Documents -/

def toOpenapi (doc : ApiDoc) (info : OpenApiInfo) : Value :=
  let paths := (documented doc).foldl insertEndpoint []
  let root := SortedMap.insert "openapi" (.string "3.0.3") []
  let root := SortedMap.insert "info" info.toJson root
  let root := SortedMap.insert "paths" (.object paths) root
  let schemas := componentSchemas doc
  .object (if schemas.isEmpty then root
    else SortedMap.insert "components" (obj [("schemas", .object schemas)]) root)

/-- `seen`: the ids of the endpoints before. -/
def checkOperationIds (seen : List String) : List EndpointDoc → Except OpenApiError Unit
  | []        => .ok ()
  | ep :: eps =>
    match ep.operationId with
    | none    => checkOperationIds seen eps
    | some id =>
      if id ∈ seen then .error (.duplicateOperationId id)
      else checkOperationIds (id :: seen) eps

/-- `seen`: the schemas before, by component name. -/
def checkSchemaComponents (seen : Members) : List SchemaDoc → Except OpenApiError Unit
  | []                => .ok ()
  | schema :: schemas =>
    match schema.componentName, schema.schema with
    | some name, some value =>
      match SortedMap.get name seen with
      | some existing =>
        if existing ≠ value then .error (.duplicateSchemaName name)
        else checkSchemaComponents seen schemas
      | none => checkSchemaComponents (SortedMap.insert name value seen) schemas
    | _, _ => checkSchemaComponents seen schemas

def toCheckedOpenapi (doc : ApiDoc) (info : OpenApiInfo) : Except OpenApiError Value := do
  checkOperationIds [] doc.endpoints
  checkSchemaComponents [] (schemaDocs doc)
  pure (toOpenapi doc info)

section

variable [AppTypes] [HttpCrate] [TypeNames] [ToSchema] [MimeEq]

/-- The document of an API. -/
def openapiFor (api : ApiDescription) (info : OpenApiInfo) : Value := toOpenapi api.openapiDocs info

def checkedOpenapiFor (api : ApiDescription) (info : OpenApiInfo) : Except OpenApiError Value :=
  toCheckedOpenapi api.openapiDocs info

end

/-! ### Members of a document -/

theorem get_paths (doc : ApiDoc) (info : OpenApiInfo) :
    (toOpenapi doc info).get "paths"
      = some (.object ((documented doc).foldl insertEndpoint [])) := by
  simp only [toOpenapi, Value.get_object]
  split <;> simp [SortedMap.get_insert]

/-- The schema of a component. -/
def componentSchema (doc : Value) (name : String) : Option Value := do
  let components ← doc.get "components"
  let schemas ← components.get "schemas"
  schemas.get name

theorem componentSchema_toOpenapi (doc : ApiDoc) (info : OpenApiInfo) (name : String) :
    componentSchema (toOpenapi doc info) name = SortedMap.get name (componentSchemas doc) := by
  simp only [toOpenapi, componentSchema, Value.get_object]
  split
  case isTrue h =>
    rw [List.isEmpty_iff.mp h]
    simp [SortedMap.get_insert, SortedMap.get]
  case isFalse => simp [SortedMap.get_insert, obj]

end ServantRs.OpenApi
