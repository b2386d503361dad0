import ServantRs.Docs.Json
import ServantRs.Support.Text

/-!
# OpenAPI — operations

An endpoint is written as an Operation object: its texts, its parameters, its request body and its
one response.  A body whose type has a component name is referred to by it; the schema of any other
is written in place, or made up from the name of its type (`schemaFor`).

* `get_alternatives`: an operation by itself has no alternatives.
-/

namespace ServantRs.OpenApi

open Docs

/-! ### Schemas -/

/-- A type's name without path and arguments. -/
def shortName (typeName : String) : String :=
  let head := (splitChar '<' typeName).headD typeName
  trim (((afterLast "::".toList head.toList).map String.ofList).getD head)

def integerTypes : List String :=
  ["u8", "u16", "u32", "u64", "u128", "usize", "i8", "i16", "i32", "i64", "i128", "isize"]

/-- How the names of sequences begin. -/
def sequencePrefixes : List String := ["alloc::vec::Vec", "Vec", "[", "&[", "[&"]

/-- A schema made up from the name of a type. -/
def schemaFor (typeName : String) : Value :=
  let trimmed := trim typeName
  let short := shortName trimmed
  if short ∈ integerTypes then obj [("type", .string "integer")]
  else if short ∈ ["f32", "f64"] then obj [("type", .string "number")]
  else if short = "bool" then obj [("type", .string "boolean")]
  else if short ∈ ["String", "str", "&str"] then obj [("type", .string "string")]
  else if sequencePrefixes.any fun p => (stripPrefix p trimmed).isSome then
    obj [("type", .string "array"), ("items", obj [])]
  else obj [("type", .string "object"), ("title", .string short)]

/-- A reference to the schema of a component. -/
def schemaRef (name : String) : Value := obj [("$ref", .string ("#/components/schemas/" ++ name))]

def schemaForDoc (schema : SchemaDoc) : Value :=
  match schema.componentName with
  | some name => schemaRef name
  | none      => schema.schema.getD (schemaFor schema.typeName)

/-! ### Parameters -/

def pathParameter (name typeName : String) : Value :=
  obj [("name", .string name), ("in", .string "path"), ("required", .bool true),
    ("schema", schemaFor typeName)]

/-- The short name of a type as its schema's title, unless there is one. -/
def attachTypeTitle (schema : Value) (typeName : String) : Value :=
  if typeName = "" then schema
  else match schema with
    | .object m =>
      if (SortedMap.get "title" m).isSome then .object m
      else .object (SortedMap.insert "title" (.string (shortName typeName)) m)
    | schema => schema

def queryParameter (param : ParamDoc) : Value :=
  let head :=
    [("name", Value.string param.name), ("in", .string "query"), ("required", .bool false)]
  match param.kind with
  | .flag =>
    obj (head ++ [("allowEmptyValue", .bool true), ("schema", obj [("type", .string "boolean")])])
  | .list =>
    obj (head ++ [("style", .string "form"), ("explode", .bool true),
      ("schema", attachTypeTitle (obj [("type", .string "array"), ("items", obj [])])
        param.typeName)])
  | .normal => obj (head ++ [("schema", attachTypeTitle (schemaFor param.typeName) param.typeName)])

def deepQueryParameter (param : DeepQueryDoc) : Value :=
  obj [("name", .string param.name), ("in", .string "query"), ("required", .bool false),
    ("style", .string "deepObject"), ("explode", .bool true), ("schema", schemaFor param.typeName)]

def headerParameter (name : String) : Value :=
  obj [("name", .string name), ("in", .string "header"), ("required", .bool false),
    ("schema", obj [("type", .string "string")])]

/-- The parameters of the path. -/
def pathParameters : List PathPart → List Value :=
  List.filterMap fun
    | .static _                 => none
    | .capture name typeName    => some (pathParameter name typeName)
    | .captureAll name typeName => some (pathParameter name typeName)

def parametersFor (ep : EndpointDoc) : List Value :=
  pathParameters ep.path ++ ep.queryParams.map queryParameter
    ++ ep.deepQueries.map deepQueryParameter ++ ep.headers.map headerParameter

/-! ### Operations -/

def HOST_EXTENSION : String := "x-servant-host"
def HOST_ALTERNATIVES_EXTENSION : String := "x-servant-host-alternatives"

def hostExtension (host : HostDoc) : Value :=
  let head := [("name", Value.string host.name), ("hostnameCaseInsensitive", .bool true)]
  match host.portPolicy with
  | .ignoreRequestPort => obj (head ++ [("portPolicy", .string "ignore-request-port")])
  | .requireExplicitPort port =>
    obj (head ++ [("portPolicy", .string "explicit-port-must-match"),
      ("port", .number port.toNat.repr)])

/-- A media type without its parameters. -/
def mediaKey (media : Mime) : String := media.type_ ++ "/" ++ media.subtype

/-- One schema under each media type. -/
def contentFor (types : List Mime) (schema : Value) : Value :=
  obj (types.map fun media => (mediaKey media, obj [("schema", schema)]))

def requestBodyFor (body : BodyDoc) : Value :=
  let head := [("required", .bool true),
    ("content", contentFor body.contentTypes (schemaForDoc body.schema))]
  if body.streaming then obj (head ++ [("x-servant-streaming-request-body", .bool true)])
  else obj head

def responseSchemaFor (ep : EndpointDoc) : Value :=
  (ep.responseSchema.map schemaForDoc).getD (obj [])

/-- One response, under the status; no content without a media type. -/
def responsesFor (ep : EndpointDoc) : Value :=
  let description := [("description", .string "")]
  let response :=
    if ep.responseTypes.isEmpty then obj description
    else obj (description
      ++ [("content", contentFor ep.responseTypes (responseSchemaFor ep))])
  obj [(ep.status.code.repr, response)]

def queryStringExtension : Value :=
  obj [("decodedOrderedPairs", .bool true), ("rawQuery", .string "available")]

def parametersMember (ep : EndpointDoc) : Option Value :=
  if (parametersFor ep).isEmpty then none else some (.array (parametersFor ep))

/-- The members of an operation, in the order they are written. -/
def operationMembers (ep : EndpointDoc) : Members :=
  let op := insertSome "summary" (ep.summary.map .string) []
  let op := insertSome "description" (ep.description.map .string) op
  let op := insertSome "operationId" (ep.operationId.map .string) op
  let op := insertSome "parameters" (parametersMember ep) op
  let op := insertSome "x-servant-query-string"
    (ep.queryString.map fun _ => queryStringExtension) op
  let op := insertSome HOST_EXTENSION (ep.host.map hostExtension) op
  let op := insertSome "requestBody" (ep.requestBody.map requestBodyFor) op
  SortedMap.insert "responses" (responsesFor ep) op

def operationFor (ep : EndpointDoc) : Value := .object (operationMembers ep)

/-! ### The members of an operation -/

section Members

attribute [local simp] operationFor operationMembers SortedMap.get SortedMap.get_insert
  get_insertSome HOST_EXTENSION HOST_ALTERNATIVES_EXTENSION

variable (ep : EndpointDoc)

@[simp] theorem get_operationId :
    (operationFor ep).get "operationId" = ep.operationId.map .string := by simp

@[simp] theorem get_parameters : (operationFor ep).get "parameters" = parametersMember ep := by simp

@[simp] theorem get_host :
    (operationFor ep).get HOST_EXTENSION = ep.host.map hostExtension := by simp

@[simp] theorem get_requestBody :
    (operationFor ep).get "requestBody" = ep.requestBody.map requestBodyFor := by simp

@[simp] theorem get_responses :
    (operationFor ep).get "responses" = some (responsesFor ep) := by simp

/-- No endpoint speaks of alternatives itself. -/
@[simp] theorem get_alternatives :
    (operationFor ep).get HOST_ALTERNATIVES_EXTENSION = none := by simp

end Members

end ServantRs.OpenApi
