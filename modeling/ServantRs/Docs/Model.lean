import ServantRs.Core.Host
import ServantRs.Support.KeyedList

/-!
# Docs — the documentation of an API

An API is documented by the list of its endpoints (`ApiDoc`).  Endpoints of one host, one rendered
path and one method share a key; all raw endpoints of a host and path share one too.  An endpoint
is merged into the one of its key, which keeps precedence (`EndpointDoc.combine`).
-/

namespace ServantRs.Docs

/-! ### Schemas -/

/-- A JSON value: numbers by their literal, members in order. -/
inductive Value where
  | null
  | bool (b : Bool)
  | number (literal : String)
  | string (s : String)
  | array (items : List Value)
  | object (members : List (String × Value))

/-- `std::any::type_name`. -/
class TypeNames where
  typeName : Type → String

/-- What types say of themselves through the trait `ToSchema`. -/
class ToSchema where
  schema : Type → Value
  componentName : Type → Option String

/-- Every type a string. -/
@[reducible] def TypeNames.reference : TypeNames := ⟨fun _ => "alloc::string::String"⟩

@[reducible] def ToSchema.reference : ToSchema where
  schema _ := .object [("type", .string "string")]
  componentName _ := none

/-- A type's name, the component key of its schema and the schema, where they are known. -/
structure SchemaDoc where
  typeName : String
  componentName : Option String
  schema : Option Value

namespace SchemaDoc

/-- Only the name of a type. -/
def ofTypeName (typeName : String) : SchemaDoc := ⟨typeName, none, none⟩

def forType [TypeNames] [ToSchema] (T : Type) : SchemaDoc :=
  ⟨TypeNames.typeName T, ToSchema.componentName T, some (ToSchema.schema T)⟩

end SchemaDoc

/-! ### Endpoints -/

inductive PathPart where
  | static (segment : String)
  | capture (name typeName : String)
  | captureAll (name typeName : String)
deriving DecidableEq, Repr

/-- A part as a path line shows it. -/
def PathPart.render : PathPart → String
  | static s          => s
  | capture name _    => ":" ++ name
  | captureAll name _ => ":" ++ name

inductive ParamKind where
  | normal | list | flag
deriving DecidableEq, Repr

/-- A query parameter; a flag has no type. -/
structure ParamDoc where
  name : String
  kind : ParamKind
  typeName : String
deriving DecidableEq, Repr

structure BodyDoc where
  contentTypes : List Mime
  typeName : String
  schema : SchemaDoc
  streaming : Bool

structure FragmentDoc where
  typeName : String
  description : String
deriving DecidableEq, Repr

structure QueryStringDoc where
  decodedOrderedPairs : Bool
  rawQueryAvailable : Bool
deriving DecidableEq, Repr

structure DeepQueryDoc where
  name : String
  typeName : String
deriving DecidableEq, Repr

structure HostDoc where
  name : String
  portPolicy : HostPortPolicy
  port : Option UInt16
deriving DecidableEq, Repr

/-- A `Host` value with the way its port is compared; one that is no authority asks for no port. -/
def HostDoc.fromName [HttpCrate] (name : String) : HostDoc :=
  let parsed := HostRequirement.parse name
  { name
    portPolicy := (parsed.map HostRequirement.portPolicy).getD .ignoreRequestPort
    port := parsed.bind HostRequirement.port }

inductive RawDoc where
  | raw | rawM
deriving DecidableEq, Repr

/-- An endpoint: what the combinators above a terminal say, and the terminal. -/
structure EndpointDoc where
  path : List PathPart
  method : Method
  status : StatusCode
  queryParams : List ParamDoc
  headers : List String
  host : Option HostDoc
  requestBody : Option BodyDoc
  responseTypes : List Mime
  responseSchema : Option SchemaDoc
  summary : Option String
  description : Option String
  operationId : Option String
  fragment : Option FragmentDoc
  queryString : Option QueryStringDoc
  deepQueries : List DeepQueryDoc
  raw : Option RawDoc

namespace EndpointDoc

/-- No combinator yet: `GET /`, answering `200`. -/
def empty : EndpointDoc where
  path := []
  method := .GET
  status := .OK
  queryParams := []
  headers := []
  host := none
  requestBody := none
  responseTypes := []
  responseSchema := none
  summary := none
  description := none
  operationId := none
  fragment := none
  queryString := none
  deepQueries := []
  raw := none

/-- What two endpoints are merged by.  A raw endpoint answers every method. -/
def key (ep : EndpointDoc) : Option String × List String × Option Method :=
  (ep.host.map HostDoc.name, ep.path.map PathPart.render,
    if ep.raw.isSome then none else some ep.method)

/-- `other` merged into `self`, which keeps what it has.  Lists are concatenated, but for response
types, which are not repeated. -/
def combine [MimeEq] (self other : EndpointDoc) : EndpointDoc where
  path := self.path
  method := self.method
  status := self.status
  queryParams := self.queryParams ++ other.queryParams
  headers := self.headers ++ other.headers
  host := self.host.or other.host
  requestBody := self.requestBody.or other.requestBody
  responseTypes := KeyedList.union MimeEq.eq self.responseTypes other.responseTypes
  responseSchema := self.responseSchema.or other.responseSchema
  summary := self.summary.or other.summary
  description := self.description.or other.description
  operationId := self.operationId.or other.operationId
  fragment := self.fragment.or other.fragment
  queryString := self.queryString.or other.queryString
  deepQueries := self.deepQueries ++ other.deepQueries
  raw := self.raw.or other.raw

end EndpointDoc

/-! ### APIs -/

/-- The endpoints of an API, in the order of its alternatives. -/
@[ext] structure ApiDoc where
  endpoints : List EndpointDoc

namespace ApiDoc

def empty : ApiDoc := ⟨[]⟩

def single (ep : EndpointDoc) : ApiDoc := ⟨[ep]⟩

variable [MimeEq]

/-- `ep` merged into the endpoint of its key, or at the end. -/
def push (doc : ApiDoc) (ep : EndpointDoc) : ApiDoc :=
  ⟨KeyedList.push EndpointDoc.key EndpointDoc.combine ep doc.endpoints⟩

/-- The endpoints of `other`, one after the other, in `doc`. -/
def extend (doc other : ApiDoc) : ApiDoc := other.endpoints.foldl push doc

end ApiDoc

end ServantRs.Docs
