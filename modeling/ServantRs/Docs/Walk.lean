import ServantRs.Core.Api
import ServantRs.Docs.Model

/-!
# Docs — the two walks

Both walks take an accumulator down an API description: each combinator adds what it says of the
endpoints below it, both sides of an alternative start from the same accumulator, and a terminal
ends it.  `docs` knows types by their names (`HasDocs`); `openapiDocs` also takes the schemas of
bodies and responses (`HasOpenApi`).
-/

namespace ServantRs.Docs

variable [AppTypes]

/-- An API description: alternatives may stand below combinators. -/
inductive ApiDescription where
  | emptyApi
  | alt (left right : ApiDescription)
  | verb (t : Terminal)
  | raw
  | rawM
  | sub (c : Comb) (next : ApiDescription)

/-- One more sentence of description, after what there is. -/
def EndpointDoc.note (acc : EndpointDoc) (note : String) : EndpointDoc :=
  { acc with
    description := some (match acc.description with
      | some d => d ++ "\n\n" ++ note
      | none   => note) }

open TypeNames (typeName)

variable [HttpCrate] [TypeNames]

/-! ### `HasDocs` -/

/-- What a combinator adds. -/
def docsComb : Comb → EndpointDoc → EndpointDoc
  | .path segment, acc => { acc with path := acc.path ++ [.static segment] }
  | .capture A _ _ name, acc => { acc with path := acc.path ++ [.capture name (typeName A)] }
  | .captureAll A _ name, acc => { acc with path := acc.path ++ [.captureAll name (typeName A)] }
  | .queryParam A _ _ _ name, acc =>
    { acc with queryParams := acc.queryParams ++ [⟨name, .normal, typeName A⟩] }
  | .queryParams A _ name, acc =>
    { acc with queryParams := acc.queryParams ++ [⟨name, .list, typeName A⟩] }
  | .queryFlag name, acc => { acc with queryParams := acc.queryParams ++ [⟨name, .flag, ""⟩] }
  | .queryString, acc => { acc with queryString := some ⟨true, true⟩ }
  | .deepQuery A _ name, acc =>
    { acc with deepQueries := acc.deepQueries ++ [⟨name, typeName A⟩] }
  | .header _ _ _ _ name, acc => { acc with headers := acc.headers ++ [name] }
  | .host name, acc => { acc with host := some (.fromName name) }
  | .reqBody A ctypes _, acc =>
    { acc with
      requestBody := some
        ⟨Codec.allMediaTypes ctypes, typeName A, .ofTypeName (typeName A), false⟩ }
  | .streamBody _ T codec, acc =>
    { acc with
      requestBody := some
        ⟨Codec.allMediaTypes [codec], typeName T, .ofTypeName (typeName T), true⟩ }
  | .fragment A _ description, acc => { acc with fragment := some ⟨typeName A, description⟩ }
  | .description text, acc => { acc with description := some text }
  | .summary text, acc => { acc with summary := some text }
  | .operationId id, acc => { acc with operationId := some id }
  | .vault, acc => acc
  | .withResource _, acc => acc
  | .basicAuth _ realm, acc =>
    acc.note ("Requires HTTP Basic authentication (realm `" ++ realm ++ "`).")
  | .authProtect _, acc => acc.note "Requires authentication."
  | .isSecure, acc => acc
  | .httpVersion, acc => acc
  | .remoteHost, acc => acc
  | .withNamedContext _, acc => acc

/-- What a verb ends the accumulator with. -/
def docsVerb (t : Terminal) (acc : EndpointDoc) : EndpointDoc :=
  match t with
  | .verb _ _ _ ctypes =>
    { acc with
      method := t.method
      status := t.status
      responseTypes := Codec.allMediaTypes ctypes }
  | .verbWithHeaders _ _ _ ctypes =>
    { acc with
      method := t.method
      status := t.status
      responseTypes := Codec.allMediaTypes ctypes }
  | .uverb _ ctypes _ _ =>
    EndpointDoc.note
      { acc with
        method := t.method
        status := t.status
        responseTypes := MediaType.allMediaTypes ctypes }
      "Returns one of several status codes (union response)."
  | .streamVerb _ _ _ _ codec =>
    EndpointDoc.note
      { acc with
        method := t.method
        status := t.status
        responseTypes := Codec.allMediaTypes [codec] }
      "Streaming response."
  | .noContentVerb _ =>
    { acc with
      method := t.method
      status := t.status
      responseTypes := [] }

section

variable [MimeEq]

def ApiDescription.docsWalk : ApiDescription → EndpointDoc → ApiDoc
  | emptyApi, _ => .empty
  | alt left right, acc => (left.docsWalk acc).extend (right.docsWalk acc)
  | verb t, acc => .single (docsVerb t acc)
  | raw, acc => .single { acc with raw := some .raw }
  | rawM, acc => .single { acc with raw := some .rawM }
  | sub c next, acc => next.docsWalk (docsComb c acc)

/-- The documentation of an API. -/
def ApiDescription.docs (api : ApiDescription) : ApiDoc := api.docsWalk .empty

end

/-! ### `HasOpenApi` -/

variable [ToSchema]

open SchemaDoc (forType)

/-- What a combinator adds. -/
def openapiComb : Comb → EndpointDoc → EndpointDoc
  | .path segment, acc => { acc with path := acc.path ++ [.static segment] }
  | .capture A _ _ name, acc => { acc with path := acc.path ++ [.capture name (typeName A)] }
  | .captureAll A _ name, acc => { acc with path := acc.path ++ [.captureAll name (typeName A)] }
  | .queryParam A _ _ _ name, acc =>
    { acc with queryParams := acc.queryParams ++ [⟨name, .normal, typeName A⟩] }
  | .queryParams A _ name, acc =>
    { acc with queryParams := acc.queryParams ++ [⟨name, .list, typeName A⟩] }
  | .queryFlag name, acc => { acc with queryParams := acc.queryParams ++ [⟨name, .flag, ""⟩] }
  | .queryString, acc => { acc with queryString := some ⟨true, true⟩ }
  | .deepQuery A _ name, acc =>
    { acc with deepQueries := acc.deepQueries ++ [⟨name, typeName A⟩] }
  | .header _ _ _ _ name, acc => { acc with headers := acc.headers ++ [name] }
  | .host name, acc => { acc with host := some (.fromName name) }
  | .reqBody A ctypes _, acc =>
    { acc with
      requestBody := some ⟨Codec.allMediaTypes ctypes, typeName A, forType A, false⟩ }
  | .streamBody _ T codec, acc =>
    { acc with
      requestBody := some ⟨Codec.allMediaTypes [codec], typeName T, forType T, true⟩ }
  | .fragment A _ description, acc => { acc with fragment := some ⟨typeName A, description⟩ }
  | .description text, acc => { acc with description := some text }
  | .summary text, acc => { acc with summary := some text }
  | .operationId id, acc => { acc with operationId := some id }
  | .vault, acc => acc
  | .withResource _, acc => acc
  | .basicAuth _ realm, acc =>
    acc.note ("Requires HTTP Basic authentication (realm `" ++ realm ++ "`).")
  | .authProtect _, acc => acc.note "Requires authentication."
  | .isSecure, acc => acc
  | .httpVersion, acc => acc
  | .remoteHost, acc => acc
  | .withNamedContext _, acc => acc

/-- What a verb ends the accumulator with. -/
def openapiVerb (t : Terminal) (acc : EndpointDoc) : EndpointDoc :=
  match t with
  | .verb _ _ A ctypes =>
    { acc with
      method := t.method
      status := t.status
      responseTypes := Codec.allMediaTypes ctypes
      responseSchema := some (forType A) }
  | .verbWithHeaders _ _ A ctypes =>
    { acc with
      method := t.method
      status := t.status
      responseTypes := Codec.allMediaTypes ctypes
      responseSchema := some (forType A) }
  | .uverb _ ctypes Resp _ =>
    EndpointDoc.note
      { acc with
        method := t.method
        status := t.status
        responseTypes := MediaType.allMediaTypes ctypes
        responseSchema := some (forType Resp) }
      "Returns one of several status codes (union response)."
  | .streamVerb _ _ _ T codec =>
    EndpointDoc.note
      { acc with
        method := t.method
        status := t.status
        responseTypes := Codec.allMediaTypes [codec]
        responseSchema := some (forType T) }
      "Streaming response."
  | .noContentVerb _ =>
    { acc with
      method := t.method
      status := t.status
      responseTypes := []
      responseSchema := none }

variable [MimeEq]

def ApiDescription.openapiDocsWalk : ApiDescription → EndpointDoc → ApiDoc
  | emptyApi, _ => .empty
  | alt left right, acc => (left.openapiDocsWalk acc).extend (right.openapiDocsWalk acc)
  | verb t, acc => .single (openapiVerb t acc)
  | raw, acc => .single { acc with raw := some .raw }
  | rawM, acc => .single { acc with raw := some .rawM }
  | sub c next, acc => next.openapiDocsWalk (openapiComb c acc)

/-- The documentation of an API with its schemas. -/
def ApiDescription.openapiDocs (api : ApiDescription) : ApiDoc := api.openapiDocsWalk .empty

end ServantRs.Docs
