import ServantRs.Client.Streaming
import ServantRs.Core.Union

/-!
# Client — responses

What the client makes of a response: a terminal checks the status it declares and decodes the body
in the content type the response names (`Terminal.decode`); a union is decoded by its status; a
streaming endpoint is checked up front (`validateStreamingResponse`) and its body is decoded as it
comes.  Every way it can fail keeps the response.
-/

namespace ServantRs

/-- A response with its whole body. -/
structure ClientResponse where
  status : StatusCode
  headers : HeaderMap
  body : Bytes

/-- What a call of a client fails with. -/
inductive ClientError where
  /-- The status is not the one declared. -/
  | failureResponse (response : ClientResponse)
  | decodeFailure (message : String) (response : ClientResponse)
  | unsupportedContentType (mediaType : Mime) (response : ClientResponse)
  | invalidContentTypeHeader (response : ClientResponse)
  /-- The transport failed; errors of other packages are their texts. -/
  | connectionError (message : String)
  | encodeFailure (message : String)
  | streamingRequestUnsupported

/-- A response whose body is delivered chunk by chunk. -/
structure StreamingResponse where
  status : StatusCode
  headers : HeaderMap
  body : List (Except String Bytes)

/-- How a union is decoded by the status of a response. -/
structure UnionDecode (Resp : Type) where
  decodeUnion : StatusCode → HeaderMap → Option Mime → Bytes → Option (Except String Resp)

/-- A union as what a client expects. -/
def Union.decoder {CTypes : List MediaType} (U : Union CTypes) : UnionDecode U.Value :=
  ⟨fun status headers ct body => U.decodeUnion status headers ct body⟩

variable [HttpCrate] [MimeCrate]

/-- The media type a `Content-Type` header names. -/
def parseContentType (value : HeaderValue) : Option Mime :=
  (HttpCrate.headerValueToStr value).bind MimeCrate.parse

/-- A body decoded by the list's codec for its content type, octets without a header. -/
def decodeBody {A : Type} (L : List (Codec A)) (resp : ClientResponse) : Except ClientError A :=
  let read (ct : Mime) : Except ClientError A :=
    match Codec.unrender L ct resp.body with
    | some (.ok value)      => .ok value
    | some (.error message) => .error (.decodeFailure message resp)
    | none                  => .error (.unsupportedContentType ct resp)
  match resp.headers.get .CONTENT_TYPE with
  | none => read .APPLICATION_OCTET_STREAM
  | some value =>
    match parseContentType value with
    | some ct => read ct
    | none    => .error (.invalidContentTypeHeader resp)

namespace Terminal

/-- What the client has to know of a terminal to decode its responses: the arms of a union. -/
def Decoder : Terminal → Type
  | uverb _ _ Resp _ => UnionDecode Resp
  | _                => Unit

/-- `HasClient::decode` -/
def decode : (t : Terminal) → t.Decoder → ClientResponse → Except ClientError t.Output
  | verb _ STATUS _ ctypes, _, resp =>
    if resp.status ≠ STATUS then .error (.failureResponse resp) else decodeBody ctypes resp
  | verbWithHeaders _ STATUS _ ctypes, _, resp =>
    if resp.status ≠ STATUS then .error (.failureResponse resp)
    else (decodeBody ctypes resp).map fun value => ⟨value, resp.headers⟩
  | uverb _ _ _ _, union, resp =>
    let ct := (resp.headers.get .CONTENT_TYPE).bind parseContentType
    match union.decodeUnion resp.status resp.headers ct resp.body with
    | some (.ok value)      => .ok value
    | some (.error message) => .error (.decodeFailure message resp)
    | none                  => .error (.failureResponse resp)
  | streamVerb .., _, _ =>
    .error (.connectionError "streaming endpoint: use `call_stream` instead of `call`")
  | noContentVerb _, _, resp =>
    if resp.status ≠ .NO_CONTENT then .error (.failureResponse resp) else .ok ()

end Terminal

/-- The response of a streaming endpoint, before any of its body is read. -/
def validateStreamingResponse (STATUS : StatusCode) (marker : MediaType)
    (resp : StreamingResponse) : Except ClientError Unit :=
  let buffered : ClientResponse := ⟨resp.status, resp.headers, []⟩
  if resp.status ≠ STATUS then .error (.failureResponse buffered)
  else match resp.headers.get .CONTENT_TYPE with
    | none => .error (.unsupportedContentType .APPLICATION_OCTET_STREAM buffered)
    | some value =>
      match parseContentType value with
      | none => .error (.invalidContentTypeHeader buffered)
      | some mediaType =>
        if marker.mediaTypes.any (mediaTypeMatches · mediaType) then .ok ()
        else .error (.unsupportedContentType mediaType buffered)

end ServantRs
