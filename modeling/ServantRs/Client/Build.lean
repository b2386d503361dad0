import ServantRs.Client.Request
import ServantRs.Core.Api
import ServantRs.Core.Host

/-!
# Client — building a request

The client walks an endpoint chain with the handler's arguments and puts each on the request
(`Chain.buildRequest`).  The combinators that only a server can serve have no client
(`Chain.HasClient`).  Building fails on a host that is no authority and on a body that does not
encode.
-/

namespace ServantRs

/-- A computation that goes through went through its first step. -/
theorem of_bind_eq_ok {E A B : Type} {x : Except E A} {f : A → Except E B} {b : B}
    (h : (x >>= f) = .ok b) : ∃ a, x = .ok a ∧ f a = .ok b := by
  cases x with
  | error e => cases h
  | ok a => exact ⟨a, rfl, h⟩

variable [AppTypes]

/-- The combinator has a client. -/
def Comb.HasClient : Comb → Prop
  | vault | withResource _ | basicAuth .. | authProtect _ | isSecure | httpVersion | remoteHost
  | withNamedContext _ => False
  | _ => True

/-- Every combinator of the chain has a client. -/
def Chain.HasClient : Chain → Prop
  | verb _     => True
  | sub c next => c.HasClient ∧ next.HasClient

/-- The method and the media types a terminal asks for. -/
def Terminal.buildRequest (req : ClientRequest) : Terminal → ClientRequest
  | verb M _ _ ctypes | verbWithHeaders M _ _ ctypes =>
    { req with method := M, accept := Codec.allMediaTypes ctypes }
  | uverb M ctypes _ _ => { req with method := M, accept := MediaType.allMediaTypes ctypes }
  | streamVerb M _ _ _ codec => { req with method := M, accept := [codec.mediaType] }
  | noContentVerb M => { req with method := M }

/-- The items of a request stream, rendered and framed. -/
def encodeStreamBody {T : Type} (framing : Framing) (codec : Codec T)
    (source : SourceStream (Except StreamBodyError T)) : SourceStream (Except String Bytes) :=
  source.map fun item =>
    match item with
    | .error e  => .error e.message
    | .ok value => (codec.mimeRender value).map framing.frame

namespace Chain

variable [PercentEncoding] [HttpCrate]

/-- A `Host`'s value as a header, or why there is none. -/
def hostHeader (name : String) : Except String HeaderValue :=
  match HostRequirement.parse name with
  | none => .error ("invalid host authority: `" ++ name ++ "`")
  | some required =>
    match HttpCrate.headerValueFromStr required.original with
    | none       => .error "failed to parse header value"
    | some value => .ok value

/-- A header parameter put on a request; a name or a value that is no header is left out. -/
def addHeaderText (name value : String) (req : ClientRequest) : ClientRequest :=
  match HttpCrate.headerNameFromStr name, HttpCrate.headerValueFromStr value with
  | some name, some value => req.addHeader name value
  | _,         _          => req

def buildRequest : (c : Chain) → c.HasClient → c.Args → ClientRequest →
    Except String ClientRequest
  | verb t, _, _, req => .ok (t.buildRequest req)
  | sub (.path segment) next, h, args, req => next.buildRequest h.2 args (req.appendPath segment)
  | sub (.capture _ data S _) next, h, (head, tail), req =>
    next.buildRequest h.2 tail (match CaptureShape.intoValue S head with
      | some a => req.appendPath (data.toUrlPiece a)
      | none   => req.appendPath "")
  | sub (.captureAll _ data _) next, h, (head, tail), req =>
    next.buildRequest h.2 tail
      (head.foldl (fun req a => req.appendPath (data.toUrlPiece a)) req)
  | sub (.queryParam _ data P S name) next, h, (head, tail), req =>
    next.buildRequest h.2 tail (match ArgShape.intoValue P S head with
      | some a => req.appendQuery name (some (data.toQueryParam a))
      | none   => req)
  | sub (.queryParams _ data name) next, h, (head, tail), req =>
    next.buildRequest h.2 tail
      (head.foldl (fun req a => req.appendQuery name (some (data.toQueryParam a))) req)
  | sub (.queryFlag name) next, h, (head, tail), req =>
    next.buildRequest h.2 tail (if head then req.appendQuery name none else req)
  | sub .queryString next, h, (head, tail), req =>
    next.buildRequest h.2 tail (req.setQueryString head)
  | sub (.deepQuery _ data name) next, h, (head, tail), req =>
    next.buildRequest h.2 tail ((data.toDeepQuery head).foldl (fun req entry =>
      req.appendDeepQuery name entry.path entry.value) req)
  | sub (.header _ data P S name) next, h, (head, tail), req =>
    next.buildRequest h.2 tail (match ArgShape.intoValue P S head with
      | some a => addHeaderText name (data.toHeader a) req
      | none   => req)
  | sub (.host name) next, h, args, req => do
    let value ← hostHeader name
    next.buildRequest h.2 args { req with headers := req.headers.insert .HOST value }
  | sub (.reqBody _ ctypes S) next, h, (head, tail), req =>
    match ArgShape.intoValue .required S head with
    | some a => do
      let (mime, bytes) ← Codec.renderPrimary ctypes a
      next.buildRequest h.2 tail (req.setBody bytes mime)
    | none => next.buildRequest h.2 tail req
  | sub (.streamBody framing _ codec) next, h, (head, tail), req =>
    next.buildRequest h.2 tail
      (req.setStreamingBody ⟨codec.mediaType, encodeStreamBody framing codec head⟩)
  | sub (.fragment ..) next, h, args, req | sub (.description _) next, h, args, req
  | sub (.summary _) next, h, args, req | sub (.operationId _) next, h, args, req =>
    next.buildRequest h.2 args req
  -- served only
  | sub .vault _, h, _, _ | sub (.withResource _) _, h, _, _ | sub (.basicAuth ..) _, h, _, _
  | sub (.authProtect _) _, h, _, _ | sub .isSecure _, h, _, _ | sub .httpVersion _, h, _, _
  | sub .remoteHost _, h, _, _ | sub (.withNamedContext _) _, h, _, _ => h.1.elim

end Chain

end ServantRs
