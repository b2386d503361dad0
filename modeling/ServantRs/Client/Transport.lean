import ServantRs.Client.Build
import ServantRs.Client.Response

/-!
# Client — calls and transports

A call builds a request, hands it to a transport and decodes what comes back.  The transport over
`hyper` renders the URL, puts the headers together and collects the body of the response up to a
limit; the network behind it is a parameter.
-/

namespace ServantRs

/-! ### Base URLs -/

inductive Scheme where
  | http | https
deriving DecidableEq, Repr

/-- Where a client points. -/
structure BaseUrl where
  scheme : Scheme
  host : String
  port : UInt16
  /-- What stands before the path of every request, without a `/` at its end. -/
  path : String
deriving DecidableEq, Repr

namespace BaseUrl

def http (host : String) (port : UInt16) : BaseUrl := ⟨.http, host, port, ""⟩

def schemeStr (base : BaseUrl) : String :=
  match base.scheme with
  | .http  => "http"
  | .https => "https"

/-- The absolute URL of a target. -/
def urlFor (base : BaseUrl) (target : String) : String :=
  base.schemeStr ++ "://" ++ base.host ++ ":" ++ toString base.port.toNat ++ base.path ++ target

end BaseUrl

/-! ### Transports -/

/-- A transport that answers with whole bodies. -/
structure RunClient where
  supportsStreamingRequestBody : Bool
  runRequest : ClientRequest → Except ClientError ClientResponse

/-- A transport that answers with the head of a response and its body to come. -/
structure RunStreamingClient extends RunClient where
  runStreaming : ClientRequest → Except ClientError StreamingResponse

/-! ### The transport over `hyper` -/

/-- Which texts are URIs. -/
class UriCrate where
  isUri : String → Bool

/-- Text of visible ASCII. -/
@[reducible] def UriCrate.reference : UriCrate where
  isUri s := s ≠ "" && s.toList.all fun c => 33 ≤ c.toNat && c.toNat < 127

/-- Why a body is not collected. -/
inductive CollectError where
  | lengthLimit
  | transport (message : String)
deriving DecidableEq, Repr

/-- `http_body_util`: `Limited` and `collect`.  Pieces that together are within the limit are put
together. -/
class BodyUtilCrate where
  collect : Nat → List (Except String Bytes) → Except CollectError Bytes
  collect_ok : ∀ (max : Nat) (chunks : List Bytes), chunks.flatten.length ≤ max →
    collect max (chunks.map .ok) = .ok chunks.flatten

/-- Piece by piece, behind what is there. -/
def collectPieces (max : Nat) : List (Except String Bytes) → Bytes → Except CollectError Bytes
  | [], out => .ok out
  | .error message :: _, _ => .error (.transport message)
  | .ok chunk :: chunks, out =>
    if max < out.length + chunk.length then .error .lengthLimit
    else collectPieces max chunks (out ++ chunk)

theorem collectPieces_of_le {max : Nat} : ∀ (chunks : List Bytes) {out : Bytes},
    out.length + chunks.flatten.length ≤ max →
      collectPieces max (chunks.map .ok) out = .ok (out ++ chunks.flatten)
  | [], out, _ => by simp [collectPieces]
  | chunk :: chunks, out, h => by
      rw [List.flatten_cons, List.length_append] at h
      have hfits : ¬ max < out.length + chunk.length := by omega
      rw [List.map_cons, collectPieces, if_neg hfits,
        collectPieces_of_le chunks (by rw [List.length_append]; omega), List.flatten_cons,
        List.append_assoc]

@[reducible] def BodyUtilCrate.reference : BodyUtilCrate where
  collect max chunks := collectPieces max chunks []
  collect_ok max chunks h := collectPieces_of_le chunks (by simpa using h)

inductive HyperBody where
  | full (bytes : Bytes)
  | stream (chunks : SourceStream (Except String Bytes))

structure HyperRequest where
  method : Method
  url : String
  headers : HeaderMap
  body : HyperBody

/-- A client over plain HTTP; `inner` sends a request. -/
structure HyperClient where
  base : BaseUrl
  inner : HyperRequest → Except String StreamingResponse
  maxBody : Nat

/-- Default maximum buffered response body size (8 MiB). -/
def DEFAULT_MAX_RESPONSE_BODY : Nat := 8 * 1024 * 1024

/-- What `run_request` makes of a body that is not collected. -/
def CollectError.toClientError : CollectError → ClientError
  | lengthLimit       => .connectionError "response body exceeded the configured size limit"
  | transport message => .connectionError message

namespace HyperClient

def new (base : BaseUrl) (inner : HyperRequest → Except String StreamingResponse) : HyperClient :=
  ⟨base, inner, DEFAULT_MAX_RESPONSE_BODY⟩

def withMaxBody (maxBody : Nat) (client : HyperClient) : HyperClient := { client with maxBody }

variable [HttpCrate]

/-- A header of the client's own; `none` when its text is no header's value. -/
def headerEntry (name : HeaderName) : Option String → Option HeaderMap
  | none      => some []
  | some text => (HttpCrate.headerValueFromStr text).map fun value => [(name, value)]

/-- `Accept`, the headers of the request, then the content type of its body. -/
def outgoingHeaders (req : ClientRequest) (contentType : Option Mime) : Option HeaderMap := do
  let accept ← headerEntry .ACCEPT req.acceptHeader
  let contentType ← headerEntry .CONTENT_TYPE (contentType.map Mime.source)
  pure ((accept ++ req.headers ++ contentType).foldl
    (fun m (name, value) => HeaderMap.append name value m) [])

variable [PercentEncoding] [UriCrate]

/-- A request of the `http` package; what its builder rejects is a connection error. -/
def finish (client : HyperClient) (req : ClientRequest) (contentType : Option Mime)
    (body : HyperBody) : Except ClientError HyperRequest :=
  let url := client.base.urlFor req.target
  if UriCrate.isUri url then
    match outgoingHeaders req contentType with
    | some headers => .ok ⟨req.method, url, headers, body⟩
    | none         => .error (.connectionError "failed to parse header value")
  else .error (.connectionError "invalid uri")

/-- `HyperClient::build` -/
def build (client : HyperClient) (req : ClientRequest) : Except ClientError HyperRequest :=
  match req.body, req.streamingBody with
  | some (bytes, mime), none => client.finish req (some mime) (.full bytes)
  | none, some body          => client.finish req (some body.mediaType) (.stream body.stream)
  | none, none               => client.finish req none (.full [])
  | some _, some _           =>
    .error (.connectionError "request cannot contain both buffered and streaming bodies")

/-- `run_streaming` -/
def runStreaming (client : HyperClient) (req : ClientRequest) :
    Except ClientError StreamingResponse := do
  let request ← client.build req
  (client.inner request).mapError .connectionError

variable [BodyUtilCrate]

/-- `run_request` -/
def runRequest (client : HyperClient) (req : ClientRequest) : Except ClientError ClientResponse := do
  let resp ← client.runStreaming req
  let body ← (BodyUtilCrate.collect client.maxBody resp.body).mapError CollectError.toClientError
  pure ⟨resp.status, resp.headers, body⟩

/-- The client as a transport. -/
def transport (client : HyperClient) : RunStreamingClient where
  supportsStreamingRequestBody := true
  runRequest := client.runRequest
  runStreaming := client.runStreaming

end HyperClient

/-! ### Typed endpoints -/

section

variable [AppTypes]

/-- A callable client for one endpoint. -/
structure ClientEndpoint where
  chain : Chain
  hasClient : chain.HasClient
  decoder : chain.terminal.Decoder

/-- The combinator stands above streaming endpoints that can be called. -/
def Comb.HasStreamInfo : Comb → Prop
  | host _ | queryString | vault | withResource _ | basicAuth .. | authProtect _ | isSecure
  | httpVersion | remoteHost | withNamedContext _ => False
  | _ => True

/-- The endpoint is a stream, below combinators that say so (`StreamInfo`). -/
inductive Chain.StreamInfo (framing : Framing) {T : Type} (codec : Codec T) (STATUS : StatusCode) :
    Chain → Prop
  | streamVerb (M : Method) : StreamInfo framing codec STATUS
      (.verb (.streamVerb M STATUS framing T codec))
  | sub {c : Comb} {next : Chain} (hc : c.HasStreamInfo)
      (h : StreamInfo framing codec STATUS next) : StreamInfo framing codec STATUS (.sub c next)

namespace ClientEndpoint

variable [PercentEncoding] [HttpCrate] [MimeCrate] (endpoint : ClientEndpoint)

/-- `ClientEndpoint::call` -/
def call (transport : RunClient) (args : endpoint.chain.Args) :
    Except ClientError endpoint.chain.Output := do
  let req ← (endpoint.chain.buildRequest endpoint.hasClient args .new).mapError .encodeFailure
  if req.streamingBody.isSome && !transport.supportsStreamingRequestBody then
    .error .streamingRequestUnsupported
  else
    let resp ← transport.runRequest req
    endpoint.chain.terminal.decode endpoint.decoder resp

/-- `ClientEndpoint::call_stream` -/
def callStream {framing : Framing} {T : Type} {codec : Codec T} {STATUS : StatusCode}
    (_ : endpoint.chain.StreamInfo framing codec STATUS) (transport : RunStreamingClient)
    (args : endpoint.chain.Args) : Except ClientError (SourceStream (Except String T)) := do
  let req ← (endpoint.chain.buildRequest endpoint.hasClient args .new).mapError .encodeFailure
  let resp ← transport.runStreaming req
  validateStreamingResponse STATUS codec.toMediaType resp
  pure (deframeDecode framing codec resp.body)

end ClientEndpoint

end

/-! ### Raw endpoints -/

namespace RawChain

variable [PercentEncoding] [HttpCrate]

/-- `build_raw_request`: no combinator above a raw terminal takes an argument. -/
def buildRawRequest : RawChain → ClientRequest → Except String ClientRequest
  | raw, req | rawM, req => .ok req
  | sub (.path segment) next, req => next.buildRawRequest (req.appendPath segment)
  | sub (.host name) next, req => do
    let value ← Chain.hostHeader name
    next.buildRawRequest { req with headers := req.headers.insert .HOST value }
  | sub (.fragment ..) next, req | sub (.description _) next, req | sub (.summary _) next, req
  | sub (.operationId _) next, req => next.buildRawRequest req

/-- `RawClientEndpoint::call_raw`: the response as it is. -/
def callRaw (chain : RawChain) (transport : RunClient) (method : Method) :
    Except ClientError ClientResponse := do
  let req ← (chain.buildRawRequest .new).mapError .encodeFailure
  transport.runRequest { req with method := method }

end RawChain

end ServantRs
