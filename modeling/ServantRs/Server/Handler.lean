import ServantRs.Server.Extract
import ServantRs.Server.Router

/-!
# Server — endpoint leaves

A leaf runs one endpoint: a typed one through its phases (`callEndpoint`), a raw one on the
buffered body (`callRaw`), either behind a host guard.  An error a handler returns is a response
like any other.

`Chain.acceptCheck_eq_route_iff`: what the `Accept` check lets through can be rendered.
-/

namespace ServantRs

open RouteM ExtractState

/-! ### Responses -/

/-- Status, `Content-Type`, body and extra headers of a rendered value. -/
abbrev Rendered := StatusCode × Option Mime × ResponseBody × List (HeaderName × HeaderValue)

def serializationError : Rendered :=
  (.INTERNAL_SERVER_ERROR, none, .full (utf8Bytes "internal serialization error"), [])

/-- A value in the media type negotiated for it. -/
def renderBody {A : Type} (L : List (Codec A)) (accept : Option String) (value : A)
    (status : StatusCode) : Rendered :=
  match negotiateMediaIndex accept (Codec.allMediaTypes L) with
  | none => serializationError -- `expect`: the `Accept` check has negotiated
  | some idx =>
    match Codec.renderIndex L value idx with
    | .ok bytes => (status, (Codec.allMediaTypes L)[idx]?, .full bytes, [])
    | .error _  => serializationError

namespace Terminal

def render : (t : Terminal) → Option String → t.Output → Rendered
  | verb _ status _ ctypes, accept, value => renderBody ctypes accept value status
  | verbWithHeaders _ status _ ctypes, accept, value =>
    let (status, ct, body, _) := renderBody ctypes accept value.value status
    (status, ct, body, value.headers)
  | uverb _ _ _ union, accept, value =>
    match union.renderUnion accept value with
    | .ok (status, mime, .full bytes, headers)    => (status, mime, .full bytes, headers)
    | .ok (status, mime, .stream chunks, headers) => (status, mime, .stream chunks, headers)
    | .error _ => serializationError
  | streamVerb _ status framing _ codec, _, value =>
    (status, some codec.mediaType,
      .stream (value.map fun item => (codec.mimeRender item).map framing.frame), [])
  | noContentVerb _, _, _ => (.NO_CONTENT, none, .full [], [])

end Terminal

section

variable [HttpCrate]

def buildResponse : Rendered → Response
  | (status, contentType, body, extraHeaders) =>
    let headers : HeaderMap := match contentType.bind fun m => HttpCrate.headerValueFromStr m.source with
      | some value => [(HeaderName.CONTENT_TYPE, value)]
      | none       => []
    ⟨status, extraHeaders.foldl (fun m (name, value) => m.append name value) headers, body⟩

def errorResponse (e : ServerError) : Response := ⟨e.status, e.headers, .full e.body⟩

end

/-! ### Leaves -/

variable [AppTypes]

namespace Leaf

variable [HttpCrate] [MimeCrate] [Base64Crate]

/-- A result reached from what is at hand, `Fail` without it. -/
def require (b : Bool) (e : ServerError) : RouteResult Unit := if b then .route () else .fail e

/-- `HEAD` is served by the route of `GET`. -/
def methodOk (chain : Chain) (req : RequestData) : Bool :=
  req.method = chain.method || (req.isHead && chain.method = .GET)

/-- The content type is looked at when a body is expected. -/
def contentTypeOk (chain : Chain) (req : RequestData) : Bool :=
  match chain.requestContentTypes with
  | some bodyTypes => Chain.contentTypeAcceptable bodyTypes req.contentType
  | none           => true

/-- A result of the body's, committing to an error. -/
def bufferBody : RouteM ExtractState Unit :=
  orFatal fun st => (st.world.bufferBody.1.map fun _ => (), { st with world := st.world.bufferBody.2 })

/-- The handler run on its arguments, and its result rendered. -/
def runHandler (label : Nat) (chain : Chain)
    (handler : chain.Args → Except ServerError chain.Output) (req : RequestData)
    (args : chain.Args) : RouteM ExtractState Response := do
  modify (·.record (.handler label chain args))
  match handler args with
  | .ok out =>
    let (status, mime, body, extraHeaders) := chain.terminal.render req.accept out
    let body := if req.isHead then .full [] else body
    RouteM.pure (buildResponse (status, mime, body, extraHeaders))
  | .error e => RouteM.pure (errorResponse e)

/-- The phases from authentication on. -/
def runExtraction (label : Nat) (chain : Chain)
    (handler : chain.Args → Except ServerError chain.Output) (req : RequestData) :
    RouteM ExtractState Response := do
  chain.preBodyCheck req
  if chain.requestBodyMode = some .buffered then bufferBody
  let args ← chain.extract req
  runHandler label chain handler req args

/-- A computation on a fresh extraction state, for the world it leaves. -/
def inExtractState {T : Type} (captures : List String) (capturedAll : Option (List String))
    (context : Context) (f : RouteM ExtractState T) : RouteM World T := fun w =>
  let (result, st) := f (ExtractState.new captures capturedAll context w)
  (result, st.world)

/-- `EndpointLeaf::call`. -/
def callEndpoint (label : Nat) (chain : Chain)
    (handler : chain.Args → Except ServerError chain.Output) (context : Context)
    (req : RequestData) (captures : List String) (capturedAll : Option (List String)) :
    RouteM World Response := do
  ofResult (chain.validateCaptures captures 0 capturedAll)
  ofResult (chain.hostCheck req)
  ofResult (require (methodOk chain req) .err405)
  ofResult (chain.acceptCheck req.accept)
  ofResult (require (contentTypeOk chain req) .err415)
  inExtractState captures capturedAll context (runExtraction label chain handler req)

/-- The buffered body, committing to an error. -/
def buffered : RouteM World Bytes := fun w =>
  match w.bufferBody with
  | (.ok body, w) => (.route body, w)
  | (.error e, w) => (.failFatal e, w)

/-- `RawLeaf::call`. -/
def callRaw (label : Nat) (handler : RawRequest → Response) (req : RequestData)
    (tail : List String) : RouteM World Response := do
  let body ← buffered
  modify (·.record (.rawHandler label))
  RouteM.pure (handler (.fromRequest req tail body))

/-- `RawMLeaf::call`. -/
def callRawM (label : Nat) (handler : RawRequest → Context → Except ServerError Response)
    (context : Context) (req : RequestData) (tail : List String) : RouteM World Response := do
  let body ← buffered
  modify (·.record (.rawHandler label))
  match handler (.fromRequest req tail body) context with
  | .ok response => RouteM.pure response
  | .error e     => RouteM.pure (errorResponse e)

def run : Leaf → RequestData → List String → List String → Option (List String) →
    RouteM World Response
  | endpoint label chain handler context, req, _, captures, capturedAll =>
    callEndpoint label chain handler context req captures capturedAll
  | raw label handler, req, tail, _, _ => callRaw label handler req tail
  | rawM label handler context, req, tail, _, _ => callRawM label handler context req tail
  | guard g inner, req, tail, captures, capturedAll => do
    ofResult (g.check req)
    inner.run req tail captures capturedAll

/-- A leaf called by the router: the call is written down, then the leaf runs. -/
def call : LeafCall Leaf RequestData World Response := fun leaf req tail captures capturedAll => do
  modify (·.record (.call leaf tail captures capturedAll))
  leaf.run req tail captures capturedAll

end Leaf

/-! ### What the `Accept` check promises -/

/-- The `Accept` check lets through what can be rendered in some media type of the endpoint. -/
theorem Chain.acceptCheck_eq_route_iff {c : Chain} (h : ∀ M, c.terminal ≠ .noContentVerb M)
    {accept : Option String} : c.acceptCheck accept = .route ()
      ↔ ∃ i, negotiateMediaIndex accept c.terminal.mediaTypes = some i := by
  rw [Chain.acceptCheck]
  generalize c.terminal = t at h
  cases t with
  | noContentVerb M => exact absurd rfl (h M)
  | verb | verbWithHeaders | uverb | streamVerb =>
      dsimp only [Terminal.mediaTypes]
      split
      · next i hi => simp [hi]
      · next hnone => simp [hnone]

end ServantRs
