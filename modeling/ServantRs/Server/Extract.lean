import ServantRs.Server.Leaf

/-!
# Server — extraction

The walks over an endpoint chain that a leaf runs: capture validation, the host check, the
`Accept` and `Content-Type` checks, the checks that come before the body (`preBodyCheck`) and the
extraction of the handler's arguments (`extract`).  A combinator with nothing to say forwards to
the rest of the chain.

The last two walks share an `ExtractState`: captures not yet used, the contexts in scope, and the
users that checks before the body have accepted.  `World` holds the body and a log of what was
done; a combinator's position is the number of combinators below it.
-/

namespace ServantRs

open RouteM

variable [AppTypes]

/-! ### State -/

/-- A value with its type. -/
abbrev Dyn := (t : AppTypes.TypeId) × AppTypes.El t

/-- What a dispatch does, in the order it does it. -/
inductive Event where
  /-- A leaf is called. -/
  | call (leaf : Leaf) (tail captures : List String) (capturedAll : Option (List String))
  /-- The check of the combinator at a position is run. -/
  | check (position : Nat)
  /-- The body is to be buffered. -/
  | buffer
  /-- The body is to be taken as a stream. -/
  | take
  /-- A handler is called. -/
  | handler (label : Nat) (chain : Chain) (args : chain.Args)
  /-- A raw handler is called. -/
  | rawHandler (label : Nat)

namespace Event

/-- The body is buffered or taken. -/
def IsBody : Event → Prop
  | buffer | take => True
  | _             => False

/-- A leaf is called. -/
def IsCall : Event → Prop
  | call .. => True
  | _       => False

end Event

/-- What a dispatch changes. -/
structure World where
  body : RequestBody
  log : List Event

namespace World

/-- A body not touched, and nothing done. -/
def new (body : List BodyEvent) (maxBufferedBytes : Nat) : World := ⟨.new body maxBufferedBytes, []⟩

def record (e : Event) (w : World) : World := { w with log := w.log ++ [e] }

/-- `RequestData::buffer_body`. -/
def bufferBody (w : World) : Except ServerError Bytes × World :=
  (w.body.buffer.1, { w.record .buffer with body := w.body.buffer.2 })

/-- `RequestData::take_body_stream`. -/
def takeBodyStream (w : World) : Except ServerError (List BodyEvent) × World :=
  (w.body.takeStream.1, { w.record .take with body := w.body.takeStream.2 })

end World

/-- The cursor over a request while an endpoint's arguments are extracted.  The contexts stand
with the innermost named one first and the base context last. -/
structure ExtractState where
  captures : List String
  capturedAll : Option (List String)
  contexts : List Context
  prechecked : List Dyn
  world : World

namespace ExtractState

def new (captures : List String) (capturedAll : Option (List String)) (ctx : Context)
    (world : World) : ExtractState := ⟨captures, capturedAll, [ctx], [], world⟩

def lookupBasicAuthCheck (st : ExtractState) (Usr : AppTypes.TypeId) :
    Option (BasicAuthData → BasicAuthResult (AppTypes.El Usr)) :=
  st.contexts.findSome? (·.basicAuthCheck Usr)

def lookupAuthCheck (st : ExtractState) (Usr : AppTypes.TypeId) :
    Option (HeaderMap → Except ServerError (AppTypes.El Usr)) :=
  st.contexts.findSome? (·.authCheck Usr)

def lookupResourceProvider (st : ExtractState) (R : AppTypes.TypeId) :
    Option (Unit → AppTypes.El R) := st.contexts.findSome? (·.resourceProvider R)

def lookupNamedContext (st : ExtractState) (Name : AppTypes.ContextName) : Option Context :=
  st.contexts.findSome? (·.namedContext Name)

def record (e : Event) (st : ExtractState) : ExtractState := { st with world := st.world.record e }

end ExtractState

/-- The first value of a type, and the values without it. -/
def takeFirst (t : AppTypes.TypeId) : List Dyn → Option (AppTypes.El t × List Dyn)
  | [] => none
  | ⟨t', value⟩ :: rest =>
    if h : t' = t then some (h ▸ value, rest)
    else (takeFirst t rest).map fun (v, rest) => (v, ⟨t', value⟩ :: rest)

namespace ExtractState

def nextCapture : RouteM ExtractState (Option String) := fun st =>
  (.route st.captures.head?, { st with captures := st.captures.tail })

def takeCaptureAll : RouteM ExtractState (List String) := fun st =>
  (.route (st.capturedAll.getD []), { st with capturedAll := none })

def pushPrechecked (Usr : AppTypes.TypeId) (user : AppTypes.El Usr) :
    RouteM ExtractState Unit :=
  modify fun st => { st with prechecked := st.prechecked ++ [⟨Usr, user⟩] }

def takePrechecked (Usr : AppTypes.TypeId) : RouteM ExtractState (Option (AppTypes.El Usr)) :=
  fun st =>
    match takeFirst Usr st.prechecked with
    | some (user, rest) => (.route (some user), { st with prechecked := rest })
    | none              => (.route none, st)

end ExtractState

open ExtractState

/-- A result that commits when it is an error. -/
def orFatal {T : Type} (f : ExtractState → Except ServerError T × ExtractState) :
    RouteM ExtractState T := fun st =>
  match f st with
  | (.ok t, st)    => (.route t, st)
  | (.error e, st) => (.failFatal e, st)

/-- Work under the named context `Name`, when there is one. -/
def withNamedContext {T : Type} (Name : AppTypes.ContextName) (f : RouteM ExtractState T) :
    RouteM ExtractState T := fun st =>
  match st.lookupNamedContext Name with
  | some named =>
    let (result, st) := f { st with contexts := named :: st.contexts }
    (result, { st with contexts := st.contexts.tail })
  | none => f st

def badRequest (msg : String) : ServerError := ServerError.err400.withBody msg

/-! ### Authentication -/

section

variable [HttpCrate] [Base64Crate]

def parseBasicAuth (header : String) : Option BasicAuthData := do
  let rest ← (stripPrefix "Basic " header).or (stripPrefix "basic " header)
  let decoded ← Base64Crate.decode (trim rest)
  let s ← fromUtf8 decoded
  let (username, password) ← splitOnce ':' s
  pure ⟨username, password⟩

def unauthorizedBasic (realm : String) : ServerError :=
  match HttpCrate.headerValueFromStr ("Basic realm=\"" ++ removeChar '"' realm ++ "\"") with
  | some value => ServerError.err401.withHeader .WWW_AUTHENTICATE value
  | none       => .err401

/-- The user a `BasicAuth` combinator resolves. -/
def basicAuthUser (req : RequestData) (position : Nat) (Usr : AppTypes.TypeId) (realm : String)
    (st : ExtractState) : Except ServerError (AppTypes.El Usr) × ExtractState :=
  match st.lookupBasicAuthCheck Usr with
  | none => (.error (ServerError.err500.withBody "basic-auth check not configured in context"), st)
  | some check =>
    match (req.headerText .AUTHORIZATION).bind parseBasicAuth with
    | none => (.error (unauthorizedBasic realm), st)
    | some data =>
      match check data with
      | .authorized user => (.ok user, st.record (.check position))
      | .badPassword | .noSuchUser | .unauthorized =>
        (.error (unauthorizedBasic realm), st.record (.check position))

/-- The user an `AuthProtect` combinator resolves. -/
def authProtectUser (req : RequestData) (position : Nat) (Usr : AppTypes.TypeId)
    (st : ExtractState) : Except ServerError (AppTypes.El Usr) × ExtractState :=
  match st.lookupAuthCheck Usr with
  | none => (.error (ServerError.err500.withBody "auth check not configured in context"), st)
  | some check => (check req.headers, st.record (.check position))

end

namespace Chain

/-! ### The phases before the body -/

def notFoundCapture : ServerError := .err404

/-- Every segment read as an `A`. -/
def parseSegments {A : Type} (data : HttpApiData A) : List String → Except ParseError (List A)
  | [] => .ok []
  | s :: segs =>
    match data.fromUrlPiece s with
    | .error e => .error e
    | .ok a => (parseSegments data segs).map (a :: ·)

def captureError (name : String) (e : ParseError) : ServerError :=
  badRequest ("could not parse capture `" ++ name ++ "`: " ++ e.message)

def captureAllError (name : String) (e : ParseError) : ServerError :=
  badRequest ("could not parse capture-all `" ++ name ++ "`: " ++ e.message)

/-- Phase 1: every capture parses; `idx` walks the captured segments. -/
def validateCaptures : Chain → List String → Nat → Option (List String) → RouteResult Unit
  | verb _, _, _, _ => .route ()
  | sub (.capture _ data S name) next, caps, idx, ca =>
    match caps[idx]? with
    | none => .fail notFoundCapture
    | some seg =>
      match CaptureShape.build S (data.fromUrlPiece seg) with
      | .ok _    => next.validateCaptures caps (idx + 1) ca
      | .error e => .fail (captureError name e)
  | sub (.captureAll _ data name) next, caps, idx, ca =>
    match parseSegments data (ca.getD []) with
    | .ok _    => next.validateCaptures caps idx ca
    | .error e => .fail (captureAllError name e)
  | sub _ next, caps, idx, ca => next.validateCaptures caps idx ca

/-- Phase 2: the request's authority satisfies every `Host`. -/
def hostCheck [HttpCrate] : Chain → RequestData → RouteResult Unit
  | verb _, _ => .route ()
  | sub (.host name) next, req =>
    match HostRequirement.parse name with
    | none => .fail .err404
    | some required =>
      match req.hostAuthority with
      | some authority => if required.matchesAuthority authority then next.hostCheck req
          else .fail .err404
      | none => .fail .err404
  | sub _ next, req => next.hostCheck req

inductive RequestBodyMode where
  | buffered | streaming
deriving DecidableEq, Repr

/-- The media types of the first body combinator. -/
def requestContentTypes : Chain → Option (List Mime)
  | verb _ => none
  | sub (.reqBody _ ctypes _) _   => some (Codec.allMediaTypes ctypes)
  | sub (.streamBody _ _ codec) _ => some [codec.mediaType]
  | sub _ next                    => next.requestContentTypes

def requestBodyMode : Chain → Option RequestBodyMode
  | verb _ => none
  | sub (.reqBody ..) _    => some .buffered
  | sub (.streamBody ..) _ => some .streaming
  | sub _ next             => next.requestBodyMode

/-- Phase 4: a response media type is acceptable. -/
def acceptCheck (c : Chain) (accept : Option String) : RouteResult Unit :=
  let negotiate (media : List Mime) : RouteResult Unit :=
    match negotiateMediaIndex accept media with
    | some _ => .route ()
    | none   => .fail .err406
  match c.terminal with
  | .verb _ _ _ ctypes            => negotiate (Codec.allMediaTypes ctypes)
  | .verbWithHeaders _ _ _ ctypes => negotiate (Codec.allMediaTypes ctypes)
  | .uverb _ ctypes _ _           => negotiate (MediaType.allMediaTypes ctypes)
  | .streamVerb _ _ _ _ codec     => negotiate [codec.mediaType]
  | .noContentVerb _              => .route ()

/-- Phase 5: the request's `Content-Type` is one of the body's. -/
def contentTypeAcceptable [MimeCrate] (bodyTypes : List Mime) (contentType : Option String) :
    Bool :=
  match contentType with
  | some s =>
    match MimeCrate.parse (trim s) with
    | some ct => bodyTypes.any (mediaTypeMatches · ct)
    | none    => false
  | none => bodyTypes.any (mediaTypeMatches · .APPLICATION_OCTET_STREAM)

/-- Phase 5a: what must pass before the body is touched, authentication. -/
def preBodyCheck [HttpCrate] [Base64Crate] (req : RequestData) : Chain → RouteM ExtractState Unit
  | verb _ => RouteM.pure ()
  | sub (.basicAuth Usr realm) next => do
    let user ← orFatal (basicAuthUser req next.depth Usr realm)
    pushPrechecked Usr user
    next.preBodyCheck req
  | sub (.authProtect Usr) next => do
    let user ← orFatal (authProtectUser req next.depth Usr)
    pushPrechecked Usr user
    next.preBodyCheck req
  | sub (.withNamedContext Name) next => withNamedContext Name (next.preBodyCheck req)
  | sub _ next => next.preBodyCheck req

/-! ### Extraction -/

/-- The first entry of a key. -/
def lookupQuery (query : List QueryPair) (name : String) : Option (Option String) :=
  (query.find? (·.1 = name)).map (·.2)

/-- A query parameter: a bare key is as absent. -/
def extractQueryParam {A : Type} (data : HttpApiData A) (P : Presence) (S : Strictness)
    (name : String) (query : List QueryPair) : RouteResult (ArgShape.Out P S A) :=
  let raw := (lookupQuery query name).join.map data.fromQueryParam
  match ArgShape.build P S raw with
  | .ok out => .route out
  | .error .missing =>
    .failFatal (badRequest ("missing required query parameter `" ++ name ++ "`"))
  | .error (.parse _) =>
    .failFatal (badRequest ("could not parse query parameter `" ++ name ++ "`"))

/-- The values of a key or of its bracketed form, in order; an entry without one is dropped. -/
def queryParamValues (name : String) (query : List QueryPair) : List String :=
  query.filterMap fun (k, v) => if k = name ∨ k = name ++ "[]" then v else none

/-- Every value read as an `A`. -/
def parseQueryParams {A : Type} (data : HttpApiData A) : List String → Except ParseError (List A)
  | [] => .ok []
  | s :: values =>
    match data.fromQueryParam s with
    | .error e => .error e
    | .ok a => (parseQueryParams data values).map (a :: ·)

def extractQueryParams {A : Type} (data : HttpApiData A) (name : String)
    (query : List QueryPair) : RouteResult (List A) :=
  match parseQueryParams data (queryParamValues name query) with
  | .ok out  => .route out
  | .error _ => .failFatal (badRequest ("could not parse query parameter `" ++ name ++ "`"))

/-- A flag: set when the key is bare or its value says so. -/
def extractQueryFlag (name : String) (query : List QueryPair) : Bool :=
  match lookupQuery query name with
  | none          => false
  | some none     => true
  | some (some s) => s = "true" || s = "1" || s = ""

def extractDeepQuery {A : Type} (data : DeepQueryData A) (name : String)
    (query : List QueryPair) : RouteResult A :=
  let error : RouteResult A :=
    .failFatal (badRequest ("could not parse deep query parameter `" ++ name ++ "`"))
  match parseDeepQuery name query with
  | .error _ => error
  | .ok params =>
    match data.fromDeepQuery params with
    | .ok out  => .route out
    | .error _ => error

section

variable [HttpCrate]

def extractHeader {A : Type} (data : HttpApiData A) (P : Presence) (S : Strictness)
    (name : String) (headers : HeaderMap) : RouteResult (ArgShape.Out P S A) :=
  let raw := ((HttpCrate.headerNameFromStr name).bind fun n => headers.get n).map fun v =>
    match HttpCrate.headerValueToStr v with
    | some s => data.fromHeader s
    | none   => .error ⟨"header value is not valid text"⟩
  match ArgShape.build P S raw with
  | .ok out => .route out
  | .error .missing => .failFatal (badRequest ("missing required header `" ++ name ++ "`"))
  | .error (.parse _) => .failFatal (badRequest ("could not parse header `" ++ name ++ "`"))

variable [MimeCrate]

/-- The buffered body read by the codec of its content type. -/
def extractReqBody {A : Type} (ctypes : List (Codec A)) (S : Strictness) (req : RequestData)
    (body : RequestBody) : RouteResult (ArgShape.Out .required S A) :=
  match body.bufferedBytes with
  | .error e => .failFatal e
  | .ok bytes =>
    match negotiateContent ctypes req.contentType bytes with
    | none => .failFatal .err415
    | some decoded =>
      match ArgShape.build .required S (some (decoded.mapError ParseError.mk)) with
      | .ok out           => .route out
      | .error .missing   => .failFatal (badRequest "request body is required")
      | .error (.parse _) => .failFatal (badRequest "could not parse request body")

end

/-- What a body stream still has to deliver, and what of it is in the buffer. -/
structure DecodeState where
  body : List (Except String Bytes)
  buf : Bytes
  eof : Bool
  done : Bool

section

variable {T : Type} (framing : Framing) (codec : Codec T)

/-- An item from the front of the buffer, or the buffer when no frame is complete. -/
def decodeBuffered (body : List (Except String Bytes)) (buf : Bytes) (eof : Bool) :
    (Except StreamBodyError T × DecodeState) ⊕ Bytes :=
  match framing.deframeLimited buf eof DEFAULT_MAX_DECODED_FRAME_BYTES with
  | (.ok (some frame), buf) =>
    match codec.mimeUnrender frame with
    | .ok item       => .inl (.ok item, ⟨body, buf, eof, false⟩)
    | .error message => .inl (.error (.decode message), ⟨body, buf, eof, true⟩)
  | (.ok none, buf) => .inr buf
  | (.error e, buf) => .inl (.error e, ⟨body, buf, eof, true⟩)

/-- The next item of a decoded body: the buffer is filled from the body while it holds no complete
frame. -/
def decodeNext : List (Except String Bytes) → Bytes → Bool →
    Option (Except StreamBodyError T × DecodeState)
  | body, buf, eof =>
    match decodeBuffered framing codec body buf eof with
    | .inl item => some item
    | .inr buf =>
      if eof then none
      else match body with
        | [] =>
          match decodeBuffered framing codec [] buf true with
          | .inl item => some item
          | .inr _    => none
        | .ok chunk :: body => decodeNext body (buf ++ chunk) eof
        | .error message :: body => some (.error (.transport message), ⟨body, buf, eof, true⟩)

/-- `decode_stream`. -/
def decodeStream (body : List BodyEvent) : SourceStream (Except StreamBodyError T) :=
  SourceStream.unfold (fun st => if st.done then none
    else decodeNext framing codec st.body st.buf st.eof)
    ⟨RequestBody.streamItems body, [], false, false⟩

end

/-- The value at the head of a chain's arguments, with the rest. -/
def consTail {H T : Type} (head : H) (tail : RouteM ExtractState T) : RouteM ExtractState (H × T) :=
  do
    let tail ← tail
    RouteM.pure (head, tail)

theorem consTail_route {H T : Type} {head : H} {tail : T} {x : RouteM ExtractState T}
    {st st' : ExtractState} (h : x st = (.route tail, st')) :
    consTail head x st = (.route (head, tail), st') := by
  rw [consTail, RouteM.bind_route h]
  rfl

/-- The next captured segment, parsed. -/
def extractCapture {A : Type} (data : HttpApiData A) (S : Strictness) (name : String) :
    RouteM ExtractState (CaptureShape.Out S A) := do
  match ← nextCapture with
  | none => RouteM.fail notFoundCapture
  | some seg =>
    match CaptureShape.build S (data.fromUrlPiece seg) with
    | .ok out  => RouteM.pure out
    | .error e => RouteM.fail (captureError name e)

/-- The segments captured at once, parsed. -/
def extractCaptureAll {A : Type} (data : HttpApiData A) (name : String) :
    RouteM ExtractState (List A) := do
  match parseSegments data (← takeCaptureAll) with
  | .ok out  => RouteM.pure out
  | .error e => RouteM.fail (captureAllError name e)

/-- The user accepted before the body, or else the one `resolve` finds now. -/
def extractUser (Usr : AppTypes.TypeId)
    (resolve : ExtractState → Except ServerError (AppTypes.El Usr) × ExtractState) :
    RouteM ExtractState (AppTypes.El Usr) := do
  match ← takePrechecked Usr with
  | some user => RouteM.pure user
  | none      => orFatal resolve

def extractResource (R : AppTypes.TypeId) : RouteM ExtractState (AppTypes.El R) :=
  orFatal fun st =>
    match st.lookupResourceProvider R with
    | some provider => (.ok (provider ()), st)
    | none =>
      (.error (ServerError.err500.withBody "resource provider not configured in context"), st)

/-- The body taken as a stream, committing to an error. -/
def takeBody : RouteM ExtractState (List BodyEvent) :=
  orFatal fun st => (st.world.takeBodyStream.1, { st with world := st.world.takeBodyStream.2 })

/-- The captures, queries, headers, body and users of a request, in combinator order. -/
def extract [HttpCrate] [MimeCrate] [Base64Crate] (req : RequestData) :
    (c : Chain) → RouteM ExtractState c.Args
  | verb _ => RouteM.pure ()
  | sub (.capture _ data S name) next => do
    let out ← extractCapture data S name
    consTail out (next.extract req)
  | sub (.captureAll _ data name) next => do
    let out ← extractCaptureAll data name
    consTail out (next.extract req)
  | sub (.queryParam _ data P S name) next => do
    let out ← ofResult (extractQueryParam data P S name req.query)
    consTail out (next.extract req)
  | sub (.queryParams _ data name) next => do
    let out ← ofResult (extractQueryParams data name req.query)
    consTail out (next.extract req)
  | sub (.queryFlag name) next => consTail (extractQueryFlag name req.query) (next.extract req)
  | sub .queryString next => consTail ⟨req.rawQuery, req.query⟩ (next.extract req)
  | sub (.deepQuery _ data name) next => do
    let out ← ofResult (extractDeepQuery data name req.query)
    consTail out (next.extract req)
  | sub (.header _ data P S name) next => do
    let out ← ofResult (extractHeader data P S name req.headers)
    consTail out (next.extract req)
  | sub (.reqBody _ ctypes S) next => do
    let out ← fun st => (extractReqBody ctypes S req st.world.body, st)
    consTail out (next.extract req)
  | sub (.streamBody framing _ codec) next => do
    let body ← takeBody
    consTail (decodeStream framing codec body) (next.extract req)
  | sub .vault next => consTail req.extensions (next.extract req)
  | sub (.withResource R) next => do
    let resource ← extractResource R
    consTail resource (next.extract req)
  | sub (.basicAuth Usr realm) next => do
    let user ← extractUser Usr (basicAuthUser req next.depth Usr realm)
    consTail user (next.extract req)
  | sub (.authProtect Usr) next => do
    let user ← extractUser Usr (authProtectUser req next.depth Usr)
    consTail user (next.extract req)
  | sub .isSecure next => consTail req.isSecure (next.extract req)
  | sub .httpVersion next => consTail req.version (next.extract req)
  | sub .remoteHost next => consTail req.remoteAddr (next.extract req)
  | sub (.withNamedContext Name) next => withNamedContext Name (next.extract req)
  -- no argument
  | sub (.path _) next | sub (.host _) next | sub (.fragment ..) next
  | sub (.description _) next | sub (.summary _) next | sub (.operationId _) next =>
    next.extract req

end Chain

end ServantRs
