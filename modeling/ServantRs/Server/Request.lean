import ServantRs.Core.Api
import ServantRs.Server.Result

/-!
# Server — requests

What the router and the extractors see of a request (`RequestData`), and its body, which is handed
out once: buffered, or taken as a stream (`RequestBody`).  A body is the sequence of events its
transport delivers.
-/

namespace ServantRs

/-- The body of a response. -/
inductive ResponseBody where
  | full (bytes : Bytes)
  | stream (chunks : SourceStream (Except String Bytes))

structure Response where
  status : StatusCode
  headers : HeaderMap
  body : ResponseBody

section RequestData

variable [AppTypes]

structure RequestData where
  method : Method
  /-- The request is a `HEAD`. -/
  isHead : Bool
  query : List QueryPair
  rawQuery : Option String
  uriAuthority : Option String
  headers : HeaderMap
  extensions : AppTypes.Extensions
  version : Version
  remoteAddr : Option AppTypes.SocketAddr
  isSecure : Bool

namespace RequestData

/-- A request with nothing but a method. -/
def ofMethod (method : Method) (extensions : AppTypes.Extensions) : RequestData where
  method := method
  isHead := false
  query := []
  rawQuery := none
  uriAuthority := none
  headers := []
  extensions := extensions
  version := .http11
  remoteAddr := none
  isSecure := false

variable [HttpCrate]

/-- A header's first value, when it is text. -/
def headerText (req : RequestData) (name : HeaderName) : Option String :=
  (req.headers.get name).bind HttpCrate.headerValueToStr

def accept (req : RequestData) : Option String := req.headerText .ACCEPT

def contentType (req : RequestData) : Option String := req.headerText .CONTENT_TYPE

/-- The `Host` header, whatever it is, else the authority of the URI. -/
def hostAuthority (req : RequestData) : Option String :=
  match req.headers.get .HOST with
  | some host => HttpCrate.headerValueToStr host
  | none      => req.uriAuthority

end RequestData

end RequestData

/-! ### Paths and queries -/

namespace Uri

/-- Neither the query nor the fragment begins here. -/
def inPath (c : Char) : Bool := c ≠ '?' && c ≠ '#'

/-- The path of a target in origin form: what comes before the query and the fragment. -/
def path (target : String) : String := String.ofList (target.toList.takeWhile inPath)

/-- The query of a target: what comes after the first `?`, without the fragment. -/
def query (target : String) : Option String :=
  match target.toList.dropWhile inPath with
  | '?' :: rest => some (String.ofList (rest.takeWhile (· ≠ '#')))
  | _           => none

end Uri

section

variable [PercentEncoding]

/-- The decoded segments of a path.  A leading `/` is dropped; a trailing one leaves an empty
segment. -/
def pathSegments (path : String) : List String :=
  (splitChar '/' ((stripPrefix "/" path).getD path)).map PercentEncoding.percentDecodeLossy

def parseQuery (query : Option String) : List QueryPair := (Query.parse query).pairs

end

/-! ### The body -/

/-- What a transport delivers of a body. -/
inductive BodyEvent where
  | data (bytes : Bytes)
  | trailers
  | error (message : String)
deriving DecidableEq, Repr

inductive BodySlot where
  | streaming (body : Option (List BodyEvent))
  | buffered (bytes : Bytes)
  | taken
deriving DecidableEq, Repr

structure RequestBody where
  slot : BodySlot
  maxBufferedBytes : Nat
deriving DecidableEq, Repr

namespace RequestBody

/-- A body not handed out. -/
def new (body : List BodyEvent) (maxBufferedBytes : Nat) : RequestBody :=
  ⟨.streaming (some body), maxBufferedBytes⟩

/-- What is read from a body as a stream (`RequestBodyStream`): its data, up to the first
error. -/
def streamItems : List BodyEvent → List (Except String Bytes)
  | [] => []
  | .data chunk :: body => .ok chunk :: streamItems body
  | .trailers :: body   => streamItems body
  | .error message :: _ => [.error message]

/-- The chunks of a body put together, up to a limit; `out` is what is there. -/
def collectLimited (maxBytes : Nat) : List (Except String Bytes) → Bytes → Except ServerError Bytes
  | [], out => .ok out
  | .error _ :: _, _ => .error (ServerError.err400.withBody "could not read request body")
  | .ok chunk :: items, out =>
    if maxBytes < out.length + chunk.length then .error .err413
    else collectLimited maxBytes items (out ++ chunk)

/-- The bytes of a buffered body. -/
def bufferedBytes (b : RequestBody) : Except ServerError Bytes :=
  match b.slot with
  | .buffered bytes => .ok bytes
  | .streaming _ | .taken => .error (ServerError.err500.withBody "request body is not buffered")

/-- The body taken out to be buffered; `none` when it is buffered or was never there. -/
def takeForBuffering (b : RequestBody) :
    Except ServerError (Option (List BodyEvent)) × RequestBody :=
  match b.slot with
  | .streaming body => (.ok body, { b with slot := .taken })
  | .buffered _     => (.ok none, b)
  | .taken          => (.error (ServerError.err500.withBody "request body was consumed"), b)

def buffer (b : RequestBody) : Except ServerError Bytes × RequestBody :=
  match b.takeForBuffering with
  | (.error e, b)   => (.error e, b)
  | (.ok none, b)   => (b.bufferedBytes, b)
  | (.ok (some body), b) =>
    match collectLimited b.maxBufferedBytes (streamItems body) [] with
    | .error e  => (.error e, b)
    | .ok bytes => (.ok bytes, { b with slot := .buffered bytes })

/-- The body handed out as a stream. -/
def takeStream (b : RequestBody) : Except ServerError (List BodyEvent) × RequestBody :=
  match b.slot with
  | .streaming (some body) => (.ok body, { b with slot := .taken })
  | .streaming none | .taken =>
    (.error (ServerError.err500.withBody "request body was already consumed"),
      { b with slot := .taken })
  | .buffered _ => (.error (ServerError.err500.withBody "request body was already buffered"), b)

end RequestBody

end ServantRs
