import ServantRs.Core.Query
import ServantRs.Core.Stream

/-!
# Client — requests

A `ClientRequest` is built up while the client walks an endpoint chain: method, escaped segments,
query parameters, headers, accepted media types and a body.  `target` renders path and query.
The query is kept twice, as pairs for a reader and as what is to be rendered.
-/

namespace ServantRs

/-- Every ASCII character but the unreserved ones is encoded. -/
def PATH_SEGMENT : AsciiSet := (((nonAlphanumeric.remove '-').remove '_').remove '.').remove '~'

/-- A query parameter to be rendered; a deep object's key is rendered already. -/
inductive QueryRender where
  | plain (key : String) (value : Option String)
  | deepObject (key : String) (value : Option String)
deriving DecidableEq, Repr

/-- A streaming body: encoded chunks, or the message of an encoding failure. -/
structure StreamingRequestBody where
  mediaType : Mime
  stream : SourceStream (Except String Bytes)

structure ClientRequest where
  method : Method
  segments : List String
  query : List QueryPair
  queryRender : List QueryRender
  rawQuery : Option String
  headers : HeaderMap
  accept : List Mime
  body : Option (Bytes × Mime)
  streamingBody : Option StreamingRequestBody

section

variable [PercentEncoding]

def QueryRender.render : QueryRender → String
  | plain key value             => renderPairs [(key, value)]
  | deepObject key (some value) => key ++ "=" ++ encodeQueryComponent value
  | deepObject key none         => key

def renderQuery (query : List QueryRender) : String :=
  "&".intercalate (query.map QueryRender.render)

namespace ClientRequest

/-- A `GET` of the root. -/
def new : ClientRequest := ⟨.GET, [], [], [], none, [], [], none, none⟩

/-- One more segment, encoded. -/
def appendPath (raw : String) (req : ClientRequest) : ClientRequest :=
  { req with segments := req.segments ++ [PercentEncoding.utf8PercentEncode PATH_SEGMENT raw] }

def appendQuery (name : String) (value : Option String) (req : ClientRequest) : ClientRequest :=
  { req with
    query := req.query ++ [(name, value)]
    queryRender := req.queryRender ++ [.plain name value] }

def appendDeepQuery (root : String) (path : List String) (value : Option String)
    (req : ClientRequest) : ClientRequest :=
  { req with
    query := req.query ++ [(renderDeepQueryKey root path, value)]
    queryRender := req.queryRender ++ [.deepObject (renderDeepQueryKey root path) value] }

/-- The whole query string in place of what was there. -/
def setQueryString (query : Query) (req : ClientRequest) : ClientRequest :=
  let pairs := if query.raw = none then query.pairs else []
  { req with
    rawQuery := query.raw
    query := pairs
    queryRender := pairs.map fun (key, value) => .plain key value }

def addHeader (name : HeaderName) (value : HeaderValue) (req : ClientRequest) : ClientRequest :=
  { req with headers := req.headers.append name value }

def setBody (body : Bytes) (media : Mime) (req : ClientRequest) : ClientRequest :=
  { req with body := some (body, media), streamingBody := none }

def setStreamingBody (body : StreamingRequestBody) (req : ClientRequest) : ClientRequest :=
  { req with body := none, streamingBody := some body }

/-- Path and query in origin form. -/
def target (req : ClientRequest) : String :=
  "/" ++ "/".intercalate req.segments ++
    if req.rawQuery ≠ none ∨ req.query ≠ [] then
      "?" ++ (match req.rawQuery with
        | some raw => raw ++ (if raw ≠ "" ∧ req.query ≠ [] then "&" else "")
        | none     => "") ++ renderQuery req.queryRender
    else ""

/-- The `Accept` header that is sent. -/
def acceptHeader (req : ClientRequest) : Option String :=
  if req.accept = [] then none else some (", ".intercalate (req.accept.map Mime.source))

end ClientRequest

end

end ServantRs
