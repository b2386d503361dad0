import ServantRs.Core.Api

/-!
# Core — links

A `Link` gathers escaped path segments, query parameters and a fragment while an endpoint chain
is walked (`Chain.addToLink`); rendering it gives the URL.  A link's arguments are the path's and
the query's only: a header or a body is in no URL.
-/

namespace ServantRs

/-- Every ASCII character but the unreserved ones is encoded. -/
def COMPONENT : AsciiSet := (((nonAlphanumeric.remove '-').remove '_').remove '.').remove '~'

/-- A query parameter of a link. -/
inductive Param where
  | single (key value : String)
  | arrayElem (key value : String)
  | flag (key : String)
  | deepObject (key : String) (value : Option String)
deriving DecidableEq, Repr

inductive ArrayElementStyle where
  | bracket | plain
deriving DecidableEq, Repr

/-- Escaped segments, query parameters, an optional raw query before them, and a fragment. -/
structure Link where
  segments : List String
  query : List Param
  rawQuery : Option String
  fragment : Option String
deriving DecidableEq, Repr

section

variable [PercentEncoding]

def encode (s : String) : String := PercentEncoding.utf8PercentEncode COMPONENT s

/-- The pair of a parameter that renders as one. -/
def Param.plainPair : Param → Option QueryPair
  | single key value => some (key, some value)
  | flag key         => some (key, none)
  | arrayElem _ _    => none
  | deepObject _ _   => none

def renderParam (style : ArrayElementStyle) : Param → String
  | .single k v => encode k ++ "=" ++ encode v
  | .arrayElem k v =>
    match style with
    | .bracket => encode k ++ "[]=" ++ encode v
    | .plain   => encode k ++ "=" ++ encode v
  | .flag k => encode k
  | .deepObject k (some v) => k ++ "=" ++ encode v
  | .deepObject k none     => k

def renderParams (params : List Param) (style : ArrayElementStyle) : String :=
  match params.mapM Param.plainPair with
  | some pairs => renderPairs pairs
  | none       => "&".intercalate (params.map (renderParam style))

namespace Link

def new : Link := ⟨[], [], none, none⟩

/-- One more segment, escaped. -/
def addSegment (raw : String) (link : Link) : Link :=
  { link with segments := link.segments ++ [PercentEncoding.utf8PercentEncode COMPONENT raw] }

def addQuery (param : Param) (link : Link) : Link := { link with query := link.query ++ [param] }

def pairParam : QueryPair → Param
  | (key, some value) => .single key value
  | (key, none)       => .flag key

/-- The whole query string in place of what was there. -/
def setQueryString (query : Query) (link : Link) : Link :=
  { link with
    rawQuery := query.raw
    query := if query.raw = none then query.pairs.map pairParam else [] }

def setFragment (frag : String) (link : Link) : Link := { link with fragment := some frag }

/-- The `?` part: the raw query, then the parameters. -/
def renderQueryPart (link : Link) (style : ArrayElementStyle) : String :=
  if link.rawQuery ≠ none ∨ link.query ≠ [] then
    "?" ++ (match link.rawQuery with
      | some raw => raw ++ (if raw ≠ "" ∧ link.query ≠ [] then "&" else "")
      | none     => "") ++ renderParams link.query style
  else ""

def renderWith (link : Link) (style : ArrayElementStyle) (leadingSlash : Bool) : String :=
  (if leadingSlash then "/" else "") ++ "/".intercalate link.segments
    ++ link.renderQueryPart style
    ++ (match link.fragment with
      | some frag => "#" ++ encode frag
      | none      => "")

/-- The absolute path of a link. -/
def toUri (link : Link) : String := link.renderWith .bracket true

/-- A link without its fragment. -/
def dropFragment (link : Link) : Link := { link with fragment := none }

end Link

end

namespace Chain

variable [AppTypes]

/-- The values a link to an endpoint needs. -/
def LinkArgs : Chain → Type
  | verb _ => Unit
  | sub (.capture A _ S _) next      => CaptureShape.Out S A × next.LinkArgs
  | sub (.captureAll A _ _) next     => List A × next.LinkArgs
  | sub (.queryParam A _ P S _) next => ArgShape.Out P S A × next.LinkArgs
  | sub (.queryParams A _ _) next    => List A × next.LinkArgs
  | sub (.queryFlag _) next          => Bool × next.LinkArgs
  | sub .queryString next            => Query × next.LinkArgs
  | sub (.deepQuery A _ _) next      => A × next.LinkArgs
  | sub (.fragment A _ _) next       => A × next.LinkArgs
  | sub _ next                       => next.LinkArgs

variable [PercentEncoding]

/-- Each combinator's segments and parameters put on a link, in chain order. -/
def addToLink : (c : Chain) → c.LinkArgs → Link → Link
  | verb _, _, link => link
  | sub (.path segment) next, args, link => next.addToLink args (link.addSegment segment)
  | sub (.capture _ data S _) next, (head, tail), link =>
    next.addToLink tail (match CaptureShape.intoValue S head with
      | some a => link.addSegment (data.toUrlPiece a)
      | none   => link.addSegment "")
  | sub (.captureAll _ data _) next, (head, tail), link =>
    next.addToLink tail (head.foldl (fun link a => link.addSegment (data.toUrlPiece a)) link)
  | sub (.queryParam _ data P S name) next, (head, tail), link =>
    next.addToLink tail (match ArgShape.intoValue P S head with
      | some a => link.addQuery (.single name (data.toQueryParam a))
      | none   => link)
  | sub (.queryParams _ data name) next, (head, tail), link =>
    next.addToLink tail
      (head.foldl (fun link a => link.addQuery (.arrayElem name (data.toQueryParam a))) link)
  | sub (.queryFlag name) next, (head, tail), link =>
    next.addToLink tail (if head then link.addQuery (.flag name) else link)
  | sub .queryString next, (head, tail), link => next.addToLink tail (link.setQueryString head)
  | sub (.deepQuery _ data name) next, (head, tail), link =>
    next.addToLink tail ((data.toDeepQuery head).foldl (fun link entry =>
      link.addQuery (.deepObject (renderDeepQueryKey name entry.path) entry.value)) link)
  | sub (.fragment _ data _) next, (head, tail), link =>
    next.addToLink tail (link.setFragment (data.toQueryParam head))
  -- headers, bodies, metadata and the server-only combinators are in no URL
  | sub (.header ..) next, args, link
  | sub (.host _) next, args, link
  | sub (.reqBody ..) next, args, link
  | sub (.streamBody ..) next, args, link
  | sub (.description _) next, args, link
  | sub (.summary _) next, args, link
  | sub (.operationId _) next, args, link
  | sub .vault next, args, link
  | sub (.withResource _) next, args, link
  | sub (.basicAuth ..) next, args, link
  | sub (.authProtect _) next, args, link
  | sub .isSecure next, args, link
  | sub .httpVersion next, args, link
  | sub .remoteHost next, args, link
  | sub (.withNamedContext _) next, args, link => next.addToLink args link

/-- The link to an endpoint. -/
def link (c : Chain) (args : c.LinkArgs) : Link := c.addToLink args Link.new

end Chain

end ServantRs
