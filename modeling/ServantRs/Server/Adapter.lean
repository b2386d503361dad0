import ServantRs.Server.Serve

/-!
# Server — the service

`RouterService::handle` takes an HTTP request apart, dispatches it on the router and turns what the
dispatch ends in into a response: an error that no route recovered from becomes one, too.
-/

namespace ServantRs

variable [AppTypes]

/-- Default maximum buffered request body size (2 MiB). -/
def DEFAULT_MAX_BODY : Nat := 2 * 1024 * 1024

/-- What a serving layer says of a connection. -/
structure ConnectionInfo where
  remoteAddr : Option AppTypes.SocketAddr
  secure : Bool

def ConnectionInfo.default : ConnectionInfo := ⟨none, false⟩

/-- A request as it arrives. -/
structure HttpRequest where
  method : Method
  /-- `uri.path()` -/
  path : String
  /-- `uri.query()` -/
  query : Option String
  /-- `uri.authority()` -/
  authority : Option String
  version : Version
  headers : HeaderMap
  extensions : AppTypes.Extensions
  /-- The `ConnectionInfo` among the extensions. -/
  connectionInfo : Option ConnectionInfo
  body : List BodyEvent

structure RouterService where
  router : Router Leaf
  maxBody : Nat

namespace RouterService

def new (router : Router Leaf) : RouterService := ⟨router, DEFAULT_MAX_BODY⟩

def withMaxBody (maxBody : Nat) (service : RouterService) : RouterService := { service with maxBody }

end RouterService

variable [PercentEncoding]

/-- What the router sees of a request. -/
def HttpRequest.data (req : HttpRequest) : RequestData :=
  let conn := req.connectionInfo.getD .default
  { method := req.method
    isHead := req.method = .HEAD
    query := parseQuery req.query
    rawQuery := req.query
    uriAuthority := req.authority
    headers := req.headers
    extensions := req.extensions
    version := req.version
    remoteAddr := conn.remoteAddr
    isSecure := conn.secure }

variable [HttpCrate] [MimeCrate] [Base64Crate]

/-- The response a dispatch ends in. -/
def RouteResult.intoResponse : RouteResult Response → Response
  | route response => response
  | fail e | failFatal e => errorResponse e

/-- `RouterService::handle` -/
def RouterService.handle (service : RouterService) (req : HttpRequest) : Response :=
  (dispatch Leaf.call service.router (pathSegments req.path) [] none req.data
    (World.new req.body service.maxBody)).1.intoResponse

end ServantRs
