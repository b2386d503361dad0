import ServantRs.Server.Adapter
import ServantRs.Server.Listener

/-!
# Server — connections

A connection is served over HTTP/1 by the service, each request with what is known of the
connection (`ConnectionInfo`).  Over TLS a handshake comes first, and has a deadline.
-/

namespace ServantRs

/-- Default deadline for a client to finish the TLS handshake. -/
def DEFAULT_HANDSHAKE_TIMEOUT : Duration := .fromSecs 10

inductive ConnectionPhase where
  | handshake (deadline : Duration)
  | http
  | closed
deriving DecidableEq, Repr

section

variable [AppTypes]

/-- A connection and the requests that were answered on it. -/
structure HttpConnection where
  info : ConnectionInfo
  phase : ConnectionPhase
  answered : List (HttpRequest × Response)

/-- What happens on a connection. -/
inductive ConnectionEvent where
  /-- The handshake is done, or has failed. -/
  | handshake (ok : Bool)
  /-- The deadline of the handshake has passed. -/
  | timeout
  | request (req : HttpRequest)
  /-- The connection has ended: its peer has closed it, or it has waited too long for a request. -/
  | close

/-- The limits of a TLS listener. -/
structure RustlsConfig where
  handshakeTimeout : Duration
  limits : ConnectionLimits

def RustlsConfig.new : RustlsConfig := ⟨DEFAULT_HANDSHAKE_TIMEOUT, .default⟩

variable [PercentEncoding] [HttpCrate] [MimeCrate] [Base64Crate] (service : RouterService)

/-- `serve_http1`: a request has the connection's info among its extensions. -/
def serveHttp1 (c : HttpConnection) : ConnectionEvent → Option HttpConnection
  | .request req =>
    let req := { req with connectionInfo := some c.info }
    some { c with answered := c.answered ++ [(req, service.handle req)] }
  | .close => some { c with phase := .closed }
  | .handshake _ | .timeout => none

/-- The future of a connection. -/
def serveConnection (now : Duration) (c : HttpConnection) (e : ConnectionEvent) :
    Option HttpConnection :=
  match c.phase with
  | .http => serveHttp1 service c e
  | .handshake deadline =>
    match e with
    | .handshake ok => some { c with phase := if ok then .http else .closed }
    | .timeout      => if deadline ≤ now then some { c with phase := .closed } else none
    | _             => none
  | .closed => none

def HttpConnection.isOver (c : HttpConnection) : Bool := c.phase = .closed

def HttpConnection.timer (c : HttpConnection) : Option Duration :=
  match c.phase with
  | .handshake deadline => some deadline
  | _                   => none

/-- What `serve_listener_with_limits` serves connections with. -/
def plainServing (Io : Type) : Serving Io AppTypes.SocketAddr HttpConnection ConnectionEvent where
  start _ _ peer := ⟨⟨peer, false⟩, .http, []⟩
  step := serveConnection service
  isOver := HttpConnection.isOver
  timer := HttpConnection.timer

/-- What `serve_rustls_listener` serves connections with (`serve_tls_connection`). -/
def tlsServing (tls : RustlsConfig) (Io : Type) :
    Serving Io AppTypes.SocketAddr HttpConnection ConnectionEvent where
  start now _ peer := ⟨⟨peer, true⟩, .handshake (now + tls.handshakeTimeout), []⟩
  step := serveConnection service
  isOver := HttpConnection.isOver
  timer := HttpConnection.timer

end

end ServantRs
