import ServantRs.Core.Host
import ServantRs.Server.Context
import ServantRs.Server.Request
import ServantRs.Server.Result

/-!
# Server — leaves of the routing tree

What the router calls: a typed endpoint with its handler, a raw handler, or either behind a host
guard.
-/

namespace ServantRs

variable [AppTypes]

/-- What a raw handler is given. -/
structure RawRequest where
  tail : List String
  method : Method
  rawQuery : Option String
  query : Query
  headers : HeaderMap
  body : Bytes
  extensions : AppTypes.Extensions
  version : Version
  remoteAddr : Option AppTypes.SocketAddr
  isSecure : Bool

def RawRequest.fromRequest (req : RequestData) (tail : List String) (body : Bytes) : RawRequest where
  tail := tail
  method := req.method
  rawQuery := req.rawQuery
  query := ⟨req.rawQuery, req.query⟩
  headers := req.headers
  body := body
  extensions := req.extensions
  version := req.version
  remoteAddr := req.remoteAddr
  isSecure := req.isSecure

inductive HostGuard where
  | match (required : HostRequirement)
  | invalid
deriving DecidableEq, Repr

namespace HostGuard

variable [HttpCrate]

def fromName (name : String) : HostGuard :=
  match HostRequirement.parse name with
  | some requirement => .match requirement
  | none             => .invalid

def check (guard : HostGuard) (req : RequestData) : RouteResult Unit :=
  match guard with
  | .match required =>
    match req.hostAuthority with
    | some authority => if required.matchesAuthority authority then .route () else .fail .err404
    | none           => .fail .err404
  | .invalid => .fail .err404

/-- A guard lets through, or the request is not found. -/
theorem check_cases (g : HostGuard) (req : RequestData) :
    g.check req = .route () ∨ g.check req = .fail .err404 := by
  cases g with
  | invalid => exact .inr rfl
  | «match» required =>
      rw [check]
      cases req.hostAuthority with
      | none => exact .inr rfl
      | some authority =>
          dsimp only
          split
          · exact .inl rfl
          · exact .inr rfl

end HostGuard

/-- A leaf of the routing tree.  The label names the handler in the log. -/
inductive Leaf where
  | endpoint (label : Nat) (chain : Chain)
      (handler : chain.Args → Except ServerError chain.Output) (context : Context)
  | raw (label : Nat) (handler : RawRequest → Response)
  | rawM (label : Nat) (handler : RawRequest → Context → Except ServerError Response)
      (context : Context)
  | guard (guard : HostGuard) (inner : Leaf)

end ServantRs
