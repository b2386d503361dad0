import ServantRs.Core.Packages
import ServantRs.Support.Text

/-!
# Core — host matching

A `Host` combinator's value is an authority, `example.com` or `example.com:8443`.  A request's
authority satisfies it when the host names agree but for case, and the ports agree if the
combinator gives one.
-/

namespace ServantRs

variable [HttpCrate]

/-- A parsed `Host` value. -/
structure HostRequirement where
  original : String
  hostname : String
  port : Option UInt16
deriving DecidableEq, Repr

/-- What follows the host name begins with `:` although no port was read. -/
def hasUnparsedPortMarker (authority hostname : String) : Bool :=
  match stripPrefix hostname authority with
  | some suffix => suffix.toList.head? = some ':'
  | none        => false

/-- How the ports of two authorities are compared. -/
inductive HostPortPolicy where
  | ignoreRequestPort
  | requireExplicitPort (port : UInt16)
deriving DecidableEq, Repr

namespace HostRequirement

def portPolicy (required : HostRequirement) : HostPortPolicy :=
  match required.port with
  | some port => .requireExplicitPort port
  | none      => .ignoreRequestPort

def parse (original : String) : Option HostRequirement := do
  let parsed ← HttpCrate.authorityFromStr original
  if parsed.host = "" ∨ '@' ∈ original.toList then none
  if parsed.port = none ∧ hasUnparsedPortMarker original parsed.host then none
  pure ⟨original, parsed.host, parsed.port⟩

def matchesAuthority (required : HostRequirement) (requestAuthority : String) : Bool :=
  match parse requestAuthority with
  | none => false
  | some request =>
    toAsciiLowercase required.hostname = toAsciiLowercase request.hostname &&
      match required.port with
      | some port => request.port = some port
      | none      => true

end HostRequirement

end ServantRs
