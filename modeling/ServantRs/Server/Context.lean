import ServantRs.Core.Api
import ServantRs.Core.Error

/-!
# Server — the server context

The values extraction needs and a request does not carry: the check of each user type, the
provider of each resource type, and named sub-contexts.  A context is what it answers for a type.
-/

namespace ServantRs

structure BasicAuthData where
  username : String
  password : String
deriving DecidableEq, Repr

inductive BasicAuthResult (Usr : Type) where
  | authorized (user : Usr)
  | badPassword
  | noSuchUser
  | unauthorized
deriving DecidableEq

variable [AppTypes]

/-- What is found under `BasicAuthCheck<Usr>`, `AuthCheck<Usr>`, `ResourceProvider<R>` and
`NamedContext<Name>`. -/
inductive Context where
  | mk (basicAuthChecks : (Usr : AppTypes.TypeId) →
          Option (BasicAuthData → BasicAuthResult (AppTypes.El Usr)))
       (authChecks : (Usr : AppTypes.TypeId) →
          Option (HeaderMap → Except ServerError (AppTypes.El Usr)))
       (resourceProviders : (R : AppTypes.TypeId) → Option (Unit → AppTypes.El R))
       (namedContexts : AppTypes.ContextName → Option Context)

namespace Context

/-- An empty context. -/
def new : Context := mk (fun _ => none) (fun _ => none) (fun _ => none) (fun _ => none)

def basicAuthCheck : Context → (Usr : AppTypes.TypeId) →
    Option (BasicAuthData → BasicAuthResult (AppTypes.El Usr))
  | mk checks _ _ _ => checks

def authCheck : Context → (Usr : AppTypes.TypeId) →
    Option (HeaderMap → Except ServerError (AppTypes.El Usr))
  | mk _ checks _ _ => checks

def resourceProvider : Context → (R : AppTypes.TypeId) → Option (Unit → AppTypes.El R)
  | mk _ _ providers _ => providers

def namedContext : Context → AppTypes.ContextName → Option Context
  | mk _ _ _ named => named

end Context

end ServantRs
