import ServantRs.Core.Packages

/-!
# Core — the structured server error

What a handler returns on failure and what extraction rejects a request with: a status, a reason
phrase, a body and headers.  The constructors are the ones the routing and extraction phases use.
-/

namespace ServantRs

structure ServerError where
  status : StatusCode
  reason : String
  body : Bytes
  headers : HeaderMap
deriving DecidableEq, Repr

namespace ServerError

/-- The numeric status code. -/
def code (e : ServerError) : Nat := e.status.code

def withBody (body : String) (e : ServerError) : ServerError := { e with body := utf8Bytes body }

def withHeader (name : HeaderName) (value : HeaderValue) (e : ServerError) : ServerError :=
  { e with headers := e.headers.append name value }

/-- An error with a status and a phrase, nothing else. -/
def standard (status : StatusCode) (phrase : String) : ServerError := ⟨status, phrase, [], []⟩

def err400 : ServerError := standard ⟨400, by decide⟩ "Bad Request"
def err401 : ServerError := standard ⟨401, by decide⟩ "Unauthorized"
def err404 : ServerError := standard ⟨404, by decide⟩ "Not Found"
def err405 : ServerError := standard ⟨405, by decide⟩ "Method Not Allowed"
def err406 : ServerError := standard ⟨406, by decide⟩ "Not Acceptable"
def err413 : ServerError := standard ⟨413, by decide⟩ "Request Entity Too Large"
def err415 : ServerError := standard ⟨415, by decide⟩ "Unsupported Media Type"
def err500 : ServerError := standard .INTERNAL_SERVER_ERROR "Internal Server Error"

end ServerError

end ServantRs
