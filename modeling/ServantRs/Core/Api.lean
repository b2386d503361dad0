import ServantRs.Core.Content
import ServantRs.Core.Query
import ServantRs.Core.Stream

/-!
# Core — the typed API description

An endpoint chain is a list of combinators ending in a verb (`Chain`); a raw chain ends in a raw
handler and takes the combinators that need no extraction (`RawChain`).  From a chain come the
handler's arguments (`Chain.Args`) and its result (`Chain.Output`): each combinator that extracts
a value adds one argument, the others none.

Value types come with what their traits say of them.  The types the server looks up by
`TypeId`, users and resources, are codes (`AppTypes`).
-/

namespace ServantRs

/-- The application's types that are looked up at run time. -/
class AppTypes where
  TypeId : Type
  decEq : DecidableEq TypeId
  /-- The values of a type. -/
  El : TypeId → Type
  /-- The markers of named contexts. -/
  ContextName : Type
  Extensions : Type
  SocketAddr : Type

instance [AppTypes] : DecidableEq AppTypes.TypeId := AppTypes.decEq

/-- Types by name, with texts for values. -/
@[reducible] def AppTypes.reference : AppTypes where
  TypeId := String
  decEq := inferInstance
  El _ := String
  ContextName := String
  Extensions := Unit
  SocketAddr := String

/-- A response value with extra headers. -/
structure Headers (A : Type) where
  value : A
  headers : List (HeaderName × HeaderValue)

/-- The body of a rendered union arm. -/
inductive ArmBody where
  | full (bytes : Bytes)
  | stream (chunks : SourceStream (Except String Bytes))

/-- How a union response renders its active arm over the endpoint's content types. -/
structure UnionData (Resp : Type) where
  renderUnion : Option String → Resp →
    Except String (StatusCode × Option Mime × ArmBody × List (HeaderName × HeaderValue))

/-- A verb: method, status, content types and response value. -/
inductive Terminal where
  | verb (M : Method) (STATUS : StatusCode) (A : Type) (ctypes : List (Codec A))
  | verbWithHeaders (M : Method) (STATUS : StatusCode) (A : Type) (ctypes : List (Codec A))
  | uverb (M : Method) (ctypes : List MediaType) (Resp : Type) (union : UnionData Resp)
  | streamVerb (M : Method) (STATUS : StatusCode) (framing : Framing) (T : Type) (codec : Codec T)
  | noContentVerb (M : Method)

namespace Terminal

def method : Terminal → Method
  | verb M .. | verbWithHeaders M .. | uverb M .. | streamVerb M .. | noContentVerb M => M

/-- The declared status; a union's arms have their own. -/
def status : Terminal → StatusCode
  | verb _ STATUS .. | verbWithHeaders _ STATUS .. | streamVerb _ STATUS .. => STATUS
  | uverb ..      => .OK
  | noContentVerb _ => .NO_CONTENT

/-- The media types a response is negotiated among. -/
def mediaTypes : Terminal → List Mime
  | verb _ _ _ ctypes | verbWithHeaders _ _ _ ctypes => Codec.allMediaTypes ctypes
  | uverb _ ctypes _ _       => MediaType.allMediaTypes ctypes
  | streamVerb _ _ _ _ codec => [codec.mediaType]
  | noContentVerb _          => []

/-- What the handler returns. -/
def Output : Terminal → Type
  | verb _ _ A _            => A
  | verbWithHeaders _ _ A _ => Headers A
  | uverb _ _ Resp _        => Resp
  | streamVerb _ _ _ T _    => SourceStream T
  | noContentVerb _         => Unit

end Terminal

/-- One combinator of an endpoint chain. -/
inductive Comb [AppTypes] where
  | path (segment : String)
  | capture (A : Type) (data : HttpApiData A) (S : Strictness) (name : String)
  | captureAll (A : Type) (data : HttpApiData A) (name : String)
  | queryParam (A : Type) (data : HttpApiData A) (P : Presence) (S : Strictness) (name : String)
  | queryParams (A : Type) (data : HttpApiData A) (name : String)
  | queryFlag (name : String)
  | queryString
  | deepQuery (A : Type) (data : DeepQueryData A) (name : String)
  | header (A : Type) (data : HttpApiData A) (P : Presence) (S : Strictness) (name : String)
  | host (name : String)
  | reqBody (A : Type) (ctypes : List (Codec A)) (S : Strictness)
  | streamBody (framing : Framing) (T : Type) (codec : Codec T)
  | fragment (A : Type) (data : HttpApiData A) (description : String)
  | description (text : String)
  | summary (text : String)
  | operationId (id : String)
  | vault
  | withResource (R : AppTypes.TypeId)
  | basicAuth (Usr : AppTypes.TypeId) (realm : String)
  | authProtect (Usr : AppTypes.TypeId)
  | isSecure
  | httpVersion
  | remoteHost
  | withNamedContext (Name : AppTypes.ContextName)

/-- An endpoint: combinators, then a verb. -/
inductive Chain [AppTypes] where
  | verb (t : Terminal)
  | sub (c : Comb) (next : Chain)

/-- A combinator a raw endpoint may stand below. -/
inductive RawComb where
  | path (segment : String)
  | host (name : String)
  | fragment (A : Type) (data : HttpApiData A) (description : String)
  | description (text : String)
  | summary (text : String)
  | operationId (id : String)

/-- The combinator as it stands above a typed endpoint. -/
def RawComb.comb [AppTypes] : RawComb → Comb
  | path segment         => .path segment
  | host name            => .host name
  | fragment A data text => .fragment A data text
  | description text     => .description text
  | summary text         => .summary text
  | operationId id       => .operationId id

/-- A raw endpoint. -/
inductive RawChain where
  | raw
  | rawM
  | sub (c : RawComb) (next : RawChain)

namespace Chain

variable [AppTypes]

def terminal : Chain → Terminal
  | verb t     => t
  | sub _ next => next.terminal

def method (c : Chain) : Method := c.terminal.method

def Output (c : Chain) : Type := c.terminal.Output

/-- The handler's arguments. -/
def Args : Chain → Type
  | verb _ => Unit
  | sub (.capture A _ S _) next      => CaptureShape.Out S A × next.Args
  | sub (.captureAll A _ _) next     => List A × next.Args
  | sub (.queryParam A _ P S _) next => ArgShape.Out P S A × next.Args
  | sub (.queryParams A _ _) next    => List A × next.Args
  | sub (.queryFlag _) next          => Bool × next.Args
  | sub .queryString next            => Query × next.Args
  | sub (.deepQuery A _ _) next      => A × next.Args
  | sub (.header A _ P S _) next     => ArgShape.Out P S A × next.Args
  | sub (.reqBody A _ S) next        => ArgShape.Out .required S A × next.Args
  | sub (.streamBody _ T _) next     => SourceStream (Except StreamBodyError T) × next.Args
  | sub .vault next                  => AppTypes.Extensions × next.Args
  | sub (.withResource R) next       => AppTypes.El R × next.Args
  | sub (.basicAuth Usr _) next      => AppTypes.El Usr × next.Args
  | sub (.authProtect Usr) next      => AppTypes.El Usr × next.Args
  | sub .isSecure next               => Bool × next.Args
  | sub .httpVersion next            => Version × next.Args
  | sub .remoteHost next             => Option AppTypes.SocketAddr × next.Args
  | sub _ next                       => next.Args

/-- How many combinators stand above the verb. -/
def depth : Chain → Nat
  | verb _     => 0
  | sub _ next => next.depth + 1

end Chain

end ServantRs
