import ServantRs.Core.Packages

/-!
# Core — presence and strictness

The one table that says what a handler's argument is and how it is built from a lookup: a
component is required or optional, and a value that does not parse rejects the request (strict)
or reaches the handler (lenient).  The server builds arguments by `ArgShape.build`, the client
and the links take the value back by `ArgShape.intoValue`; a capture is always there, so only its
strictness varies.

`HttpApiData` is what a value type says of its text in a path, a query and a header.
-/

namespace ServantRs

/-- A component that does not parse. -/
structure ParseError where
  message : String
deriving DecidableEq, Repr

inductive Presence where
  | required | optional
deriving DecidableEq, Repr

inductive Strictness where
  | strict | lenient
deriving DecidableEq, Repr

/-- Why an argument rejects the request. -/
inductive ArgError where
  | missing
  | parse (e : ParseError)
deriving DecidableEq, Repr

namespace ArgShape

/-- What the handler is given. -/
def Out : Presence → Strictness → Type → Type
  | .required, .strict,  A => A
  | .required, .lenient, A => Except ParseError A
  | .optional, .strict,  A => Option A
  | .optional, .lenient, A => Option (Except ParseError A)

/-- The argument for a component that is absent (`none`), parsed, or not parsed. -/
def build {A : Type} : (P : Presence) → (S : Strictness) → Option (Except ParseError A) →
    Except ArgError (Out P S A)
  | .required, .strict,  none            => .error .missing
  | .required, .strict,  some (.ok a)    => .ok a
  | .required, .strict,  some (.error e) => .error (.parse e)
  | .required, .lenient, none            => .error .missing
  | .required, .lenient, some res        => .ok res
  | .optional, .strict,  none            => .ok none
  | .optional, .strict,  some (.ok a)    => .ok (some a)
  | .optional, .strict,  some (.error e) => .error (.parse e)
  | .optional, .lenient, value           => .ok value

/-- The value to send, `none` when there is none. -/
def intoValue {A : Type} : (P : Presence) → (S : Strictness) → Out P S A → Option A
  | .required, .strict,  out => some out
  | .required, .lenient, out => out.toOption
  | .optional, .strict,  out => out
  | .optional, .lenient, out => out.bind Except.toOption

/-- An argument without a parse failure in it: what a caller that has a value, or leaves it out,
passes. -/
def Sendable {A : Type} : (P : Presence) → (S : Strictness) → Out P S A → Prop
  | .required, .strict,  _   => True
  | .required, .lenient, out => ∃ a, out = .ok a
  | .optional, .strict,  _   => True
  | .optional, .lenient, out => ∀ e, out ≠ some (.error e)

/-- **What is sent is built again.**  The value taken from an argument builds that argument. -/
theorem build_intoValue {A : Type} :
    ∀ {P : Presence} {S : Strictness} {out : Out P S A}, Sendable P S out →
      build P S ((intoValue P S out).map .ok) = .ok out
  | .required, .strict,  _,               _ => rfl
  | .required, .lenient, _,               ⟨_, rfl⟩ => rfl
  | .optional, .strict,  none,            _ => rfl
  | .optional, .strict,  some _,          _ => rfl
  | .optional, .lenient, none,            _ => rfl
  | .optional, .lenient, some (.ok _),    _ => rfl
  | .optional, .lenient, some (.error e), h => absurd rfl (h e)

/-- The value to send of an argument that was built is the one it was built from. -/
theorem intoValue_of_build {A : Type} : ∀ {P : Presence} {S : Strictness}
    {raw : Option (Except ParseError A)} {out : Out P S A},
    build P S raw = .ok out → intoValue P S out = raw.bind Except.toOption
  | .required, .strict,  some (.ok _),    _, rfl => rfl
  | .required, .lenient, some _,          _, rfl => rfl
  | .optional, .strict,  none,            _, rfl => rfl
  | .optional, .strict,  some (.ok _),    _, rfl => rfl
  | .optional, .lenient, _,               _, rfl => rfl

/-- An argument that was built without a parse failure has none. -/
theorem sendable_of_build {A : Type} : ∀ {P : Presence} {S : Strictness}
    {raw : Option (Except ParseError A)} {out : Out P S A},
    build P S raw = .ok out → (∀ e, raw ≠ some (.error e)) → Sendable P S out
  | .required, .strict,  _,               _, _,   _ => trivial
  | .optional, .strict,  _,               _, _,   _ => trivial
  | .required, .lenient, some (.ok a),    _, rfl, _ => ⟨a, rfl⟩
  | .required, .lenient, some (.error e), _, _,   h => absurd rfl (h e)
  | .optional, .lenient, _,               _, rfl, h => h

end ArgShape

namespace CaptureShape

def Out : Strictness → Type → Type
  | .strict,  A => A
  | .lenient, A => Except ParseError A

def build {A : Type} : (S : Strictness) → Except ParseError A → Except ParseError (Out S A)
  | .strict,  parse => parse
  | .lenient, parse => .ok parse

def intoValue {A : Type} : (S : Strictness) → Out S A → Option A
  | .strict,  out => some out
  | .lenient, out => out.toOption

end CaptureShape

/-- How a value is written in, and read from, a path segment, a query value and a header. -/
structure HttpApiData (A : Type) where
  typeName : String
  toUrlPiece : A → String
  toQueryParam : A → String
  toHeader : A → String
  fromUrlPiece : String → Except ParseError A
  fromQueryParam : String → Except ParseError A
  fromHeader : String → Except ParseError A

/-- A type that writes and reads every component as it does a path segment. -/
def HttpApiData.ofUrlPiece {A : Type} (typeName : String) (toUrlPiece : A → String)
    (fromUrlPiece : String → Except ParseError A) : HttpApiData A where
  typeName := typeName
  toUrlPiece := toUrlPiece
  toQueryParam := toUrlPiece
  toHeader := toUrlPiece
  fromUrlPiece := fromUrlPiece
  fromQueryParam := fromUrlPiece
  fromHeader := fromUrlPiece

/-- A string is its own text. -/
def HttpApiData.string : HttpApiData String := .ofUrlPiece "alloc::string::String" id .ok

end ServantRs
