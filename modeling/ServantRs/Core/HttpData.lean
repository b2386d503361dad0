import Mathlib.Algebra.Ring.Int.Defs
import ServantRs.Core.Modifiers
import ServantRs.Support.Bytes

/-!
# Core — scalars in URLs and headers

The types that travel in a path, a query or a header as they come: strings, characters, booleans
and the integers of fixed width.  An integer is read digit by digit (`IntType.fromStr`), as
`from_str_radix` reads it: a digit that is none is found before the digit before it overflows.
-/

namespace ServantRs

/-- The standard library's debugging text of a string, which error messages quote. -/
class StrDebug where
  debug : String → String

@[reducible] def StrDebug.reference : StrDebug := ⟨fun s => "\"" ++ s ++ "\""⟩

section

variable [StrDebug]

open StrDebug (debug)

/-! ### Characters and booleans -/

def HttpApiData.char : HttpApiData Char :=
  .ofUrlPiece "char" String.singleton fun s =>
    match s.toList with
    | [c] => .ok c
    | _   => .error ⟨"expected a single character, got " ++ debug s⟩

/-- Read in upper or lower case. -/
def HttpApiData.bool : HttpApiData Bool :=
  .ofUrlPiece "bool" (fun b => if b then "true" else "false") fun s =>
    let lower := toAsciiLowercase s
    if lower = "true" then .ok true
    else if lower = "false" then .ok false
    else .error ⟨"could not parse " ++ debug lower ++ " as bool"⟩

end

/-! ### Integers -/

inductive IntErrorKind where
  | empty | invalidDigit | posOverflow | negOverflow
deriving DecidableEq, Repr

def IntErrorKind.message : IntErrorKind → String
  | empty        => "cannot parse integer from empty string"
  | invalidDigit => "invalid digit found in string"
  | posOverflow  => "number too large to fit in target type"
  | negOverflow  => "number too small to fit in target type"

structure IntType where
  name : String
  bits : Nat
  signed : Bool
deriving DecidableEq, Repr

namespace IntType

def u8 : IntType := ⟨"u8", 8, false⟩
def u16 : IntType := ⟨"u16", 16, false⟩
def u32 : IntType := ⟨"u32", 32, false⟩
def u64 : IntType := ⟨"u64", 64, false⟩
def u128 : IntType := ⟨"u128", 128, false⟩
def usize : IntType := ⟨"usize", 64, false⟩
def i8 : IntType := ⟨"i8", 8, true⟩
def i16 : IntType := ⟨"i16", 16, true⟩
def i32 : IntType := ⟨"i32", 32, true⟩
def i64 : IntType := ⟨"i64", 64, true⟩
def i128 : IntType := ⟨"i128", 128, true⟩
def isize : IntType := ⟨"isize", 64, true⟩

variable (t : IntType)

def min : Int := if t.signed then -2 ^ (t.bits - 1) else 0

def max : Int := if t.signed then 2 ^ (t.bits - 1) - 1 else 2 ^ t.bits - 1

def InRange (n : Int) : Prop := t.min ≤ n ∧ n ≤ t.max

instance (n : Int) : Decidable (t.InRange n) := inferInstanceAs (Decidable (_ ∧ _))

/-- A number of the type. -/
def Val : Type := { n : Int // t.InRange n }

instance : DecidableEq t.Val := inferInstanceAs (DecidableEq { n : Int // t.InRange n })

/-- A result that fits, or none. -/
def checked (n : Int) : Option t.Val := if h : t.InRange n then some ⟨n, h⟩ else none

def overflow (negative : Bool) : IntErrorKind := if negative then .negOverflow else .posOverflow

/-- One digit more: the product is looked at after the digit. -/
def pushDigit (negative : Bool) (acc : t.Val) (c : Char) : Except IntErrorKind t.Val :=
  let mul := t.checked (acc.val * 10)
  if c.isDigit then
    let x : Int := (c.toNat - '0'.toNat : Nat)
    match mul with
    | none     => .error (overflow negative)
    | some mul =>
      match t.checked (if negative then mul.val - x else mul.val + x) with
      | none     => .error (overflow negative)
      | some acc => .ok acc
  else .error .invalidDigit

def pushDigits (negative : Bool) : t.Val → List Char → Except IntErrorKind t.Val
  | acc, []      => .ok acc
  | acc, c :: cs =>
    match t.pushDigit negative acc c with
    | .ok acc  => pushDigits negative acc cs
    | .error e => .error e

theorem inRange_zero : t.InRange 0 := by
  have hpow : ∀ n : Nat, (1 : Int) ≤ 2 ^ n := fun n => by exact_mod_cast Nat.one_le_two_pow
  rw [InRange, min, max]
  cases t.signed with
  | true => exact ⟨Int.neg_nonpos_of_nonneg (Int.le_of_lt (hpow _)), Int.sub_nonneg_of_le (hpow _)⟩
  | false => exact ⟨Int.le_refl 0, Int.sub_nonneg_of_le (hpow _)⟩

def zero : t.Val := ⟨0, t.inRange_zero⟩

/-- `from_str_radix(_, 10)` -/
def fromStr (s : String) : Except IntErrorKind t.Val :=
  match s.toList with
  | []            => .error .empty
  | ['+']         => .error .invalidDigit
  | ['-']         => .error .invalidDigit
  | '+' :: digits => t.pushDigits false t.zero digits
  | '-' :: digits =>
    if t.signed then t.pushDigits true t.zero digits else t.pushDigits false t.zero ('-' :: digits)
  | digits        => t.pushDigits false t.zero digits

/-- White space around a number is dropped. -/
def fromUrlPiece [StrDebug] (s : String) : Except ParseError t.Val :=
  match t.fromStr (trim s) with
  | .ok n    => .ok n
  | .error e => .error
      ⟨"could not parse " ++ StrDebug.debug s ++ " as " ++ t.name ++ ": " ++ e.message⟩

/-- What `impl_via_fromstr_display` makes of the type. -/
def data [StrDebug] : HttpApiData t.Val :=
  .ofUrlPiece t.name (fun n => n.val.repr) t.fromUrlPiece

end IntType

end ServantRs
