import Mathlib.Algebra.Ring.Nat
import ServantRs.Support.Text

/-!
# Support — reading a binary32

The standard library's reading of a 32-bit floating-point number from decimal text: an optional
sign, then `inf`, `infinity` or `nan` in any case, or digits with an optional point and an
optional exponent, rounded to the nearest value, ties to even.

A finite value is a sign and a magnitude; the magnitude is counted in units of `2⁻¹⁴⁹`, the
least positive value, so the order of magnitudes is the order of natural numbers.
-/

namespace ServantRs

inductive Binary32 where
  | finite (neg : Bool) (mag : Nat)
  | infinite (neg : Bool)
  | nan
deriving DecidableEq, Repr

namespace Binary32

/-- The magnitude of `1.0`. -/
def one : Nat := 2 ^ 149

/-- The first magnitude too great for a finite value. -/
def overflow : Nat := 2 ^ 277

/-- The magnitude nearest to `p / q`: a multiple of the unit in the last of 24 places, ties to
the even multiple. -/
def round (p q : Nat) : Nat :=
  let n := p * 2 ^ 149
  let ulp := 2 ^ (Nat.log2 (n / q) + 1 - 24)
  let k := n / (q * ulp)
  let r := n % (q * ulp)
  if q * ulp < 2 * r ∨ (2 * r = q * ulp ∧ k % 2 = 1) then (k + 1) * ulp else k * ulp

def ofRatio (neg : Bool) (p q : Nat) : Binary32 :=
  if round p q < overflow then .finite neg (round p q) else .infinite neg

/-- A leading sign: whether it is `-`, and what follows. -/
def takeSign : List Char → Bool × List Char
  | '-' :: cs => (true, cs)
  | '+' :: cs => (false, cs)
  | cs        => (false, cs)

def digitsValue (ds : List Char) : Nat := ds.foldl (fun n c => 10 * n + (c.toNat - 48)) 0

/-- The exponent, `0` when there is none. -/
def parseExponent : List Char → Option Int
  | [] => some 0
  | e :: cs =>
    let (neg, ds) := takeSign cs
    if (e = 'e' ∨ e = 'E') ∧ ds ≠ [] ∧ ds.all Char.isDigit then
      some (if neg then -(digitsValue ds : Int) else digitsValue ds)
    else none

/-- Digits with an optional point and an optional exponent, as a ratio. -/
def parseDecimal (cs : List Char) : Option (Nat × Nat) := do
  let int := cs.takeWhile Char.isDigit
  let (frac, rest) := match cs.dropWhile Char.isDigit with
    | '.' :: r => (r.takeWhile Char.isDigit, r.dropWhile Char.isDigit)
    | r        => ([], r)
  if int ++ frac = [] then none
  let e ← parseExponent rest
  let e := e - frac.length
  pure (digitsValue (int ++ frac) * 10 ^ e.toNat, 10 ^ (-e).toNat)

/-- `str::parse::<f32>`. -/
def parse (s : String) : Option Binary32 :=
  let (neg, cs) := takeSign s.toList
  let lower := String.ofList (cs.map Char.toLower)
  if lower = "inf" ∨ lower = "infinity" then some (.infinite neg)
  else if lower = "nan" then some .nan
  else (parseDecimal cs).map fun (p, q) => ofRatio neg p q

/-- The magnitude of a value between `0.0` and `1.0`; `-0.0` is one of them. -/
def inUnit : Binary32 → Option Nat
  | .finite neg mag => if (neg ∧ mag ≠ 0) ∨ one < mag then none else some mag
  | .infinite _ | .nan => none

example : (parse "0.5").bind inUnit = some (2 ^ 148) := by decide +kernel

end Binary32

end ServantRs
