import EntityQuery.Word

/-!
# Reading decimal literals

A decimal literal is read into a double through a significand of at most 64 bits.  Digits that no
longer fit are dropped, the remaining power of ten is applied by one multiplication or division, and
an exponent beyond `308` is brought down in steps.  The result is therefore not always the nearest
double.

* `Decimal.Literal`: the parts of a literal;
* `Decimal.Literal.toFloat?`: its value, or `none` when it exceeds the range.
-/

namespace EntityQuery

/-- The parts of a decimal literal; the digits are values below ten. -/
structure Decimal.Literal where
  negative : Bool
  whole : List Nat
  fraction : List Nat
  /-- The sign and the digits of the exponent, when one is written. -/
  exponent : Option (Bool × List Nat)
  deriving DecidableEq, Repr

namespace Decimal.Literal

/-- The greatest significand. -/
def significandMax : Nat := Word.natMax

/-- Appends leading digits while the significand fits; gives it and the digits left over. -/
def absorb : Nat → List Nat → Nat × List Nat
  | s, [] => (s, [])
  | s, d :: ds => if s * 10 + d ≤ significandMax then absorb (s * 10 + d) ds else (s, d :: ds)

/-- The number that digits spell. -/
def digitsValue (ds : List Nat) : Nat := ds.foldl (fun n d => n * 10 + d) 0

/-- The significand and the power of ten of the digits, the written exponent left out. -/
def parts (l : Literal) : Nat × Int :=
  let (s, dropped) := absorb 0 l.whole
  let (s', rest) := absorb s l.fraction
  (s', (dropped.length : Int) - ((l.fraction.length - rest.length : Nat) : Int))

/-- A power of ten up to `10 ^ 308`. -/
def tenPow (n : Nat) : Float := Float.ofScientific 1 false n

/-- Divides by `10 ^ 308` until the exponent is small enough, then scales. -/
def scale : Nat → Float → Int → Option Float
  | 0, _, _ => none
  | n + 1, f, e =>
    if e.natAbs ≤ 308 then
      if 0 ≤ e then
        let g := f * tenPow e.natAbs
        if g.isInf then none else some g
      else some (f / tenPow e.natAbs)
    else if f == 0 then some f
    else if 0 ≤ e then none
    else scale n (f / tenPow 308) (e + 308)

/-- Ten divisions bring every significand down to zero. -/
def scaleSteps : Nat := 16

/-- The greatest exponent, of 32 bits. -/
def exponentMax : Nat := 2147483647

/-- Exponents saturate at the ends of 32 bits. -/
def saturate (e : Int) : Int := max (-2147483648) (min exponentMax e)

/-- The magnitude of a literal. -/
def magnitude? (l : Literal) : Option Float :=
  let (s, e) := l.parts
  let f := Float.ofNat s
  match l.exponent with
  | none => scale scaleSteps f e
  | some (negative, ds) =>
    let n := digitsValue ds
    if exponentMax < n then
      if s = 0 ∨ negative then some 0 else none
    else scale scaleSteps f (saturate (if negative then e - n else e + n))

/-- The double a literal is read as, `none` when it exceeds the range. -/
def toFloat? (l : Literal) : Option Float :=
  l.magnitude?.map fun f => if l.negative then -f else f

end Decimal.Literal

end EntityQuery
