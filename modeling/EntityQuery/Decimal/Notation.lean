import EntityQuery.Decimal.Shortest

/-!
# Written numbers

A `Notation` record says how the shortest decimal of a double is laid out; `Float.written` lays it
out.  `Decimal.plain` never uses an exponent; `Decimal.marked` always shows that the number is not
an integer, by `.0` or by an exponent.
-/

namespace EntityQuery

/-- How a decimal is laid out. -/
structure Decimal.Layout where
  /-- The least and the greatest exponent of the leading digit that is written positionally. -/
  positional : Option (Int × Int)
  /-- Whether `.0` follows a whole number. -/
  pointZero : Bool
  /-- Which of two equally near decimals is written. -/
  tie : Tie
  deriving DecidableEq, Repr

/-- No exponent and no `.0`; of two equally near decimals the greater one. -/
def Decimal.plain : Decimal.Layout := ⟨none, false, .up⟩

/-- Positional from `10 ^ -5` up to `10 ^ 16`, whole numbers with `.0`. -/
def Decimal.marked : Decimal.Layout := ⟨some (-5, 15), true, .toEven⟩

/-- A run of zeros. -/
def zeros (n : Nat) : String := String.ofList (List.replicate n '0')

namespace Decimal

/-- The exponent of the leading digit. -/
def leading (d : Decimal) : Int := d.exponent + (Nat.toDigits 10 d.digits).length - 1

/-- Digits around a decimal point. -/
def positionalText (l : Layout) (d : Decimal) : String :=
  let ds := Nat.toDigits 10 d.digits
  let whole := ds.length + d.exponent
  if 0 ≤ d.exponent then
    String.ofList ds ++ zeros d.exponent.toNat ++ (if l.pointZero then ".0" else "")
  else if 0 < whole then
    String.ofList (ds.take whole.toNat) ++ "." ++ String.ofList (ds.drop whole.toNat)
  else "0." ++ zeros (-whole).toNat ++ String.ofList ds

/-- One digit, a point and the others if there are others, and the exponent with its sign. -/
def scientificText (d : Decimal) : String :=
  let ds := Nat.toDigits 10 d.digits
  let rest := ds.drop 1
  String.ofList (ds.take 1) ++ (if rest.isEmpty then "" else "." ++ String.ofList rest) ++
    (if 0 ≤ d.leading then "e+" else "e") ++ toString d.leading

/-- The text of a magnitude. -/
def text (l : Layout) (d : Decimal) : String :=
  if d.digits = 0 then positionalText l ⟨0, 0⟩
  else match l.positional with
    | none => positionalText l d
    | some (least, greatest) =>
      if least ≤ d.leading ∧ d.leading ≤ greatest then positionalText l d else scientificText d

/-- The bit of a double that is its sign: `2 ^ 63`. -/
def signBit : Nat := 9223372036854775808

/-- The text of a double: sign, then the shortest decimal that reads back. -/
def ofFloat (l : Layout) (x : Float) : String :=
  if x.isNaN then "NaN"
  else
    let sign := if signBit ≤ x.toBits.toNat then "-" else ""
    if x.isInf then sign ++ "inf" else sign ++ text l ((Binary.ofFloat x).shortest l.tie)

end Decimal

end EntityQuery
