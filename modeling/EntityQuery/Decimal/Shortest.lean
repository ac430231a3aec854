/-!
# Shortest decimals of a double

A finite double stands for every real number that rounds to it.  `shortest` names the decimal with
the fewest digits among them, and of those the one nearest to the double.

* `Binary`: a magnitude `mantissa · 2 ^ exponent`, read off the bits of a `Float`;
* `Decimal`: a magnitude `digits · 10 ^ exponent`;
* `shortest`: the decimal that is written for a magnitude.
-/

namespace EntityQuery

/-- A magnitude `mantissa · 2 ^ exponent`. -/
structure Binary where
  mantissa : Nat
  exponent : Int
  deriving DecidableEq, Repr

/-- A magnitude `digits · 10 ^ exponent`. -/
structure Decimal where
  digits : Nat
  exponent : Int
  deriving DecidableEq, Repr

/-- Which of two equally near decimals is taken: the even one or the greater one. -/
inductive Tie
  | toEven
  | up
  deriving DecidableEq, Repr

namespace Binary

/-- The leading bit of a mantissa, which is not stored: `2 ^ 52`. -/
def leadingBit : Nat := 4503599627370496

/-- The magnitude of a finite double, the sign left out; eleven bits are the exponent. -/
def ofFloat (x : Float) : Binary :=
  let bits := x.toBits.toNat
  let fraction := bits % leadingBit
  match bits / leadingBit % 2048 with
  | 0 => ⟨fraction, -1074⟩
  | e + 1 => ⟨leadingBit + fraction, e - 1074⟩

/-- Four times the mantissa, so that the ends of the rounding interval are whole. -/
def centre (b : Binary) : Nat := 4 * b.mantissa

/-- The lower end of the rounding interval: the gap below a power of two is half as wide. -/
def lower (b : Binary) : Nat :=
  if b.mantissa = leadingBit ∧ -1074 < b.exponent then 4 * b.mantissa - 1 else 4 * b.mantissa - 2

/-- The upper end of the rounding interval. -/
def upper (b : Binary) : Nat := 4 * b.mantissa + 2

/-- The number `n` quarters, as a fraction `(numerator, denominator)` in units of `10 ^ k`. -/
def ratio (b : Binary) (k : Int) (n : Nat) : Nat × Nat :=
  (n * Nat.pow 2 (b.exponent - 2).toNat * Nat.pow 10 (-k).toNat,
    Nat.pow 2 (2 - b.exponent).toNat * Nat.pow 10 k.toNat)

/-- `c · 10 ^ k` lies in the rounding interval; the ends count when the mantissa is even. -/
def admits (b : Binary) (k : Int) (c : Nat) : Bool :=
  let lo := b.ratio k b.lower
  let hi := b.ratio k b.upper
  if b.mantissa % 2 = 0 then lo.1 ≤ c * lo.2 && c * hi.2 ≤ hi.1
  else lo.1 < c * lo.2 && c * hi.2 < hi.1

/-- The nearer of the two neighbours `c` and `c + 1` on the grid `10 ^ k`. -/
def nearer (b : Binary) (tie : Tie) (k : Int) (c : Nat) : Nat :=
  let v := b.ratio k b.centre
  let below := v.1 - c * v.2
  let above := (c + 1) * v.2 - v.1
  if below < above then c
  else if above < below then c + 1
  else match tie with
    | .up => c + 1
    | .toEven => if c % 2 = 0 then c else c + 1

/-- The point of the grid `10 ^ k` that reads back as the magnitude, if there is one. -/
def onGrid? (b : Binary) (tie : Tie) (k : Int) : Option Nat :=
  let v := b.ratio k b.centre
  let c := v.1 / v.2
  match b.admits k c, b.admits k (c + 1) with
  | true, true => some (b.nearer tie k c)
  | true, false => some c
  | false, true => some (c + 1)
  | false, false => none

/-- The first grid with a hit, from `10 ^ k` down, at most `n` grids finer. -/
def descend (b : Binary) (tie : Tie) : Nat → Int → Decimal
  | 0, k => ⟨((b.ratio k b.centre).1 / (b.ratio k b.centre).2), k⟩
  | n + 1, k =>
    match b.onGrid? tie k with
    | some c => ⟨c, k⟩
    | none => descend b tie n (k - 1)

/-- A power of ten above the magnitude: `30103 / 100000` is the logarithm of two. -/
def startExponent (b : Binary) : Int :=
  (b.mantissa.log2 + b.exponent + 1) * 30103 / 100000 + 1

/-- The shortest decimal that reads back as the magnitude, and of those the nearest. -/
def shortest (b : Binary) (tie : Tie) : Decimal :=
  if b.mantissa = 0 then ⟨0, 0⟩ else b.descend tie 24 b.startExponent

end Binary

end EntityQuery
