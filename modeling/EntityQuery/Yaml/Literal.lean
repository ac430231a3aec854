import EntityQuery.Document.Settled
import EntityQuery.Word
import EntityQuery.Yaml.Character

/-!
# What bare scalars spell

* `Yaml.Literal.isNull`, `Yaml.Literal.bool?`: the spellings of the absent value and of the truth
  values;
* `Yaml.Literal.unsigned?`, `Yaml.Literal.signed?`: whole numbers, in base ten or in the base that
  they name;
* `Yaml.Literal.float?`: fractional numbers and the values that are none;
* `Yaml.Literal.settled?`: what a bare scalar looks like.
-/

namespace EntityQuery.Yaml.Literal

/-- The spellings of the absent value. -/
def isNull (s : String) : Bool := s ∈ ["null", "Null", "NULL", "~"]

/-- The spellings of the truth values. -/
def bool? (s : String) : Option Bool :=
  if s ∈ ["true", "True", "TRUE"] then some true
  else if s ∈ ["false", "False", "FALSE"] then some false
  else none

/-! ### Whole numbers -/

/-- More digits than one of which the first is a zero are no number. -/
def isPadded (cs : List Char) : Bool :=
  cs.head? = some '0' && 1 < cs.length && cs.all Char.isDigit

/-- Digits behind the mark of their base, which is ten without one. -/
def digits? : List Char → Option Nat
  | '0' :: 'x' :: cs => natural? 16 cs
  | '0' :: 'o' :: cs => natural? 8 cs
  | '0' :: 'b' :: cs => natural? 2 cs
  | cs => if isPadded cs then none else natural? 10 cs

/-- A number of at most `greatest`, which may have a plus sign. -/
def unsigned? (greatest : Nat) (s : String) : Option Nat :=
  let n := match s.toList with
    | '+' :: cs => digits? cs
    | cs => digits? cs
  n.filter (· ≤ greatest)

/-- A number behind a minus sign, of at least `least`. -/
def negative? (least : Int) (s : String) : Option Int :=
  match s.toList with
  | '-' :: cs => ((digits? cs).map fun n => - Int.ofNat n).filter (least ≤ ·)
  | _ => none

/-- A number with or without a sign. -/
def signed? (least : Int) (greatest : Nat) (s : String) : Option Int :=
  (negative? least s).or ((unsigned? greatest s).map Int.ofNat)

/-- An integer of 64 bits. -/
def int64? (s : String) : Option Int64 :=
  (signed? Word.intMin Word.intMax.toNat s).bind Word.int64?

/-! ### Fractional numbers -/

/-- The digits of an exponent, behind its sign. -/
def exponent? : List Char → Option Int
  | '+' :: cs => (natural? 10 cs).map Int.ofNat
  | '-' :: cs => (natural? 10 cs).map fun n => - Int.ofNat n
  | cs => (natural? 10 cs).map Int.ofNat

/-- A double of `n` times a power of ten, unless it exceeds the range. -/
def scaled? (n : Nat) (e : Int) : Option Float :=
  let magnitude : Int := (Nat.toDigits 10 n).length + e
  if n = 0 ∨ magnitude < -400 then some 0
  else if 400 < magnitude then none
  else (some (Float.ofScientific n (e < 0) e.natAbs)).filter Float.isFinite

/-- A decimal fraction without sign, with digits on one side of the point at least. -/
def fraction? (cs : List Char) : Option Float :=
  let whole := cs.takeWhile Char.isDigit
  let behind := cs.dropWhile Char.isDigit
  let (decimals, behind) := match behind with
    | '.' :: rest => (rest.takeWhile Char.isDigit, rest.dropWhile Char.isDigit)
    | rest => ([], rest)
  let exponent := match behind with
    | [] => some 0
    | c :: rest => if c = 'e' ∨ c = 'E' then exponent? rest else none
  match natural? 10 (whole ++ decimals), exponent with
  | some n, some e => scaled? n (e - decimals.length)
  | _, _ => none

/-- The spellings of infinity. -/
def isInfinity (cs : List Char) : Bool :=
  cs ∈ [".inf", ".Inf", ".INF"].map String.toList

/-- The infinite value. -/
def infinity : Float := 1 / 0

/-- A fractional number, infinity, or the value that is no number. -/
def float? (s : String) : Option Float :=
  match s.toList with
  | '+' :: cs => if isInfinity cs then some infinity else fraction? cs
  | '-' :: cs => if isInfinity cs then some (-infinity) else (fraction? cs).map (- ·)
  | cs =>
    if isInfinity cs then some infinity
    else if s ∈ [".nan", ".NaN", ".NAN"] then some (0 / 0)
    else fraction? cs

/-! ### Any value -/

/-- What a whole number looks like: more than 64 bits hold is nothing, if 128 bits hold it.  The
inner value is missing when no whole number is spelled. -/
def integer? (s : String) : Option (Option Settled) :=
  match unsigned? Word.natMax s, negative? Word.intMin s with
  | some n, _ => some (some (.nat n))
  | none, some i => some (some (.neg i))
  | none, none =>
    if (signed? Word.wideMin Word.wideMax s).isSome then none else some none

/-- The padded digits of a number, whose sign does not count, are a text. -/
def isPaddedNumber (s : String) : Bool :=
  match s.toList with
  | '+' :: cs => isPadded cs
  | '-' :: cs => isPadded cs
  | cs => isPadded cs

/-- What a bare scalar looks like. -/
def settled? (s : String) : Option Settled :=
  if s = "" ∨ isNull s then some .null
  else
    match bool? s with
    | some b => some (.bool b)
    | none =>
      match integer? s with
      | none => none
      | some (some d) => some d
      | some none =>
        if isPaddedNumber s then some (.text s)
        else some (((float? s).map .float).getD (.text s))

end EntityQuery.Yaml.Literal
