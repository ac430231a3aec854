import EntityQuery.Word

/-!
# Integer texts

`Integer.parse` reads a decimal integer of a bounded range.  A sign may stand in front, a minus only
where the range has negative numbers.  The digits are taken from the left, and the first one that is
wrong or leads out of the range decides the error.
-/

namespace EntityQuery.Integer

/-- Why a text is no integer of the range. -/
inductive ParseError
  | empty
  | invalidDigit
  | tooLarge
  | tooSmall
  deriving DecidableEq, Repr

/-- The wording of the error. -/
def ParseError.message : ParseError → String
  | .empty => "cannot parse integer from empty string"
  | .invalidDigit => "invalid digit found in string"
  | .tooLarge => "number too large to fit in target type"
  | .tooSmall => "number too small to fit in target type"

/-- The value of an ASCII digit. -/
def digit? (c : Char) : Option Nat := if c.isDigit then some (c.toNat - 48) else none

/-- Digits of a number that is not negative, behind the number read so far. -/
def ascend (greatest : Int) (n : Int) : List Char → Except ParseError Int
  | [] => .ok n
  | c :: rest =>
    match digit? c with
    | none => .error .invalidDigit
    | some d =>
      if greatest < n * 10 + d then .error .tooLarge else ascend greatest (n * 10 + d) rest

/-- Digits behind a minus sign, behind the number read so far. -/
def descend (least : Int) (n : Int) : List Char → Except ParseError Int
  | [] => .ok n
  | c :: rest =>
    match digit? c with
    | none => .error .invalidDigit
    | some d => if n * 10 - d < least then .error .tooSmall else descend least (n * 10 - d) rest

/-- The integer between `least` and `greatest` that the text spells. -/
def parse (least greatest : Int) (text : String) : Except ParseError Int :=
  match text.toList with
  | [] => .error .empty
  | ['+'] => .error .invalidDigit
  | ['-'] => .error .invalidDigit
  | '+' :: cs => ascend greatest 0 cs
  | '-' :: cs => if least < 0 then descend least 0 cs else .error .invalidDigit
  | cs => ascend greatest 0 cs

/-- The integer of 64 bits that the text spells. -/
def parse64 (text : String) : Except ParseError Int64 :=
  (parse Word.intMin Word.intMax text).map Int64.ofInt

end EntityQuery.Integer
