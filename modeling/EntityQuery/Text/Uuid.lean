/-!
# UUIDs

A `Uuid` is 32 hexadecimal digits in lower case.  `Uuid.text` writes them in groups of 8, 4, 4, 4
and 12 with hyphens between; `Uuid.parse?` reads that form, also inside braces or behind
`urn:uuid:`, and the form without hyphens, in any case.
-/

namespace EntityQuery

/-- A hexadecimal digit in lower case. -/
def isLowerHex (c : Char) : Bool := c.isDigit || ('a' ≤ c && c ≤ 'f')

/-- 32 hexadecimal digits in lower case. -/
structure Uuid where
  digits : List Char
  length_digits : digits.length = 32
  isLowerHex_digits : digits.all isLowerHex = true
  deriving DecidableEq

namespace Uuid

/-- The five groups of digits. -/
def groups (u : Uuid) : List (List Char) :=
  [u.digits.take 8, (u.digits.drop 8).take 4, (u.digits.drop 12).take 4, (u.digits.drop 16).take 4,
    u.digits.drop 20]

/-- The digits in groups, with hyphens between. -/
def text (u : Uuid) : String := String.ofList (['-'].intercalate u.groups)

/-- Thirty-two digits of any case. -/
def ofDigits? (cs : List Char) : Option Uuid :=
  let ds := cs.map Char.toLower
  if h : ds.length = 32 ∧ ds.all isLowerHex = true then some ⟨ds, h.1, h.2⟩ else none

/-- Groups of 8, 4, 4, 4 and 12 digits with hyphens between. -/
def ofHyphenated? (cs : List Char) : Option Uuid :=
  if cs.length = 36 ∧ cs[8]? = some '-' ∧ cs[13]? = some '-' ∧ cs[18]? = some '-' ∧
      cs[23]? = some '-' then
    ofDigits? (cs.take 8 ++ (cs.drop 9).take 4 ++ (cs.drop 14).take 4 ++ (cs.drop 19).take 4 ++
      cs.drop 24)
  else none

/-- The name that may stand in front of the hyphenated form. -/
def urn : List Char := "urn:uuid:".toList

/-- The UUID that a text spells. -/
def parse? (s : String) : Option Uuid :=
  let cs := s.toList
  match cs.length with
  | 32 => ofDigits? cs
  | 36 => ofHyphenated? cs
  | 38 =>
    if cs.head? = some '\x7b' ∧ cs.getLast? = some '\x7d' then
      ofHyphenated? ((cs.drop 1).take 36)
    else none
  | 45 => if (cs.take 9).map Char.toLower = urn then ofHyphenated? (cs.drop 9) else none
  | _ => none

end Uuid

end EntityQuery
