import EntityQuery.Plan.Basic
import EntityQuery.Text.Digit
import EntityQuery.Text.Lowercase
import EntityQuery.Word

/-!
# Fresh table names

Tables are named by the first letters of the words of their names; a repeated name takes an
increasing number.

* `abbreviation`: the letters of a table name;
* `AliasSupply`, `AliasSupply.literal`, `AliasSupply.next`: the names given so far, and a new one;
* `AliasSupply.ofPlan`: a supply that knows the names of a plan.
-/

namespace EntityQuery

/-- The words of a name that is split at underscores. -/
def words (cs : List Char) : List (List Char) := cs.splitOn '_'

/-- The first letter of each word, in lower case. -/
def abbreviation (table : String) : String :=
  String.ofList ((words table.toList).flatMap fun w => (w.take 1).flatMap lowercase)

/-- For each name how often it has been given. -/
structure AliasSupply where
  counters : List (String × Nat)
  deriving DecidableEq, Repr

namespace AliasSupply

/-- No name has been given. -/
def empty : AliasSupply := ⟨[]⟩

/-- How often a name has been given. -/
def count (s : AliasSupply) (name : String) : Nat :=
  ((s.counters.find? (·.1 = name)).map (·.2)).getD 0

/-- The supply with another count for a name. -/
def withCount (s : AliasSupply) (name : String) (n : Nat) : AliasSupply :=
  ⟨(name, n) :: s.counters.filter (·.1 ≠ name)⟩

/-- The name behind its number; the first one has none. -/
def numbered (name : String) : Nat → String
  | 0 => name
  | n => name ++ toString n

/-- A name as it is given, with a number when it is repeated. -/
def literal (s : AliasSupply) (name : String) : String × AliasSupply :=
  (numbered name (s.count name), s.withCount name (s.count name + 1))

/-- A name for a table. -/
def next (s : AliasSupply) (table : String) : String × AliasSupply := s.literal (abbreviation table)

theorem count_withCount_self (s : AliasSupply) (name : String) (n : Nat) :
    (s.withCount name n).count name = n := by
  simp [withCount, count]

/-! ### Names that are taken -/

/-- The letters and the digits that a name ends in. -/
def splitDigits (aliasName : String) : List Char × List Char :=
  let r := aliasName.toList.reverse
  ((r.dropWhile isDecimalDigit).reverse, (r.takeWhile isDecimalDigit).reverse)

/-- The name of a base or subtype table: it follows from the name of its entity's table. -/
def isInherited (aliasName : String) : Bool :=
  match splitDigits aliasName with
  | (_, []) => false
  | (stem, _) =>
    match stem.reverse with
    | kind :: '_' :: before =>
      (kind = 'b' || kind = 's') && !before.isEmpty && before.all (· ≠ '\n')
    | _ => false

/-- A small letter of the ASCII alphabet. -/
def isSmallLetter (c : Char) : Bool := 'a' ≤ c && c ≤ 'z'

/-- Small letters, behind an underscore perhaps. -/
def isStem (cs : List Char) : Bool :=
  let letters := if cs.head? = some '_' then cs.drop 1 else cs
  !letters.isEmpty && letters.all isSmallLetter

/-- The number that digits spell; other scripts' digits spell none. -/
def number? (digits : List Char) : Option Nat :=
  if digits.isEmpty || !digits.all Char.isDigit then none
  else
    let n := digits.foldl (fun n c => n * 10 + (c.toNat - 48)) 0
    if n ≤ Word.natMax then some n else none

/-- What a name says of the counts: its stem has been given that often. -/
def serial? (aliasName : String) : Option (String × Nat) :=
  if isInherited aliasName then none
  else
    let (stem, digits) := splitDigits aliasName
    if isStem stem then
      some (String.ofList stem, match number? digits with
        | some n => n + 1
        | none => 1)
    else none

/-- The supply that knows one more name. -/
def learn (s : AliasSupply) (aliasName : String) : AliasSupply :=
  match serial? aliasName with
  | none => s
  | some (stem, n) => s.withCount stem (max (s.count stem) n)

/-- The supply that knows the names of a plan and of all plans inside it. -/
def ofPlan (p : Plan) : AliasSupply := p.allAliases.foldl learn empty

end AliasSupply

end EntityQuery
