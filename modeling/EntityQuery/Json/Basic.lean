/-!
# JSON values

* `Json`: a JSON value whose objects keep their members in document order;
* `Json.Number`: an integer token, or a number held as a double;
* `Json.set`: adds a member, or replaces the value of the one of that name in its place;
* `Json.depth`: how deeply arrays and objects are nested.
-/

namespace EntityQuery

/-- A JSON number: a whole number, or a double. -/
inductive Json.Number
  | int (i : Int)
  | float (x : Float)
  deriving DecidableEq

/-- A JSON value. -/
inductive Json
  | null
  | bool (b : Bool)
  | num (n : Json.Number)
  | str (s : String)
  | arr (items : List Json)
  | obj (members : List (String × Json))

namespace Json

instance : Inhabited Json := ⟨.null⟩

/-- A whole number. -/
abbrev int (i : Int) : Json := .num (.int i)

/-- An array of texts. -/
def strs (ss : List String) : Json := .arr (ss.map .str)

/-- The value or `null`. -/
def ofOption (f : α → Json) : Option α → Json
  | none => .null
  | some a => f a

/-- A double as a value; one that is not finite is `null`. -/
def ofFloat (x : Float) : Json := if x.isFinite then .num (.float x) else .null

/-- Adds a member at the end; a member of the same name keeps its place and takes the value. -/
def set (key : String) (value : Json) : List (String × Json) → List (String × Json)
  | [] => [(key, value)]
  | (k, v) :: rest => if k = key then (k, value) :: rest else (k, v) :: set key value rest

/-- The value of a member. -/
def find? (key : String) : List (String × Json) → Option Json
  | [] => none
  | (k, v) :: rest => if k = key then some v else find? key rest

/-- The member of that name, when the value is an object that has it. -/
def get? (key : String) : Json → Option Json
  | .obj members => find? key members
  | _ => none

mutual

/-- How deeply arrays and objects are nested. -/
def depth : Json → Nat
  | .arr items => itemsDepth items + 1
  | .obj members => membersDepth members + 1
  | _ => 0

/-- The greatest depth of the items. -/
def itemsDepth : List Json → Nat
  | [] => 0
  | j :: rest => max j.depth (itemsDepth rest)

/-- The greatest depth of the members' values. -/
def membersDepth : List (String × Json) → Nat
  | [] => 0
  | (_, j) :: rest => max j.depth (membersDepth rest)

end

end Json

end EntityQuery
