import EntityQuery.Document.Basic
import EntityQuery.Json.Printer

/-!
# Literal values

* `Value`: a value that stands in a filter or is bound into a query;
* `Value.ofJson`: the value that a JSON value stands for;
* `Value.display`: how a value is shown in a message;
* `Value.toJson`, `Value.decode?`: the tagged form of a value, written and read;
  `Value.decodeWithin?` reads it from any document, down to a depth.
-/

namespace EntityQuery

/-- A value that stands in a filter or is bound into a query. -/
inductive Value
  | null
  | bool (b : Bool)
  | int (i : Int64)
  | float (x : Float)
  | text (s : String)
  | json (j : Json)
  | array (items : List Value)
  /-- A reference to an entity of the named type that has not been saved yet. -/
  | newEntity (typeName : String)

namespace Value

instance : Inhabited Value := ⟨.null⟩

/-- The value is null. -/
def isNull : Value → Bool
  | .null => true
  | _ => false

theorem isNull_iff {v : Value} : v.isNull = true ↔ v = .null := by cases v <;> simp [isNull]

/-- The value of a number: an integer where 64 bits hold it, else a double. -/
def ofNumber : Json.Number → Value
  | .int i => ((Word.int64? i).map .int).getD (.float (Float.ofInt i))
  | .float x => .float x

mutual

/-- The value that a JSON value stands for; objects stay JSON. -/
def ofJson : Json → Value
  | .null => .null
  | .bool b => .bool b
  | .num n => ofNumber n
  | .str s => .text s
  | .arr items => .array (ofItems items)
  | .obj members => .json (.obj members)

/-- The values that the items of an array stand for. -/
def ofItems : List Json → List Value
  | [] => []
  | j :: rest => ofJson j :: ofItems rest

end

mutual

/-- A value as it is shown in a message. -/
def display : Value → String
  | .null => "null"
  | .bool b => if b then "true" else "false"
  | .int i => toString i.toInt
  | .float x => Decimal.ofFloat Decimal.plain x
  | .text s => "'" ++ s ++ "'"
  | .json j => j.compact
  | .array items => "[" ++ ", ".intercalate (displays items) ++ "]"
  | .newEntity typeName => "new " ++ typeName

/-- The items of an array as they are shown in a message. -/
def displays : List Value → List String
  | [] => []
  | v :: rest => v.display :: displays rest

end

/-! ### The tagged form -/

mutual

/-- The tagged form of a value. -/
def toJson : Value → Json
  | .null => .str "Null"
  | .bool b => .obj [("Bool", .bool b)]
  | .int i => .obj [("Int", .int i.toInt)]
  | .float x => .obj [("Float", .ofFloat x)]
  | .text s => .obj [("Text", .str s)]
  | .json j => .obj [("Json", j)]
  | .array items => .obj [("Array", .arr (toJsons items))]
  | .newEntity typeName => .obj [("NewEntity", .str typeName)]

/-- The tagged forms of the items of an array. -/
def toJsons : List Value → List Json
  | [] => []
  | v :: rest => v.toJson :: toJsons rest

end

open Document

/-- A double, from any number. -/
def float? : Settled → Option Float
  | .nat n => some (Float.ofInt n)
  | .neg i => some (Float.ofInt i)
  | .float x => some x
  | _ => none

/-- The value of a tagged form, down to a depth. -/
def decodeWithin? {δ : Type} [Document δ] : Nat → δ → Option Value
  | 0, _ => none
  | n + 1, d =>
    match variant? d with
    | some ("Bool", some content) => (bool? content).map .bool
    | some ("Int", some content) => (int64? content).map .int
    | some ("Float", some content) => ((settled? content).bind float?).map .float
    | some ("Text", some content) => (text? content).map .text
    | some ("Json", some content) => ((settled? content).bind Settled.json?).map .json
    | some ("Array", some content) => (list? (decodeWithin? n) content).map .array
    | some ("NewEntity", some content) => (text? content).map .newEntity
    | _ => if name? d = some "Null" then some .null else none

/-- The value of a tagged form. -/
def decode? (j : Json) : Option Value := decodeWithin? (j.depth + 1) j

/-- The values of an array of tagged forms. -/
def decodeList? (j : Json) : Option (List Value) := list? (decodeWithin? (j.depth + 1)) j

end Value

end EntityQuery
