import EntityQuery.Document.Basic

/-!
# Strategies for collection joins

A join of a collection multiplies the rows of the entity that is asked for.  A `Strategy` says what
becomes of such joins.

* `Strategy.parse`, `Strategy.display`: the spelling of a strategy on its own;
* `Strategy.decode?`, `Strategy.toJson`: its form inside a document.
-/

namespace EntityQuery

/-- What becomes of the joins of collections. -/
inductive Strategy
  /-- Each outermost collection becomes an `EXISTS` condition. -/
  | existence
  /-- Collections become lateral aggregates; with `force` also where they have no siblings. -/
  | lateral (force : Bool)
  /-- They stay outer joins. -/
  | keep
  deriving DecidableEq, Repr

/-- The text spells no strategy. -/
structure UnknownStrategy where
  text : String
  deriving DecidableEq, Repr

/-- The wording of the error. -/
def UnknownStrategy.message (e : UnknownStrategy) : String :=
  "Unknown join strategy `" ++ e.text ++ "`, expected exists, lateral, lateral:force or none"

namespace Strategy

/-- The spelling of a strategy. -/
def display : Strategy → String
  | .existence => "exists"
  | .lateral false => "lateral"
  | .lateral true => "lateral:force"
  | .keep => "none"

/-- The strategy of a spelling, in any case. -/
def parse (text : String) : Except UnknownStrategy Strategy :=
  match text.map Char.toLower with
  | "exists" => .ok .existence
  | "lateral" => .ok (.lateral false)
  | "lateral:force" => .ok (.lateral true)
  | "none" => .ok .keep
  | _ => .error ⟨text⟩

/-- A strategy inside a document. -/
def toJson : Strategy → Json
  | .existence => .str "exists"
  | .lateral force => .obj [("lateral", .obj [("force", .bool force)])]
  | .keep => .str "none"

/-- The strategy of a document: a name, or a variant with its members. -/
def decode? {δ : Type} [Document δ] (d : δ) : Option Strategy :=
  match Document.variant? d with
  | some ("lateral", some content) =>
    match Document.namedRecord? ["force"] content with
    | some [force] => (Document.orElse false Document.bool? force).map .lateral
    | _ => none
  | _ =>
    match Document.name? d with
    | some "exists" => some .existence
    | some "none" => some .keep
    | _ => none

end Strategy

end EntityQuery
