import EntityQuery.Value

/-!
# Predicates

A `Predicate` is what a filter asks of one column.

* `Comparison`, `Pattern`, `Containment`: the operators, by the operand that they take;
* `Predicate.kind`: the name of a predicate in messages, `Predicate.tag` its name in documents;
* `Predicate.normalize`: equality with null is a test for null;
* `Predicate.toJson`, `Predicate.decode?`: predicates in documents, written and read;
  `Predicate.decodeWithin?` reads one from any document, down to a depth.
-/

namespace EntityQuery

/-- The operators with one value as operand. -/
inductive Comparison
  | eq
  | ne
  | gt
  | gte
  | lt
  | lte
  deriving DecidableEq, Repr

/-- The operators with a text as operand: a pattern, an expression or a path. -/
inductive Pattern
  | like
  | ilike
  | nlike
  | nilike
  | regex
  | iregex
  | nregex
  | niregex
  | pathExists
  | pathPredicate
  deriving DecidableEq, Repr

/-- The operators that compare an array with a list of values. -/
inductive Containment
  | contains
  | overlaps
  | containedBy
  deriving DecidableEq, Repr

/-- What a filter asks of one column. -/
inductive Predicate
  | compare (op : Comparison) (operand : Value)
  | isIn (operands : List Value)
  | notIn (operands : List Value)
  | between (low high : Value)
  | isNull
  | notNull
  | pattern (op : Pattern) (operand : String)
  | containment (op : Containment) (operands : List Value)

/-- The name of the operator. -/
def Comparison.name : Comparison → String
  | .eq => "eq"
  | .ne => "ne"
  | .gt => "gt"
  | .gte => "gte"
  | .lt => "lt"
  | .lte => "lte"

/-- The name of the operator in messages. -/
def Pattern.kind : Pattern → String
  | .like => "like"
  | .ilike => "ilike"
  | .nlike => "nlike"
  | .nilike => "nilike"
  | .regex => "regex"
  | .iregex => "iregex"
  | .nregex => "nregex"
  | .niregex => "niregex"
  | .pathExists => "json-path-exists"
  | .pathPredicate => "json-path-predicate"

/-- The name of the operator in documents. -/
def Pattern.tag : Pattern → String
  | .pathExists => "json_path_exists"
  | .pathPredicate => "json_path_predicate"
  | op => op.kind

/-- The name of the operator in messages. -/
def Containment.kind : Containment → String
  | .contains => "contains"
  | .overlaps => "overlaps"
  | .containedBy => "contained-by"

/-- The name of the operator in documents. -/
def Containment.tag : Containment → String
  | .containedBy => "contained_by"
  | op => op.kind

namespace Predicate

/-- Equality with a value. -/
abbrev eq (v : Value) : Predicate := .compare .eq v

/-- Inequality with a value. -/
abbrev ne (v : Value) : Predicate := .compare .ne v

/-- The name of the predicate in messages. -/
def kind : Predicate → String
  | .compare op _ => op.name
  | .isIn _ => "in"
  | .notIn _ => "nin"
  | .between _ _ => "between"
  | .isNull => "is-null"
  | .notNull => "not-null"
  | .pattern op _ => op.kind
  | .containment op _ => op.kind

/-- The name of the predicate in documents. -/
def tag : Predicate → String
  | .isNull => "is_null"
  | .notNull => "not_null"
  | .pattern op _ => op.tag
  | .containment op _ => op.tag
  | p => p.kind

/-- Equality with null is a test for null, and inequality one for its absence. -/
def normalize : Predicate → Predicate
  | .compare .eq .null => .isNull
  | .compare .ne .null => .notNull
  | p => p

theorem normalize_normalize (p : Predicate) : p.normalize.normalize = p.normalize := by
  unfold normalize
  split <;> first | rfl | (split <;> simp_all)

/-- The predicate is the test for null. -/
def isNullTest : Predicate → Bool
  | .isNull => true
  | _ => false

theorem isNullTest_iff {p : Predicate} : p.isNullTest = true ↔ p = .isNull := by
  cases p <;> simp [isNullTest]

/-! ### Documents -/

/-- The operand of a predicate in a document, if it has one. -/
def operandJson? : Predicate → Option Json
  | .compare _ v => some v.toJson
  | .isIn vs => some (.arr (Value.toJsons vs))
  | .notIn vs => some (.arr (Value.toJsons vs))
  | .between low high => some (.arr [low.toJson, high.toJson])
  | .isNull => none
  | .notNull => none
  | .pattern _ s => some (.str s)
  | .containment _ vs => some (.arr (Value.toJsons vs))

/-- A predicate in a document. -/
def toJson (p : Predicate) : Json :=
  match p.operandJson? with
  | none => .obj [("kind", .str p.tag)]
  | some operand => .obj [("kind", .str p.tag), ("value", operand)]

/-- The comparison of a name. -/
def comparison? : String → Option Comparison
  | "eq" => some .eq
  | "ne" => some .ne
  | "gt" => some .gt
  | "gte" => some .gte
  | "lt" => some .lt
  | "lte" => some .lte
  | _ => none

/-- The pattern operator of a name in documents. -/
def pattern? : String → Option Pattern
  | "like" => some .like
  | "ilike" => some .ilike
  | "nlike" => some .nlike
  | "nilike" => some .nilike
  | "regex" => some .regex
  | "iregex" => some .iregex
  | "nregex" => some .nregex
  | "niregex" => some .niregex
  | "json_path_exists" => some .pathExists
  | "json_path_predicate" => some .pathPredicate
  | _ => none

/-- The containment operator of a name in documents. -/
def containment? : String → Option Containment
  | "contains" => some .contains
  | "overlaps" => some .overlaps
  | "contained_by" => some .containedBy
  | _ => none

open Document

/-- The predicate of a name with an operand, which holds values down to a depth. -/
def ofOperand? {δ : Type} [Document δ] (depth : Nat) (name : String) (operand : δ) :
    Option Predicate :=
  let value? : δ → Option Value := Value.decodeWithin? depth
  match name with
  | "is_null" => if isAbsent? operand = some true then some .isNull else none
  | "not_null" => if isAbsent? operand = some true then some .notNull else none
  | "in" => (list? value? operand).map .isIn
  | "nin" => (list? value? operand).map .notIn
  | "between" =>
    match list? value? operand with
    | some [low, high] => some (.between low high)
    | _ => none
  | _ =>
    match comparison? name, pattern? name, containment? name with
    | some op, _, _ => (value? operand).map (.compare op)
    | _, some op, _ => (text? operand).map (.pattern op)
    | _, _, some op => (list? value? operand).map (.containment op)
    | _, _, _ => none

/-- The predicate of a name without an operand. -/
def ofName? : String → Option Predicate
  | "is_null" => some .isNull
  | "not_null" => some .notNull
  | _ => none

/-- The predicate of a document, down to a depth.  An operand in front of the name of its predicate
is settled before it is read. -/
def decodeWithin? {δ : Type} [Document δ] (depth : Nat) (d : δ) : Option Predicate :=
  match positional? d, members? d with
  | some [name, operand], _ => (name? name).bind fun s => ofOperand? depth s operand
  | some _, _ => none
  | none, none => none
  | none, some members =>
    match members.filter fun m => m.1 = .name "kind" || m.1 = .name "value" with
    | [(.name "kind", name)] => (name? name).bind ofName?
    | [(.name "kind", name), (.name "value", operand)] =>
      (name? name).bind fun s => ofOperand? depth s operand
    | [(.name "value", operand), (.name "kind", name)] =>
      match name? name, settled? operand with
      | some s, some operand => ofOperand? depth s operand
      | _, _ => none
    | _ => none

/-- The predicate of a document. -/
def decode? (j : Json) : Option Predicate := decodeWithin? (j.depth + 1) j

end Predicate

end EntityQuery
