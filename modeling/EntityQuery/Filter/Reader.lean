import EntityQuery.Filter.Basic

/-!
# Filters from JSON

How filters, expressions and orders are written as JSON.

```json
{ "as": "a", "age": { "gt": 40 }, "books": { "title": { "like": "b1%" } }, "tags": ["t:1"] }
```

* `EntityFilter.ofJson`, `ExpressionLiteral.ofJson`, `OrderBy.ofJson`: the typed literals;
* `Predicate.ofOperator`: one operator with its operand;
* `FilterError`: what can be wrong with a literal.
-/

namespace EntityQuery

/-- What can be wrong with a literal. -/
inductive FilterError
  | expectedObject (context actual : String)
  | unknownOperator (op : String)
  | invalidOperand (op expected : String)
  | invalidDirection (text : String)
  | invalidCondition (problem : String)
  deriving DecidableEq, Repr

/-- The wording of the error. -/
def FilterError.message : FilterError → String
  | .expectedObject context actual => "Expected a JSON object for " ++ context ++ ", got " ++ actual
  | .unknownOperator op => "Unknown operator `" ++ op ++ "`"
  | .invalidOperand op expected => "Operator `" ++ op ++ "` expects " ++ expected
  | .invalidDirection text => "Invalid order direction `" ++ text ++ "`, expected ASC or DESC"
  | .invalidCondition problem => "Invalid condition literal: " ++ problem

/-- The name of the kind of a JSON value. -/
def Json.kindName : Json → String
  | .null => "null"
  | .bool _ => "boolean"
  | .num _ => "number"
  | .str _ => "string"
  | .arr _ => "array"
  | .obj _ => "object"

namespace FilterJson

/-- The key that names a table. -/
def aliasKey : String := "as"

/-- The key of a reference to an entity that has not been saved. -/
def newEntityKey : String := "$new"

/-- The names of the operators. -/
def operatorKeys : List String :=
  ["eq", "ne", "in", "nin", "gt", "gte", "lt", "lte", "between", "like", "ilike", "nlike", "nilike",
    "regex", "iregex", "nregex", "niregex", "contains", "overlaps", "containedBy", "pathExists",
    "pathIsTrue"]

/-- The key names an operator. -/
def isOperatorKey (key : String) : Bool := key ∈ operatorKeys

/-- The name that a table is given. -/
def boundName (j : Json) : Except FilterError String :=
  match j with
  | .str s => .ok s
  | _ => .error (.invalidOperand aliasKey "an alias name")

/-- A single value: a reference to an unsaved entity, or what the JSON value stands for. -/
def scalar (j : Json) : Except FilterError Value :=
  match j.get? newEntityKey with
  | none => .ok (.ofJson j)
  | some (.str typeName) => .ok (.newEntity typeName)
  | some _ => .error (.invalidOperand newEntityKey "an entity type name")

/-- The operand of an operator that takes a list. -/
def operandList (op : String) (operand : Json) : Except FilterError (List Value) :=
  match operand with
  | .arr items => items.mapM scalar
  | _ => .error (.invalidOperand op "an array")

/-- The operand of an operator that takes a text. -/
def operandText (op : String) (operand : Json) : Except FilterError String :=
  match operand with
  | .str s => .ok s
  | _ => .error (.invalidOperand op "a string")

/-- The pattern operator of a key. -/
def patternKey? : String → Option Pattern
  | "like" => some .like
  | "ilike" => some .ilike
  | "nlike" => some .nlike
  | "nilike" => some .nilike
  | "regex" => some .regex
  | "iregex" => some .iregex
  | "nregex" => some .nregex
  | "niregex" => some .niregex
  | "pathExists" => some .pathExists
  | "pathIsTrue" => some .pathPredicate
  | _ => none

/-- The containment operator of a key. -/
def containmentKey? : String → Option Containment
  | "contains" => some .contains
  | "overlaps" => some .overlaps
  | "containedBy" => some .containedBy
  | _ => none

end FilterJson

open FilterJson

/-- The predicate of an operator key with its operand, as it is written. -/
def Predicate.ofKey (key : String) (operand : Json) : Except FilterError Predicate :=
  match key with
  | "in" => return .isIn (← operandList key operand)
  | "nin" => return .notIn (← operandList key operand)
  | "between" => do
    match ← operandList key operand with
    | [low, high] => return .between low high
    | _ => .error (.invalidOperand key "an array of two bounds")
  | _ =>
    match Predicate.comparison? key, patternKey? key, containmentKey? key with
    | some op, _, _ => return .compare op (← scalar operand)
    | _, some op, _ => return .pattern op (← operandText key operand)
    | _, _, some op => return .containment op (← operandList key operand)
    | _, _, _ => .error (.unknownOperator key)

/-- The predicate of an operator key with its operand. -/
def Predicate.ofOperator (key : String) (operand : Json) : Except FilterError Predicate :=
  (Predicate.ofKey key operand).map Predicate.normalize

/-- The predicates of operator keys, in document order. -/
def Predicate.ofOperators : List (String × Json) → Except FilterError (List Predicate)
  | [] => .ok []
  | (key, operand) :: rest => do
    let p ← Predicate.ofOperator key operand
    return p :: (← Predicate.ofOperators rest)

/-- What a JSON value says of a field when it is neither a nested filter nor a single value. -/
def FilterValue.ofMembers? (members : List (String × Json)) :
    Option (Except FilterError FilterValue) :=
  match members with
  | [] => none
  | [(key, j)] =>
    if key = aliasKey then some ((boundName j).map .binding)
    else if key = newEntityKey then some ((FilterJson.scalar (.obj members)).map .scalar)
    else if isOperatorKey key then some ((Predicate.ofOperators members).map .operators)
    else none
  | _ =>
    if members.all fun m => isOperatorKey m.1 then
      some ((Predicate.ofOperators members).map .operators)
    else none

mutual

/-- What a JSON value says of a field. -/
def FilterValue.ofJson : Json → Except FilterError FilterValue
  | .arr items => do return .list (← items.mapM FilterJson.scalar)
  | .obj members =>
    match FilterValue.ofMembers? members with
    | some result => result
    | none => do return .nested (← EntityFilter.ofMembers none members)
  | j => .ok (.scalar (.ofJson j))

/-- The criteria that members spell; the last alias counts. -/
def EntityFilter.ofMembers (aliasName : Option String) :
    List (String × Json) → Except FilterError EntityFilter
  | [] => .ok ⟨aliasName, []⟩
  | (key, j) :: rest =>
    if key = aliasKey then do
      let name ← boundName j
      EntityFilter.ofMembers (some name) rest
    else do
      let value ← FilterValue.ofJson j
      let filter ← EntityFilter.ofMembers aliasName rest
      return { filter with fields := ⟨key, value⟩ :: filter.fields }

end

/-- The entity filter that a JSON value spells. -/
def EntityFilter.ofJson (j : Json) : Except FilterError EntityFilter :=
  match j with
  | .obj members => EntityFilter.ofMembers none members
  | _ => .error (.expectedObject "entity filter" j.kindName)

/-! ### Expressions -/

/-- A fragment of text with the aliases that it mentions and its bindings. -/
def ConditionLiteral.rawOfMembers (sql : Json) (members : List (String × Json)) :
    Except FilterError ConditionLiteral := do
  let text ← operandText "raw" sql
  let aliases ← match Json.find? "aliases" members with
    | none => pure []
    | some (.arr items) => items.mapM boundName
    | some _ => .error (.invalidOperand "aliases" "an array of alias names")
  let bindings ← match Json.find? "bindings" members with
    | none => pure []
    | some j => operandList "bindings" j
  return .raw aliases text bindings

/-- A condition on one field, with exactly one operator. -/
def ConditionLiteral.columnOfMembers (members : List (String × Json)) :
    Except FilterError ConditionLiteral := do
  let aliasName ← match Json.find? "alias" members with
    | none => .error (.invalidCondition "missing `alias`")
    | some j => boundName j
  let field ← match Json.find? "field" members with
    | none => .error (.invalidCondition "missing `field`")
    | some j => operandText "field" j
  match members.filter fun m => m.1 ≠ "alias" && m.1 ≠ "field" with
  | [(key, operand)] => return .column aliasName field (← Predicate.ofOperator key operand)
  | _ =>
    .error (.invalidCondition
      ("condition on " ++ aliasName ++ "." ++ field ++ " must have exactly one operator"))

/-- What an undefined branch does, as the members of a group say. -/
def UndefinedMode.ofMembers (members : List (String × Json)) : Except FilterError UndefinedMode :=
  match Json.find? "pruneIfUndefined" members with
  | some (.str "any") => .ok .collapse
  | some (.str "never") => .ok .drop
  | some (.str other) =>
    .error (.invalidOperand "pruneIfUndefined" ("`any` or `never`, got `" ++ other ++ "`"))
  | _ => .ok .drop

/-- The connective and the branches of a group. -/
def ExpressionLiteral.branchesOf (members : List (String × Json)) :
    Except FilterError (Connective × List Json) := do
  let (op, branches) ← match Json.find? "and" members, Json.find? "or" members with
    | some branches, none => pure (Connective.and, branches)
    | none, some branches => pure (Connective.or, branches)
    | _, _ => .error (.invalidCondition "expected exactly one of `and` / `or`")
  match branches with
  | .arr items => return (op, items)
  | _ => .error (.invalidOperand "and/or" "an array of conditions")

mutual

/-- The group that a JSON value spells, down to a depth. -/
def ExpressionLiteral.ofJsonWithin : Nat → Json → Except FilterError ExpressionLiteral
  | depth, .obj members => do
    let (op, items) ← ExpressionLiteral.branchesOf members
    let branches ← match depth with
      | 0 => pure []
      | depth + 1 => items.mapM (ConditionLiteral.ofJsonWithin depth)
    return ⟨op, branches, ← UndefinedMode.ofMembers members⟩
  | _, j => .error (.expectedObject "condition expression" j.kindName)

/-- The branch that a JSON value spells, down to a depth. -/
def ConditionLiteral.ofJsonWithin : Nat → Json → Except FilterError ConditionLiteral
  | _, .null => .ok .undefined
  | depth, .obj members =>
    if (Json.find? "and" members).isSome ∨ (Json.find? "or" members).isSome then
      match depth with
      | 0 => .ok .undefined
      | depth + 1 => do return .group (← ExpressionLiteral.ofJsonWithin depth (.obj members))
    else
      match Json.find? "raw" members with
      | some sql => ConditionLiteral.rawOfMembers sql members
      | none => ConditionLiteral.columnOfMembers members
  | _, j => .error (.expectedObject "condition" j.kindName)

end

/-- The expression that a JSON value spells; two steps of depth reach a nested group. -/
def ExpressionLiteral.ofJson (j : Json) : Except FilterError ExpressionLiteral :=
  ExpressionLiteral.ofJsonWithin (2 * j.depth + 1) j

/-! ### Orders -/

/-- The direction of a spelling in any case. -/
def Direction.ofText (s : String) : Except FilterError Direction :=
  match Direction.ofText? (s.map Char.toUpper) with
  | some direction => .ok direction
  | none => .error (.invalidDirection s)

mutual

/-- The sort key that a member spells. -/
def OrderEntry.ofJson (name : String) : Json → Except FilterError OrderEntry
  | .str s => do return .field name (← Direction.ofText s)
  | .obj members => do return .through name (.keys (← OrderEntry.ofMembers members))
  | j => .error (.invalidDirection j.compact)

/-- The sort keys that members spell. -/
def OrderEntry.ofMembers : List (String × Json) → Except FilterError (List OrderEntry)
  | [] => .ok []
  | (name, j) :: rest => do
    let entry ← OrderEntry.ofJson name j
    return entry :: (← OrderEntry.ofMembers rest)

end

/-- The order that a JSON value spells. -/
def OrderBy.ofJson (j : Json) : Except FilterError OrderBy :=
  match j with
  | .obj members => do return .keys (← OrderEntry.ofMembers members)
  | _ => .error (.expectedObject "order by" j.kindName)

end EntityQuery
