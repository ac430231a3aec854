import EntityQuery.Predicate

/-!
# Filters

What a query is asked for: match criteria by field, a boolean expression over the bound tables, and
an order.

* `EntityFilter`: the criteria for one entity, in document order; `FilterValue`: those for one
  field;
* `ExpressionLiteral`, `ConditionLiteral`: an expression over user aliases, with undefined branches;
* `OrderBy`: sort keys, through relations to any depth.
-/

namespace EntityQuery

mutual

/-- The criteria for one entity, in document order. -/
structure EntityFilter where
  /-- The user's name for the entity's table. -/
  aliasName : Option String
  fields : List FieldFilter

/-- The criteria for one field. -/
structure FieldFilter where
  name : String
  value : FilterValue

/-- What a filter says of a field. -/
inductive FilterValue
  /-- The field is named but nothing is asked of it. -/
  | undefined
  | scalar (v : Value)
  | list (vs : List Value)
  | operators (ps : List Predicate)
  | nested (filter : EntityFilter)
  /-- The related table is given a name. -/
  | binding (aliasName : String)

end

namespace EntityFilter

/-- The filter that asks nothing. -/
def empty : EntityFilter := ⟨none, []⟩

instance : Inhabited EntityFilter := ⟨empty⟩

/-- What the filter says of a field: the first entry of that name. -/
def get? (filter : EntityFilter) (name : String) : Option FilterValue :=
  (filter.fields.find? (·.name = name)).map (·.value)

end EntityFilter

namespace FilterValue

/-- The field carries a value. -/
def isDefined : FilterValue → Bool
  | .undefined => false
  | _ => true

/-- The predicates that a value stands for; a nested filter and a binding stand for none. -/
def predicates? : FilterValue → Option (List Predicate)
  | .undefined => some []
  | .scalar v => some [(Predicate.eq v).normalize]
  | .list vs => some [.isIn vs]
  | .operators ps => some (ps.map Predicate.normalize)
  | .nested _ => none
  | .binding _ => none

end FilterValue

/-- The names of the fields that carry a value. -/
def EntityFilter.definedFields (filter : EntityFilter) : List String :=
  (filter.fields.filter (·.value.isDefined)).map (·.name)

/-! ### Expressions -/

/-- The connective of a group of conditions. -/
inductive Connective
  | and
  | or
  deriving DecidableEq, Repr

/-- What an undefined branch does to its group. -/
inductive UndefinedMode
  /-- It is dropped alone. -/
  | drop
  /-- It drops the whole group. -/
  | collapse
  deriving DecidableEq, Repr

mutual

/-- A group of conditions over user aliases. -/
structure ExpressionLiteral where
  op : Connective
  branches : List ConditionLiteral
  mode : UndefinedMode

/-- A branch of an expression. -/
inductive ConditionLiteral
  | undefined
  /-- A field of the table that a user alias names. -/
  | column (aliasName field : String) (predicate : Predicate)
  /-- A fragment of text that mentions these aliases. -/
  | raw (aliases : List String) (sql : String) (bindings : List Value)
  | group (literal : ExpressionLiteral)

end

instance : Inhabited ConditionLiteral := ⟨.undefined⟩

/-! ### Orders -/

/-- The direction of a sort key. -/
inductive Direction
  | asc
  | desc
  deriving DecidableEq, Repr

mutual

/-- Sort keys in the order of their weight. -/
inductive OrderBy
  | keys (entries : List OrderEntry)

/-- A sort key: a field in a direction, or the sort keys of a related entity. -/
inductive OrderEntry
  | field (name : String) (direction : Direction)
  | through (name : String) (orderBy : OrderBy)

end

/-- The sort keys. -/
def OrderBy.entries : OrderBy → List OrderEntry
  | .keys entries => entries

instance : Inhabited OrderBy := ⟨.keys []⟩

/-- No order is asked for. -/
def OrderBy.isEmpty (o : OrderBy) : Bool := o.entries.isEmpty

/-- The spelling of a direction. -/
def Direction.text : Direction → String
  | .asc => "ASC"
  | .desc => "DESC"

/-- The direction of an exact spelling. -/
def Direction.ofText? : String → Option Direction
  | "ASC" => some .asc
  | "DESC" => some .desc
  | _ => none

/-- The name of a connective in documents. -/
def Connective.name : Connective → String
  | .and => "and"
  | .or => "or"

/-- The connective of a name. -/
def Connective.ofName? : String → Option Connective
  | "and" => some .and
  | "or" => some .or
  | _ => none

end EntityQuery
