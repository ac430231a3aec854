import EntityQuery.Plan.Basic
import EntityQuery.Schema.Reader

/-!
# Plans as documents

* `Plan.toJson`: a plan with every member written; a join's mark only where it has one;
* `Plan.decode?`: the plan of a document.

The parts of a plan that stand alone (`Group`, `Join`, `ColumnCondition`, `RawCondition`) are
written without the tag that tells a condition or a table from others.
-/

namespace EntityQuery

/-- A tag in front of the members of an object. -/
def Json.tag (key name : String) (j : Json) : Json :=
  match j with
  | .obj members => .obj ((key, .str name) :: members)
  | j => j

/-! ### Writing -/

/-- A column as a document. -/
def ColumnRef.toJson (c : ColumnRef) : Json :=
  .obj [("alias", .str c.aliasName), ("column", .str c.column)]

/-- The name of a kind of join. -/
def JoinKind.name : JoinKind → String
  | .inner => "inner"
  | .outer => "outer"

/-- A join as a document. -/
def Join.toJson (j : Join) : Json :=
  .obj ([("alias", .str j.aliasName), ("table", .str j.table), ("join_type", .str j.kind.name),
    ("col1", j.parent.toJson), ("col2", j.own.toJson)] ++
    match j.distinct with
    | none => []
    | some b => [("distinct", .bool b)])

/-- A predicate on a column as a document. -/
def ColumnCondition.toJson (c : ColumnCondition) : Json :=
  .obj [("alias", .str c.aliasName), ("column", .str c.column), ("db_type", .str c.dbType),
    ("cond", c.predicate.toJson), ("pruneable", .bool c.pruneable)]

/-- A fragment of text as a document. -/
def RawCondition.toJson (r : RawCondition) : Json :=
  .obj [("aliases", .strs r.aliases), ("condition", .str r.sql),
    ("bindings", .arr (Value.toJsons r.bindings)), ("pruneable", .bool r.pruneable)]

/-- A case of a choice of types as a document. -/
def DiscriminatorCase.toJson (c : DiscriminatorCase) : Json :=
  .obj [("alias", .str c.aliasName), ("type_name", .str c.typeName)]

/-- A sort key as a document. -/
def SortKey.toJson (k : SortKey) : Json :=
  .obj [("alias", .str k.aliasName), ("column", .str k.column), ("order", .str k.direction.text)]

/-- A named query as a document. -/
def Cte.toJson (c : Cte) : Json :=
  .obj [("alias", .str c.aliasName), ("sql", .str c.sql),
    ("bindings", .arr (Value.toJsons c.bindings))]

mutual

/-- A plan as a document. -/
def Plan.toJson : Plan → Json
  | ⟨selects, tables, condition, sortKeys, groupBys, ctes⟩ =>
    .obj [("selects", .arr (Select.toJsons selects)), ("tables", .arr (Table.toJsons tables)),
      ("condition", Group.toJsonTop condition), ("order_bys", .arr (sortKeys.map SortKey.toJson)),
      ("group_bys", .ofOption (fun cs => .arr (cs.map ColumnRef.toJson)) groupBys),
      ("ctes", .ofOption (fun cs => .arr (cs.map Cte.toJson)) ctes)]

/-- Result columns as documents. -/
def Select.toJsons : List Select → List Json
  | [] => []
  | s :: rest => s.toJson :: Select.toJsons rest

/-- A result column as a document. -/
def Select.toJson : Select → Json
  | .star aliasName => .obj [("kind", .str "star"), ("alias", .str aliasName)]
  | .column c name =>
    .obj [("kind", .str "column"), ("column", c.toJson), ("col_alias", .ofOption .str name)]
  | .discriminator cases defaultType name =>
    .obj [("kind", .str "discriminator"), ("cases", .arr (cases.map DiscriminatorCase.toJson)),
      ("default_type", .str defaultType), ("col_alias", .str name)]
  | .boolOr condition name =>
    .obj [("kind", .str "bool_or"), ("condition", condition.toJson), ("col_alias", .str name)]
  | .countIsZero name => .obj [("kind", .str "count_is_zero"), ("col_alias", .str name)]
  | .raw sql aliases name =>
    .obj [("kind", .str "raw"), ("sql", .str sql), ("aliases", .strs aliases),
      ("col_alias", .ofOption .str name)]

/-- Tables as documents. -/
def Table.toJsons : List Table → List Json
  | [] => []
  | t :: rest => t.toJson :: Table.toJsons rest

/-- A table as a document. -/
def Table.toJson : Table → Json
  | .primary aliasName table =>
    .obj [("type", .str "primary"), ("alias", .str aliasName), ("table", .str table)]
  | .join j => j.toJson.tag "type" "join"
  | .cross aliasName table =>
    .obj [("type", .str "cross"), ("alias", .str aliasName), ("table", .str table)]
  | .lateral aliasName fromAlias query =>
    .obj [("type", .str "lateral"), ("alias", .str aliasName), ("from_alias", .str fromAlias),
      ("query", query.toJson)]

/-- The condition of a plan as a document. -/
def Group.toJsonTop : Option Group → Json
  | none => .null
  | some g => g.toJson

/-- A group as a document. -/
def Group.toJson : Group → Json
  | ⟨op, conditions⟩ =>
    .obj [("op", .str op.name), ("conditions", .arr (Condition.toJsons conditions))]

/-- Conditions as documents. -/
def Condition.toJsons : List Condition → List Json
  | [] => []
  | c :: rest => c.toJson :: Condition.toJsons rest

/-- A condition as a document. -/
def Condition.toJson : Condition → Json
  | .group g => g.toJson.tag "kind" "exp"
  | .column c => c.toJson.tag "kind" "column"
  | .raw r => r.toJson.tag "kind" "raw"
  | .existence query negate outerAliases =>
    .obj [("kind", .str "exists"), ("query", query.toJson), ("negate", .bool negate),
      ("outer_aliases", .strs outerAliases)]

end

/-! ### Reading -/

open Document

section Parts

variable {δ : Type} [Document δ]

/-- The truth value of a member that may be left out. -/
def flag? : Option δ → Option Bool := orElse false bool?

/-- The values of a member that may be left out, down to a depth. -/
def bindings? (depth : Nat) : Option δ → Option (List Value) :=
  orElse [] (list? (Value.decodeWithin? depth))

/-- The texts of an array. -/
def strs? : δ → Option (List String) := list? text?

/-- The column of a document. -/
def ColumnRef.decode? (d : δ) : Option ColumnRef :=
  match record? ["alias", "column"] 2 d with
  | some [some aliasName, some c] => do return ⟨← text? aliasName, ← text? c⟩
  | _ => none

/-- The kind of join of a name. -/
def JoinKind.ofName? : String → Option JoinKind
  | "inner" => some .inner
  | "outer" => some .outer
  | _ => none

/-- The join of a document. -/
def Join.decode? (d : δ) : Option Join :=
  match record? ["alias", "table", "join_type", "col1", "col2", "distinct"] 5 d with
  | some [some aliasName, some table, some kind, some parent, some own, distinct] => do
    return ⟨← text? aliasName, ← text? table, ← (name? kind).bind JoinKind.ofName?,
      ← ColumnRef.decode? parent, ← ColumnRef.decode? own, ← optional bool? distinct⟩
  | _ => none

/-- The predicate on a column of a document, down to a depth. -/
def ColumnCondition.decodeWithin? (depth : Nat) (d : δ) : Option ColumnCondition :=
  match record? ["alias", "column", "db_type", "cond", "pruneable"] 4 d with
  | some [some aliasName, some c, some dbType, some predicate, pruneable] => do
    return ⟨← text? aliasName, ← text? c, ← text? dbType,
      ← Predicate.decodeWithin? depth predicate, ← flag? pruneable⟩
  | _ => none

/-- The fragment of text of a document, down to a depth. -/
def RawCondition.decodeWithin? (depth : Nat) (d : δ) : Option RawCondition :=
  match record? ["aliases", "condition", "bindings", "pruneable"] 2 d with
  | some [some aliases, some sql, bindings, pruneable] => do
    return ⟨← strs? aliases, ← text? sql, ← bindings? depth bindings, ← flag? pruneable⟩
  | _ => none

/-- The case of a document. -/
def DiscriminatorCase.decode? (d : δ) : Option DiscriminatorCase :=
  match record? ["alias", "type_name"] 2 d with
  | some [some aliasName, some typeName] => do return ⟨← text? aliasName, ← text? typeName⟩
  | _ => none

/-- The sort key of a document. -/
def SortKey.decode? (d : δ) : Option SortKey :=
  match record? ["alias", "column", "order"] 3 d with
  | some [some aliasName, some c, some order] => do
    return ⟨← text? aliasName, ← text? c, ← (name? order).bind Direction.ofText?⟩
  | _ => none

/-- The named query of a document, down to a depth. -/
def Cte.decodeWithin? (depth : Nat) (d : δ) : Option Cte :=
  match record? ["alias", "sql", "bindings"] 2 d with
  | some [some aliasName, some sql, bindings] => do
    return ⟨← text? aliasName, ← text? sql, ← bindings? depth bindings⟩
  | _ => none

end Parts

/-- The names of the result columns, in the order in which they are counted. -/
def Select.names : List String :=
  ["star", "column", "discriminator", "bool_or", "count_is_zero", "raw"]

/-- The names of the tables, in the order in which they are counted. -/
def Table.names : List String := ["primary", "join", "cross", "lateral"]

/-- The names of the conditions, in the order in which they are counted. -/
def Condition.names : List String := ["exp", "column", "raw", "exists"]

mutual

/-- The plan of a document, down to a depth. -/
def Plan.decodeWithin? {δ : Type} [Document δ] : Nat → δ → Option Plan
  | 0, _ => none
  | n + 1, d =>
    match record? ["selects", "tables", "condition", "order_bys", "group_bys", "ctes"] 6 d with
    | some [some selects, some tables, condition, some sortKeys, groupBys, ctes] => do
      return ⟨← list? (Select.decodeWithin? n) selects, ← list? (Table.decodeWithin? n) tables,
        ← optional (Group.decodeWithin? n) condition, ← list? SortKey.decode? sortKeys,
        ← optional (list? ColumnRef.decode?) groupBys,
        ← optional (list? (Cte.decodeWithin? n)) ctes⟩
    | _ => none

/-- The result column of a document, down to a depth. -/
def Select.decodeWithin? {δ : Type} [Document δ] : Nat → δ → Option Select
  | 0, _ => none
  | n + 1, d =>
    match tagged? "kind" Select.names d with
    | some ("star", d) =>
      match record? ["alias"] 1 d with
      | some [some aliasName] => (text? aliasName).map .star
      | _ => none
    | some ("column", d) =>
      match record? ["column", "col_alias"] 2 d with
      | some [some c, name] => do return .column (← ColumnRef.decode? c) (← optional text? name)
      | _ => none
    | some ("discriminator", d) =>
      match record? ["cases", "default_type", "col_alias"] 3 d with
      | some [some cases, some defaultType, some name] => do
        return .discriminator (← list? DiscriminatorCase.decode? cases) (← text? defaultType)
          (← text? name)
      | _ => none
    | some ("bool_or", d) =>
      match record? ["condition", "col_alias"] 2 d with
      | some [some condition, some name] => do
        return .boolOr (← Group.decodeWithin? n condition) (← text? name)
      | _ => none
    | some ("count_is_zero", d) =>
      match record? ["col_alias"] 1 d with
      | some [some name] => (text? name).map .countIsZero
      | _ => none
    | some ("raw", d) =>
      match record? ["sql", "aliases", "col_alias"] 3 d with
      | some [some sql, some aliases, name] => do
        return .raw (← text? sql) (← strs? aliases) (← optional text? name)
      | _ => none
    | _ => none

/-- The table of a document, down to a depth. -/
def Table.decodeWithin? {δ : Type} [Document δ] : Nat → δ → Option Table
  | 0, _ => none
  | n + 1, d =>
    match tagged? "type" Table.names d with
    | some ("primary", d) =>
      match record? ["alias", "table"] 2 d with
      | some [some aliasName, some table] => do return .primary (← text? aliasName) (← text? table)
      | _ => none
    | some ("join", d) => (Join.decode? d).map .join
    | some ("cross", d) =>
      match record? ["alias", "table"] 2 d with
      | some [some aliasName, some table] => do return .cross (← text? aliasName) (← text? table)
      | _ => none
    | some ("lateral", d) =>
      match record? ["alias", "from_alias", "query"] 3 d with
      | some [some aliasName, some fromAlias, some query] => do
        return .lateral (← text? aliasName) (← text? fromAlias) (← Plan.decodeWithin? n query)
      | _ => none
    | _ => none

/-- The group of a document, down to a depth. -/
def Group.decodeWithin? {δ : Type} [Document δ] : Nat → δ → Option Group
  | 0, _ => none
  | n + 1, d =>
    match record? ["op", "conditions"] 2 d with
    | some [some op, some conditions] => do
      return ⟨← (name? op).bind Connective.ofName?,
        ← list? (Condition.decodeWithin? n) conditions⟩
    | _ => none

/-- The condition of a document, down to a depth. -/
def Condition.decodeWithin? {δ : Type} [Document δ] : Nat → δ → Option Condition
  | 0, _ => none
  | n + 1, d =>
    match tagged? "kind" Condition.names d with
    | some ("exp", d) => (Group.decodeWithin? n d).map .group
    | some ("column", d) => (ColumnCondition.decodeWithin? n d).map .column
    | some ("raw", d) => (RawCondition.decodeWithin? n d).map .raw
    | some ("exists", d) => Condition.decodeExistence? n d
    | _ => none

/-- The existence condition of a document, down to a depth. -/
def Condition.decodeExistence? {δ : Type} [Document δ] : Nat → δ → Option Condition
  | 0, _ => none
  | n + 1, d =>
    match record? ["query", "negate", "outer_aliases"] 3 d with
    | some [some query, some negate, some outerAliases] => do
      return .existence (← Plan.decodeWithin? n query) (← bool? negate) (← strs? outerAliases)
    | _ => none

end

/-- Enough steps for a document: at most two of them stay at a level of nesting. -/
def decodeSteps (j : Json) : Nat := 3 * j.depth + 3

/-- The predicate on a column of a document. -/
def ColumnCondition.decode? (j : Json) : Option ColumnCondition :=
  ColumnCondition.decodeWithin? (decodeSteps j) j

/-- The fragment of text of a document. -/
def RawCondition.decode? (j : Json) : Option RawCondition :=
  RawCondition.decodeWithin? (decodeSteps j) j

/-- The plan of a document. -/
def Plan.decode? (j : Json) : Option Plan := Plan.decodeWithin? (decodeSteps j) j

/-- The group of a document. -/
def Group.decode? (j : Json) : Option Group := Group.decodeWithin? (decodeSteps j) j

/-- The condition of a document. -/
def Condition.decode? (j : Json) : Option Condition := Condition.decodeWithin? (decodeSteps j) j

/-- The existence condition of a document without a tag. -/
def Condition.existence? (j : Json) : Option Condition :=
  Condition.decodeExistence? (decodeSteps j) j

end EntityQuery
