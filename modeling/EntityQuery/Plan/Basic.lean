import EntityQuery.Filter.Basic

/-!
# Query plans

A `Plan` is a relational query as data: what is selected, from which tables, under which condition.
Subqueries are plans of the same shape inside lateral tables, `EXISTS` conditions and boolean
aggregates.

* `Plan`, `Table`, `Select`, `Group`, `Condition`: the parts of a query;
* `Condition.aliases`, `Select.aliases`: the tables that a part reads, in its own scope;
* `Plan.nestedPlans`, `Plan.allAliases`: the subqueries, and the tables of all of them;
* `Plan.addCondition`: one more condition that has to hold.
-/

namespace EntityQuery

/-- A column of a table of the query. -/
structure ColumnRef where
  aliasName : String
  column : String
  deriving DecidableEq, Repr

/-- The column as it is written. -/
def ColumnRef.text (c : ColumnRef) : String := c.aliasName ++ "." ++ c.column

/-- Whether rows without a partner are dropped. -/
inductive JoinKind
  | inner
  | outer
  deriving DecidableEq, Repr

/-- A table that is joined where two columns are equal. -/
structure Join where
  aliasName : String
  table : String
  kind : JoinKind
  /-- The column of the table that was joined before. -/
  parent : ColumnRef
  /-- The column of this table. -/
  own : ColumnRef
  /-- Joins of base tables and subtypes are marked: they multiply no row. -/
  distinct : Option Bool
  deriving DecidableEq, Repr

/-- A predicate on a column. -/
structure ColumnCondition where
  aliasName : String
  column : String
  dbType : String
  predicate : Predicate
  /-- It was not asked for, and goes when its table goes. -/
  pruneable : Bool

/-- A fragment of text; `aliases` lists the tables that it mentions. -/
structure RawCondition where
  aliases : List String
  sql : String
  bindings : List Value
  pruneable : Bool

/-- The type of the rows that have a row in the table `alias`. -/
structure DiscriminatorCase where
  aliasName : String
  typeName : String
  deriving DecidableEq, Repr

/-- A key of the order of the rows. -/
structure SortKey where
  aliasName : String
  column : String
  direction : Direction
  deriving DecidableEq, Repr

/-- A named query in front of the plan's own. -/
structure Cte where
  aliasName : String
  sql : String
  bindings : List Value

mutual

/-- A relational query. -/
structure Plan where
  selects : List Select
  /-- The tables, each behind those that its join refers to. -/
  tables : List Table
  condition : Option Group
  sortKeys : List SortKey
  groupBys : Option (List ColumnRef)
  ctes : Option (List Cte)

/-- A table of a query. -/
inductive Table
  /-- The table that the others are joined to. -/
  | primary (aliasName table : String)
  | join (j : Join)
  /-- A table that is joined without condition. -/
  | cross (aliasName table : String)
  /-- A subquery for each row of the tables before it. -/
  | lateral (aliasName fromAlias : String) (query : Plan)

/-- Conditions under a connective. -/
structure Group where
  op : Connective
  conditions : List Condition

/-- A condition on the rows of a query. -/
inductive Condition
  | group (g : Group)
  | column (c : ColumnCondition)
  | raw (r : RawCondition)
  /-- The subquery has a row, or has none when it is negated. -/
  | existence (query : Plan) (negate : Bool) (outerAliases : List String)

/-- A column of the result. -/
inductive Select
  /-- All columns of a table. -/
  | star (aliasName : String)
  | column (column : ColumnRef) (name : Option String)
  /-- The type of the first case whose table has a row. -/
  | discriminator (cases : List DiscriminatorCase) (defaultType name : String)
  /-- Whether the condition holds for some row. -/
  | boolOr (condition : Group) (name : String)
  /-- Whether there is no row. -/
  | countIsZero (name : String)
  | raw (sql : String) (aliases : List String) (name : Option String)

end

/-! ### Parts -/

/-- Conditions that all have to hold. -/
def Group.all (conditions : List Condition) : Group := ⟨.and, conditions⟩

/-- Conditions one of which has to hold. -/
def Group.any (conditions : List Condition) : Group := ⟨.or, conditions⟩

/-- Conditions that all have to hold, as one. -/
def Condition.all (conditions : List Condition) : Condition := .group (.all conditions)

/-- Conditions one of which has to hold, as one. -/
def Condition.any (conditions : List Condition) : Condition := .group (.any conditions)

instance : Inhabited Plan := ⟨⟨[], [], none, [], none, none⟩⟩

instance : Inhabited Condition := ⟨.all []⟩

/-- A predicate that was asked for. -/
def ColumnCondition.asked (aliasName column dbType : String) (predicate : Predicate) :
    ColumnCondition := ⟨aliasName, column, dbType, predicate, false⟩

/-- A predicate that goes when its table goes. -/
def ColumnCondition.implied (aliasName column dbType : String) (predicate : Predicate) :
    ColumnCondition := ⟨aliasName, column, dbType, predicate, true⟩

/-- The equality of two columns as a fragment of text. -/
def RawCondition.correlation (left right : ColumnRef) : RawCondition :=
  ⟨[left.aliasName, right.aliasName], left.text ++ " = " ++ right.text, [], false⟩

namespace Table

/-- The name of the table in the query. -/
def aliasName : Table → String
  | .primary aliasName _ => aliasName
  | .join j => j.aliasName
  | .cross aliasName _ => aliasName
  | .lateral aliasName _ _ => aliasName

/-- The table that the join refers to. -/
def parentAlias? : Table → Option String
  | .join j => some j.parent.aliasName
  | .lateral _ fromAlias _ => some fromAlias
  | _ => none

/-- The table is the primary one. -/
def isPrimary : Table → Bool
  | .primary _ _ => true
  | _ => false

/-- The join. -/
def join? : Table → Option Join
  | .join j => some j
  | _ => none

end Table

/-! ### What a part reads -/

/-- Adds a name unless it is there. -/
def insertNew (names : List String) (name : String) : List String :=
  if name ∈ names then names else names ++ [name]

mutual

/-- The tables that a condition reads in its own scope; a subquery reads only those that it is
correlated with. -/
def Condition.aliases : Condition → List String
  | .group g => g.aliases
  | .column c => [c.aliasName]
  | .raw r => r.aliases
  | .existence _ _ outerAliases => outerAliases

/-- The tables that a group reads, each once. -/
def Group.aliases : Group → List String
  | ⟨_, conditions⟩ => Condition.aliasesInto [] conditions

/-- The tables that conditions read, behind those found before. -/
def Condition.aliasesInto (found : List String) : List Condition → List String
  | [] => found
  | c :: rest => Condition.aliasesInto (c.aliases.foldl insertNew found) rest

end

namespace Condition

/-- The name of the kind. -/
def kind : Condition → String
  | .group g => g.op.name
  | .column _ => "column"
  | .raw _ => "raw"
  | .existence .. => "exists"

/-- The condition goes when its table goes. -/
def isPruneable : Condition → Bool
  | .column c => c.pruneable
  | .raw r => r.pruneable
  | _ => false

end Condition

/-- The tables that a column of the result reads. -/
def Select.aliases : Select → List String
  | .star aliasName => [aliasName]
  | .column c _ => [c.aliasName]
  | .discriminator cases _ _ => cases.map (·.aliasName)
  | .boolOr condition _ => condition.aliases
  | .countIsZero _ => []
  | .raw _ aliases _ => aliases

/-! ### Subqueries -/

mutual

/-- The subqueries of a condition. -/
def Condition.plans : Condition → List Plan
  | .group g => g.plans
  | .existence query _ _ => [query]
  | _ => []

/-- The subqueries of a group. -/
def Group.plans : Group → List Plan
  | ⟨_, conditions⟩ => Condition.plansOf conditions

/-- The subqueries of conditions. -/
def Condition.plansOf : List Condition → List Plan
  | [] => []
  | c :: rest => c.plans ++ Condition.plansOf rest

end

/-- The subquery of a lateral table. -/
def Table.plans : Table → List Plan
  | .lateral _ _ query => [query]
  | _ => []

/-- The subqueries of an aggregate. -/
def Select.plans : Select → List Plan
  | .boolOr condition _ => condition.plans
  | _ => []

/-- The subqueries that are no part of another one: lateral tables, then conditions, then
aggregates. -/
def Plan.nestedPlans (p : Plan) : List Plan :=
  p.tables.flatMap Table.plans ++ (p.condition.map Group.plans).getD [] ++
    p.selects.flatMap Select.plans

mutual

/-- The tables of a plan and of all plans inside it. -/
def Plan.allAliases : Plan → List String
  | ⟨selects, tables, condition, _, _, _⟩ =>
    tables.map Table.aliasName ++ Table.allAliasesOf tables ++ Group.allAliasesOf condition ++
      Select.allAliasesOf selects

/-- The tables of the plans inside tables. -/
def Table.allAliasesOf : List Table → List String
  | [] => []
  | .lateral _ _ query :: rest => query.allAliases ++ Table.allAliasesOf rest
  | _ :: rest => Table.allAliasesOf rest

/-- The tables of the plans inside an optional group. -/
def Group.allAliasesOf : Option Group → List String
  | none => []
  | some g => g.allAliases

/-- The tables of the plans inside a group. -/
def Group.allAliases : Group → List String
  | ⟨_, conditions⟩ => Condition.allAliasesOf conditions

/-- The tables of the plans inside conditions. -/
def Condition.allAliasesOf : List Condition → List String
  | [] => []
  | c :: rest => c.allAliases ++ Condition.allAliasesOf rest

/-- The tables of the plans inside a condition. -/
def Condition.allAliases : Condition → List String
  | .group g => g.allAliases
  | .existence query _ _ => query.allAliases
  | _ => []

/-- The tables of the plans inside the result columns. -/
def Select.allAliasesOf : List Select → List String
  | [] => []
  | .boolOr condition _ :: rest => condition.allAliases ++ Select.allAliasesOf rest
  | _ :: rest => Select.allAliasesOf rest

end

/-! ### Plans -/

namespace Plan

/-- The name of the primary table. -/
def primaryAlias? (p : Plan) : Option String := (p.tables.find? Table.isPrimary).map Table.aliasName

/-- The table of a name. -/
def table? (p : Plan) (aliasName : String) : Option Table :=
  p.tables.find? (·.aliasName = aliasName)

/-- The plan has a table of that name. -/
def hasAlias (p : Plan) (aliasName : String) : Bool := p.tables.any (·.aliasName = aliasName)

/-- The joins of the plan. -/
def joins (p : Plan) : List Join := p.tables.filterMap Table.join?

/-- One more condition that has to hold. -/
def addCondition (p : Plan) (c : Condition) : Plan :=
  match p.condition with
  | none => { p with condition := some (.all [c]) }
  | some ⟨.and, conditions⟩ => { p with condition := some (.all (conditions ++ [c])) }
  | some g => { p with condition := some (.all [.group g, c]) }

/-- The conditions that all have to hold at the top; a disjunction is one of them. -/
def topConditions (p : Plan) : List Condition :=
  match p.condition with
  | none => []
  | some ⟨.and, conditions⟩ => conditions
  | some g => [.group g]

/-- The top of the plan is a disjunction. -/
def isDisjunctive (p : Plan) : Bool :=
  match p.condition with
  | some g => g.op = .or
  | none => false

end Plan

/-- The condition at the top that holds when all of these do.  A single group stands alone where the
top was a disjunction. -/
def Group.ofTop (disjunctive : Bool) : List Condition → Option Group
  | [] => none
  | [.group g] => some (if disjunctive then g else .all [.group g])
  | conditions => some (.all conditions)

end EntityQuery
