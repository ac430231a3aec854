import EntityQuery.Plan.Visit

/-!
# Null columns and missing rows

A column of an outer-joined table is null also where the table has no row.  A test for null that was
asked for is therefore joined by the test that the row is there.

* `Plan.outerAliases`: the outer-joined tables of a plan and of all plans inside it;
* `Plan.addNullChecks`: the plan with the tests for rows.
-/

namespace EntityQuery

/-- The outer joins among tables. -/
def outerJoined (tables : List Table) : List String :=
  tables.filterMap fun
    | .join j => if j.kind = .outer then some j.aliasName else none
    | _ => none

mutual

/-- The outer-joined tables of a plan and of all plans inside it. -/
def Plan.outerAliases : Plan → List String
  | ⟨selects, tables, condition, _, _, _⟩ =>
    outerJoined tables ++ Table.outerAliasesOf tables ++ Group.outerAliasesOf condition ++
      Select.outerAliasesOf selects

/-- The outer-joined tables of the plans inside tables. -/
def Table.outerAliasesOf : List Table → List String
  | [] => []
  | .lateral _ _ query :: rest => query.outerAliases ++ Table.outerAliasesOf rest
  | _ :: rest => Table.outerAliasesOf rest

/-- The outer-joined tables of the plans inside an optional group. -/
def Group.outerAliasesOf : Option Group → List String
  | none => []
  | some g => g.outerAliases

/-- The outer-joined tables of the plans inside a group. -/
def Group.outerAliases : Group → List String
  | ⟨_, conditions⟩ => Condition.outerAliasesOf conditions

/-- The outer-joined tables of the plans inside conditions. -/
def Condition.outerAliasesOf : List Condition → List String
  | [] => []
  | c :: rest => c.outerAliases ++ Condition.outerAliasesOf rest

/-- The outer-joined tables of the plans inside a condition. -/
def Condition.outerAliases : Condition → List String
  | .group g => g.outerAliases
  | .existence query _ _ => query.outerAliases
  | _ => []

/-- The outer-joined tables of the plans inside the result columns. -/
def Select.outerAliasesOf : List Select → List String
  | [] => []
  | .boolOr condition _ :: rest => condition.outerAliases ++ Select.outerAliasesOf rest
  | _ :: rest => Select.outerAliasesOf rest

end

/-- The column conditions that are ambiguous when `outer` lists the outer-joined tables. -/
def ColumnCondition.isAmbiguous (outer : List String) (c : ColumnCondition) : Bool :=
  !c.pruneable && c.column ≠ "id" && c.predicate.isNullTest && c.aliasName ∈ outer

/-- The test for a row beside an ambiguous condition; other leaves stay. -/
def Condition.withNullCheck (outer : List String) (idDbType : String → String) :
    Condition → List Condition
  | .column c =>
    if c.isAmbiguous outer then
      [.all [.column c, .column (.asked c.aliasName "id" (idDbType c.aliasName) .notNull)]]
    else [.column c]
  | c => [c]

/-- The plan in which null columns are told from missing rows; `idDbType` gives the column type of a
table's id. -/
def Plan.addNullChecks (idDbType : String → String) (p : Plan) : Plan :=
  p.mapLeaves (Condition.withNullCheck p.outerAliases idDbType)

end EntityQuery
