import EntityQuery.Plan.Error
import EntityQuery.Plan.Basic

/-!
# Visiting conditions

A visitor is shown the conditions of a plan and of all plans inside it, and answers whether each of
them is kept, replaced or deleted.

* `Visitor`, `Action`: what is shown and what is answered;
* `Plan.visit`: the plan with the answers carried out, and the nodes in the order they were shown;
* `Plan.mapLeaves`: the plan with each leaf replaced by conditions that are not looked at again.
-/

namespace EntityQuery

/-- What becomes of a condition. -/
inductive Action
  | keep
  | replace (c : Condition)
  | delete

/-- A node that a visitor is shown. -/
inductive Node
  | column (c : ColumnCondition)
  | raw (r : RawCondition)
  | group (g : Group)

/-- The answers to the nodes.  The conditions of a group are shown only if the group is kept. -/
structure Visitor where
  column : ColumnCondition → Action
  raw : RawCondition → Action
  group : Group → Action

/-- The visitor that keeps everything but columns. -/
def Visitor.ofColumn (column : ColumnCondition → Action) : Visitor :=
  ⟨column, fun _ => .keep, fun _ => .keep⟩

/-- What stands in the place of a condition. -/
def Action.apply (c : Condition) : Action → List Condition
  | .keep => [c]
  | .replace r => [r]
  | .delete => []

mutual

/-- The plan after a visit, and the nodes that were shown. -/
def Plan.visit (v : Visitor) : Plan → Except PlanError (Plan × List Node)
  | ⟨selects, tables, condition, sortKeys, groupBys, ctes⟩ => do
    let (condition, shown) ← Group.visitTop v condition
    let (tables, shown') ← Table.visitAll v tables
    let (selects, shown'') ← Select.visitAll v selects
    return (⟨selects, tables, condition, sortKeys, groupBys, ctes⟩, shown ++ shown' ++ shown'')

/-- The group at the top of a plan, if there is one. -/
def Group.visitTop (v : Visitor) : Option Group → Except PlanError (Option Group × List Node)
  | none => .ok (none, [])
  | some g => do
    let (g, shown) ← g.visitRoot v
    return (some g, shown)

/-- A group that belongs to no other one: it can only be kept. -/
def Group.visitRoot (v : Visitor) : Group → Except PlanError (Group × List Node)
  | ⟨op, conditions⟩ =>
    match v.group ⟨op, conditions⟩ with
    | .keep => do
      let (conditions', shown) ← Condition.visitAll v conditions
      return (⟨op, conditions'⟩, .group ⟨op, conditions⟩ :: shown)
    | _ => .error (.rootReplacement op.name)

/-- The conditions of a group. -/
def Condition.visitAll (v : Visitor) :
    List Condition → Except PlanError (List Condition × List Node)
  | [] => .ok ([], [])
  | c :: rest => do
    let (cs, shown) ← c.visit v
    let (rest', shown') ← Condition.visitAll v rest
    return (cs ++ rest', shown ++ shown')

/-- What stands in the place of a condition. -/
def Condition.visit (v : Visitor) : Condition → Except PlanError (List Condition × List Node)
  | .column c => .ok ((v.column c).apply (.column c), [.column c])
  | .raw r => .ok ((v.raw r).apply (.raw r), [.raw r])
  | .group ⟨op, conditions⟩ =>
    match v.group ⟨op, conditions⟩ with
    | .keep => do
      let (conditions', shown) ← Condition.visitAll v conditions
      return ([.group ⟨op, conditions'⟩], .group ⟨op, conditions⟩ :: shown)
    | action => .ok (action.apply (.group ⟨op, conditions⟩), [.group ⟨op, conditions⟩])
  | .existence query negate outerAliases => do
    let (query, shown) ← query.visit v
    return ([.existence query negate outerAliases], shown)

/-- The tables of a plan. -/
def Table.visitAll (v : Visitor) : List Table → Except PlanError (List Table × List Node)
  | [] => .ok ([], [])
  | .lateral aliasName fromAlias query :: rest => do
    let (query, shown) ← query.visit v
    let (rest, shown') ← Table.visitAll v rest
    return (.lateral aliasName fromAlias query :: rest, shown ++ shown')
  | t :: rest => do
    let (rest, shown) ← Table.visitAll v rest
    return (t :: rest, shown)

/-- The result columns of a plan. -/
def Select.visitAll (v : Visitor) : List Select → Except PlanError (List Select × List Node)
  | [] => .ok ([], [])
  | .boolOr condition name :: rest => do
    let (condition, shown) ← condition.visitRoot v
    let (rest, shown') ← Select.visitAll v rest
    return (.boolOr condition name :: rest, shown ++ shown')
  | s :: rest => do
    let (rest, shown) ← Select.visitAll v rest
    return (s :: rest, shown)

end

/-! ### Leaves -/

mutual

/-- The plan with each leaf replaced, in its subqueries too. -/
def Plan.mapLeaves (f : Condition → List Condition) : Plan → Plan
  | ⟨selects, tables, condition, sortKeys, groupBys, ctes⟩ =>
    ⟨Select.mapLeavesAll f selects, Table.mapLeavesAll f tables, Group.mapLeavesTop f condition,
      sortKeys, groupBys, ctes⟩

/-- The group at the top of a plan with each leaf replaced. -/
def Group.mapLeavesTop (f : Condition → List Condition) : Option Group → Option Group
  | none => none
  | some g => some (g.mapLeaves f)

/-- The group with each leaf replaced. -/
def Group.mapLeaves (f : Condition → List Condition) : Group → Group
  | ⟨op, conditions⟩ => ⟨op, Condition.mapLeavesAll f conditions⟩

/-- The conditions with each leaf replaced. -/
def Condition.mapLeavesAll (f : Condition → List Condition) : List Condition → List Condition
  | [] => []
  | c :: rest => c.mapLeaves f ++ Condition.mapLeavesAll f rest

/-- What stands in the place of a condition. -/
def Condition.mapLeaves (f : Condition → List Condition) : Condition → List Condition
  | .column c => f (.column c)
  | .raw r => f (.raw r)
  | .group g => [.group (g.mapLeaves f)]
  | .existence query negate outerAliases => [.existence (query.mapLeaves f) negate outerAliases]

/-- The tables with each leaf in their subqueries replaced. -/
def Table.mapLeavesAll (f : Condition → List Condition) : List Table → List Table
  | [] => []
  | .lateral aliasName fromAlias query :: rest =>
    .lateral aliasName fromAlias (query.mapLeaves f) :: Table.mapLeavesAll f rest
  | t :: rest => t :: Table.mapLeavesAll f rest

/-- The result columns with each leaf replaced. -/
def Select.mapLeavesAll (f : Condition → List Condition) : List Select → List Select
  | [] => []
  | .boolOr condition name :: rest =>
    .boolOr (condition.mapLeaves f) name :: Select.mapLeavesAll f rest
  | s :: rest => s :: Select.mapLeavesAll f rest

end

end EntityQuery
