import EntityQuery.Plan.Visit

/-!
# Pruning

Tables that nothing refers to are removed, and with them the conditions that were not asked for.

* `Plan.references`: the tables that a plan refers to, its subqueries included;
* `Plan.trimRound`, `Plan.trim`: one round of removals, and all of them;
* `Plan.prune`: the plan and its subqueries without tables that nothing refers to.
-/

namespace EntityQuery

/-! ### References -/

mutual

/-- The tables that a plan refers to, its subqueries included; conditions that were not asked for
refer to nothing. -/
def Plan.references : Plan → List String
  | ⟨selects, tables, condition, sortKeys, groupBys, _⟩ =>
    Select.referencesOf selects ++ Group.referencesOf condition ++ sortKeys.map (·.aliasName) ++
      (groupBys.getD []).map (·.aliasName) ++ Table.referencesOf tables

/-- The tables that result columns refer to. -/
def Select.referencesOf : List Select → List String
  | [] => []
  | .boolOr condition _ :: rest => condition.references ++ Select.referencesOf rest
  | s :: rest => s.aliases ++ Select.referencesOf rest

/-- The tables that an optional group refers to. -/
def Group.referencesOf : Option Group → List String
  | none => []
  | some g => g.references

/-- The tables that a group refers to. -/
def Group.references : Group → List String
  | ⟨_, conditions⟩ => Condition.referencesOf conditions

/-- The tables that conditions refer to. -/
def Condition.referencesOf : List Condition → List String
  | [] => []
  | c :: rest => c.references ++ Condition.referencesOf rest

/-- The tables that a condition refers to. -/
def Condition.references : Condition → List String
  | .group g => g.references
  | .column c => if c.pruneable then [] else [c.aliasName]
  | .raw r => if r.pruneable then [] else r.aliases
  | .existence query _ outerAliases => outerAliases ++ query.references

/-- The tables that joins and lateral queries refer to. -/
def Table.referencesOf : List Table → List String
  | [] => []
  | .join j :: rest => j.parent.aliasName :: Table.referencesOf rest
  | .lateral _ fromAlias query :: rest => fromAlias :: query.references ++ Table.referencesOf rest
  | _ :: rest => Table.referencesOf rest

end

/-! ### One plan -/

/-- A leaf that was not asked for and reads a removed table is dropped. -/
def Condition.withoutRemoved (removed : List String) : Condition → List Condition
  | .column c => if c.pruneable && c.aliasName ∈ removed then [] else [.column c]
  | .raw r => if r.pruneable && r.aliases.any (· ∈ removed) then [] else [.raw r]
  | c => [c]

/-- A group without conditions at the top is no condition. -/
def Group.nonempty? : Option Group → Option Group
  | some ⟨_, []⟩ => none
  | g => g

namespace Plan

/-- The tables besides the primary one that are neither kept nor referred to. -/
def unreferenced (keep : List String) (p : Plan) : List String :=
  ((p.tables.filter (!·.isPrimary)).map Table.aliasName).filter fun a =>
    a ∉ keep && a ∉ p.references

/-- The plan without the named tables and without the conditions that go with them. -/
def remove (removed : List String) (p : Plan) : Plan :=
  let p := { p with tables := p.tables.filter (·.aliasName ∉ removed) }
  let p := p.mapLeaves (Condition.withoutRemoved removed)
  { p with condition := Group.nonempty? p.condition }

/-- Removal in rounds, until every table is referred to. -/
def trimWithin (keep : List String) : Nat → Plan → Plan
  | 0, p => p
  | n + 1, p =>
    match p.unreferenced keep with
    | [] => p
    | removed => trimWithin keep n (p.remove removed)

/-- The plan without tables that nothing refers to, its subqueries left alone.  Every round removes
a table, so there are no more rounds than tables. -/
def trim (keep : List String) (p : Plan) : Plan := trimWithin keep p.tables.length p

end Plan

/-! ### Subqueries -/

mutual

/-- The group with its subqueries changed. -/
def Group.mapPlans (f : Plan → Plan) : Group → Group
  | ⟨op, conditions⟩ => ⟨op, Condition.mapPlansOf f conditions⟩

/-- The conditions with their subqueries changed. -/
def Condition.mapPlansOf (f : Plan → Plan) : List Condition → List Condition
  | [] => []
  | c :: rest => c.mapPlans f :: Condition.mapPlansOf f rest

/-- The condition with its subqueries changed. -/
def Condition.mapPlans (f : Plan → Plan) : Condition → Condition
  | .group g => .group (g.mapPlans f)
  | .existence query negate outerAliases => .existence (f query) negate outerAliases
  | c => c

end

/-- The table with its subquery changed. -/
def Table.mapPlan (f : Plan → Plan) : Table → Table
  | .lateral aliasName fromAlias query => .lateral aliasName fromAlias (f query)
  | t => t

mutual

/-- How deeply plans are nested in a plan, aggregates left out. -/
def Plan.depth : Plan → Nat
  | ⟨_, tables, condition, _, _, _⟩ => max (Table.depthOf tables) (Group.depthOf condition)

/-- The depth of the plans inside tables. -/
def Table.depthOf : List Table → Nat
  | [] => 0
  | .lateral _ _ query :: rest => max (query.depth + 1) (Table.depthOf rest)
  | _ :: rest => Table.depthOf rest

/-- The depth of the plans inside an optional group. -/
def Group.depthOf : Option Group → Nat
  | none => 0
  | some g => g.depth

/-- The depth of the plans inside a group. -/
def Group.depth : Group → Nat
  | ⟨_, conditions⟩ => Condition.depthOf conditions

/-- The depth of the plans inside conditions. -/
def Condition.depthOf : List Condition → Nat
  | [] => 0
  | c :: rest => max c.depth (Condition.depthOf rest)

/-- The depth of the plans inside a condition. -/
def Condition.depth : Condition → Nat
  | .group g => g.depth
  | .existence query _ _ => query.depth + 1
  | _ => 0

end

namespace Plan

/-- The plan with its lateral queries and the subqueries of its condition changed. -/
def mapPlans (f : Plan → Plan) (p : Plan) : Plan :=
  { p with
    tables := p.tables.map (Table.mapPlan f)
    condition := p.condition.map (Group.mapPlans f) }

/-- Pruning of the plans down to a depth. -/
def pruneWithin : Nat → List String → Plan → Plan
  | 0, keep, p => p.trim keep
  | n + 1, keep, p => (p.trim keep).mapPlans (pruneWithin n [])

/-- The plan without tables that nothing refers to, apart from those to be kept; then its lateral
queries and the subqueries of its condition, where nothing more is kept. -/
def prune (keep : List String) (p : Plan) : Plan := pruneWithin p.depth keep p

end Plan

end EntityQuery
