import EntityQuery.Plan.Error
import EntityQuery.Plan.Basic

/-!
# Merging conditions

Conditions come from several sources; what a query needs is one group that holds when all of them
do.

* `ColumnCondition.split`: membership in a list with null, in terms that treat null as a value;
* `Resolver`, `ExpressionLiteral.resolve`: the group of an expression over user aliases;
* `Conjuncts`, `Conjuncts.group?`: conditions by source, and the group that joins them.
-/

namespace EntityQuery

/-- A list without null, and whether it had one. -/
def withoutNulls (vs : List Value) : List Value := vs.filter (!·.isNull)

/-- Membership in a list that contains null asks for null besides the others; a list without null is
left as it is. -/
def ColumnCondition.split (c : ColumnCondition) : Condition :=
  match c.predicate with
  | .isIn vs =>
    if vs.any Value.isNull then
      let null := { c with predicate := .isNull }
      match withoutNulls vs with
      | [] => .column null
      | rest => .any [.column null, .column { c with predicate := .isIn rest }]
    else .column c
  | .notIn vs =>
    if vs.any Value.isNull then
      let notNull := { c with predicate := .notNull }
      match withoutNulls vs with
      | [] => .column notNull
      | rest => .all [.column notNull, .column { c with predicate := .notIn rest }]
    else .column c
  | _ => .column c

/-! ### Expressions over user aliases -/

/-- What the leaves of an expression stand for in the plan. -/
structure Resolver where
  column : (aliasName field : String) → Predicate → Except PlanError ColumnCondition
  raw : (aliases : List String) → (sql : String) → List Value → Except PlanError RawCondition

/-- The conditions of a group's branches, and whether one of them was undefined. -/
structure Branches where
  conditions : List Condition
  sawUndefined : Bool

/-- The group of the branches, if there is one: branches that are undefined collapse the group or
are dropped, and nothing is left of a group without conditions. -/
def Branches.group? (b : Branches) (op : Connective) (mode : UndefinedMode) : Option Group :=
  match mode, b.sawUndefined, b.conditions with
  | .collapse, true, _ => none
  | _, _, [] => none
  | _, _, conditions => some ⟨op, conditions⟩

/-- One more branch in front: a condition, or an undefined one. -/
def Branches.cons (c : Option Condition) (b : Branches) : Branches :=
  match c with
  | some c => ⟨c :: b.conditions, b.sawUndefined⟩
  | none => ⟨b.conditions, true⟩

mutual

/-- The group that an expression stands for, if it stands for one. -/
def ExpressionLiteral.resolve (r : Resolver) : ExpressionLiteral → Except PlanError (Option Group)
  | ⟨op, branches, mode⟩ => do return (← ConditionLiteral.resolveAll r branches).group? op mode

/-- The conditions of branches. -/
def ConditionLiteral.resolveAll (r : Resolver) : List ConditionLiteral → Except PlanError Branches
  | [] => .ok ⟨[], false⟩
  | b :: rest => do
    let c ← ConditionLiteral.resolve r b
    let bs ← ConditionLiteral.resolveAll r rest
    return bs.cons c

/-- The condition of a branch; a group that stands for nothing is undefined. -/
def ConditionLiteral.resolve (r : Resolver) : ConditionLiteral → Except PlanError (Option Condition)
  | .undefined => .ok none
  | .column aliasName field predicate => do
    return some (← r.column aliasName field predicate).split
  | .raw aliases sql bindings => do return some (.raw (← r.raw aliases sql bindings))
  | .group literal => do return (← ExpressionLiteral.resolve r literal).map .group

end

/-! ### Conjunctions -/

/-- Conditions by source. -/
structure Conjuncts where
  inlined : List Condition
  existences : List Condition
  groups : List Group

namespace Conjuncts

/-- No condition. -/
def empty : Conjuncts := ⟨[], [], []⟩

/-- A predicate on a column. -/
def addColumn (cs : Conjuncts) (c : ColumnCondition) : Conjuncts :=
  { cs with inlined := cs.inlined ++ [c.split] }

/-- A fragment of text. -/
def addRaw (cs : Conjuncts) (r : RawCondition) : Conjuncts :=
  { cs with inlined := cs.inlined ++ [.raw r] }

/-- A subquery that has a row, or has none. -/
def addExistence (cs : Conjuncts) (query : Plan) (negate : Bool) (outerAliases : List String) :
    Conjuncts :=
  { cs with existences := cs.existences ++ [.existence query negate outerAliases] }

/-- A group of conditions. -/
def addGroup (cs : Conjuncts) (g : Group) : Conjuncts := { cs with groups := cs.groups ++ [g] }

/-- A group, if there is one. -/
def addGroup? (cs : Conjuncts) : Option Group → Conjuncts
  | none => cs
  | some g => cs.addGroup g

/-- No condition has been added. -/
def isEmpty (cs : Conjuncts) : Bool :=
  cs.inlined.isEmpty && cs.existences.isEmpty && cs.groups.isEmpty

/-- The group that holds when all conditions do.  A group that is the only condition stands alone,
and the conditions of the only group are taken out of it when all of them have to hold. -/
def group? (cs : Conjuncts) : Option Group :=
  match cs.inlined ++ cs.existences, cs.groups with
  | [], [] => none
  | [], [g] => some g
  | conditions, [⟨.and, others⟩] => some (.all (conditions ++ others))
  | conditions, groups => some (.all (conditions ++ groups.map .group))

end Conjuncts

end EntityQuery
