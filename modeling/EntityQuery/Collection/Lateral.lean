import EntityQuery.Collection.Existence
import EntityQuery.Plan.AliasSupply

/-!
# Collections as lateral aggregates

A collection becomes a lateral subquery with one row for each row of its parent.  Every group of
conditions that reads the collection alone becomes a boolean column of that subquery, and the outer
condition refers to the column.  Conditions that were not asked for guard each of these columns.

* `Lateral.eligible`: the collections with enough siblings;
* `Lateral.Scope`: the collections that become subqueries, none of them below another;
* `Lateral.settle`: the choice of these, less the ones that other tables are read together with;
* `Lateral.decompose`: the outer condition, and the columns that it refers to;
* `Plan.toLateral`: the plan with its collections as lateral subqueries.
-/

namespace EntityQuery.Lateral

/-! ### The choice of collections -/

/-- The number of collections that are joined to the same table as this one. -/
def siblings (t : Collections) (j : Join) : Nat :=
  ((t.collections.filterMap t.join?).filter (·.parent.aliasName = j.parent.aliasName)).length

/-- The collections with at least `threshold` siblings, itself counted; all of them by force. -/
def eligible (t : Collections) (force : Bool) (threshold : Nat) : List String :=
  t.collections.filter fun c =>
    force || (match t.join? c with
      | some j => threshold ≤ siblings t j
      | none => false)

/-- The collections that become subqueries, none of them below another. -/
structure Scope where
  tree : Collections
  active : List String

/-- The topmost eligible collections that are not excluded. -/
def topmost (t : Collections) (eligible excluded : List String) : List String :=
  t.collections.foldl (fun units c =>
    if c ∉ eligible || c ∈ excluded || units.any (t.inSubtree c ·) then units else units ++ [c]) []

namespace Scope

/-- The subquery that a table belongs to. -/
def unit? (s : Scope) (aliasName : String) : Option String :=
  s.active.find? fun unit => s.tree.inSubtree aliasName unit

/-- The subqueries that a condition reads, and whether it reads other tables. -/
def units (s : Scope) (c : Condition) : List String × Bool := c.owners s.unit?

/-- The collection that a condition reads alone. -/
def only? (s : Scope) (c : Condition) : Option String :=
  match s.units c with
  | ([unit], false) => some unit
  | _ => none

mutual

/-- The collections that a leaf reads together with other tables. -/
def pinnedBy (s : Scope) : Condition → List String
  | .group ⟨op, conditions⟩ =>
    let r := s.units (.group ⟨op, conditions⟩)
    if r.1.isEmpty || (r.1.length = 1 && !r.2) then [] else pinnedByAll s conditions
  | c =>
    let r := s.units c
    if r.1.isEmpty || (r.1.length = 1 && !r.2) then [] else r.1

/-- The collections that the leaves of conditions read together with other tables. -/
def pinnedByAll (s : Scope) : List Condition → List String
  | [] => []
  | c :: rest => pinnedBy s c ++ pinnedByAll s rest

end

/-- The collections that have to stay joins; conditions that were not asked for do not count at the
top. -/
def pinned (s : Scope) (top : List Condition) : List String :=
  (s.pinnedByAll (top.filter (!·.isPruneable))).foldl insertNew []

end Scope

/-- What is told of a collection that stays a join. -/
def warning (collection : String) : String :=
  "collection join `" ++ collection ++
    "` is referenced together with outer tables, keeping it as a join"

/-- The choice of collections in rounds: those that have to stay joins are excluded, which may let
collections below them take their place.  Every round but the last excludes one. -/
def settle (t : Collections) (eligible : List String) (top : List Condition) :
    Nat → List String → List String → Except PlanError (Scope × List String)
  | rounds, excluded, warnings =>
    let scope : Scope := ⟨t, topmost t eligible excluded⟩
    match Condition.spanningOf? scope.unit? top with
    | some (sql, units) => .error (.fragmentSpansRoots sql units)
    | none =>
      match rounds, scope.pinned top with
      | _, [] => .ok (scope, warnings)
      | 0, _ => .ok (⟨t, []⟩, warnings)
      | rounds + 1, pinned =>
        settle t eligible top rounds (excluded ++ pinned) (warnings ++ pinned.map warning)

/-! ### The columns -/

/-- A boolean column of the subquery of a collection. -/
structure Column where
  unit : String
  select : Select

/-- The name of the column behind `n` others. -/
def columnName (n : Nat) : String := "_c" ++ toString n

/-- The column for a group of conditions on a collection. -/
def columnOf (unit name : String) (c : Condition) : Select :=
  if c.isMissing unit then .countIsZero name
  else match c with
    | .group g => .boolOr g name
    | c => .boolOr (.all [c]) name

/-- The columns of a collection. -/
def selectsOf (unit : String) (columns : List Column) : List Select :=
  (columns.filter (·.unit = unit)).map (·.select)

/-- The siblings under a connective as one condition; a single one stands for itself. -/
def asOne (op : Connective) : List Condition → Condition
  | [c] => c
  | members => .group ⟨op, members⟩

/-- One more column for the group, and the condition that refers to it. -/
def addColumn (aliasOf : String → String) (unit : String) (c : Condition) (columns : List Column) :
    Condition × List Column :=
  let name := columnName (selectsOf unit columns).length
  (.raw ⟨[aliasOf unit], aliasOf unit ++ "." ++ name, [], false⟩,
    columns ++ [⟨unit, columnOf unit name c⟩])

mutual

/-- The conditions under a connective, with the siblings that read one collection alone replaced by
a reference to a column, in the place of the first of them. -/
def decompose (s : Scope) (aliasOf : String → String) (op : Connective) (siblings : List Condition)
    (seen : List String) : List Condition → List Column → List Condition × List Column
  | [], columns => ([], columns)
  | c :: rest, columns =>
    match s.only? c with
    | some unit =>
      if unit ∈ seen then decompose s aliasOf op siblings seen rest columns
      else
        let members := siblings.filter fun m => s.only? m = some unit
        let (reference, columns) := addColumn aliasOf unit (asOne op members) columns
        let (others, columns) := decompose s aliasOf op siblings (unit :: seen) rest columns
        (reference :: others, columns)
    | none =>
      let (c, columns) := decomposeOne s aliasOf c columns
      let (others, columns) := decompose s aliasOf op siblings seen rest columns
      (c :: others, columns)

/-- A condition that reads several collections or other tables. -/
def decomposeOne (s : Scope) (aliasOf : String → String) :
    Condition → List Column → Condition × List Column
  | .group ⟨op, conditions⟩, columns =>
    if (s.units (.group ⟨op, conditions⟩)).1.isEmpty then (.group ⟨op, conditions⟩, columns)
    else
      let (conditions', columns) := decompose s aliasOf op conditions [] conditions columns
      (.group ⟨op, conditions'⟩, columns)
  | c, columns => (c, columns)

end

/-- A column that also asks for the guards; the count of rows is left as it is. -/
def guarded (guards : List Condition) : Select → Select
  | .boolOr ⟨.and, conditions⟩ name => .boolOr (.all (guards ++ conditions)) name
  | .boolOr g name => .boolOr (.all (guards ++ [.group g])) name
  | s => s

/-- The columns with their guards, if there are any. -/
def guardedAll (guards : List Condition) (selects : List Select) : List Select :=
  if guards.isEmpty then selects else selects.map (guarded guards)

/-! ### The plan -/

/-- The condition was not asked for and reads one subquery. -/
def isGuard (s : Scope) (c : Condition) : Bool := c.isPruneable && (s.units c).1.length = 1

/-- The guards of a collection. -/
def guardsOf (s : Scope) (top : List Condition) (unit : String) : List Condition :=
  top.filter fun c => isGuard s c && (s.units c).1 = [unit]

/-- Names for the subqueries of collections. -/
def nameUnits : List String → AliasSupply → List (String × String) × AliasSupply
  | [], supply => ([], supply)
  | unit :: rest, supply =>
    let (name, supply) := supply.literal ("_" ++ unit)
    let (names, supply) := nameUnits rest supply
    ((unit, name) :: names, supply)

/-- The tables with the subtree of a collection replaced by its subquery, and the conditions of a
collection without columns, which stay outside. -/
def absorb (s : Scope) (top : List Condition) (columns : List Column) (unit name : String)
    (j : Join) (tables : List Table) : List Table × List Condition :=
  let guards := guardsOf s top unit
  match selectsOf unit columns with
  | [] => (tables, guards)
  | selects =>
    let subtree := s.tree.subtree unit
    let query : Plan := ⟨guardedAll guards selects, subqueryTables tables unit subtree,
      some (.all [.raw (.correlation j.parent j.own)]), [], none, none⟩
    (tables.filter (·.aliasName ∉ subtree) ++ [.lateral name j.parent.aliasName query], [])

/-- All collections in turn. -/
def absorbAll (s : Scope) (top : List Condition) (columns : List Column) :
    List (String × String) → List Table → List Table × List Condition
  | [], tables => (tables, [])
  | (unit, name) :: rest, tables =>
    match s.tree.join? unit with
    | none => absorbAll s top columns rest tables
    | some j =>
      let (tables, left) := absorb s top columns unit name j tables
      let (tables, left') := absorbAll s top columns rest tables
      (tables, left ++ left')

end Lateral

open Lateral

/-- The plan with its collections as lateral aggregates, and the names that are left. -/
def Plan.toLateral (p : Plan) (force : Bool) (threshold : Nat) (joins : List Join)
    (supply : AliasSupply) : Except PlanError (Resolved × AliasSupply) :=
  let t := Collections.ofPlan p joins
  let eligible := Lateral.eligible t force threshold
  if eligible.isEmpty then .ok (⟨p, []⟩, supply)
  else do
    let top := p.topConditions
    let (scope, warnings) ← settle t eligible top (t.collections.length + 1) [] []
    let (names, supply) := nameUnits scope.active supply
    let aliasOf (unit : String) : String := ((names.find? (·.1 = unit)).map (·.2)).getD unit
    let asked := top.filter (!isGuard scope ·)
    let (conditions, columns) := decompose scope aliasOf .and asked [] asked []
    let (tables, left) := absorbAll scope top columns names p.tables
    return (⟨{ p with
      tables := tables
      condition := Group.ofTop p.isDisjunctive (conditions ++ left) }, warnings⟩, supply)

end EntityQuery
