import EntityQuery.Collection.Basic
import EntityQuery.Plan.Error

/-!
# Collections as existence conditions

Each outermost collection becomes a condition that a correlated subquery has a row.  A condition of
the top goes into the subquery of the collection that it reads.  One that reads other tables as well
stays, and the collections that it reads stay joins.

* `Existence.route?`: the collection that a condition goes to;
* `Existence.build?`: the condition that stands for a collection, unless nothing is asked of it;
* `Plan.toExistence`: the plan with its collections as existence conditions, and the warnings.
-/

namespace EntityQuery

/-- A plan whose collections have their final form, and what should be told about it. -/
structure Resolved where
  plan : Plan
  warnings : List String

namespace Existence

/-- The collection that a condition of the top goes to.  One that was not asked for also goes there
when it reads other tables. -/
def route? (t : Collections) (c : Condition) : Option String :=
  match t.rootsReferenced c with
  | ([root], outer) => if c.isPruneable || !outer then some root else none
  | _ => none

/-- The nested collections that a condition reads. -/
def touched (t : Collections) (children : List String) (c : Condition) : List String :=
  children.filter fun child => c.aliases.any (t.inSubtree · child)

/-- The nested collection that a condition reads alone. -/
def only? (t : Collections) (children : List String) (c : Condition) : Option String :=
  match touched t children c with
  | [child] => if c.aliases.all (t.inSubtree · child) then some child else none
  | _ => none

/-- The conditions that go to a place. -/
def sentTo (send : Condition → Option String) (place : String) (conditions : List Condition) :
    List Condition := conditions.filter fun c => send c = some place

/-- The conditions that go nowhere. -/
def staying (send : Condition → Option String) (conditions : List Condition) : List Condition :=
  conditions.filter fun c => send c = none

/-- The subquery that asks for one row. -/
def subquery (tables : List Table) (conditions : List Condition) : Plan :=
  ⟨[.raw "1" [] none], tables, some (.all conditions), [], none, none⟩

/-- The condition that stands for a collection, for the conditions that were sent to it: nested
collections become conditions of the subquery, those that are read together with other tables are
joined in it.  A collection of which nothing is asked has none; one that is asked to be missing has
a negated one. -/
def build? (tables : List Table) (t : Collections) :
    Nat → String → List Condition → Option Condition
  | 0, _, _ => none
  | n + 1, collection, conditions =>
    match t.join? collection with
    | none => none
    | some j =>
      let children := t.childrenOf collection
      let send := only? t children
      let tainted := ((staying send conditions).flatMap (touched t children)).foldl insertNew []
      let own := staying send conditions ++ tainted.flatMap fun c => sentTo send c conditions
      let nested := ((children.filter (· ∉ tainted)).foldl insertNew []).filterMap fun child =>
        build? tables t n child (sentTo send child conditions)
      let asked := own.filter (!·.isPruneable)
      let correlation := Condition.raw (.correlation j.parent j.own)
      let missing := match asked with
        | [c] => nested.isEmpty && tainted.isEmpty && c.isMissing collection
        | _ => false
      if missing then
        let alone := subqueryTables tables collection [collection]
        some (.existence (subquery alone [correlation]) true [j.parent.aliasName])
      else if asked.isEmpty && nested.isEmpty then none
      else
        let aliases := t.ownedBy collection ++ tainted.flatMap t.subtree
        some (.existence (subquery (subqueryTables tables collection aliases)
          (correlation :: (own ++ nested))) false [j.parent.aliasName])

/-- What is told of a collection that stays a join. -/
def warning (root : String) : String :=
  "collection join `" ++ root ++ "` is referenced outside its subquery, keeping it as a join"

end Existence

open Existence

/-- The plan with its collections as existence conditions. -/
def Plan.toExistence (p : Plan) (joins : List Join) : Except PlanError Resolved :=
  let t := Collections.ofPlan p joins
  if t.isEmpty then .ok ⟨p, []⟩
  else
    let top := p.topConditions
    match Condition.spanningOf? t.root? top with
    | some (sql, roots) => .error (.fragmentSpansRoots sql roots)
    | none =>
      let send := route? t
      let outer := staying send top
      let tainted := (outer.flatMap fun c => (t.rootsReferenced c).1).foldl insertNew []
      let results := ((t.roots.filter (· ∉ tainted)).foldl insertNew []).map fun root =>
        (root, build? p.tables t t.collections.length root (sentTo send root top))
      let skipped := (results.filter (·.2.isNone)).flatMap fun r => sentTo send r.1 top
      let absorbed := (results.filter (·.2.isSome)).flatMap fun r => t.subtree r.1
      let conditions := outer ++ (tainted.flatMap fun root => sentTo send root top) ++ skipped ++
        results.filterMap (·.2)
      .ok ⟨{ p with
        tables := p.tables.filter (·.aliasName ∉ absorbed)
        condition := Group.ofTop p.isDisjunctive conditions }, tainted.map warning⟩

end EntityQuery
