import EntityQuery.Plan.Basic

/-!
# Collections

A join of a collection has any number of rows for a row of its parent.  Tables that are joined to
it, directly or not, belong to it.

* `Collections`: the tables of a plan with their parents, and which of the joins are collections;
* `Collections.chain`: a table and the tables above it;
* `Collections.nearest?`, `Collections.root?`: the first and the last collection on the chain;
* `Collections.roots`, `Collections.childrenOf`, `Collections.ownedBy`, `Collections.subtree`: the
  forest of collections;
* `Condition.owners`: the collections that a condition reads, for any assignment of tables to them.
-/

namespace EntityQuery

/-- The tables of a plan with their parents, and the joins of collections among them. -/
structure Collections where
  /-- The tables in the order of the plan. -/
  aliases : List String
  /-- Tables with their parents; the first entry of a table counts. -/
  parents : List (String × String)
  /-- The joins of collections; the first one of a table counts. -/
  joins : List Join

namespace Collections

/-- The collections among the tables of a plan.  Of several entries for a table the last counts. -/
def ofPlan (p : Plan) (joins : List Join) : Collections where
  aliases := p.tables.map Table.aliasName
  parents := (p.tables.filterMap fun t => t.parentAlias?.map (t.aliasName, ·)).reverse
  joins := (joins.filter fun j => p.hasAlias j.aliasName).reverse

/-- The table that a table is joined to. -/
def parent? (t : Collections) (aliasName : String) : Option String :=
  (t.parents.find? (·.1 = aliasName)).map (·.2)

/-- The join of a collection. -/
def join? (t : Collections) (aliasName : String) : Option Join :=
  t.joins.find? (·.aliasName = aliasName)

/-- The table is the one of a collection. -/
def isCollection (t : Collections) (aliasName : String) : Bool := (t.join? aliasName).isSome

/-- The tables of collections in the order of the plan. -/
def collections (t : Collections) : List String := t.aliases.filter t.isCollection

/-- No join is that of a collection. -/
def isEmpty (t : Collections) : Bool := t.collections.isEmpty

/-- A table and those that `up` leads to from it, at most `n` of them. -/
def pathWithin (up : String → Option String) : Nat → String → List String
  | 0, aliasName => [aliasName]
  | n + 1, aliasName =>
    aliasName :: match up aliasName with
      | none => []
      | some parent => pathWithin up n parent

/-- A table and the tables above it; each step takes another entry of the parents. -/
def chain (t : Collections) (aliasName : String) : List String :=
  pathWithin t.parent? t.parents.length aliasName

/-- The collections that a table belongs to, the nearest one first. -/
def above (t : Collections) (aliasName : String) : List String :=
  (t.chain aliasName).filter t.isCollection

/-- The nearest collection that a table belongs to. -/
def nearest? (t : Collections) (aliasName : String) : Option String := (t.above aliasName).head?

/-- The outermost collection that a table belongs to. -/
def root? (t : Collections) (aliasName : String) : Option String := (t.above aliasName).getLast?

/-- The collection that a collection is nested in. -/
def parentCollection? (t : Collections) (collection : String) : Option String :=
  (t.parent? collection).bind t.nearest?

/-- The collections that are nested in no other one. -/
def roots (t : Collections) : List String :=
  t.collections.filter fun c => (t.parentCollection? c).isNone

/-- The collections that are nested directly in a collection. -/
def childrenOf (t : Collections) (collection : String) : List String :=
  t.collections.filter fun c => t.parentCollection? c = some collection

/-- The tables that belong to a collection and to none below it. -/
def ownedBy (t : Collections) (collection : String) : List String :=
  t.aliases.filter fun a => t.nearest? a = some collection

/-- The table belongs to the collection: its nearest one is the collection or is nested in it.  Each
step from a collection to the one around it takes another entry of the parents. -/
def inSubtree (t : Collections) (aliasName collection : String) : Bool :=
  match t.nearest? aliasName with
  | none => false
  | some nearest => collection ∈ pathWithin t.parentCollection? t.parents.length nearest

/-- The tables that belong to a collection. -/
def subtree (t : Collections) (collection : String) : List String :=
  t.aliases.filter fun a => t.inSubtree a collection

end Collections

/-! ### Conditions and collections -/

/-- The owners of tables, each once, and whether a table has none. -/
def ownersOf (ownerOf : String → Option String) (aliases : List String) : List String × Bool :=
  ((aliases.filterMap ownerOf).foldl insertNew [], aliases.any fun a => (ownerOf a).isNone)

/-- The owners of the tables that a condition reads, and whether it reads a table without owner. -/
def Condition.owners (ownerOf : String → Option String) (c : Condition) : List String × Bool :=
  ownersOf ownerOf c.aliases

mutual

/-- The first fragment of text that mentions tables of several owners, with these owners. -/
def Condition.spanning? (ownerOf : String → Option String) :
    Condition → Option (String × List String)
  | .raw r =>
    let owners := (ownersOf ownerOf r.aliases).1
    if 1 < owners.length then some (r.sql, owners) else none
  | .group g => g.spanning? ownerOf
  | _ => none

/-- The first fragment of a group that mentions tables of several owners. -/
def Group.spanning? (ownerOf : String → Option String) : Group → Option (String × List String)
  | ⟨_, conditions⟩ => Condition.spanningOf? ownerOf conditions

/-- The first fragment of conditions that mentions tables of several owners. -/
def Condition.spanningOf? (ownerOf : String → Option String) :
    List Condition → Option (String × List String)
  | [] => none
  | c :: rest =>
    match c.spanning? ownerOf with
    | some found => some found
    | none => Condition.spanningOf? ownerOf rest

end

/-- The outermost collections that a condition reads, and whether it reads a table outside them. -/
def Collections.rootsReferenced (t : Collections) (c : Condition) : List String × Bool :=
  c.owners t.root?

/-! ### Subqueries -/

/-- The named tables of a plan, with the join of `root` as the primary table. -/
def subqueryTables (tables : List Table) (root : String) (aliases : List String) : List Table :=
  (tables.filter (·.aliasName ∈ aliases)).map fun
    | .join j => if j.aliasName = root then .primary j.aliasName j.table else .join j
    | t => t

/-- The condition is the test that a table has no row. -/
def Condition.isMissing (aliasName : String) : Condition → Bool
  | .column c => c.aliasName = aliasName && c.column = "id" && c.predicate.isNullTest
  | _ => false

end EntityQuery
