import EntityQuery.Find.Draft

/-!
# Sort keys

Sort keys may lead through relations to one entity; its table is joined unless it is joined already.
Ids make the order total.

* `Ordering`: the tables and sort keys gathered so far;
* `OrderBy.resolve`: the sort keys of an order;
* `Plan.addOrder`: the plan with the sort keys and the ids of the tables that they reach.
-/

namespace EntityQuery

/-- The tables and sort keys of a plan under construction. -/
structure Ordering where
  tables : List Table
  sortKeys : List SortKey
  supply : AliasSupply
  /-- The tables that were reached through relations, in the order they were left. -/
  reached : List String

namespace Ordering

/-- One more sort key. -/
def addKey (o : Ordering) (aliasName column : String) (direction : Direction) : Ordering :=
  { o with sortKeys := o.sortKeys ++ [⟨aliasName, column, direction⟩] }

/-- The table of an entity that is joined already by this foreign key. -/
def existing? (o : Ordering) (parent : ColumnRef) (target : Entity) : Option String :=
  ((o.tables.filterMap Table.join?).find? fun j =>
    j.parent = parent && j.own.column = "id" && j.table = target.tableName).map (·.aliasName)

/-- The table of a related entity, joined with those of its bases unless it is joined already. -/
def reach (o : Ordering) (s : Setting) (parent : ColumnRef) (target : Entity) :
    Except PlanError (String × Ordering) :=
  match o.existing? parent target with
  | some aliasName => .ok (aliasName, o)
  | none => do
    let (aliasName, supply) := o.supply.next target.tableName
    let bases ← s.baseJoins aliasName .outer 0 target.baseTypes
    let join : Join := ⟨aliasName, target.tableName, .outer, parent, ⟨aliasName, "id"⟩, none⟩
    return (aliasName, { o with
      supply := supply
      tables := o.tables ++ .join join :: bases.map .join })

/-- One more table that was reached. -/
def leave (o : Ordering) (aliasName : String) : Ordering :=
  { o with reached := insertNew o.reached aliasName }

/-- The id of a table as a sort key, unless it is one. -/
def addId (o : Ordering) (aliasName : String) : Ordering :=
  if o.sortKeys.any fun k => k.aliasName = aliasName && k.column = "id" then o
  else o.addKey aliasName "id" .asc

end Ordering

mutual

/-- The sort keys of an order on the entity whose table is `alias`. -/
def OrderBy.resolve (s : Setting) (e : Entity) (aliasName : String) :
    OrderBy → Ordering → Except PlanError Ordering
  | .keys entries, o => OrderEntry.resolveAll s e aliasName entries o

/-- The sort keys of entries. -/
def OrderEntry.resolveAll (s : Setting) (e : Entity) (aliasName : String) :
    List OrderEntry → Ordering → Except PlanError Ordering
  | [], o => .ok o
  | entry :: rest, o => do
    let o ← OrderEntry.resolve s e aliasName entry o
    OrderEntry.resolveAll s e aliasName rest o

/-- The sort keys of one entry. -/
def OrderEntry.resolve (s : Setting) (e : Entity) (aliasName : String) :
    OrderEntry → Ordering → Except PlanError Ordering
  | .field name direction, o => do
    let site ← s.resolve e name
    match site.kind with
    | .primaryKey => return o.addKey aliasName "id" direction
    | .primitive column _ => return o.addKey (site.columnAlias aliasName) column direction
    | .enumeration column _ => return o.addKey (site.columnAlias aliasName) column direction
    | .manyToOne column _ _ => return o.addKey (site.columnAlias aliasName) column direction
    | _ => .error (.unsupportedOrder e.typeName name)
  | .through name nested, o => do
    let site ← s.resolve e name
    match site.kind with
    | .manyToOne column other _ =>
      let target ← s.entity other
      let (own, o) ← o.reach s ⟨site.columnAlias aliasName, column⟩ target
      let o ← OrderBy.resolve s target own nested o
      return o.leave own
    | _ => .error (.unsupportedOrder e.typeName name)

end

/-- The plan in the order that is asked for; the ids of the tables reached by it and the id of the
primary table come last. -/
def Plan.addOrder (p : Plan) (s : Setting) (e : Entity) (aliasName : String) (order : OrderBy)
    (supply : AliasSupply) : Except PlanError (Plan × AliasSupply) := do
  let o ← order.resolve s e aliasName ⟨p.tables, p.sortKeys, supply, []⟩
  let o := (o.reached ++ [aliasName]).foldl Ordering.addId o
  return ({ p with tables := o.tables, sortKeys := o.sortKeys }, o.supply)

end EntityQuery
