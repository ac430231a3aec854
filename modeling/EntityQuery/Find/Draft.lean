import EntityQuery.Find.Id
import EntityQuery.Plan.AliasSupply
import EntityQuery.Plan.Conjunction
import EntityQuery.Schema.Lookup

/-!
# Plans under construction

* `Setting`: what planning looks up and never changes;
* `Draft`: the tables, conditions and names gathered so far;
* `Draft.addEntity`: a table of an entity with the tables of its bases and the conditions that tell
  its rows from deleted rows and from other types;
* `Draft.addSelects`: the columns of the entity that is asked for.
-/

namespace EntityQuery

/-- What planning looks up and never changes. -/
structure Setting where
  schema : Schema
  config : Config
  /-- Rows that are marked as deleted count like others. -/
  withDeleted : Bool

/-- A table that a user alias names. -/
structure Binding where
  name : String
  aliasName : String
  entity : Entity

/-- A plan under construction. -/
structure Draft where
  supply : AliasSupply
  tables : List Table
  selects : List Select
  conjuncts : Conjuncts
  /-- The joins of collections, in the order they were made. -/
  collections : List Join
  /-- The tables that user aliases name, the last one first. -/
  bindings : List Binding
  /-- The types of the id columns of tables, the last one first. -/
  idDbTypes : List (String × String)

/-- The entity of a name, as a step of planning. -/
def Setting.entity (s : Setting) (typeName : String) : Except PlanError Entity :=
  planning (s.schema.entity typeName)

/-- The site of a field, as a step of planning. -/
def Setting.resolve (s : Setting) (e : Entity) (name : String) : Except PlanError FieldSite :=
  planning (s.schema.resolve e name)

/-- The joins of the tables of an entity's bases, the nearest one first, counted from `i`. -/
def Setting.baseJoins (s : Setting) (aliasName : String) (kind : JoinKind) :
    Nat → List String → Except PlanError (List Join)
  | _, [] => .ok []
  | i, base :: rest => do
    let b ← s.entity base
    let own := baseAlias aliasName i
    let others ← Setting.baseJoins s aliasName kind (i + 1) rest
    return ⟨own, b.tableName, kind, ⟨aliasName, "id"⟩, ⟨own, "id"⟩, some false⟩ :: others

/-- Where the time of deletion is: on the entity's own table or on that of a base, and in which
column. -/
structure DeletionColumn where
  baseIndex : Option Nat
  column : String

/-- The column of the time of deletion that an entity names, or the configured one. -/
def Setting.deletionColumnName (s : Setting) (e : Entity) : String :=
  e.softDeleteColumn.getD s.config.softDeleteColumn

/-- The first base whose rows are marked as deleted, counted from `i`. -/
def Setting.deletionOnBases (s : Setting) :
    Nat → List String → Except PlanError (Option DeletionColumn)
  | _, [] => .ok none
  | i, base :: rest => do
    let b ← s.entity base
    if b.softDelete then return some ⟨some i, s.deletionColumnName b⟩
    else Setting.deletionOnBases s (i + 1) rest

/-- Where the time of deletion of an entity's rows is, if deleted rows do not count. -/
def Setting.deletion? (s : Setting) (e : Entity) : Except PlanError (Option DeletionColumn) :=
  if s.withDeleted then .ok none
  else if e.softDelete then .ok (some ⟨none, s.deletionColumnName e⟩)
  else match e.inheritance with
    | .classTable bases _ => s.deletionOnBases 0 bases
    | .singleTable (some base) _ _ => do
      let b ← s.entity base
      return if b.softDelete then some ⟨none, s.deletionColumnName b⟩ else none
    | _ => .ok none

namespace Draft

/-- Nothing has been gathered. -/
def empty : Draft := ⟨.empty, [], [], .empty, [], [], []⟩

/-- A new name for a table. -/
def nextAlias (d : Draft) (table : String) : String × Draft :=
  let (aliasName, supply) := d.supply.next table
  (aliasName, { d with supply := supply })

/-- One more table, with the type of its id column. -/
def addTable (d : Draft) (t : Table) (idDbType : String) : Draft :=
  { d with tables := d.tables ++ [t], idDbTypes := (t.aliasName, idDbType) :: d.idDbTypes }

/-- One more predicate. -/
def addColumn (d : Draft) (c : ColumnCondition) : Draft :=
  { d with conjuncts := d.conjuncts.addColumn c }

/-- One more group of conditions. -/
def addGroup (d : Draft) (g : Group) : Draft := { d with conjuncts := d.conjuncts.addGroup g }

/-- One more join of a collection. -/
def addCollection (d : Draft) (j : Join) : Draft := { d with collections := d.collections ++ [j] }

/-- A user alias for a table. -/
def bind (d : Draft) (name aliasName : String) (e : Entity) : Draft :=
  { d with bindings := ⟨name, aliasName, e⟩ :: d.bindings }

/-- The table that a user alias names. -/
def binding (d : Draft) (name : String) : Except PlanError Binding :=
  match d.bindings.find? (·.name = name) with
  | some b => .ok b
  | none => .error (.unknownBinding name)

/-- The type of the id column of a table. -/
def idDbType (d : Draft) (aliasName : String) : String :=
  ((d.idDbTypes.find? (·.1 = aliasName)).map (·.2)).getD "int"

/-- The condition that rows are not marked as deleted. -/
def addDeletion (d : Draft) (aliasName : String) : Option DeletionColumn → Draft
  | none => d
  | some ⟨none, name⟩ => d.addColumn (.implied aliasName name "timestamptz" .isNull)
  | some ⟨some i, name⟩ => d.addColumn (.implied (baseAlias aliasName i) name "timestamptz" .isNull)

/-- The condition that rows are of an entity's own type. -/
def addDiscriminator (d : Draft) (aliasName : String) (e : Entity) : Draft :=
  match e.inheritance with
  | .singleTable _ discriminator (some v) =>
    d.addColumn (.implied aliasName discriminator "int" (.eq (.int v)))
  | _ => d

/-- The tables of bases. -/
def addBases (d : Draft) (idDbType : String) (joins : List Join) : Draft :=
  joins.foldl (fun d j => d.addTable (.join j) idDbType) d

/-- A table of an entity, with the tables of its bases and the conditions that come with it.  Where
the table may have no row, neither may its bases. -/
def addEntity (d : Draft) (s : Setting) (e : Entity) (t : Table) : Except PlanError Draft := do
  let kind := match t with
    | .join j => j.kind
    | _ => .inner
  let joins ← s.baseJoins t.aliasName kind 0 e.baseTypes
  let deletion ← s.deletion? e
  return (((d.addTable t e.idDbType).addBases e.idDbType joins).addDeletion t.aliasName
    deletion).addDiscriminator t.aliasName e

/-! ### Result columns -/

/-- The name of the column that shows the type of a row. -/
def classColumn : String := "__class"

/-- The tables of subtypes with all their columns, counted from `i`, and the cases of the type. -/
def addSubtypes (s : Setting) (aliasName : String) :
    Nat → List String → Draft → Except PlanError (Draft × List DiscriminatorCase)
  | _, [], d => .ok (d, [])
  | i, sub :: rest, d => do
    let e ← s.entity sub
    let own := subAlias aliasName i
    let join : Join := ⟨own, e.tableName, .outer, ⟨aliasName, "id"⟩, ⟨own, "id"⟩, some false⟩
    let d := d.addTable (.join join) e.idDbType
    let (d, cases) ← addSubtypes s aliasName (i + 1) rest
      { d with selects := d.selects ++ [.star own] }
    return (d, ⟨own, sub⟩ :: cases)

/-- All columns of the entity, of its bases and of its subtypes, and the type of each row where
there are subtypes. -/
def addSelects (d : Draft) (s : Setting) (e : Entity) (aliasName : String) :
    Except PlanError Draft := do
  let bases := (List.range e.baseTypes.length).map fun i => Select.star (baseAlias aliasName i)
  let d := { d with selects := d.selects ++ .star aliasName :: bases }
  let (d, cases) ← addSubtypes s aliasName 0 e.subTypes d
  return if cases.isEmpty then d
    else { d with selects := d.selects ++ [.discriminator cases e.typeName classColumn] }

end Draft

end EntityQuery
