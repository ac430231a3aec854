import EntityQuery.Find.Polymorphic

/-!
# Matching filters

The entries of a filter become conditions.  An entry on a relation is a condition on the column that
holds the id where that is enough; otherwise the related table is joined and the nested filter is
matched on it.

* `Asked`: what is asked of a field, predicates or a nested filter;
* `Draft.matchField`: the conditions of one entry;
* `EntityFilter.match`: the conditions of a filter.
-/

namespace EntityQuery

/-- A nested filter: what it asks of the id alone, and how it is matched on a table. -/
structure NestedFilter where
  aliasName : Option String
  /-- It asks for nothing but the id. -/
  onlyId : Bool
  idPredicates : List Predicate
  matchOn : Entity → (aliasName : String) → (outer : Bool) → Draft → Except PlanError Draft

/-- What is asked of a field. -/
inductive Asked
  | predicates (ps : List Predicate)
  | nested (f : NestedFilter)

/-- The predicates that are asked of a field that is no relation. -/
def Asked.onValue (e : Entity) (field : String) : Asked → Except PlanError (List Predicate)
  | .predicates ps => .ok ps
  | .nested _ => .error (.unsupportedFilter e.typeName field "sub-filter")

/-- The predicates that a filter asks of the id. -/
def EntityFilter.idPredicates (f : EntityFilter) : List Predicate :=
  ((f.get? "id").bind FilterValue.predicates?).getD []

/-- The filter asks for nothing but the id. -/
def EntityFilter.onlyId (f : EntityFilter) : Bool := f.definedFields.all (· = "id")

/-- A nested filter has to be matched on the table of the related entity: it names the table, asks
for another field than the id, or the rows can be marked as deleted. -/
def NestedFilter.needsJoin (f : NestedFilter) (s : Setting) (e : Entity) :
    Except PlanError Bool := do
  if f.aliasName.isSome || !f.onlyId then return true
  else return (← s.deletion? e).isSome

namespace Draft

/-- Predicates on a column that holds ids of an entity. -/
def addIds (s : Setting) (target : Entity) (aliasName column : String) :
    List Predicate → Draft → Except PlanError Draft
  | [], d => .ok d
  | p :: rest, d => do
    let parsed ← p.forId target s.config.nilIds (aliasName ++ "." ++ column)
    let c := ColumnCondition.asked aliasName column target.idDbType parsed
    addIds s target aliasName column rest (d.addColumn c)

/-- Predicates on a junction: tests for null look at the junction row, all others at the column of
the related entity's id. -/
def addJunctionIds (s : Setting) (target : Entity) (aliasName idDbType column : String) :
    List Predicate → Draft → Except PlanError Draft
  | [], d => .ok d
  | .isNull :: rest, d =>
    addJunctionIds s target aliasName idDbType column rest
      (d.addColumn (.asked aliasName "id" idDbType .isNull))
  | .notNull :: rest, d =>
    addJunctionIds s target aliasName idDbType column rest
      (d.addColumn (.asked aliasName "id" idDbType .notNull))
  | p :: rest, d => do
    let d ← addIds s target aliasName column [p] d
    addJunctionIds s target aliasName idDbType column rest d

/-- The join of a related entity on its id, with the nested filter matched on it. -/
def joinTarget (d : Draft) (s : Setting) (target : Entity) (parent : ColumnRef) (kind : JoinKind)
    (f : NestedFilter) : Except PlanError Draft := do
  let (aliasName, d) := d.nextAlias target.tableName
  let d ← d.addEntity s target
    (.join ⟨aliasName, target.tableName, kind, parent, ⟨aliasName, "id"⟩, none⟩)
  f.matchOn target aliasName (kind = .outer) d

/-- An entry on a foreign key of this entity. -/
def matchManyToOne (d : Draft) (s : Setting) (target : Entity) (parent : ColumnRef)
    (needed outer : Bool) : Asked → Except PlanError Draft
  | .predicates ps => addIds s target parent.aliasName parent.column ps d
  | .nested f => do
    if ← f.needsJoin s target then
      d.joinTarget s target parent (if needed && !outer then .inner else .outer) f
    else addIds s target parent.aliasName parent.column f.idPredicates d

/-- An entry on a foreign key of the related entity. -/
def matchReferrer (d : Draft) (s : Setting) (target : Entity) (aliasName otherColumn : String)
    (collection : Bool) (asked : Asked) : Except PlanError Draft := do
  let (own, d) := d.nextAlias target.tableName
  let join : Join := ⟨own, target.tableName, .outer, ⟨aliasName, "id"⟩, ⟨own, otherColumn⟩, none⟩
  let d := if collection then d.addCollection join else d
  let d ← d.addEntity s target (.join join)
  match asked with
  | .predicates ps => addIds s target own "id" ps d
  | .nested f => f.matchOn target own true d

/-- An entry on a junction. -/
def matchManyToMany (d : Draft) (s : Setting) (target : Entity)
    (aliasName joinTable column otherColumn idDbType : String) (asked : Asked) :
    Except PlanError Draft := do
  let (own, d) := d.nextAlias joinTable
  let join : Join := ⟨own, joinTable, .outer, ⟨aliasName, "id"⟩, ⟨own, column⟩, none⟩
  let d := (d.addCollection join).addTable (.join join) idDbType
  match asked with
  | .predicates ps => addJunctionIds s target own idDbType otherColumn ps d
  | .nested f =>
    if ← f.needsJoin s target then d.joinTarget s target ⟨own, otherColumn⟩ .outer f
    else addJunctionIds s target own idDbType otherColumn f.idPredicates d

/-- The predicates of an entry on a polymorphic reference, which can only be asked for its id. -/
def polymorphicPredicates (e : Entity) (field : String) : Asked → Except PlanError (List Predicate)
  | .predicates ps => .ok ps
  | .nested f =>
    if f.aliasName.isNone && f.onlyId then .ok f.idPredicates
    else .error (.joinThroughPolymorphic e.typeName field)

/-- The conditions of one entry.  `outer` says that the entity's table may have no row. -/
def matchField (d : Draft) (s : Setting) (e : Entity) (aliasName : String) (outer : Bool)
    (name : String) (asked : Asked) : Except PlanError Draft := do
  let site ← s.resolve e name
  let columnAlias := site.columnAlias aliasName
  match site.kind with
  | .primaryKey => addIds s e aliasName "id" (← asked.onValue e name) d
  | .primitive column dbType =>
    return (← asked.onValue e name).foldl
      (fun d p => d.addColumn (.asked columnAlias column dbType p)) d
  | .enumeration column dbType =>
    return (← asked.onValue e name).foldl
      (fun d p => d.addColumn (.asked columnAlias column dbType p)) d
  | .manyToOne column other needed =>
    d.matchManyToOne s (← s.entity other) ⟨columnAlias, column⟩ needed outer asked
  | .oneToOne other otherColumn =>
    d.matchReferrer s (← s.entity other) aliasName otherColumn false asked
  | .oneToMany other otherColumn =>
    d.matchReferrer s (← s.entity other) aliasName otherColumn true asked
  | .manyToMany joinTable column otherColumn other idDbType =>
    d.matchManyToMany s (← s.entity other) aliasName joinTable column otherColumn idDbType asked
  | .polymorphic components =>
    (← polymorphicPredicates e name asked).foldlM
      (fun d p => d.addPolymorphic s columnAlias name components p) d

end Draft

mutual

/-- The conditions of a filter for the entity whose table is `alias`. -/
def EntityFilter.match (s : Setting) (e : Entity) (aliasName : String) (outer : Bool) :
    EntityFilter → Draft → Except PlanError Draft
  | ⟨none, fields⟩, d => FieldFilter.matchAll s e aliasName outer fields d
  | ⟨some name, fields⟩, d =>
    FieldFilter.matchAll s e aliasName outer fields (d.bind name aliasName e)

/-- The conditions of entries. -/
def FieldFilter.matchAll (s : Setting) (e : Entity) (aliasName : String) (outer : Bool) :
    List FieldFilter → Draft → Except PlanError Draft
  | [], d => .ok d
  | ⟨name, v⟩ :: rest, d => do
    let d ← FilterValue.match s e aliasName outer name v d
    FieldFilter.matchAll s e aliasName outer rest d

/-- The conditions of one entry; a binding is a nested filter that asks for nothing. -/
def FilterValue.match (s : Setting) (e : Entity) (aliasName : String) (outer : Bool)
    (name : String) : FilterValue → Draft → Except PlanError Draft
  | .undefined, d => .ok d
  | .scalar v, d => d.matchField s e aliasName outer name (.predicates [(Predicate.eq v).normalize])
  | .list vs, d => d.matchField s e aliasName outer name (.predicates [.isIn vs])
  | .operators ps, d =>
    d.matchField s e aliasName outer name (.predicates (ps.map Predicate.normalize))
  | .nested f, d =>
    d.matchField s e aliasName outer name (.nested ⟨f.aliasName, f.onlyId, f.idPredicates,
      fun target own outer d => EntityFilter.match s target own outer f d⟩)
  | .binding user, d =>
    d.matchField s e aliasName outer name (.nested ⟨some user, true, [],
      fun target own _ d => .ok (d.bind user own target)⟩)

end

end EntityQuery
