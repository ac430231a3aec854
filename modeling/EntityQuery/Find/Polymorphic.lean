import EntityQuery.Find.Draft

/-!
# Polymorphic references

A polymorphic field has one column for each type that it can refer to, all of them null but one.
A predicate on the reference becomes predicates on these columns.

* `Target`: a column with the entity that it refers to;
* `Target.identify`: the column that an id belongs to, and its stored form;
* `Draft.addPolymorphic`: the conditions for a predicate on a reference.
-/

namespace EntityQuery

/-- A column of a polymorphic field, with the entity that it refers to. -/
structure Target where
  column : String
  entity : Entity

namespace Target

/-- The columns of a polymorphic field with their entities. -/
def ofComponents (s : Setting) (components : List Component) : Except PlanError (List Target) :=
  components.mapM fun c => return ⟨c.column, ← s.entity c.otherType⟩

/-- A predicate on the column. -/
def condition (t : Target) (aliasName : String) (p : Predicate) : ColumnCondition :=
  .asked aliasName t.column t.entity.idDbType p

/-- The position of the column that a tagged id or an unsaved entity belongs to. -/
def position? (targets : List Target) : Value → Option Nat
  | .text s =>
    match splitTag? s with
    | some (tag, _) => targets.findIdx? (·.entity.tag = tag)
    | none => none
  | .newEntity typeName => targets.findIdx? (·.entity.typeName = typeName)
  | _ => none

/-- The position of the column that a value belongs to, the column and the stored form. -/
def identify (targets : List Target) (field : String) (nil : NilIds) (v : Value) :
    Except PlanError (Nat × Target × Value) :=
  match (position? targets v).bind fun i => (targets[i]?).map (i, ·) with
  | some (i, t) => do return (i, t, ← t.entity.parseId nil v)
  | none => invalidId v ("does not identify a component of polymorphic field " ++ field)

/-- The columns that some of the values belong to, with the stored forms of these. -/
def grouped (targets : List Target) (field : String) (nil : NilIds) (vs : List Value) :
    Except PlanError (List (Target × List Value)) := do
  let ids ← (withoutNulls vs).mapM (identify targets field nil)
  return (targets.zipIdx.map fun (t, i) =>
    (t, (ids.filter (·.1 = i)).map (·.2.2))).filter fun r => !r.2.isEmpty

/-- Conditions on all columns. -/
def conditions (targets : List Target) (aliasName : String) (p : Predicate) : List Condition :=
  targets.map fun t => .column (t.condition aliasName p)

end Target

/-- The conditions for a predicate on a polymorphic reference: the reference is null when all
columns are, and it differs from an id also when it is of another type. -/
def Draft.addPolymorphic (d : Draft) (s : Setting) (aliasName field : String)
    (components : List Component) (p : Predicate) : Except PlanError Draft := do
  let targets ← Target.ofComponents s components
  let nil := s.config.nilIds
  match p with
  | .isNull => return targets.foldl (fun d t => d.addColumn (t.condition aliasName .isNull)) d
  | .notNull => return d.addGroup (.any (Target.conditions targets aliasName .notNull))
  | .compare .eq v =>
    let (_, t, id) ← Target.identify targets field nil v
    return d.addColumn (t.condition aliasName (.eq id))
  | .compare .ne v =>
    let (_, t, id) ← Target.identify targets field nil v
    return d.addGroup (.any [.column (t.condition aliasName (.ne id)),
      .column (t.condition aliasName .isNull)])
  | .isIn vs =>
    let null := if vs.any Value.isNull then
      [Condition.all (Target.conditions targets aliasName .isNull)] else []
    let groups ← Target.grouped targets field nil vs
    return d.addGroup (.any (null ++ groups.map fun (t, ids) =>
      .column (t.condition aliasName (.isIn ids))))
  | .notIn vs =>
    let d := if vs.any Value.isNull then
      d.addGroup (.any (Target.conditions targets aliasName .notNull)) else d
    let groups ← Target.grouped targets field nil vs
    return groups.foldl (fun d (t, ids) =>
      d.addGroup (.any [.column (t.condition aliasName .isNull),
        .column (t.condition aliasName (.notIn ids))])) d
  | p => .error (.unsupportedPredicate p.kind (aliasName ++ "." ++ field))

end EntityQuery
