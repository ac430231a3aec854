/-!
# Schemas

The entities of a database and how they are stored.

* `Entity`, `Field`, `FieldKind`, `Inheritance`: one entity with its fields and its place in a
  hierarchy of types;
* `Schema`: the entities, whose names are distinct and whose references all lead to one of them;
* `Schema.ofEntities`: the schema of a list of entities, or what is wrong with it;
* `Schema.entity`, `Schema.entityByTag?`: entities by name and by tag.
-/

namespace EntityQuery

/-- How the primary key of an entity is stored. -/
inductive IdType
  | int
  | uuid
  | untaggedString
  deriving DecidableEq, Repr

/-- One of the columns of a polymorphic reference, with the type that it refers to. -/
structure Component where
  column : String
  otherType : String
  deriving DecidableEq, Repr

/-- What a field is stored as. -/
inductive FieldKind
  | primaryKey
  | primitive (column dbType : String)
  | enumeration (column dbType : String)
  /-- A foreign key of this entity; a required one is never null. -/
  | manyToOne (column otherType : String) (required : Bool)
  /-- A foreign key of the other entity. -/
  | oneToMany (otherType otherColumn : String)
  /-- A junction table with a column for this entity and one for the other. -/
  | manyToMany (joinTable column otherColumn otherType junctionIdDbType : String)
  /-- A foreign key of the other entity that has at most one row. -/
  | oneToOne (otherType otherColumn : String)
  /-- One foreign key for each type that can be referred to. -/
  | polymorphic (components : List Component)
  deriving DecidableEq, Repr

/-- The name of the kind. -/
def FieldKind.name : FieldKind → String
  | .primaryKey => "primary_key"
  | .primitive .. => "primitive"
  | .enumeration .. => "enum"
  | .manyToOne .. => "many_to_one"
  | .oneToMany .. => "one_to_many"
  | .manyToMany .. => "many_to_many"
  | .oneToOne .. => "one_to_one"
  | .polymorphic .. => "polymorphic"

/-- The types that the field refers to. -/
def FieldKind.otherTypes : FieldKind → List String
  | .manyToOne _ other _ => [other]
  | .oneToMany other _ => [other]
  | .manyToMany _ _ _ other _ => [other]
  | .oneToOne other _ => [other]
  | .polymorphic components => components.map (·.otherType)
  | _ => []

/-- A field of an entity. -/
structure Field where
  name : String
  kind : FieldKind
  deriving DecidableEq, Repr

/-- The place of an entity in a hierarchy of types. -/
inductive Inheritance
  | none
  /-- One table for each type; the rows of a subtype share the ids of the rows of their base. -/
  | classTable (baseTypes subTypes : List String)
  /-- One table for all types, told apart by a column; the root has no value there. -/
  | singleTable (baseType : Option String) (discriminatorColumn : String)
      (discriminatorValue : Option Int64)
  deriving DecidableEq

/-- An entity type. -/
structure Entity where
  typeName : String
  tableName : String
  /-- What stands before the colon in a tagged id. -/
  tag : String
  idType : IdType
  idDbType : String
  fields : List Field
  /-- Rows are marked as deleted by a time instead of being removed. -/
  softDelete : Bool
  /-- The column of that time, where it is not the configured one. -/
  softDeleteColumn : Option String
  inheritance : Inheritance
  deriving DecidableEq

namespace Entity

/-- The field of a name. -/
def field? (e : Entity) (name : String) : Option Field := e.fields.find? (·.name = name)

/-- The types whose tables hold the inherited columns, the nearest one first. -/
def baseTypes (e : Entity) : List String :=
  match e.inheritance with
  | .classTable bases _ => bases
  | _ => []

/-- The types with a table of their own below this one. -/
def subTypes (e : Entity) : List String :=
  match e.inheritance with
  | .classTable _ subs => subs
  | _ => []

/-- The types that the entity inherits from or is inherited by. -/
def relatives (e : Entity) : List String :=
  match e.inheritance with
  | .none => []
  | .classTable bases subs => bases ++ subs
  | .singleTable base _ _ => base.toList

/-- All references of the entity, with the name of what makes them. -/
def references (e : Entity) : List (String × String) :=
  (e.fields.flatMap fun f => f.kind.otherTypes.map (f.name, ·)) ++
    e.relatives.map ("inheritance", ·)

end Entity

/-- What can be wrong with a schema, or with a question put to it. -/
inductive SchemaError
  | unknownEntity (typeName : String)
  | unknownField (entity field : String)
  | danglingReference (entity field otherType : String)
  | duplicateEntity (typeName : String)
  | unreadable (reason : String)
  | malformed
  deriving DecidableEq, Repr

/-- The wording of the error. -/
def SchemaError.message : SchemaError → String
  | .unknownEntity typeName => "No entity metadata found for `" ++ typeName ++ "`"
  | .unknownField entity field => "Entity `" ++ entity ++ "` has no field `" ++ field ++ "`"
  | .danglingReference entity field otherType =>
    "Entity `" ++ entity ++ "` field `" ++ field ++ "` references unknown type `" ++ otherType ++
      "`"
  | .duplicateEntity typeName => "Entity `" ++ typeName ++ "` is defined more than once"
  | .unreadable reason => "Failed to read schema file: " ++ reason
  | .malformed => "Failed to parse schema"

/-- Why a file that does not exist cannot be read. -/
def noSuchFile : String := "No such file or directory (os error 2)"

/-- The first name that occurs a second time. -/
def firstDuplicate? (seen : List String) : List String → Option String
  | [] => none
  | n :: rest => if n ∈ seen then some n else firstDuplicate? (n :: seen) rest

/-- The first reference of an entity that leads to none of the names. -/
def Entity.dangling? (names : List String) (e : Entity) : Option SchemaError :=
  (e.references.find? fun r => r.2 ∉ names).map fun r => .danglingReference e.typeName r.1 r.2

/-- What is wrong with a list of entities: a name that is taken twice, else a dangling reference. -/
def schemaFault? (entities : List Entity) : Option SchemaError :=
  let names := entities.map (·.typeName)
  match firstDuplicate? [] names with
  | some name => some (.duplicateEntity name)
  | none => entities.findSome? (·.dangling? names)

/-- Entities with distinct names whose references all lead to one of them. -/
structure Schema where
  entities : List Entity
  sound : schemaFault? entities = none

namespace Schema

/-- The schema of a list of entities. -/
def ofEntities (entities : List Entity) : Except SchemaError Schema :=
  match h : schemaFault? entities with
  | some e => .error e
  | none => .ok ⟨entities, h⟩

/-- The entity of a name, if there is one. -/
def entity? (s : Schema) (typeName : String) : Option Entity :=
  s.entities.find? (·.typeName = typeName)

/-- The entity of a name. -/
def entity (s : Schema) (typeName : String) : Except SchemaError Entity :=
  match s.entity? typeName with
  | some e => .ok e
  | none => .error (.unknownEntity typeName)

/-- The first entity with a tag; the others of that tag are its subtypes. -/
def entityByTag? (s : Schema) (tag : String) : Option Entity := s.entities.find? (·.tag = tag)

theorem typeName_of_entity? {s : Schema} {name : String} {e : Entity}
    (h : s.entity? name = some e) : e.typeName = name := by
  simpa using List.find?_some h

theorem mem_of_entity? {s : Schema} {name : String} {e : Entity} (h : s.entity? name = some e) :
    e ∈ s.entities := List.mem_of_find?_eq_some h

theorem mem_of_entity {s : Schema} {name : String} {e : Entity} (h : s.entity name = .ok e) :
    e ∈ s.entities := by
  unfold entity at h
  split at h
  · next he => exact Except.ok.inj h ▸ mem_of_entity? he
  · cases h

/-- A reference leads to an entity. -/
theorem exists_entity_of_reference {s : Schema} {e : Entity} (he : e ∈ s.entities)
    {r : String × String} (hr : r ∈ e.references) : ∃ target, s.entity r.2 = .ok target := by
  have hsound := s.sound
  unfold schemaFault? at hsound
  simp only at hsound
  split at hsound
  · cases hsound
  have hdangling := List.findSome?_eq_none_iff.1 hsound e he
  rw [Entity.dangling?, Option.map_eq_none_iff, List.find?_eq_none] at hdangling
  have hnamed : r.2 ∈ s.entities.map (·.typeName) := by simpa using hdangling r hr
  obtain ⟨target, htarget, hname⟩ := List.mem_map.1 hnamed
  have hfound : (s.entity? r.2).isSome = true :=
    List.find?_isSome.2 ⟨target, htarget, decide_eq_true hname⟩
  obtain ⟨found, hfound⟩ := Option.isSome_iff_exists.1 hfound
  exact ⟨found, by rw [entity, hfound]⟩

end Schema

end EntityQuery
