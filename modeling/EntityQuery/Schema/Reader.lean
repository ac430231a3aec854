import EntityQuery.Schema.Basic
import EntityQuery.Yaml.View

/-!
# Schema documents

How a schema is written.

* `Schema.decode`: the schema of a document in any format; `Schema.ofYaml`: that of a YAML text;
  `Schema.ofFile`: that of a file;
* `Entity.toJson`: an entity with every member written.
-/

namespace EntityQuery

open Document

/-- The name of an id type. -/
def IdType.name : IdType → String
  | .int => "int"
  | .uuid => "uuid"
  | .untaggedString => "untagged_string"

/-- The id type of a name. -/
def IdType.ofName? : String → Option IdType
  | "int" => some .int
  | "uuid" => some .uuid
  | "untagged_string" => some .untaggedString
  | _ => none

/-- The column type of ids that are not said to have another one. -/
def defaultIdDbType : String := "int"

/-! ### Reading -/

namespace FieldKind

/-- A component of a polymorphic reference. -/
def decodeComponent? (d : Settled) : Option Component :=
  match record? ["column", "other_type"] 2 d with
  | some [some column, some other] => do return ⟨← text? column, ← text? other⟩
  | _ => none

/-- A kind of that name with its members. -/
def decodeAs? (kind : String) (d : Settled) : Option FieldKind :=
  match kind with
  | "primary_key" => if d.isBare then some .primaryKey else none
  | "primitive" =>
    match record? ["column", "db_type"] 2 d with
    | some [some column, some dbType] => do return .primitive (← text? column) (← text? dbType)
    | _ => none
  | "enum" =>
    match record? ["column", "db_type"] 2 d with
    | some [some column, some dbType] => do return .enumeration (← text? column) (← text? dbType)
    | _ => none
  | "many_to_one" =>
    match record? ["column", "other_type", "required"] 2 d with
    | some [some column, some other, needed] => do
      return .manyToOne (← text? column) (← text? other) (← orElse false bool? needed)
    | _ => none
  | "one_to_many" =>
    match record? ["other_type", "other_column"] 2 d with
    | some [some other, some column] => do return .oneToMany (← text? other) (← text? column)
    | _ => none
  | "many_to_many" =>
    match record? ["join_table", "column", "other_column", "other_type", "junction_id_db_type"]
      4 d with
    | some [some table, some column, some otherColumn, some other, idType] => do
      return .manyToMany (← text? table) (← text? column) (← text? otherColumn) (← text? other)
        (← orElse defaultIdDbType text? idType)
    | _ => none
  | "one_to_one" =>
    match record? ["other_type", "other_column"] 2 d with
    | some [some other, some column] => do return .oneToOne (← text? other) (← text? column)
    | _ => none
  | "polymorphic" =>
    match record? ["components"] 1 d with
    | some [some components] => (list? decodeComponent? components).map .polymorphic
    | _ => none
  | _ => none

/-- The names of the kinds, in the order in which they are counted. -/
def names : List String :=
  ["primary_key", "primitive", "enum", "many_to_one", "one_to_many", "many_to_many", "one_to_one",
    "polymorphic"]

/-- A kind under its name. -/
def decode? (d : Settled) : Option FieldKind :=
  (tagged? "kind" names d).bind fun r => decodeAs? r.1 r.2

end FieldKind

/-- A field: its name beside the members of its kind. -/
def Field.decode? {δ : Type} [Document δ] (d : δ) : Option Field :=
  match members? d with
  | none => none
  | some members =>
    match members.filter (·.1 = .name "name") with
    | [(_, name)] => do
      let others ← (members.filter (·.1 ≠ .name "name")).mapM fun m =>
        (settled? m.2).map (m.1.settled, ·)
      return ⟨← text? name, ← FieldKind.decode? (.map others)⟩
    | _ => none

namespace Inheritance

/-- A strategy of that name with its members. -/
def decodeAs? (strategy : String) (d : Settled) : Option Inheritance :=
  match strategy with
  | "none" => if d.isBare then some .none else Option.none
  | "class_table" =>
    match record? ["base_types", "sub_types"] 0 d with
    | some [bases, subs] => do
      return .classTable (← orElse [] (list? text?) bases) (← orElse [] (list? text?) subs)
    | _ => Option.none
  | "single_table" =>
    match record? ["base_type", "discriminator_column", "discriminator_value"] 2 d with
    | some [base, some column, value] => do
      return .singleTable (← optional text? base) (← text? column) (← optional int64? value)
    | _ => Option.none
  | _ => Option.none

/-- The names of the strategies, in the order in which they are counted. -/
def names : List String := ["none", "class_table", "single_table"]

/-- A strategy under its name. -/
def decode? {δ : Type} [Document δ] (d : δ) : Option Inheritance :=
  (tagged? "strategy" names d).bind fun r => decodeAs? r.1 r.2

end Inheritance

/-- An entity; what is not said takes its default. -/
def Entity.decode? {δ : Type} [Document δ] (d : δ) : Option Entity :=
  match record? ["type_name", "table_name", "tag", "id_type", "id_db_type", "fields", "soft_delete",
      "soft_delete_column", "inheritance"] 3 d with
  | some [some typeName, some tableName, some tag, idType, idDbType, fields, softDelete,
      softDeleteColumn, inheritance] => do
    return {
      typeName := ← text? typeName
      tableName := ← text? tableName
      tag := ← text? tag
      idType := ← orElse .int (fun d => (name? d).bind IdType.ofName?) idType
      idDbType := ← orElse defaultIdDbType text? idDbType
      fields := ← orElse [] (list? Field.decode?) fields
      softDelete := ← orElse false bool? softDelete
      softDeleteColumn := ← optional text? softDeleteColumn
      inheritance := ← orElse .none Inheritance.decode? inheritance }
  | _ => none

/-- The entities of a document. -/
def Schema.decodeEntities? {δ : Type} [Document δ] (d : δ) : Option (List Entity) :=
  match record? ["entities"] 1 d with
  | some [some entities] => list? Entity.decode? entities
  | _ => none

/-- The schema of a document. -/
def Schema.decode {δ : Type} [Document δ] (d : δ) : Except SchemaError Schema :=
  match Schema.decodeEntities? d with
  | some entities => Schema.ofEntities entities
  | none => .error .malformed

/-- The schema of a YAML text. -/
def Schema.ofYaml (text : String) : Except SchemaError Schema :=
  match Yaml.parse? text with
  | some y => Schema.decode y
  | none => .error .malformed

/-- The schema of a file, whose content is missing when it cannot be found. -/
def Schema.ofFile : Option String → Except SchemaError Schema
  | some text => Schema.ofYaml text
  | none => .error (.unreadable noSuchFile)

/-! ### Writing -/

/-- The members of a kind, its name first. -/
def FieldKind.members (kind : FieldKind) : List (String × Json) :=
  ("kind", .str kind.name) ::
    match kind with
    | .primaryKey => []
    | .primitive column dbType => [("column", .str column), ("db_type", .str dbType)]
    | .enumeration column dbType => [("column", .str column), ("db_type", .str dbType)]
    | .manyToOne column other needed =>
      [("column", .str column), ("other_type", .str other), ("required", .bool needed)]
    | .oneToMany other column => [("other_type", .str other), ("other_column", .str column)]
    | .manyToMany table column otherColumn other idType =>
      [("join_table", .str table), ("column", .str column), ("other_column", .str otherColumn),
        ("other_type", .str other), ("junction_id_db_type", .str idType)]
    | .oneToOne other column => [("other_type", .str other), ("other_column", .str column)]
    | .polymorphic components =>
      [("components", .arr (components.map fun c =>
        .obj [("column", .str c.column), ("other_type", .str c.otherType)]))]

/-- A field kind as a document. -/
def FieldKind.toJson (kind : FieldKind) : Json := .obj kind.members

/-- A field as a document. -/
def Field.toJson (f : Field) : Json := .obj (("name", .str f.name) :: f.kind.members)

/-- A place in a hierarchy as a document. -/
def Inheritance.toJson : Inheritance → Json
  | .none => .obj [("strategy", .str "none")]
  | .classTable bases subs =>
    .obj [("strategy", .str "class_table"), ("base_types", .strs bases), ("sub_types", .strs subs)]
  | .singleTable base column value =>
    .obj [("strategy", .str "single_table"), ("base_type", .ofOption .str base),
      ("discriminator_column", .str column),
      ("discriminator_value", .ofOption (fun v => .int v.toInt) value)]

/-- An entity as a document, every member written. -/
def Entity.toJson (e : Entity) : Json :=
  .obj [("type_name", .str e.typeName), ("table_name", .str e.tableName), ("tag", .str e.tag),
    ("id_type", .str e.idType.name), ("id_db_type", .str e.idDbType),
    ("fields", .arr (e.fields.map Field.toJson)), ("soft_delete", .bool e.softDelete),
    ("soft_delete_column", .ofOption .str e.softDeleteColumn),
    ("inheritance", e.inheritance.toJson)]

end EntityQuery
