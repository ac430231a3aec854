import EntityQuery.Schema.Basic

/-!
# Field lookup

A field is looked up on an entity, then on the types it inherits from: the columns of class-table
bases are on tables of their own, those of single-table bases on the entity's own table.

* `FieldSite`: a field with the entity that declares it and the table that holds it;
* `Schema.resolve`: the site of a field name.
-/

namespace EntityQuery

/-- A field, where it is declared and on which table it is. -/
structure FieldSite where
  name : String
  kind : FieldKind
  owner : Entity
  /-- The position among the class-table bases of the table that holds the column. -/
  baseIndex : Option Nat
  deriving DecidableEq

/-- The alias of the table of the base at a position. -/
def baseAlias (aliasName : String) (i : Nat) : String := aliasName ++ "_b" ++ toString i

/-- The alias of the table of the subtype at a position. -/
def subAlias (aliasName : String) (i : Nat) : String := aliasName ++ "_s" ++ toString i

/-- The alias of the table that holds the field, for an entity of the given alias. -/
def FieldSite.columnAlias (site : FieldSite) (aliasName : String) : String :=
  match site.baseIndex with
  | some i => baseAlias aliasName i
  | none => aliasName

namespace Schema

/-- The field on the first of the class-table bases that declares it, counted from `i`. -/
def resolveOnBases (s : Schema) (e : Entity) (name : String) :
    Nat → List String → Except SchemaError FieldSite
  | _, [] => .error (.unknownField e.typeName name)
  | i, base :: rest => do
    let b ← s.entity base
    match b.field? name with
    | some f => return ⟨name, f.kind, b, some i⟩
    | none => resolveOnBases s e name (i + 1) rest

/-- The field as seen from an entity that shares the table: no base table, and the entity's own name
in the error. -/
def inSharedTable (e : Entity) (name : String) :
    Except SchemaError FieldSite → Except SchemaError FieldSite
  | .ok site => .ok { site with baseIndex := none }
  | .error (.unknownField _ _) => .error (.unknownField e.typeName name)
  | .error err => .error err

/-- The site of a field, at most `depth` single-table bases away. -/
def resolveWithin (s : Schema) : Nat → Entity → String → Except SchemaError FieldSite
  | depth, e, name =>
    if name = "id" then .ok ⟨name, .primaryKey, e, none⟩
    else match e.field? name with
      | some f => .ok ⟨name, f.kind, e, none⟩
      | none =>
        match e.inheritance with
        | .classTable bases _ => s.resolveOnBases e name 0 bases
        | .singleTable (some base) _ _ =>
          match depth with
          | 0 => .error (.unknownField e.typeName name)
          | depth + 1 => do
            let b ← s.entity base
            inSharedTable e name (s.resolveWithin depth b name)
        | _ => .error (.unknownField e.typeName name)

/-- The site of a field name.  There are no more single-table bases than entities, so the walk ends
also where they form a cycle. -/
def resolve (s : Schema) (e : Entity) (name : String) : Except SchemaError FieldSite :=
  s.resolveWithin s.entities.length e name

end Schema

end EntityQuery
