import EntityQuery.Find.Match

/-!
# Filters entry by entry

A filter says something of an entity, its nested filters of the entities that its relations refer to.

* `EntityFilter.only`: a filter with one entry;
* `FieldSite.Refers`: the entity that a relation refers to;
* `EntityFilter.Throughout`: a property of every entry, at the entity that it is about;
* `EntityFilter.Singular`: no entry is on a collection.
-/

namespace EntityQuery

/-- The filter with one entry. -/
def EntityFilter.only (field : String) (v : FilterValue) : EntityFilter := ⟨none, [⟨field, v⟩]⟩

/-- The name of the table of the entity that a query is for. -/
def Entity.ownAlias (e : Entity) : String := (Draft.empty.nextAlias e.tableName).1

/-- The entity that the field refers to. -/
def FieldSite.Refers (s : Setting) (site : FieldSite) (target : Entity) : Prop :=
  match site.kind with
  | .manyToOne _ other _ => s.entity other = .ok target
  | .oneToOne other _ => s.entity other = .ok target
  | .oneToMany other _ => s.entity other = .ok target
  | .manyToMany _ _ _ other _ => s.entity other = .ok target
  | _ => False

/-- A field refers to one entity. -/
theorem FieldSite.Refers.unique {s : Setting} {site : FieldSite} {target target' : Entity}
    (h : site.Refers s target) (h' : site.Refers s target') : target = target' := by
  unfold Refers at h h'
  cases hkind : site.kind <;> simp only [hkind] at h h' <;> exact Except.ok.inj (h.symm.trans h')

section

variable (s : Setting) (P : Entity → String → FilterValue → Prop)

mutual

/-- Every entry that carries a value has the property, also in the filters inside. -/
def EntityFilter.Throughout (e : Entity) : EntityFilter → Prop
  | ⟨_, fields⟩ => FieldFilter.AllThroughout e fields

def FieldFilter.AllThroughout (e : Entity) : List FieldFilter → Prop
  | [] => True
  | ⟨name, v⟩ :: rest => FilterValue.Throughout e name v ∧ FieldFilter.AllThroughout e rest

def FilterValue.Throughout (e : Entity) (name : String) : FilterValue → Prop
  | .undefined => True
  | .nested f => P e name (.nested f) ∧ ∀ site target, s.resolve e name = .ok site →
    site.Refers s target → EntityFilter.Throughout target f
  | v => P e name v

end

end

/-- The relation leads to any number of rows. -/
def FieldKind.isPlural : FieldKind → Bool
  | .oneToMany .. => true
  | .manyToMany .. => true
  | _ => false

/-- No entry is on a collection, to any depth. -/
def EntityFilter.Singular (s : Setting) (e : Entity) (f : EntityFilter) : Prop :=
  f.Throughout s (fun e name _ => ∀ site, s.resolve e name = .ok site → site.kind.isPlural = false) e

end EntityQuery
