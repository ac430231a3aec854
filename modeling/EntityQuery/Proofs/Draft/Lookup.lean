import EntityQuery.Proofs.Draft.Match
import EntityQuery.Proofs.Draft.Step

/-!
# Lookups that succeed

In a schema every reference leads to an entity, so the tables of an entity can always be joined and
its columns shown.

* `Setting.exists_baseJoins`, `Setting.exists_deletion?`: what is looked up for an entity is found;
* `Draft.exists_addEntity`, `Draft.exists_ofQuery_empty`: the drafts that are made of it.
-/

namespace EntityQuery

namespace Schema

variable {schema : Schema} {e : Entity}

/-- The type that a field refers to is there. -/
theorem exists_entity_of_declares {kind : FieldKind} (h : schema.Declares kind) {other : String}
    (hother : other ∈ kind.otherTypes) : ∃ target, schema.entity other = .ok target := by
  obtain rfl | ⟨e, he, f, hf, rfl⟩ := h
  · cases hother
  · have hr : (f.name, other) ∈ e.references :=
      List.mem_append_left _ (List.mem_flatMap.2 ⟨f, hf, List.mem_map_of_mem hother⟩)
    exact exists_entity_of_reference he hr

end Schema

namespace Setting

variable {s : Setting} {e : Entity}

theorem entity_eq_ok {typeName : String} (h : s.schema.entity typeName = .ok e) :
    s.entity typeName = .ok e := by
  rw [entity, h]
  rfl

theorem resolve_eq_ok {name : String} {site : FieldSite} (h : s.schema.resolve e name = .ok site) :
    s.resolve e name = .ok site := by
  rw [resolve, h]
  rfl

/-- Every entity has an id. -/
theorem resolve_id : s.resolve e "id" = .ok ⟨"id", .primaryKey, e, none⟩ := by
  apply resolve_eq_ok
  unfold Schema.resolve Schema.resolveWithin
  rw [if_pos rfl]

theorem exists_entity {typeName : String} (h : ∃ target, s.schema.entity typeName = .ok target) :
    ∃ target, s.entity typeName = .ok target := h.imp fun _ => entity_eq_ok

theorem exists_entity_of_relative (he : e ∈ s.schema.entities) {typeName : String}
    (h : typeName ∈ e.relatives) : ∃ target, s.entity typeName = .ok target := by
  have hr : ("inheritance", typeName) ∈ e.references :=
    List.mem_append_right _ (List.mem_map_of_mem h)
  exact exists_entity (Schema.exists_entity_of_reference he hr)

theorem mem_relatives_of_baseTypes {typeName : String} (h : typeName ∈ e.baseTypes) :
    typeName ∈ e.relatives := by
  unfold Entity.baseTypes at h
  unfold Entity.relatives
  split at h
  · next hinheritance =>
    rw [hinheritance]
    exact List.mem_append_left _ h
  · cases h

theorem mem_relatives_of_subTypes {typeName : String} (h : typeName ∈ e.subTypes) :
    typeName ∈ e.relatives := by
  unfold Entity.subTypes at h
  unfold Entity.relatives
  split at h
  · next hinheritance =>
    rw [hinheritance]
    exact List.mem_append_right _ h
  · cases h

theorem exists_baseJoins {bases : List String}
    (h : ∀ base ∈ bases, ∃ b, s.entity base = .ok b) {a : String} {kind : JoinKind} {i : Nat} :
    ∃ joins, s.baseJoins a kind i bases = .ok joins := by
  induction bases generalizing i with
  | nil => exact ⟨_, rfl⟩
  | cons base bases ih =>
    obtain ⟨hb, hbases⟩ := List.forall_mem_cons.1 h
    exact exists_bind_eq_ok hb fun _ _ => exists_bind_eq_ok (ih hbases) fun _ _ => ⟨_, rfl⟩

theorem exists_deletionOnBases {bases : List String}
    (h : ∀ base ∈ bases, ∃ b, s.entity base = .ok b) {i : Nat} :
    ∃ deletion, s.deletionOnBases i bases = .ok deletion := by
  induction bases generalizing i with
  | nil => exact ⟨_, rfl⟩
  | cons base bases ih =>
    obtain ⟨hb, hbases⟩ := List.forall_mem_cons.1 h
    refine exists_bind_eq_ok hb fun b _ => ?_
    cases b.softDelete with
    | true => exact ⟨_, rfl⟩
    | false => exact ih hbases

theorem exists_deletion? (he : e ∈ s.schema.entities) :
    ∃ deletion, s.deletion? e = .ok deletion := by
  have hrelative := fun typeName => @exists_entity_of_relative s e he typeName
  unfold deletion?
  split_ifs
  · exact ⟨_, rfl⟩
  · exact ⟨_, rfl⟩
  · cases hinheritance : e.inheritance with
    | none => exact ⟨_, rfl⟩
    | classTable bases subs =>
      refine exists_deletionOnBases fun base hbase => hrelative base ?_
      rw [Entity.relatives, hinheritance]
      exact List.mem_append_left _ hbase
    | singleTable base column value =>
      cases base with
      | none => exact ⟨_, rfl⟩
      | some base =>
        refine exists_bind_eq_ok (hrelative base ?_) fun _ _ => ⟨_, rfl⟩
        rw [Entity.relatives, hinheritance]
        exact List.mem_singleton_self base

end Setting

namespace Draft

variable {s : Setting} {e : Entity} {a : String} {d : Draft}

theorem exists_addEntity (he : e ∈ s.schema.entities) (d : Draft) (t : Table) :
    ∃ d', d.addEntity s e t = .ok d' := by
  refine exists_bind_eq_ok (Setting.exists_baseJoins fun base hbase => ?_) fun _ _ =>
    exists_bind_eq_ok (Setting.exists_deletion? he) fun _ _ => ⟨_, rfl⟩
  exact Setting.exists_entity_of_relative he (Setting.mem_relatives_of_baseTypes hbase)

theorem exists_addSubtypes {subs : List String} (h : ∀ sub ∈ subs, ∃ b, s.entity sub = .ok b)
    {i : Nat} : ∃ r, addSubtypes s a i subs d = .ok r := by
  induction subs generalizing i d with
  | nil => exact ⟨_, rfl⟩
  | cons sub subs ih =>
    obtain ⟨hb, hsubs⟩ := List.forall_mem_cons.1 h
    exact exists_bind_eq_ok hb fun _ _ => exists_bind_eq_ok (ih hsubs) fun _ _ => ⟨_, rfl⟩

theorem exists_addSelects (he : e ∈ s.schema.entities) : ∃ d', d.addSelects s e a = .ok d' := by
  refine exists_bind_eq_ok (exists_addSubtypes fun sub hsub => ?_) fun _ _ => ⟨_, rfl⟩
  exact Setting.exists_entity_of_relative he (Setting.mem_relatives_of_subTypes hsub)

/-- A query without filter has a draft. -/
theorem exists_ofQuery_empty (he : e ∈ s.schema.entities) :
    ∃ r, Draft.ofQuery s e .empty none = .ok r :=
  exists_bind_eq_ok (exists_addEntity he _ _) fun _ _ =>
    exists_bind_eq_ok (exists_addSelects he) fun _ _ => ⟨_, rfl⟩

end Draft

end EntityQuery
