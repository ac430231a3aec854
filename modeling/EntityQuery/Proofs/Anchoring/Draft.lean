import EntityQuery.Proofs.Draft.Step

/-!
# Inner joins of drafts

An inner join drops the rows that have no partner.  So it may be joined only to a table that has a
row wherever the primary one has: to the primary table or to that of another inner join.  A filter is
matched with a flag that says whether its table may have no row; where the flag is down, the table
and those of its bases are such tables.

* `Table.isRequired`, `Table.required`: the primary table and inner joins;
* `Table.Anchored`: each inner join is joined to one of these in front of it;
* `Draft.Anchors`: a draft with more tables, whose inner joins are joined in this way;
* `EntityFilter.anchors_match`: matching a filter;
* `Draft.anchored_ofQuery`: the draft of a query.
-/

namespace EntityQuery

namespace Table

/-- The table has a row wherever the primary one has. -/
def isRequired : Table → Bool
  | .primary _ _ => true
  | .join j => j.kind = .inner
  | _ => false

/-- The names of the tables that have a row wherever the primary one has. -/
def required (ts : List Table) : List String := (ts.filter isRequired).map aliasName

/-- The tables that have a row wherever the primary one has are joined to such tables in front of
them. -/
def Anchored (ts : List Table) : Prop := ScopedAll [] (ts.filter isRequired)

variable {ts ts' : List Table} {js : List Join} {j : Join}

theorem required_append : required (ts ++ ts') = required ts ++ required ts' := by
  simp [required]

theorem anchored_append : Anchored (ts ++ ts') ↔
    Anchored ts ∧ ScopedAll (required ts) (ts'.filter isRequired) := by
  rw [Anchored, List.filter_append, scopedAll_append, List.nil_append]
  rfl

theorem filter_isRequired_outer (h : ∀ j ∈ js, j.kind = .outer) :
    (js.map Table.join).filter isRequired = [] := by
  rw [List.filter_eq_nil_iff]
  intro t ht
  obtain ⟨j, hj, rfl⟩ := List.mem_map.1 ht
  simp [isRequired, h j hj]

theorem filter_isRequired_inner (h : ∀ j ∈ js, j.kind = .inner) :
    (js.map Table.join).filter isRequired = js.map .join := by
  rw [List.filter_eq_self]
  intro t ht
  obtain ⟨j, hj, rfl⟩ := List.mem_map.1 ht
  exact decide_eq_true (h j hj)

/-- A join with further joins of its kind to its table. -/
theorem Anchored.append_joins (h : Anchored ts)
    (hparent : j.kind = .inner → j.parent.aliasName ∈ required ts)
    (hjs : ∀ b ∈ js, b.kind = j.kind ∧ b.parent.aliasName = j.aliasName) :
    Anchored (ts ++ (j :: js).map .join) := by
  rw [anchored_append]
  refine ⟨h, ?_⟩
  cases hkind : j.kind with
  | inner =>
    rw [filter_isRequired_inner
      (List.forall_mem_cons.2 ⟨hkind, fun b hb => (hjs b hb).1.trans hkind⟩)]
    refine ⟨hparent hkind, scopedAll_joins fun b hb => ?_⟩
    rw [(hjs b hb).2]
    exact List.mem_append_right _ (List.mem_singleton_self _)
  | outer =>
    rw [filter_isRequired_outer
      (List.forall_mem_cons.2 ⟨hkind, fun b hb => (hjs b hb).1.trans hkind⟩)]
    trivial

/-- Outer joins make no difference. -/
theorem Anchored.append_outer (h : Anchored ts) (hjs : ∀ b ∈ js, b.kind = .outer) :
    Anchored (ts ++ js.map .join) := by
  rw [anchored_append, filter_isRequired_outer hjs]
  exact ⟨h, trivial⟩

end Table

/-- The names of the tables that have a row wherever the primary one has. -/
def Draft.required (d : Draft) : List String := Table.required d.tables

/-- The second draft has more tables behind, whose inner joins are joined to tables that have a row
wherever the primary one has. -/
structure Draft.Anchors (d d' : Draft) : Prop where
  tables : d.tables <+: d'.tables
  anchored : Table.Anchored d.tables → Table.Anchored d'.tables

/-- Matching the nested filter joins inner joins to such tables alone. -/
def NestedFilter.Anchors (s : Setting) (f : NestedFilter) : Prop :=
  ∀ {d d' : Draft} {e : Entity} {a : String} {outer : Bool}, e ∈ s.schema.entities →
    (outer = false → Housed d.required a e.baseTypes.length) → f.matchOn e a outer d = .ok d' →
      d.Anchors d'

/-- Matching what is asked joins inner joins to such tables alone. -/
def Asked.Anchors (s : Setting) : Asked → Prop
  | .predicates _ => True
  | .nested f => f.Anchors s

namespace Draft

variable {s : Setting} {d d' d'' : Draft} {e target : Entity} {a table column : String}
  {ps : List Predicate} {j : Join}

namespace Anchors

theorem of_tables_eq (h : d'.tables = d.tables) : d.Anchors d' :=
  ⟨by rw [h], fun ha => by rwa [h]⟩

theorem refl : d.Anchors d := of_tables_eq rfl

theorem trans (h : d.Anchors d') (h' : d'.Anchors d'') : d.Anchors d'' :=
  ⟨h.tables.trans h'.tables, fun ha => h'.anchored (h.anchored ha)⟩

theorem required_subset (h : d.Anchors d') : d.required ⊆ d'.required := by
  obtain ⟨ts, hts⟩ := h.tables
  rw [required, required, ← hts, Table.required_append]
  exact List.subset_append_left _ _

end Anchors

/-! ### Conditions -/

theorem tables_addColumns {α : Type} {f : α → ColumnCondition} (xs : List α) :
    (xs.foldl (fun d x => d.addColumn (f x)) d).tables = d.tables :=
  List.foldlRecOn (motive := fun d' : Draft => d'.tables = d.tables) xs _ rfl fun _ hd' _ _ => hd'

theorem tables_addGroups {α : Type} {f : α → Group} (xs : List α) :
    (xs.foldl (fun d x => d.addGroup (f x)) d).tables = d.tables :=
  List.foldlRecOn (motive := fun d' : Draft => d'.tables = d.tables) xs _ rfl fun _ hd' _ _ => hd'

theorem tables_addIds (h : addIds s target a column ps d = .ok d') : d'.tables = d.tables := by
  induction ps generalizing d with
  | nil => rw [← Except.ok.inj h]
  | cons p ps ih =>
    obtain ⟨parsed, -, h⟩ := exists_of_bind_eq_ok h
    exact ih (d := d.addColumn _) h

theorem tables_addJunctionIds {idDbType : String}
    (h : addJunctionIds s target a idDbType column ps d = .ok d') : d'.tables = d.tables := by
  induction ps generalizing d with
  | nil => rw [← Except.ok.inj h]
  | cons p ps ih =>
    unfold addJunctionIds at h
    split at h
    · exact absurd ‹_ :: _ = []› (List.cons_ne_nil _ _)
    · next hp =>
      obtain ⟨rfl, rfl⟩ := List.cons_eq_cons.1 hp
      exact ih (d := addColumn _ _) h
    · next hp =>
      obtain ⟨rfl, rfl⟩ := List.cons_eq_cons.1 hp
      exact ih (d := addColumn _ _) h
    · next hp =>
      obtain ⟨rfl, rfl⟩ := List.cons_eq_cons.1 hp
      obtain ⟨d₁, hd₁, h⟩ := exists_of_bind_eq_ok h
      exact (ih h).trans (tables_addIds hd₁)

theorem tables_addPolymorphic {field : String} {components : List Component} {p : Predicate}
    (h : d.addPolymorphic s a field components p = .ok d') : d'.tables = d.tables := by
  obtain ⟨targets, -, h⟩ := exists_of_bind_eq_ok h
  split at h
  · rw [← Except.ok.inj h]
    exact tables_addColumns targets
  · rw [← Except.ok.inj h]
    rfl
  · obtain ⟨⟨_, t, id⟩, -, h⟩ := exists_of_bind_eq_ok h
    rw [← Except.ok.inj h]
    rfl
  · obtain ⟨⟨_, t, id⟩, -, h⟩ := exists_of_bind_eq_ok h
    rw [← Except.ok.inj h]
    rfl
  · obtain ⟨groups, -, h⟩ := exists_of_bind_eq_ok h
    rw [← Except.ok.inj h]
    rfl
  · obtain ⟨groups, -, h⟩ := exists_of_bind_eq_ok h
    obtain rfl := Except.ok.inj h
    refine (tables_addGroups (f := fun r : Target × List Value => .any
      [.column (r.1.condition a .isNull), .column (r.1.condition a (.notIn r.2))]) groups).trans ?_
    split_ifs <;> rfl
  · cases h

theorem tables_addPolymorphics {field : String} {components : List Component}
    (h : ps.foldlM (fun d p => d.addPolymorphic s a field components p) d = .ok d') :
    d'.tables = d.tables := by
  induction ps generalizing d with
  | nil => rw [← Except.ok.inj h]
  | cons p ps ih =>
    obtain ⟨d₁, hd₁, h⟩ := exists_of_bind_eq_ok h
    exact (ih h).trans (tables_addPolymorphic hd₁)

/-! ### Tables -/

/-- The table of an entity, joined to one that has a row wherever the primary one has if it is joined
by an inner join. -/
theorem anchors_addEntity {named : Draft} (h : named.addEntity s e (.join j) = .ok d')
    (htables : named.tables = d.tables)
    (hparent : j.kind = .inner → j.parent.aliasName ∈ d.required) : d.Anchors d' := by
  obtain ⟨joins, deletion, hjoins, -, rfl⟩ := addEntity_eq_ok h
  rw [htables]
  refine ⟨List.prefix_append _ _, fun ha => ha.append_joins hparent fun b hb => ?_⟩
  obtain ⟨i, -, -, hbparent, -, hkind⟩ := Setting.of_mem_baseJoins hjoins b hb
  exact ⟨hkind, by rw [hbparent]; rfl⟩

/-- Where the table of an entity has a row, those of its bases have one. -/
theorem housed_required_addEntity {t : Table} (ht : t.isRequired = true)
    (h : d.addEntity s e t = .ok d') : Housed d'.required t.aliasName e.baseTypes.length := by
  obtain ⟨joins, deletion, hjoins, -, rfl⟩ := addEntity_eq_ok h
  have hkind : t.kindOfBases = .inner := by
    cases t with
    | join j => exact of_decide_eq_true ht
    | _ => rfl
  have hall : (t :: joins.map .join).filter Table.isRequired = t :: joins.map .join := by
    rw [List.filter_cons_of_pos ht, Table.filter_isRequired_inner fun b hb => ?_]
    obtain ⟨i, -, -, -, -, hb⟩ := Setting.of_mem_baseJoins hjoins b hb
    exact hb.trans hkind
  refine (Setting.housed_baseJoins hjoins).mono fun b hb => ?_
  show b ∈ Table.required (d.tables ++ t :: joins.map .join)
  rw [Table.required_append, Table.required, Table.required, hall, List.map_cons, List.map_map]
  exact List.mem_append_right _ hb

theorem anchors_joinTarget (htarget : target ∈ s.schema.entities) {parent : ColumnRef}
    {kind : JoinKind} {f : NestedFilter} (hf : f.Anchors s)
    (hparent : kind = .inner → parent.aliasName ∈ d.required)
    (h : d.joinTarget s target parent kind f = .ok d') : d.Anchors d' := by
  obtain ⟨d₁, hd₁, h⟩ := exists_of_bind_eq_ok h
  have hjoined : d.Anchors d₁ := anchors_addEntity hd₁ rfl hparent
  refine hjoined.trans (hf htarget (fun houter => ?_) h)
  refine housed_required_addEntity ?_ hd₁
  cases kind with
  | inner => rfl
  | outer => cases houter

theorem anchors_matchManyToOne (htarget : target ∈ s.schema.entities) {parent : ColumnRef}
    {needed outer : Bool} {asked : Asked} (hasked : asked.Anchors s)
    (hparent : outer = false → parent.aliasName ∈ d.required)
    (h : d.matchManyToOne s target parent needed outer asked = .ok d') : d.Anchors d' := by
  cases asked with
  | predicates ps => exact .of_tables_eq (tables_addIds h)
  | nested f =>
    obtain ⟨needsJoin, -, h⟩ := exists_of_bind_eq_ok h
    cases needsJoin with
    | true =>
      refine anchors_joinTarget htarget hasked (fun hkind => hparent ?_) h
      split_ifs at hkind with hinner
      rw [Bool.and_eq_true, Bool.not_eq_true'] at hinner
      exact hinner.2
    | false => exact .of_tables_eq (tables_addIds h)

theorem anchors_matchReferrer (htarget : target ∈ s.schema.entities) {collection : Bool}
    {asked : Asked} (hasked : asked.Anchors s)
    (h : d.matchReferrer s target a column collection asked = .ok d') : d.Anchors d' := by
  obtain ⟨d₁, hd₁, h⟩ := exists_of_bind_eq_ok h
  have hjoined : d.Anchors d₁ := by
    split_ifs at hd₁
    · exact anchors_addEntity hd₁ rfl (by simp)
    · exact anchors_addEntity hd₁ rfl (by simp)
  cases asked with
  | predicates ps => exact hjoined.trans (.of_tables_eq (tables_addIds h))
  | nested f => exact hjoined.trans (hasked htarget (by simp) h)

theorem anchors_matchManyToMany (htarget : target ∈ s.schema.entities)
    {otherColumn idDbType : String} {asked : Asked} (hasked : asked.Anchors s)
    (h : d.matchManyToMany s target a table column otherColumn idDbType asked = .ok d') :
    d.Anchors d' := by
  let j : Join := ⟨(d.nextAlias table).1, table, .outer, ⟨a, "id"⟩,
    ⟨(d.nextAlias table).1, column⟩, none⟩
  have hjoined : d.Anchors (((d.nextAlias table).2.addCollection j).addTable (.join j) idDbType) :=
    ⟨List.prefix_append _ _, fun ha => ha.append_outer (List.forall_mem_singleton.2 rfl)⟩
  refine hjoined.trans ?_
  cases asked with
  | predicates ps => exact .of_tables_eq (tables_addJunctionIds h)
  | nested f =>
    obtain ⟨needsJoin, -, h⟩ := exists_of_bind_eq_ok h
    split_ifs at h
    · exact anchors_joinTarget htarget hasked (by simp) h
    · exact .of_tables_eq (tables_addJunctionIds h)

/-- The conditions of one entry. -/
theorem anchors_matchField (he : e ∈ s.schema.entities) {outer : Bool}
    (ha : outer = false → Housed d.required a e.baseTypes.length) {name : String} {asked : Asked}
    (h : d.matchField s e a outer name asked = .ok d') (hasked : asked.Anchors s) :
    d.Anchors d' := by
  obtain ⟨site, hsite, h⟩ := exists_of_bind_eq_ok h
  split at h
  · obtain ⟨ps, -, h⟩ := exists_of_bind_eq_ok h
    exact .of_tables_eq (tables_addIds h)
  · obtain ⟨ps, -, h⟩ := exists_of_bind_eq_ok h
    exact Except.ok.inj h ▸ .of_tables_eq (tables_addColumns ps)
  · obtain ⟨ps, -, h⟩ := exists_of_bind_eq_ok h
    exact Except.ok.inj h ▸ .of_tables_eq (tables_addColumns ps)
  · obtain ⟨target, htarget, h⟩ := exists_of_bind_eq_ok h
    exact anchors_matchManyToOne (Setting.mem_of_entity htarget) hasked
      (fun houter => Setting.columnAlias_mem he hsite (ha houter)) h
  · obtain ⟨target, htarget, h⟩ := exists_of_bind_eq_ok h
    exact anchors_matchReferrer (Setting.mem_of_entity htarget) hasked h
  · obtain ⟨target, htarget, h⟩ := exists_of_bind_eq_ok h
    exact anchors_matchReferrer (Setting.mem_of_entity htarget) hasked h
  · obtain ⟨target, htarget, h⟩ := exists_of_bind_eq_ok h
    exact anchors_matchManyToMany (Setting.mem_of_entity htarget) hasked h
  · obtain ⟨ps, -, h⟩ := exists_of_bind_eq_ok h
    exact .of_tables_eq (tables_addPolymorphics h)

end Draft

/-! ### Filters -/

section

variable {s : Setting}

mutual

/-- Matching a filter joins inner joins to tables that have a row wherever the primary one has. -/
theorem EntityFilter.anchors_match : ∀ {f : EntityFilter} {d d' : Draft} {e : Entity} {a : String}
    {outer : Bool}, e ∈ s.schema.entities →
    (outer = false → Housed d.required a e.baseTypes.length) →
    EntityFilter.match s e a outer f d = .ok d' → d.Anchors d'
  | ⟨none, _⟩, _, _, _, _, _, he, ha, h => FieldFilter.anchors_matchAll he ha h
  | ⟨some name, _⟩, d, _, e, a, _, he, ha, h =>
    have hbound : d.Anchors (d.bind name a e) := .of_tables_eq rfl
    hbound.trans (FieldFilter.anchors_matchAll he ha h)

theorem FieldFilter.anchors_matchAll : ∀ {fs : List FieldFilter} {d d' : Draft} {e : Entity}
    {a : String} {outer : Bool}, e ∈ s.schema.entities →
    (outer = false → Housed d.required a e.baseTypes.length) →
    FieldFilter.matchAll s e a outer fs d = .ok d' → d.Anchors d'
  | [], _, _, _, _, _, _, _, h => Except.ok.inj h ▸ .refl
  | ⟨_, _⟩ :: _, _, _, _, _, _, he, ha, h => by
    obtain ⟨d₁, hd₁, h⟩ := exists_of_bind_eq_ok h
    have hfirst := FilterValue.anchors_match he ha hd₁
    exact hfirst.trans (FieldFilter.anchors_matchAll he
      (fun houter => (ha houter).mono hfirst.required_subset) h)

theorem FilterValue.anchors_match : ∀ {v : FilterValue} {d d' : Draft} {e : Entity}
    {a name : String} {outer : Bool}, e ∈ s.schema.entities →
    (outer = false → Housed d.required a e.baseTypes.length) →
    FilterValue.match s e a outer name v d = .ok d' → d.Anchors d'
  | .undefined, _, _, _, _, _, _, _, _, h => Except.ok.inj h ▸ .refl
  | .scalar _, _, _, _, _, _, _, he, ha, h => Draft.anchors_matchField he ha h trivial
  | .list _, _, _, _, _, _, _, he, ha, h => Draft.anchors_matchField he ha h trivial
  | .operators _, _, _, _, _, _, _, he, ha, h => Draft.anchors_matchField he ha h trivial
  | .nested _, _, _, _, _, _, _, he, ha, h =>
    Draft.anchors_matchField he ha h fun he' ha' h' => EntityFilter.anchors_match he' ha' h'
  | .binding _, _, _, _, _, _, _, he, ha, h =>
    Draft.anchors_matchField he ha h fun _ _ h' => Except.ok.inj h' ▸ .of_tables_eq rfl

end

end

/-- In the draft of a query, inner joins are joined to tables that have a row wherever the primary one
has. -/
theorem Draft.anchored_ofQuery {s : Setting} {e : Entity} (he : e ∈ s.schema.entities)
    {filter : EntityFilter} {conditions : Option ExpressionLiteral} {a : String} {d : Draft}
    (h : Draft.ofQuery s e filter conditions = .ok (a, d)) : Table.Anchored d.tables := by
  obtain ⟨d₁, d₂, d₃, rfl, hprimary, hselects, hmatch, hconditions⟩ := Draft.ofQuery_eq_ok h
  have hhoused := housed_required_addEntity rfl hprimary
  have hfirst : Table.Anchored d₁.tables := by
    obtain ⟨joins, deletion, hjoins, -, rfl⟩ := addEntity_eq_ok hprimary
    have hbases := Setting.of_mem_baseJoins hjoins
    show Table.ScopedAll _ (List.filter _ (_ :: joins.map .join))
    rw [List.filter_cons_of_pos rfl, Table.filter_isRequired_inner fun b hb => ?_]
    · refine Table.scopedAll_joins fun b hb => ?_
      obtain ⟨i, -, -, hparent, -⟩ := hbases b hb
      rw [hparent]
      exact List.mem_singleton_self _
    · obtain ⟨i, -, -, -, -, hkind⟩ := hbases b hb
      exact hkind
  have hselected : d₁.Anchors d₂ := by
    obtain ⟨⟨js, hjs, houter⟩, -⟩ := exists_joins_of_addSelects hselects
    refine ⟨⟨_, hjs.symm⟩, fun ha => ?_⟩
    rw [hjs]
    exact ha.append_outer fun j hj => (houter j hj).2.1
  have hmatched := EntityFilter.anchors_match he
    (fun _ => hhoused.mono hselected.required_subset) hmatch
  have hthird := hmatched.anchored (hselected.anchored hfirst)
  rcases hconditions with ⟨-, rfl⟩ | ⟨literal, -, hliteral⟩
  · exact hthird
  · rwa [tables_addConditions hliteral]

end EntityQuery
