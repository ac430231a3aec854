import EntityQuery.Proofs.Draft.Match
import Mathlib.Logic.Relation

/-!
# Steps of gathering

Matching a filter is a sequence of small steps: a name is taken, a predicate is added, a table is
joined with what comes with it.  Whatever one step keeps is kept by the match of any filter.

* `DeletionColumn.condition`, `Entity.typeCondition?`: what comes with the table of an entity;
* `Schema.Key`: the columns in which no value occurs twice;
* `Draft.Step`, `Draft.Steps`: one step and any number of them;
* `EntityFilter.steps_match`: the match of a filter is a sequence of steps;
* `Draft.Steps.induct`: what every step keeps is kept;
* `Draft.Before`: what is there stays;
* `Draft.GrowsBy`: the joins, predicates and collections that a draft has more than another one.
-/

namespace EntityQuery

/-! ### What comes with a table -/

/-- The table that holds the time of deletion, for an entity of the given alias. -/
def DeletionColumn.holder (c : DeletionColumn) (aliasName : String) : String :=
  match c.baseIndex with
  | none => aliasName
  | some i => baseAlias aliasName i

/-- The condition that rows are not marked as deleted. -/
def DeletionColumn.condition (c : DeletionColumn) (aliasName : String) : ColumnCondition :=
  .implied (c.holder aliasName) c.column "timestamptz" .isNull

/-- The condition that rows are of the entity's own type. -/
def Entity.typeCondition? (e : Entity) (aliasName : String) : Option ColumnCondition :=
  match e.inheritance with
  | .singleTable _ discriminator (some v) =>
    some (.implied aliasName discriminator "int" (.eq (.int v)))
  | _ => none

/-- The conditions that come with the table of an entity. -/
def Entity.implied (e : Entity) (aliasName : String) (deletion : Option DeletionColumn) :
    List Condition :=
  ((deletion.map (·.condition aliasName)).toList ++ (e.typeCondition? aliasName).toList).map .column

/-- The kind of the joins of base tables: that of the table itself. -/
def Table.kindOfBases : Table → JoinKind
  | .join j => j.kind
  | _ => .inner

namespace Draft

/-- The names of the tables. -/
def names (d : Draft) : List String := d.tables.map Table.aliasName

/-- The conditions with more predicates behind those on columns. -/
def withInlined (d : Draft) (cs : List Condition) : Conjuncts :=
  { d.conjuncts with inlined := d.conjuncts.inlined ++ cs }

section

variable {s : Setting} {d d' : Draft} {e : Entity} {t : Table}

theorem addImplied_eq {a : String} {deletion : Option DeletionColumn} :
    (d.addDeletion a deletion).addDiscriminator a e =
      { d with conjuncts := d.withInlined (e.implied a deletion) } := by
  have hdeletion : d.addDeletion a deletion = { d with
      conjuncts := d.withInlined ((deletion.map (·.condition a)).toList.map .column) } := by
    unfold addDeletion
    split <;> simp [withInlined, addColumn, Conjuncts.addColumn, DeletionColumn.condition,
      DeletionColumn.holder, ColumnCondition.split, ColumnCondition.implied]
  rw [hdeletion, Entity.implied, List.map_append]
  unfold addDiscriminator Entity.typeCondition?
  cases e.inheritance with
  | singleTable base column value =>
    cases value <;> simp [withInlined, addColumn, Conjuncts.addColumn, ColumnCondition.split,
      ColumnCondition.implied]
  | _ => simp [withInlined]

/-- The table of an entity brings the tables of its bases and its conditions along. -/
theorem addEntity_eq_ok (h : d.addEntity s e t = .ok d') : ∃ joins deletion,
    s.baseJoins t.aliasName t.kindOfBases 0 e.baseTypes = .ok joins ∧ s.deletion? e = .ok deletion ∧
      d' = { d with
        tables := d.tables ++ t :: joins.map .join
        idDbTypes := (joins.map fun j => (j.aliasName, e.idDbType)).reverse ++
          (t.aliasName, e.idDbType) :: d.idDbTypes
        conjuncts := d.withInlined (e.implied t.aliasName deletion) } := by
  obtain ⟨joins, hjoins, h⟩ := exists_of_bind_eq_ok h
  obtain ⟨deletion, hdeletion, h⟩ := exists_of_bind_eq_ok h
  refine ⟨joins, deletion, hjoins, hdeletion, ?_⟩
  rw [← Except.ok.inj h, addBases_eq, addImplied_eq]
  simp [addTable, withInlined]

theorem housed_addEntity (h : d.addEntity s e t = .ok d') :
    Housed d'.names t.aliasName e.baseTypes.length := by
  obtain ⟨joins, deletion, hjoins, -, rfl⟩ := addEntity_eq_ok h
  refine (Setting.housed_baseJoins hjoins).mono fun a ha => ?_
  rw [names, List.map_append, List.map_cons, List.map_map]
  exact List.mem_append_right _ ha

end

end Draft

/-! ### Steps -/

/-- No value occurs twice in the column: it holds ids, or a one-to-one reference is read back
through it. -/
inductive Schema.Key (schema : Schema) : (table column : String) → Prop
  | id (table : String) : schema.Key table "id"
  | oneToOne {e target : Entity} {f : Field} {other column : String} (he : e ∈ schema.entities)
      (hf : f ∈ e.fields) (hkind : f.kind = .oneToOne other column)
      (htarget : schema.entity other = .ok target) : schema.Key target.tableName column

/-- The table is the junction of a relation. -/
def Schema.IsJunction (schema : Schema) (table : String) : Prop :=
  ∃ e ∈ schema.entities, ∃ f ∈ e.fields, table ∈ f.kind.junction?

/-- The join refers to a table that is there, and has a name that was given to it. -/
structure Draft.Links (d : Draft) (j : Join) : Prop where
  name : '_' ∉ j.aliasName.toList
  own : j.own.aliasName = j.aliasName
  parent : j.parent.aliasName ∈ d.names
  distinct : j.distinct = none

/-- The join is that of a collection: rows without partners stay, and partners refer to an id. -/
structure Join.Plural (j : Join) : Prop where
  kind : j.kind = .outer
  parent : j.parent.column = "id"

/-- All leaves of the condition were asked for, and it has no subquery. -/
inductive Condition.Asked : Condition → Prop
  | column {c : ColumnCondition} (h : c.pruneable = false) : Condition.Asked (.column c)
  | raw {r : RawCondition} (h : r.pruneable = false) : Condition.Asked (.raw r)
  | group {op : Connective} {cs : List Condition} (h : ∀ c ∈ cs, c.Asked) :
      Condition.Asked (.group ⟨op, cs⟩)

/-- The condition was asked for throughout, or is a column condition that was not asked for. -/
def Condition.Parted (c : Condition) : Prop :=
  c.Asked ∨ ∃ k : ColumnCondition, c = .column k ∧ k.pruneable = true

/-- The condition has no subquery and reads no other table. -/
structure Condition.On (a : String) (c : Condition) : Prop where
  flat : c.plans = []
  reads : ∀ b ∈ c.aliases, b = a
  single : c.isPruneable = true → c.aliases = [a]

namespace Condition

section

variable {c : Condition}

theorem Asked.isPruneable (h : c.Asked) : c.isPruneable = false := by
  cases h with
  | column h => exact h
  | raw h => exact h
  | group _ => rfl

theorem Parted.asked (h : c.Parted) (hp : c.isPruneable = false) : c.Asked := by
  rcases h with h | ⟨k, rfl, hk⟩
  · exact h
  · rw [Condition.isPruneable, hk] at hp
    cases hp

end

variable {a : String} {c : ColumnCondition} {op : Connective} {cs : List Condition}

theorem on_column (h : c.aliasName = a) : (column c).On a :=
  ⟨rfl, fun _ hb => (List.mem_singleton.1 hb).trans h, fun _ => congrArg ([·]) h⟩

theorem on_group (h : ∀ c ∈ cs, c.On a) : (group ⟨op, cs⟩).On a := by
  refine ⟨plansOf_eq_nil_iff.2 fun c hc => (h c hc).flat, fun b hb => ?_, nofun⟩
  obtain ⟨c, hc, hb⟩ := mem_aliases_group.1 hb
  exact (h c hc).reads b hb

theorem on_split : c.split.On c.aliasName :=
  ColumnCondition.split_induct (fun _ => on_column rfl) on_group

theorem asked_split (h : c.pruneable = false) : c.split.Asked :=
  ColumnCondition.split_induct (fun _ => .column h) .group

end Condition

/-- One step of gathering. -/
inductive Draft.Step (s : Setting) (d : Draft) : Draft → Prop
  | name (table : String) : d.Step s (d.nextAlias table).2
  | bind {e : Entity} {a : String} (name : String) (he : e ∈ s.schema.entities)
      (ha : Housed d.names a e.baseTypes.length) : d.Step s (d.bind name a e)
  | column {c : ColumnCondition} (ha : c.aliasName ∈ d.names) (hasked : c.pruneable = false) :
      d.Step s (d.addColumn c)
  | group {g : Group} {a : String} (ha : a ∈ d.names) (hg : ∀ c ∈ g.conditions, c.On a)
      (hasked : ∀ c ∈ g.conditions, c.Asked) : d.Step s (d.addGroup g)
  | entity {e : Entity} {j : Join} {d' : Draft} (he : e ∈ s.schema.entities)
      (htable : j.table = e.tableName) (hj : d.Links j) (hkey : s.schema.Key j.table j.own.column)
      (h : d.addEntity s e (.join j) = .ok d') : d.Step s d'
  | collection {e : Entity} {j : Join} {d' : Draft} (he : e ∈ s.schema.entities)
      (htable : j.table = e.tableName) (hj : d.Links j) (hplural : j.Plural)
      (h : d.addEntity s e (.join j) = .ok d') : d.Step s (d'.addCollection j)
  | junction {j : Join} (idDbType : String) (htable : s.schema.IsJunction j.table) (hj : d.Links j)
      (hplural : j.Plural) : d.Step s ((d.addCollection j).addTable (.join j) idDbType)

/-- Any number of steps of gathering. -/
def Draft.Steps (s : Setting) : Draft → Draft → Prop := Relation.ReflTransGen (Draft.Step s)

/-- Matching the nested filter on a table of an entity takes steps. -/
def NestedFilter.Stepwise (s : Setting) (f : NestedFilter) : Prop :=
  ∀ {d d' : Draft} {e : Entity} {a : String} {outer : Bool}, e ∈ s.schema.entities →
    Housed d.names a e.baseTypes.length → f.matchOn e a outer d = .ok d' → d.Steps s d'

/-- Matching what is asked takes steps. -/
def Asked.Stepwise (s : Setting) : Asked → Prop
  | .predicates _ => True
  | .nested f => f.Stepwise s

namespace Draft

variable {s : Setting} {d d' d'' : Draft} {e target : Entity} {a table column : String}

namespace Steps

theorem refl : d.Steps s d := Relation.ReflTransGen.refl

theorem trans (h : d.Steps s d') (h' : d'.Steps s d'') : d.Steps s d'' :=
  Relation.ReflTransGen.trans h h'

theorem of_step (h : d.Step s d') : d.Steps s d' := Relation.ReflTransGen.single h

/-- What every step keeps is kept. -/
theorem induct {P : Draft → Prop} (hP : ∀ {d d' : Draft}, d.Step s d' → P d → P d')
    (h : d.Steps s d') (hd : P d) : P d' := by
  induction h with
  | refl => exact hd
  | tail _ hstep ih => exact hP hstep ih

end Steps

/-! ### What is there stays -/

/-- The second draft has what the first one has; its tables and predicates are added behind. -/
structure Before (d d' : Draft) : Prop where
  tables : d.tables <+: d'.tables
  selects : d.selects <+: d'.selects
  inlined : d.conjuncts.inlined <+: d'.conjuncts.inlined
  groups : d.conjuncts.groups <+: d'.conjuncts.groups
  bindings : d.bindings <:+ d'.bindings

namespace Before

theorem refl (d : Draft) : d.Before d :=
  ⟨List.prefix_rfl, List.prefix_rfl, List.prefix_rfl, List.prefix_rfl, List.suffix_rfl⟩

theorem trans (h : d.Before d') (h' : d'.Before d'') : d.Before d'' :=
  ⟨h.tables.trans h'.tables, h.selects.trans h'.selects, h.inlined.trans h'.inlined,
    h.groups.trans h'.groups, h.bindings.trans h'.bindings⟩

theorem names_subset (h : d.Before d') : d.names ⊆ d'.names := (h.tables.map _).subset

end Before

/-- The draft with these joins behind its tables, these conditions behind its predicates and these
joins behind its collections. -/
structure GrowsBy (d d' : Draft) (js : List Join) (ks : List Condition) (cs : List Join) : Prop where
  tables : d'.tables = d.tables ++ js.map .join
  selects : d'.selects = d.selects
  conjuncts : d'.conjuncts = d.withInlined ks
  collections : d'.collections = d.collections ++ cs

namespace GrowsBy

variable {js js' cs cs' : List Join} {ks ks' : List Condition} {j : Join}

theorem refl : d.GrowsBy d [] [] [] := ⟨by simp, rfl, by simp [withInlined], by simp⟩

theorem trans (h : d.GrowsBy d' js ks cs) (h' : d'.GrowsBy d'' js' ks' cs') :
    d.GrowsBy d'' (js ++ js') (ks ++ ks') (cs ++ cs') where
  tables := by rw [h'.tables, h.tables, List.map_append, List.append_assoc]
  selects := h'.selects.trans h.selects
  conjuncts := by rw [h'.conjuncts, withInlined, h.conjuncts, withInlined, withInlined, List.append_assoc]
  collections := by rw [h'.collections, h.collections, List.append_assoc]

/-- A name that is taken adds nothing. -/
theorem nextAlias (table : String) : d.GrowsBy (d.nextAlias table).2 [] [] [] :=
  ⟨by simp [Draft.nextAlias], rfl, by simp [withInlined, Draft.nextAlias], by simp [Draft.nextAlias]⟩

/-- A name that is given adds nothing. -/
theorem bind (name : String) : d.GrowsBy (d.bind name a e) [] [] [] :=
  ⟨by simp [Draft.bind], rfl, by simp [withInlined, Draft.bind], by simp [Draft.bind]⟩

theorem addCollection : d.GrowsBy (d.addCollection j) [] [] [j] :=
  ⟨by simp [Draft.addCollection], rfl, by simp [withInlined, Draft.addCollection], rfl⟩

theorem addTable (idDbType : String) : d.GrowsBy (d.addTable (.join j) idDbType) [j] [] [] :=
  ⟨rfl, rfl, by simp [withInlined, Draft.addTable], by simp [Draft.addTable]⟩

/-- The table of an entity comes with those of its bases and with its conditions. -/
theorem addEntity (h : d.addEntity s e (.join j) = .ok d') : ∃ joins deletion,
    s.baseJoins j.aliasName j.kind 0 e.baseTypes = .ok joins ∧ s.deletion? e = .ok deletion ∧
      d.GrowsBy d' (j :: joins) (e.implied j.aliasName deletion) [] := by
  obtain ⟨joins, deletion, hjoins, hdeletion, rfl⟩ := addEntity_eq_ok h
  exact ⟨joins, deletion, hjoins, hdeletion, rfl, rfl, rfl, (List.append_nil _).symm⟩

end GrowsBy

theorem before_addColumn {c : ColumnCondition} : d.Before (d.addColumn c) :=
  { Before.refl d with inlined := List.prefix_append _ _ }

theorem before_addGroup {g : Group} : d.Before (d.addGroup g) :=
  { Before.refl d with groups := List.prefix_append _ _ }

theorem before_addEntity {t : Table} (h : d.addEntity s e t = .ok d') : d.Before d' := by
  obtain ⟨joins, deletion, -, -, rfl⟩ := addEntity_eq_ok h
  exact
    { Before.refl d with
      tables := List.prefix_append _ _
      inlined := List.prefix_append _ _ }

theorem before_addConditions {literal : ExpressionLiteral}
    (h : d.addConditions s literal = .ok d') : d.Before d' := by
  obtain ⟨g, -, h⟩ := exists_of_bind_eq_ok h
  obtain rfl := Except.ok.inj h
  cases g with
  | none => exact .refl d
  | some g => exact before_addGroup

/-- Result columns bring the tables of subtypes and no conditions. -/
theorem exists_joins_of_addSubtypes {subs : List String} {i : Nat} {cases : List DiscriminatorCase}
    (hd : addSubtypes s a i subs d = .ok (d', cases)) :
    (∃ js : List Join, d'.tables = d.tables ++ js.map .join ∧
      ∀ j ∈ js, j.distinct = some false ∧ j.kind = .outer ∧ ∃ k, j.aliasName = subAlias a k) ∧
      d'.conjuncts = d.conjuncts := by
  induction subs generalizing i d cases with
  | nil =>
    obtain ⟨rfl, -⟩ := Prod.mk.inj (Except.ok.inj hd)
    exact ⟨⟨[], by simp⟩, rfl⟩
  | cons sub subs ih =>
    obtain ⟨e, -, hd⟩ := exists_of_bind_eq_ok hd
    obtain ⟨⟨d₁, others⟩, hothers, hd⟩ := exists_of_bind_eq_ok hd
    obtain ⟨rfl, -⟩ := Prod.mk.inj (Except.ok.inj hd)
    obtain ⟨⟨js, hjs, hsubtypes⟩, hconjuncts⟩ := ih hothers
    let join : Join :=
      ⟨subAlias a i, e.tableName, .outer, ⟨a, "id"⟩, ⟨subAlias a i, "id"⟩, some false⟩
    exact ⟨⟨join :: js, by simp [hjs, addTable, join],
      List.forall_mem_cons.2 ⟨⟨rfl, rfl, i, rfl⟩, hsubtypes⟩⟩, hconjuncts⟩

theorem exists_joins_of_addSelects (hd : d.addSelects s e a = .ok d') :
    (∃ js : List Join, d'.tables = d.tables ++ js.map .join ∧
      ∀ j ∈ js, j.distinct = some false ∧ j.kind = .outer ∧ ∃ k, j.aliasName = subAlias a k) ∧
      d'.conjuncts = d.conjuncts := by
  obtain ⟨⟨d₁, cases⟩, hcases, hd⟩ := exists_of_bind_eq_ok hd
  have hadded := exists_joins_of_addSubtypes hcases
  obtain rfl := Except.ok.inj hd
  split_ifs
  · exact hadded
  · exact hadded

theorem names_subset_addSelects (h : d.addSelects s e a = .ok d') : d.names ⊆ d'.names := by
  obtain ⟨⟨js, hjs, -⟩, -⟩ := exists_joins_of_addSelects h
  rw [names, names, hjs, List.map_append]
  exact List.subset_append_left _ _

theorem tables_addConditions {literal : ExpressionLiteral} (h : d.addConditions s literal = .ok d') :
    d'.tables = d.tables := by
  obtain ⟨g, -, h⟩ := exists_of_bind_eq_ok h
  obtain rfl := Except.ok.inj h
  rfl

theorem Step.before (h : d.Step s d') : d.Before d' := by
  cases h with
  | name => exact { Before.refl d with }
  | bind => exact { Before.refl d with bindings := List.suffix_cons _ _ }
  | column => exact before_addColumn
  | group => exact before_addGroup
  | entity _ _ _ _ h => exact before_addEntity h
  | collection _ _ _ _ h => exact { before_addEntity h with }
  | junction => exact { Before.refl d with tables := List.prefix_append _ _ }

theorem Steps.before (h : d.Steps s d') : d.Before d' :=
  h.induct (fun hstep hd => hd.trans hstep.before) (.refl d)

theorem Steps.names_subset (h : d.Steps s d') : d.names ⊆ d'.names := h.before.names_subset

/-! ### Conditions -/

theorem steps_addColumns {α : Type} {f : α → ColumnCondition}
    (ha : ∀ x, (f x).aliasName ∈ d.names) (hasked : ∀ x, (f x).pruneable = false) (xs : List α) :
    d.Steps s (xs.foldl (fun d x => d.addColumn (f x)) d) := by
  induction xs generalizing d with
  | nil => exact .refl
  | cons x xs ih =>
    exact (Steps.of_step (.column (ha x) (hasked x))).trans (ih (d := d.addColumn (f x)) ha)

theorem steps_addGroups {α : Type} {f : α → Group} (ha : a ∈ d.names)
    (hf : ∀ x, ∀ c ∈ (f x).conditions, c.On a ∧ c.Asked) (xs : List α) :
    d.Steps s (xs.foldl (fun d x => d.addGroup (f x)) d) := by
  induction xs generalizing d with
  | nil => exact .refl
  | cons x xs ih =>
    exact (Steps.of_step (.group ha (fun c hc => (hf x c hc).1) fun c hc => (hf x c hc).2)).trans
      (ih (d := d.addGroup (f x)) ha)

theorem steps_addIds (ha : a ∈ d.names) {ps : List Predicate}
    (hd : addIds s target a column ps d = .ok d') : d.Steps s d' := by
  induction ps generalizing d with
  | nil => exact Except.ok.inj hd ▸ .refl
  | cons p ps ih =>
    obtain ⟨parsed, -, hd⟩ := exists_of_bind_eq_ok hd
    have hstep : d.Step s (d.addColumn (.asked a column target.idDbType parsed)) :=
      .column ha rfl
    exact (Steps.of_step hstep).trans (ih ha hd)

theorem steps_addJunctionIds {idDbType : String} (ha : a ∈ d.names) {ps : List Predicate}
    (hd : addJunctionIds s target a idDbType column ps d = .ok d') : d.Steps s d' := by
  have null : ∀ {d : Draft} (p : Predicate), a ∈ d.names →
      d.Steps s (d.addColumn (.asked a "id" idDbType p)) := fun p ha =>
    .of_step (.column ha rfl)
  induction ps generalizing d with
  | nil => exact Except.ok.inj hd ▸ .refl
  | cons p ps ih =>
    unfold addJunctionIds at hd
    split at hd
    · exact absurd ‹_ :: _ = []› (List.cons_ne_nil _ _)
    · next hp =>
      obtain ⟨rfl, rfl⟩ := List.cons_eq_cons.1 hp
      exact (null _ ha).trans (ih ha hd)
    · next hp =>
      obtain ⟨rfl, rfl⟩ := List.cons_eq_cons.1 hp
      exact (null _ ha).trans (ih ha hd)
    · next hp =>
      obtain ⟨rfl, rfl⟩ := List.cons_eq_cons.1 hp
      obtain ⟨d₁, hd₁, hd⟩ := exists_of_bind_eq_ok hd
      have hfirst := steps_addIds ha hd₁
      exact hfirst.trans (ih (hfirst.names_subset ha) hd)

/-- All columns of a polymorphic reference are on one table. -/
theorem steps_addPolymorphic {field : String} {components : List Component} (ha : a ∈ d.names)
    {p : Predicate} (hd : d.addPolymorphic s a field components p = .ok d') : d.Steps s d' := by
  have hcolumn : ∀ (t : Target) (q : Predicate),
      (Condition.column (t.condition a q)).On a ∧ (Condition.column (t.condition a q)).Asked :=
    fun _ _ => ⟨Condition.on_column rfl, .column rfl⟩
  have hcolumns : ∀ (targets : List Target) (q : Predicate),
      ∀ c ∈ Target.conditions targets a q, c.On a ∧ c.Asked := by
    intro targets q c hc
    obtain ⟨t, -, rfl⟩ := List.mem_map.1 hc
    exact hcolumn t q
  have hpair : ∀ (t : Target) (q q' : Predicate),
      ∀ c ∈ [Condition.column (t.condition a q), .column (t.condition a q')], c.On a ∧ c.Asked := by
    intro t q q' c hc
    rcases List.mem_pair.1 hc with rfl | rfl
    · exact hcolumn t q
    · exact hcolumn t q'
  have hgroup : ∀ {d : Draft} {g : Group}, a ∈ d.names → (∀ c ∈ g.conditions, c.On a ∧ c.Asked) →
      d.Steps s (d.addGroup g) := fun ha hg =>
    .of_step (.group ha (fun c hc => (hg c hc).1) fun c hc => (hg c hc).2)
  obtain ⟨targets, -, hd⟩ := exists_of_bind_eq_ok hd
  split at hd
  · exact Except.ok.inj hd ▸ steps_addColumns (fun _ => ha) (fun _ => rfl) targets
  · exact Except.ok.inj hd ▸ hgroup ha (hcolumns targets _)
  · obtain ⟨⟨_, t, id⟩, -, hd⟩ := exists_of_bind_eq_ok hd
    exact Except.ok.inj hd ▸ .of_step (.column ha rfl)
  · obtain ⟨⟨_, t, id⟩, -, hd⟩ := exists_of_bind_eq_ok hd
    exact Except.ok.inj hd ▸ hgroup ha (hpair t _ _)
  · obtain ⟨groups, -, hd⟩ := exists_of_bind_eq_ok hd
    refine Except.ok.inj hd ▸ hgroup ha fun c hc => ?_
    rcases List.mem_append.1 hc with hc | hc
    · split_ifs at hc
      · rw [List.mem_singleton.1 hc]
        exact ⟨Condition.on_group fun c hc => (hcolumns targets _ c hc).1,
          .group fun c hc => (hcolumns targets _ c hc).2⟩
      · cases hc
    · obtain ⟨r, -, rfl⟩ := List.mem_map.1 hc
      exact hcolumn r.1 _
  · obtain ⟨groups, -, hd⟩ := exists_of_bind_eq_ok hd
    obtain rfl := Except.ok.inj hd
    have hothers : ∀ {d₁ : Draft}, a ∈ d₁.names → d₁.Steps s (groups.foldl (fun d r =>
        d.addGroup (.any [.column (r.1.condition a .isNull), .column (r.1.condition a (.notIn r.2))]))
          d₁) := fun ha => steps_addGroups ha (fun r => hpair r.1 _ _) groups
    split_ifs
    · exact (hgroup ha (hcolumns targets _)).trans (hothers ha)
    · exact hothers ha
  · cases hd

theorem steps_addPolymorphics {field : String} {components : List Component} (ha : a ∈ d.names)
    {ps : List Predicate}
    (hd : ps.foldlM (fun d p => d.addPolymorphic s a field components p) d = .ok d') :
    d.Steps s d' := by
  induction ps generalizing d with
  | nil => exact Except.ok.inj hd ▸ .refl
  | cons p ps ih =>
    obtain ⟨d₁, hd₁, hd⟩ := exists_of_bind_eq_ok hd
    have hfirst := steps_addPolymorphic ha hd₁
    exact hfirst.trans (ih (hfirst.names_subset ha) hd)

/-! ### Relations -/

theorem steps_joinTarget (htarget : target ∈ s.schema.entities) {parent : ColumnRef}
    {kind : JoinKind} {f : NestedFilter} (hf : f.Stepwise s) (hparent : parent.aliasName ∈ d.names)
    (hd : d.joinTarget s target parent kind f = .ok d') : d.Steps s d' := by
  obtain ⟨d₁, hd₁, hd⟩ := exists_of_bind_eq_ok hd
  have hjoin : (d.nextAlias target.tableName).2.Step s d₁ :=
    .entity htarget rfl
      ⟨AliasSupply.underscore_not_mem_next, rfl, hparent, rfl⟩ (.id _) hd₁
  exact (Steps.of_step (.name target.tableName)).trans
    ((Steps.of_step hjoin).trans (hf htarget (housed_addEntity hd₁) hd))

theorem steps_matchManyToOne (htarget : target ∈ s.schema.entities) {parent : ColumnRef}
    {needed outer : Bool} {asked : Asked} (hasked : asked.Stepwise s)
    (hparent : parent.aliasName ∈ d.names)
    (hd : d.matchManyToOne s target parent needed outer asked = .ok d') : d.Steps s d' := by
  cases asked with
  | predicates ps => exact steps_addIds hparent hd
  | nested f =>
    obtain ⟨needsJoin, -, hd⟩ := exists_of_bind_eq_ok hd
    cases needsJoin with
    | true => exact steps_joinTarget htarget hasked hparent hd
    | false => exact steps_addIds hparent hd

theorem steps_matchReferrer (htarget : target ∈ s.schema.entities) {otherColumn : String}
    {collection : Bool} {asked : Asked} (hasked : asked.Stepwise s) (ha : a ∈ d.names)
    (hkey : collection = false → s.schema.Key target.tableName otherColumn)
    (hd : d.matchReferrer s target a otherColumn collection asked = .ok d') : d.Steps s d' := by
  obtain ⟨d₁, hd₁, hd⟩ := exists_of_bind_eq_ok hd
  have hjoined : d.Steps s d₁ ∧
      Housed d₁.names (d.nextAlias target.tableName).1 target.baseTypes.length := by
    have hname := Steps.of_step (s := s) (.name (d := d) target.tableName)
    have hlinks : (d.nextAlias target.tableName).2.Links ⟨(d.nextAlias target.tableName).1,
        target.tableName, .outer, ⟨a, "id"⟩, ⟨(d.nextAlias target.tableName).1, otherColumn⟩,
          none⟩ := ⟨AliasSupply.underscore_not_mem_next, rfl, ha, rfl⟩
    split_ifs at hd₁ with hcollection
    · rw [addEntity_addCollection] at hd₁
      obtain ⟨d₂, hd₂, rfl⟩ := exists_of_map_eq_ok hd₁
      exact ⟨hname.trans (.of_step (.collection htarget rfl hlinks ⟨rfl, rfl⟩ hd₂)),
        housed_addEntity hd₂⟩
    · rw [Bool.not_eq_true] at hcollection
      exact ⟨hname.trans (.of_step (.entity htarget rfl hlinks (hkey hcollection) hd₁)),
        housed_addEntity hd₁⟩
  obtain ⟨hsteps, hhoused⟩ := hjoined
  cases asked with
  | predicates ps => exact hsteps.trans (steps_addIds hhoused.mem hd)
  | nested f => exact hsteps.trans (hasked htarget hhoused hd)

theorem steps_matchManyToMany (htarget : target ∈ s.schema.entities)
    (htable : s.schema.IsJunction table) {otherColumn idDbType : String} {asked : Asked}
    (hasked : asked.Stepwise s) (ha : a ∈ d.names)
    (hd : d.matchManyToMany s target a table column otherColumn idDbType asked = .ok d') :
    d.Steps s d' := by
  have hjoined : d.Steps s _ := (Steps.of_step (.name table)).trans (.of_step
    (.junction (j := ⟨(d.nextAlias table).1, table, .outer, ⟨a, "id"⟩,
      ⟨(d.nextAlias table).1, column⟩, none⟩) idDbType htable
      ⟨AliasSupply.underscore_not_mem_next, rfl, ha, rfl⟩ ⟨rfl, rfl⟩))
  refine hjoined.trans ?_
  have hown : (d.nextAlias table).1 ∈ (((d.nextAlias table).2.addCollection
      ⟨(d.nextAlias table).1, table, .outer, ⟨a, "id"⟩, ⟨(d.nextAlias table).1, column⟩,
        none⟩).addTable (.join ⟨(d.nextAlias table).1, table, .outer, ⟨a, "id"⟩,
          ⟨(d.nextAlias table).1, column⟩, none⟩) idDbType).names := by
    simp [names, addTable, Table.aliasName]
  cases asked with
  | predicates ps => exact steps_addJunctionIds hown hd
  | nested f =>
    obtain ⟨needsJoin, -, hd⟩ := exists_of_bind_eq_ok hd
    split_ifs at hd
    · exact steps_joinTarget htarget hasked hown hd
    · exact steps_addJunctionIds hown hd

/-- The conditions of one entry. -/
theorem steps_matchField (he : e ∈ s.schema.entities) (ha : Housed d.names a e.baseTypes.length)
    {outer : Bool} {name : String} {asked : Asked}
    (hd : d.matchField s e a outer name asked = .ok d') (hasked : asked.Stepwise s) :
    d.Steps s d' := by
  obtain ⟨site, hsite, hd⟩ := exists_of_bind_eq_ok hd
  have hcolumn : site.columnAlias a ∈ d.names := Setting.columnAlias_mem he hsite ha
  have hdeclares := Setting.declares_of_resolve he hsite
  split at hd
  · obtain ⟨ps, -, hd⟩ := exists_of_bind_eq_ok hd
    exact steps_addIds ha.mem hd
  · obtain ⟨ps, -, hd⟩ := exists_of_bind_eq_ok hd
    exact Except.ok.inj hd ▸ steps_addColumns (fun _ => hcolumn) (fun _ => rfl) ps
  · obtain ⟨ps, -, hd⟩ := exists_of_bind_eq_ok hd
    exact Except.ok.inj hd ▸ steps_addColumns (fun _ => hcolumn) (fun _ => rfl) ps
  · obtain ⟨target, htarget, hd⟩ := exists_of_bind_eq_ok hd
    exact steps_matchManyToOne (Setting.mem_of_entity htarget) hasked hcolumn hd
  · next other otherColumn hkind =>
    obtain ⟨target, htarget, hd⟩ := exists_of_bind_eq_ok hd
    refine steps_matchReferrer (Setting.mem_of_entity htarget) hasked ha.mem (fun _ => ?_) hd
    rw [hkind] at hdeclares
    obtain hprimary | ⟨e', he', f, hf, hkind'⟩ := hdeclares
    · cases hprimary
    · exact .oneToOne he' hf hkind' (of_planning_eq_ok htarget)
  · obtain ⟨target, htarget, hd⟩ := exists_of_bind_eq_ok hd
    exact steps_matchReferrer (Setting.mem_of_entity htarget) hasked ha.mem (by simp) hd
  · next table column otherColumn other idDbType hkind =>
    obtain ⟨target, htarget, hd⟩ := exists_of_bind_eq_ok hd
    refine steps_matchManyToMany (Setting.mem_of_entity htarget) ?_ hasked ha.mem hd
    rw [hkind] at hdeclares
    obtain hprimary | ⟨e', he', f, hf, hkind'⟩ := hdeclares
    · cases hprimary
    · exact ⟨e', he', f, hf, by rw [hkind']; rfl⟩
  · obtain ⟨ps, -, hd⟩ := exists_of_bind_eq_ok hd
    exact steps_addPolymorphics hcolumn hd

end Draft

/-! ### Filters -/

section

variable {s : Setting}

mutual

/-- The match of a filter for the entity whose table is `a` is a sequence of steps. -/
theorem EntityFilter.steps_match : ∀ {f : EntityFilter} {d d' : Draft} {e : Entity} {a : String}
    {outer : Bool}, e ∈ s.schema.entities → Housed d.names a e.baseTypes.length →
    EntityFilter.match s e a outer f d = .ok d' → d.Steps s d'
  | ⟨none, _⟩, _, _, _, _, _, he, ha, hd => FieldFilter.steps_matchAll he ha hd
  | ⟨some name, _⟩, _, _, _, _, _, he, ha, hd =>
    (Draft.Steps.of_step (.bind name he ha)).trans (FieldFilter.steps_matchAll he ha hd)

theorem FieldFilter.steps_matchAll : ∀ {fs : List FieldFilter} {d d' : Draft} {e : Entity}
    {a : String} {outer : Bool}, e ∈ s.schema.entities → Housed d.names a e.baseTypes.length →
    FieldFilter.matchAll s e a outer fs d = .ok d' → d.Steps s d'
  | [], _, _, _, _, _, _, _, hd => Except.ok.inj hd ▸ .refl
  | ⟨_, _⟩ :: _, _, _, _, _, _, he, ha, hd => by
    obtain ⟨d₁, hd₁, hd⟩ := exists_of_bind_eq_ok hd
    have hfirst := FilterValue.steps_match he ha hd₁
    exact hfirst.trans (FieldFilter.steps_matchAll he (ha.mono hfirst.names_subset) hd)

theorem FilterValue.steps_match : ∀ {v : FilterValue} {d d' : Draft} {e : Entity}
    {a name : String} {outer : Bool}, e ∈ s.schema.entities →
    Housed d.names a e.baseTypes.length → FilterValue.match s e a outer name v d = .ok d' →
    d.Steps s d'
  | .undefined, _, _, _, _, _, _, _, _, hd => Except.ok.inj hd ▸ .refl
  | .scalar _, _, _, _, _, _, _, he, ha, hd => Draft.steps_matchField he ha hd trivial
  | .list _, _, _, _, _, _, _, he, ha, hd => Draft.steps_matchField he ha hd trivial
  | .operators _, _, _, _, _, _, _, he, ha, hd => Draft.steps_matchField he ha hd trivial
  | .nested _, _, _, _, _, _, _, he, ha, hd =>
    Draft.steps_matchField he ha hd fun he' ha' hd' => EntityFilter.steps_match he' ha' hd'
  | .binding user, _, _, _, _, _, _, he, ha, hd =>
    Draft.steps_matchField he ha hd fun he' ha' hd' =>
      Except.ok.inj hd' ▸ .of_step (.bind user he' ha')

end

end

end EntityQuery
