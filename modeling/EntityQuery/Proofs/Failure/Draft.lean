import EntityQuery.Proofs.Draft.Lookup

/-!
# Why a query has no draft

References of a schema lead to entities, so the schema has an answer wherever planning asks it for
one, but for fields that an entity does not have.  Everything else that goes wrong is said of the
query.

* `Schema.eq_unknownField_of_resolve`: why a field cannot be looked up;
* `PlanError.OfQuery`: errors that are about the query;
* `Draft.failsOnly_matchField`, `EntityFilter.failsOnly_match`: one entry, and a filter;
* `Draft.failsOnly_addConditions`: an expression over user aliases;
* `OrderBy.failsOnly_resolve`: an order.
-/

namespace EntityQuery

/-! ### Fields that are not there -/

namespace Schema

variable {schema : Schema} {e : Entity} {name : String} {err : SchemaError}

theorem eq_unknownField_of_resolveOnBases {i : Nat} {bases : List String}
    (hbases : ∀ base ∈ bases, ∃ b, schema.entity base = .ok b)
    (h : schema.resolveOnBases e name i bases = .error err) :
    err = .unknownField e.typeName name := by
  induction bases generalizing i with
  | nil => exact (Except.error.inj h).symm
  | cons base bases ih =>
    obtain ⟨⟨b, hb⟩, hbases⟩ := List.forall_mem_cons.1 hbases
    rw [resolveOnBases, hb, ok_bind] at h
    split at h
    · cases h
    · exact ih hbases h

theorem eq_unknownField_of_resolveWithin : ∀ {depth : Nat} {e : Entity} {err : SchemaError},
    e ∈ schema.entities → schema.resolveWithin depth e name = .error err →
    err = .unknownField e.typeName name := by
  intro depth e err he h
  have hrelative : ∀ typeName ∈ e.relatives, ∃ b, schema.entity typeName = .ok b :=
    fun typeName hm => exists_entity_of_reference he
      (r := ("inheritance", typeName)) (List.mem_append_right _ (List.mem_map_of_mem hm))
  unfold resolveWithin at h
  split_ifs at h
  split at h
  · cases h
  split at h
  · next bases subs hinheritance =>
    refine eq_unknownField_of_resolveOnBases (fun base hbase => hrelative base ?_) h
    rw [Entity.relatives, hinheritance]
    exact List.mem_append_left _ hbase
  · next base column value hinheritance =>
    -- the base is asked, and its answer is given in the entity's own name
    cases depth with
    | zero => exact (Except.error.inj h).symm
    | succ depth =>
      obtain ⟨b, hb⟩ := hrelative base (by
        rw [Entity.relatives, hinheritance]
        exact List.mem_singleton_self base)
      rw [hb] at h
      change inSharedTable e name (schema.resolveWithin depth b name) = _ at h
      cases hrest : schema.resolveWithin depth b name with
      | ok site =>
        rw [hrest] at h
        cases h
      | error err' =>
        obtain rfl := eq_unknownField_of_resolveWithin (mem_of_entity hb) hrest
        rw [hrest] at h
        exact (Except.error.inj h).symm
  · exact (Except.error.inj h).symm

/-- A field cannot be looked up only because the entity does not have it. -/
theorem eq_unknownField_of_resolve (he : e ∈ schema.entities)
    (h : schema.resolve e name = .error err) : err = .unknownField e.typeName name :=
  eq_unknownField_of_resolveWithin he h

end Schema

/-- The error is about the query: it is no question that the schema has no answer to, but for a field
that an entity of the schema does not have, and no visit that went wrong. -/
def PlanError.OfQuery (schema : Schema) : PlanError → Prop
  | .schema _ => False
  | .rootReplacement _ => False
  | .unknownField entity field => ∃ e ∈ schema.entities, e.typeName = entity ∧
    schema.resolve e field = .error (.unknownField entity field)
  | _ => True

/-- The step fails only for what is wrong with the query. -/
abbrev FailsOfQuery (s : Setting) {α : Type} (x : Except PlanError α) : Prop :=
  FailsOnly (PlanError.OfQuery s.schema) x

section

variable {s : Setting} {e target : Entity} {d : Draft} {a name column : String}

namespace Setting

/-- An unknown field is reported as such. -/
theorem failsOnly_resolve (he : e ∈ s.schema.entities) : FailsOfQuery s (s.resolve e name) := by
  intro err h
  unfold resolve planning at h
  cases hr : s.schema.resolve e name with
  | ok site =>
    rw [hr] at h
    cases h
  | error err' =>
    obtain rfl := Schema.eq_unknownField_of_resolve he hr
    rw [hr] at h
    obtain rfl : PlanError.unknownField e.typeName name = err := Except.error.inj h
    exact ⟨e, he, rfl, hr⟩

theorem failsOnly_entity {kind : FieldKind} (h : s.schema.Declares kind) {other : String}
    (hother : other ∈ kind.otherTypes) : FailsOfQuery s (s.entity other) :=
  .of_exists (exists_entity (Schema.exists_entity_of_declares h hother))

end Setting

/-! ### Ids -/

theorem failsOnly_invalidId {α : Type} {v : Value} {reason : String} :
    FailsOfQuery s (invalidId v reason : Except PlanError α) := .error trivial

theorem failsOnly_parseUntagged {idType : IdType} {v : Value} {text : String} :
    FailsOfQuery s (parseUntagged idType v text) := by
  unfold parseUntagged
  split
  · split
    · exact .ok
    · exact failsOnly_invalidId
  · split
    · exact .ok
    · exact failsOnly_invalidId

theorem Entity.failsOnly_untag {v : Value} {text : String} : FailsOfQuery s (e.untag v text) := by
  unfold untag
  split
  · exact .ok
  · split_ifs
    · exact .ok
    · exact failsOnly_invalidId

theorem Entity.failsOnly_parseId {nil : NilIds} {v : Value} : FailsOfQuery s (e.parseId nil v) := by
  unfold parseId
  split
  · exact .ok
  · exact .ok
  · exact .ok
  · exact .ok
  · exact .ok
  · exact failsOnly_untag.bind fun _ => failsOnly_parseUntagged
  · exact failsOnly_invalidId

theorem Predicate.failsOnly_forId {nil : NilIds} {text : String} {p : Predicate} :
    FailsOfQuery s (p.forId e nil text) := by
  refine FailsOnly.map ?_
  have hlist : ∀ vs : List Value, FailsOfQuery s (vs.mapM (e.parseId nil)) := fun vs =>
    .mapM fun _ _ => Entity.failsOnly_parseId
  cases p with
  | compare op v => exact Entity.failsOnly_parseId.bind fun _ => .ok
  | isIn vs => exact (hlist vs).bind fun _ => .ok
  | notIn vs => exact (hlist vs).bind fun _ => .ok
  | between low high =>
    exact Entity.failsOnly_parseId.bind fun _ => Entity.failsOnly_parseId.bind fun _ => .ok
  | isNull => exact .ok
  | notNull => exact .ok
  | pattern op text => exact .error trivial
  | containment op vs => exact .error trivial

/-! ### Entries of filters -/

/-- Matching the nested filter on a table of an entity fails only for what is wrong with the query. -/
def NestedFilter.FailsOfQuery (s : Setting) (f : NestedFilter) : Prop :=
  ∀ {e : Entity} {a : String} {outer : Bool} {d : Draft}, e ∈ s.schema.entities →
    EntityQuery.FailsOfQuery s (f.matchOn e a outer d)

/-- So does matching what is asked. -/
def Asked.FailsOfQuery (s : Setting) : Asked → Prop
  | .predicates _ => True
  | .nested f => f.FailsOfQuery s

theorem Asked.failsOnly_onValue {asked : Asked} : EntityQuery.FailsOfQuery s (asked.onValue e name) := by
  cases asked with
  | predicates ps => exact .ok
  | nested f => exact .error trivial

theorem NestedFilter.failsOnly_needsJoin {f : NestedFilter} (he : e ∈ s.schema.entities) :
    EntityQuery.FailsOfQuery s (f.needsJoin s e) := by
  unfold needsJoin
  split_ifs
  · exact .ok
  · exact (FailsOnly.of_exists (Setting.exists_deletion? he)).bind fun _ => .ok

theorem Target.failsOnly_identify {targets : List Target} {field : String} {nil : NilIds}
    {v : Value} : FailsOfQuery s (identify targets field nil v) := by
  unfold identify
  split
  · exact Entity.failsOnly_parseId.bind fun _ => .ok
  · exact failsOnly_invalidId

theorem Target.failsOnly_grouped {targets : List Target} {field : String} {nil : NilIds}
    {vs : List Value} : FailsOfQuery s (grouped targets field nil vs) :=
  (FailsOnly.mapM fun _ _ => failsOnly_identify).bind fun _ => .ok

namespace Draft

theorem failsOnly_addEntity (he : e ∈ s.schema.entities) {t : Table} :
    FailsOfQuery s (d.addEntity s e t) := .of_exists (exists_addEntity he d t)

theorem failsOnly_addIds {ps : List Predicate} :
    FailsOfQuery s (addIds s target a column ps d) := by
  induction ps generalizing d with
  | nil => exact .ok
  | cons p ps ih => exact Predicate.failsOnly_forId.bind fun _ => ih

theorem failsOnly_addJunctionIds {idDbType : String} {ps : List Predicate} :
    FailsOfQuery s (addJunctionIds s target a idDbType column ps d) := by
  induction ps generalizing d with
  | nil => exact .ok
  | cons p ps ih =>
    unfold addJunctionIds
    split
    · exact .ok
    · next hp => exact (List.cons_eq_cons.1 hp).2 ▸ ih
    · next hp => exact (List.cons_eq_cons.1 hp).2 ▸ ih
    · next hp => exact failsOnly_addIds.bind fun _ => (List.cons_eq_cons.1 hp).2 ▸ ih

theorem failsOnly_addPolymorphic {components : List Component} {p : Predicate}
    (hdeclares : s.schema.Declares (.polymorphic components)) :
    FailsOfQuery s (d.addPolymorphic s a name components p) := by
  have htargets : FailsOfQuery s (Target.ofComponents s components) := .mapM fun c hc =>
    (Setting.failsOnly_entity hdeclares (List.mem_map_of_mem hc)).bind fun _ => .ok
  refine htargets.bind fun targets => ?_
  split
  · exact .ok
  · exact .ok
  · exact Target.failsOnly_identify.bind fun _ => .ok
  · exact Target.failsOnly_identify.bind fun _ => .ok
  · exact Target.failsOnly_grouped.bind fun _ => .ok
  · exact Target.failsOnly_grouped.bind fun _ => .ok
  · exact .error trivial

theorem failsOnly_joinTarget (htarget : target ∈ s.schema.entities) {parent : ColumnRef}
    {kind : JoinKind} {f : NestedFilter} (hf : f.FailsOfQuery s) :
    FailsOfQuery s (d.joinTarget s target parent kind f) :=
  (failsOnly_addEntity htarget).bind fun _ => hf htarget

theorem failsOnly_matchManyToOne (htarget : target ∈ s.schema.entities) {parent : ColumnRef}
    {needed outer : Bool} {asked : Asked} (hasked : asked.FailsOfQuery s) :
    FailsOfQuery s (d.matchManyToOne s target parent needed outer asked) := by
  cases asked with
  | predicates ps => exact failsOnly_addIds
  | nested f =>
    refine (NestedFilter.failsOnly_needsJoin htarget).bind fun needsJoin => ?_
    cases needsJoin with
    | true => exact failsOnly_joinTarget htarget hasked
    | false => exact failsOnly_addIds

theorem failsOnly_matchReferrer (htarget : target ∈ s.schema.entities) {collection : Bool}
    {asked : Asked} (hasked : asked.FailsOfQuery s) :
    FailsOfQuery s (d.matchReferrer s target a column collection asked) := by
  refine (failsOnly_addEntity htarget).bind fun _ => ?_
  cases asked with
  | predicates ps => exact failsOnly_addIds
  | nested f => exact hasked htarget

theorem failsOnly_matchManyToMany (htarget : target ∈ s.schema.entities)
    {table otherColumn idDbType : String} {asked : Asked} (hasked : asked.FailsOfQuery s) :
    FailsOfQuery s (d.matchManyToMany s target a table column otherColumn idDbType asked) := by
  cases asked with
  | predicates ps => exact failsOnly_addJunctionIds
  | nested f =>
    refine (NestedFilter.failsOnly_needsJoin htarget).bind fun needsJoin => ?_
    cases needsJoin with
    | true => exact failsOnly_joinTarget htarget hasked
    | false => exact failsOnly_addJunctionIds

theorem failsOnly_polymorphicPredicates {asked : Asked} :
    FailsOfQuery s (polymorphicPredicates e name asked) := by
  cases asked with
  | predicates ps => exact .ok
  | nested f =>
    simp only [polymorphicPredicates]
    split_ifs
    · exact .ok
    · exact .error trivial

/-- One entry of a filter. -/
theorem failsOnly_matchField (he : e ∈ s.schema.entities) {outer : Bool} {asked : Asked}
    (hasked : asked.FailsOfQuery s) : FailsOfQuery s (d.matchField s e a outer name asked) := by
  refine (Setting.failsOnly_resolve he).bind_of_ok fun site hsite => ?_
  have hdeclares := Setting.declares_of_resolve he hsite
  obtain ⟨field, kind, owner, base⟩ := site
  cases kind with
  | primaryKey => exact Asked.failsOnly_onValue.bind fun _ => failsOnly_addIds
  | primitive column dbType => exact Asked.failsOnly_onValue.bind fun _ => .ok
  | enumeration column dbType => exact Asked.failsOnly_onValue.bind fun _ => .ok
  | manyToOne column other needed =>
    exact (Setting.failsOnly_entity hdeclares (List.mem_singleton_self _)).bind_of_ok
      fun _ htarget => failsOnly_matchManyToOne (Setting.mem_of_entity htarget) hasked
  | oneToOne other column =>
    exact (Setting.failsOnly_entity hdeclares (List.mem_singleton_self _)).bind_of_ok
      fun _ htarget => failsOnly_matchReferrer (Setting.mem_of_entity htarget) hasked
  | oneToMany other column =>
    exact (Setting.failsOnly_entity hdeclares (List.mem_singleton_self _)).bind_of_ok
      fun _ htarget => failsOnly_matchReferrer (Setting.mem_of_entity htarget) hasked
  | manyToMany table column otherColumn other idDbType =>
    exact (Setting.failsOnly_entity hdeclares (List.mem_singleton_self _)).bind_of_ok
      fun _ htarget => failsOnly_matchManyToMany (Setting.mem_of_entity htarget) hasked
  | polymorphic components =>
    exact failsOnly_polymorphicPredicates.bind fun ps =>
      .foldlM (fun _ _ => failsOnly_addPolymorphic hdeclares) d

end Draft

/-! ### Filters -/

mutual

/-- Matching a filter fails only for what is wrong with the query. -/
theorem EntityFilter.failsOnly_match : ∀ {f : EntityFilter} {e : Entity} {a : String}
    {outer : Bool} {d : Draft}, e ∈ s.schema.entities →
    FailsOfQuery s (EntityFilter.match s e a outer f d)
  | ⟨none, _⟩, _, _, _, _, he => FieldFilter.failsOnly_matchAll he
  | ⟨some _, _⟩, _, _, _, _, he => FieldFilter.failsOnly_matchAll he

theorem FieldFilter.failsOnly_matchAll : ∀ {fs : List FieldFilter} {e : Entity} {a : String}
    {outer : Bool} {d : Draft}, e ∈ s.schema.entities →
    FailsOfQuery s (FieldFilter.matchAll s e a outer fs d)
  | [], _, _, _, _, _ => .ok
  | ⟨_, _⟩ :: _, _, _, _, _, he =>
    (FilterValue.failsOnly_match he).bind fun _ => FieldFilter.failsOnly_matchAll he

theorem FilterValue.failsOnly_match : ∀ {v : FilterValue} {e : Entity} {a name : String}
    {outer : Bool} {d : Draft}, e ∈ s.schema.entities →
    FailsOfQuery s (FilterValue.match s e a outer name v d)
  | .undefined, _, _, _, _, _, _ => .ok
  | .scalar _, _, _, _, _, _, he => Draft.failsOnly_matchField he trivial
  | .list _, _, _, _, _, _, he => Draft.failsOnly_matchField he trivial
  | .operators _, _, _, _, _, _, he => Draft.failsOnly_matchField he trivial
  | .nested _, _, _, _, _, _, he =>
    Draft.failsOnly_matchField he fun he' => EntityFilter.failsOnly_match he'
  | .binding _, _, _, _, _, _, he => Draft.failsOnly_matchField he fun _ => .ok

end

/-! ### Expressions over user aliases -/

section

variable {ε : PlanError → Prop} {r : Resolver}

mutual

/-- An expression fails where one of its leaves does. -/
theorem ExpressionLiteral.failsOnly_resolve
    (hcolumn : ∀ name field p, FailsOnly ε (r.column name field p))
    (hraw : ∀ names sql bindings, FailsOnly ε (r.raw names sql bindings)) :
    ∀ l : ExpressionLiteral, FailsOnly ε (l.resolve r)
  | ⟨_, branches, _⟩ =>
    (ConditionLiteral.failsOnly_resolveAll hcolumn hraw branches).bind fun _ => .ok

theorem ConditionLiteral.failsOnly_resolveAll
    (hcolumn : ∀ name field p, FailsOnly ε (r.column name field p))
    (hraw : ∀ names sql bindings, FailsOnly ε (r.raw names sql bindings)) :
    ∀ ls : List ConditionLiteral, FailsOnly ε (ConditionLiteral.resolveAll r ls)
  | [] => .ok
  | l :: ls => (ConditionLiteral.failsOnly_resolve hcolumn hraw l).bind fun _ =>
      (ConditionLiteral.failsOnly_resolveAll hcolumn hraw ls).bind fun _ => .ok

theorem ConditionLiteral.failsOnly_resolve
    (hcolumn : ∀ name field p, FailsOnly ε (r.column name field p))
    (hraw : ∀ names sql bindings, FailsOnly ε (r.raw names sql bindings)) :
    ∀ l : ConditionLiteral, FailsOnly ε (ConditionLiteral.resolve r l)
  | .undefined => .ok
  | .column name field p => (hcolumn name field p).bind fun _ => .ok
  | .raw names sql bindings => (hraw names sql bindings).bind fun _ => .ok
  | .group l => (ExpressionLiteral.failsOnly_resolve hcolumn hraw l).bind fun _ => .ok

end

end

namespace Draft

/-- User aliases name tables of entities of the schema. -/
def BindsEntities (s : Setting) (d : Draft) : Prop := ∀ b ∈ d.bindings, b.entity ∈ s.schema.entities

theorem mem_of_binding {b : Binding} (h : d.binding name = .ok b) : b ∈ d.bindings := by
  unfold binding at h
  split at h
  · next hfind => exact Except.ok.inj h ▸ List.mem_of_find?_eq_some hfind
  · cases h

theorem failsOnly_binding : FailsOfQuery s (d.binding name) := by
  unfold binding
  split
  · exact .ok
  · exact .error trivial

theorem failsOnly_resolveColumn (hd : d.BindsEntities s) {field : String} {p : Predicate} :
    FailsOfQuery s (d.resolveColumn s name field p) := by
  refine failsOnly_binding.bind_of_ok fun b hb => ?_
  have he := hd b (mem_of_binding hb)
  refine (Setting.failsOnly_resolve he).bind_of_ok fun site hsite => ?_
  have hdeclares := Setting.declares_of_resolve he hsite
  obtain ⟨field, kind, owner, base⟩ := site
  cases kind with
  | primaryKey => exact Predicate.failsOnly_forId.bind fun _ => .ok
  | primitive column dbType => exact .ok
  | enumeration column dbType => exact .ok
  | manyToOne column other needed =>
    exact (Setting.failsOnly_entity hdeclares (List.mem_singleton_self _)).bind fun _ =>
      Predicate.failsOnly_forId.bind fun _ => .ok
  | _ => exact .error trivial

theorem failsOnly_replaceNames {names : List String} {sql : String} :
    FailsOfQuery s (d.replaceNames names sql) := by
  induction names generalizing sql with
  | nil => exact .ok
  | cons name names ih => exact failsOnly_binding.bind fun _ => ih.bind fun _ => .ok

/-- An expression over user aliases. -/
theorem failsOnly_addConditions (hd : d.BindsEntities s) {literal : ExpressionLiteral} :
    FailsOfQuery s (d.addConditions s literal) :=
  (literal.failsOnly_resolve (fun _ _ _ => failsOnly_resolveColumn hd)
    fun _ _ _ => failsOnly_replaceNames.bind fun _ => .ok).bind fun _ => .ok

/-! ### Drafts -/

theorem Step.bindsEntities {d' : Draft} (h : d.Step s d') (hd : d.BindsEntities s) :
    d'.BindsEntities s := by
  cases h with
  | bind name he ha => exact List.forall_mem_cons.2 ⟨he, hd⟩
  | entity _ _ _ _ h =>
    obtain ⟨joins, deletion, -, -, rfl⟩ := addEntity_eq_ok h
    exact hd
  | collection _ _ _ _ h =>
    obtain ⟨joins, deletion, -, -, rfl⟩ := addEntity_eq_ok h
    exact hd
  | _ => exact hd

theorem bindings_addSubtypes {subs : List String} {i : Nat} {d' : Draft}
    {cases : List DiscriminatorCase} (h : addSubtypes s a i subs d = .ok (d', cases)) :
    d'.bindings = d.bindings := by
  induction subs generalizing i d cases with
  | nil =>
    obtain ⟨rfl, -⟩ := Prod.mk.inj (Except.ok.inj h)
    rfl
  | cons sub subs ih =>
    obtain ⟨e, -, h⟩ := exists_of_bind_eq_ok h
    obtain ⟨⟨d₁, others⟩, hothers, h⟩ := exists_of_bind_eq_ok h
    obtain ⟨rfl, -⟩ := Prod.mk.inj (Except.ok.inj h)
    exact (ih hothers).trans rfl

theorem bindings_addSelects {d' : Draft} (h : d.addSelects s e a = .ok d') :
    d'.bindings = d.bindings := by
  obtain ⟨⟨d₁, cases⟩, hcases, h⟩ := exists_of_bind_eq_ok h
  have hsame := bindings_addSubtypes hcases
  obtain rfl := Except.ok.inj h
  split_ifs <;> exact hsame

/-- A query has no draft only for what is wrong with it. -/
theorem failsOnly_ofQuery (he : e ∈ s.schema.entities) {filter : EntityFilter}
    {conditions : Option ExpressionLiteral} :
    FailsOfQuery s (Draft.ofQuery s e filter conditions) := by
  refine (failsOnly_addEntity he).bind_of_ok fun d₁ hd₁ => ?_
  refine (FailsOnly.of_exists (exists_addSelects he)).bind_of_ok fun d₂ hd₂ => ?_
  refine (EntityFilter.failsOnly_match he).bind_of_ok fun d₃ hd₃ => ?_
  have hnone : d₂.bindings = [] := by
    obtain ⟨joins, deletion, -, -, rfl⟩ := addEntity_eq_ok hd₁
    exact bindings_addSelects hd₂
  have hhoused := (housed_addEntity hd₁).mono (names_subset_addSelects hd₂)
  have hbinds : d₃.BindsEntities s := (EntityFilter.steps_match he hhoused hd₃).induct
    Step.bindsEntities (by rw [BindsEntities, hnone]; exact nofun)
  cases conditions with
  | none => exact FailsOnly.ok.bind fun _ => .ok
  | some literal => exact (failsOnly_addConditions hbinds).bind fun _ => .ok

end Draft

/-! ### Orders -/

theorem Ordering.failsOnly_reach (he : target ∈ s.schema.entities) {o : Ordering}
    {parent : ColumnRef} : FailsOfQuery s (o.reach s parent target) := by
  unfold reach
  split
  · exact .ok
  · refine (FailsOnly.of_exists (Setting.exists_baseJoins fun base hbase => ?_)).bind fun _ => .ok
    exact Setting.exists_entity_of_relative he (Setting.mem_relatives_of_baseTypes hbase)

mutual

/-- An order fails only for what is wrong with the query. -/
theorem OrderBy.failsOnly_resolve : ∀ {order : OrderBy} {e : Entity} {a : String} {o : Ordering},
    e ∈ s.schema.entities → FailsOfQuery s (order.resolve s e a o)
  | .keys _, _, _, _, he => OrderEntry.failsOnly_resolveAll he

theorem OrderEntry.failsOnly_resolveAll : ∀ {entries : List OrderEntry} {e : Entity} {a : String}
    {o : Ordering}, e ∈ s.schema.entities → FailsOfQuery s (OrderEntry.resolveAll s e a entries o)
  | [], _, _, _, _ => .ok
  | _ :: _, _, _, _, he =>
    (OrderEntry.failsOnly_resolve he).bind fun _ => OrderEntry.failsOnly_resolveAll he

theorem OrderEntry.failsOnly_resolve : ∀ {entry : OrderEntry} {e : Entity} {a : String}
    {o : Ordering}, e ∈ s.schema.entities → FailsOfQuery s (OrderEntry.resolve s e a entry o)
  | .field name direction, e, a, o, he => by
    refine (Setting.failsOnly_resolve he).bind fun site => ?_
    split
    · exact .ok
    · exact .ok
    · exact .ok
    · exact .ok
    · exact .error trivial
  | .through name nested, e, a, o, he => by
    refine (Setting.failsOnly_resolve he).bind_of_ok fun site hsite => ?_
    have hdeclares := Setting.declares_of_resolve he hsite
    obtain ⟨field, kind, owner, base⟩ := site
    cases kind with
    | manyToOne column other needed =>
      refine (Setting.failsOnly_entity hdeclares (List.mem_singleton_self _)).bind_of_ok
        fun target htarget => ?_
      have htarget := Setting.mem_of_entity htarget
      exact (Ordering.failsOnly_reach htarget).bind fun _ =>
        (OrderBy.failsOnly_resolve htarget).bind fun _ => .ok
    | _ => exact .error trivial

end

end

end EntityQuery
