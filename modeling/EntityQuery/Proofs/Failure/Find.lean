import EntityQuery.Proofs.Effect.Field
import EntityQuery.Proofs.Failure.Draft
import EntityQuery.Proofs.Find.Run
import EntityQuery.Proofs.Pruning.Visit
import EntityQuery.Proofs.Scoping.Find

/-!
# Why a query has no plan

The references of a schema are checked when it is made, so planning never finds an entity missing but
the one that the query is for.  A field that an entity does not have is reported as such: a query
that asks for one has no plan.  The visits of the passes all succeed.

* `Setting.Knows`, `OrderBy.Known`, `ExpressionLiteral.columns`: the fields that a query asks for;
* `FieldsKnown`: they are all there;
* `Plan.failsOnly_resolveCollections`, `Plan.failsOnly_addOrder`: the passes that may fail;
* `failures_find`: why a query has no plan, and what is known if it has one.
-/

namespace EntityQuery

/-! ### The fields that a query asks for -/

/-- The entity has the field. -/
def Setting.Knows (s : Setting) (e : Entity) (name : String) : Prop :=
  ∃ site, s.resolve e name = .ok site

mutual

/-- The fields of an order are there, from the entity that it is on. -/
def OrderBy.Known (s : Setting) (e : Entity) : OrderBy → Prop
  | .keys entries => OrderEntry.AllKnown s e entries

def OrderEntry.AllKnown (s : Setting) (e : Entity) : List OrderEntry → Prop
  | [] => True
  | entry :: rest => entry.Known s e ∧ OrderEntry.AllKnown s e rest

def OrderEntry.Known (s : Setting) (e : Entity) : OrderEntry → Prop
  | .field name _ => s.Knows e name
  | .through name nested => ∃ site, s.resolve e name = .ok site ∧
    ∃ target, site.Refers s target ∧ nested.Known s target

end

mutual

/-- The fields that an expression asks for, each with the user alias of its table. -/
def ExpressionLiteral.columns : ExpressionLiteral → List (String × String)
  | ⟨_, branches, _⟩ => ConditionLiteral.columnsOf branches

def ConditionLiteral.columnsOf : List ConditionLiteral → List (String × String)
  | [] => []
  | b :: rest => b.columns ++ ConditionLiteral.columnsOf rest

def ConditionLiteral.columns : ConditionLiteral → List (String × String)
  | .column aliasName field _ => [(aliasName, field)]
  | .group literal => literal.columns
  | _ => []

end

/-- The fields that the filter, the conditions and the order of a query ask for are there. -/
structure FieldsKnown (s : Setting) (e : Entity) (d : Draft) (filter : EntityFilter)
    (options : FindOptions) : Prop where
  filter : filter.Throughout s (fun e name _ => s.Knows e name) e
  conditions : ∀ literal ∈ options.conditions, ∀ c ∈ literal.columns,
    ∃ b, d.binding c.1 = .ok b ∧ s.Knows b.entity c.2
  order : options.orderBy.Known s e

/-! ### Filters -/

section

variable {s : Setting} {e : Entity} {a name : String} {d d' : Draft}

theorem FieldFilter.knows_of_forall_id {fields : List FieldFilter}
    (hids : ∀ field ∈ fields, field.value.isDefined = true → field.name = "id") :
    FieldFilter.AllThroughout s (fun e name _ => s.Knows e name) e fields := by
  induction fields with
  | nil => trivial
  | cons field fields ih =>
    obtain ⟨name, v⟩ := field
    obtain ⟨hfirst, hrest⟩ := List.forall_mem_cons.1 hids
    refine ⟨?_, ih hrest⟩
    cases v with
    | undefined => trivial
    | nested g =>
      obtain rfl : name = "id" := hfirst rfl
      refine ⟨⟨_, Setting.resolve_id⟩, fun site target hsite hrefers => ?_⟩
      obtain rfl := Except.ok.inj (Setting.resolve_id.symm.trans hsite)
      exact hrefers.elim
    | _ =>
      obtain rfl : name = "id" := hfirst rfl
      exact ⟨_, Setting.resolve_id⟩

/-- Nothing but the id is asked for, and every entity has one. -/
theorem EntityFilter.knows_of_onlyId {f : EntityFilter} (h : f.onlyId = true) :
    f.Throughout s (fun e name _ => s.Knows e name) e := by
  have hids : ∀ field ∈ f.fields, field.value.isDefined = true → field.name = "id" :=
    fun field hfield hdefined => of_decide_eq_true (List.all_eq_true.1 h field.name
      (List.mem_map_of_mem (List.mem_filter.2 ⟨hfield, hdefined⟩)))
  obtain ⟨aliasName, fields⟩ := f
  exact FieldFilter.knows_of_forall_id hids

mutual

/-- The fields of a filter that is matched are there. -/
theorem EntityFilter.knows_match : ∀ {f : EntityFilter} {d d' : Draft} {e : Entity} {a : String}
    {outer : Bool}, e ∈ s.schema.entities → Housed d.names a e.baseTypes.length →
    EntityFilter.match s e a outer f d = .ok d' →
    f.Throughout s (fun e name _ => s.Knows e name) e
  | ⟨none, _⟩, _, _, _, _, _, he, ha, h => FieldFilter.knows_matchAll he ha h
  | ⟨some name, _⟩, d, _, e, a, _, he, ha, h =>
    FieldFilter.knows_matchAll (d := d.bind name a e) he ha h

theorem FieldFilter.knows_matchAll : ∀ {fs : List FieldFilter} {d d' : Draft} {e : Entity}
    {a : String} {outer : Bool}, e ∈ s.schema.entities → Housed d.names a e.baseTypes.length →
    FieldFilter.matchAll s e a outer fs d = .ok d' →
    FieldFilter.AllThroughout s (fun e name _ => s.Knows e name) e fs
  | [], _, _, _, _, _, _, _, _ => trivial
  | ⟨_, _⟩ :: _, _, _, _, _, _, he, ha, h => by
    obtain ⟨d₁, hd₁, h⟩ := exists_of_bind_eq_ok h
    have hrest := ha.mono (FilterValue.steps_match he ha hd₁).names_subset
    exact ⟨FilterValue.knows_match he ha hd₁, FieldFilter.knows_matchAll he hrest h⟩

theorem FilterValue.knows_match : ∀ {v : FilterValue} {d d' : Draft} {e : Entity}
    {a name : String} {outer : Bool}, e ∈ s.schema.entities →
    Housed d.names a e.baseTypes.length → FilterValue.match s e a outer name v d = .ok d' →
    FilterValue.Throughout s (fun e name _ => s.Knows e name) e name v
  | .undefined, _, _, _, _, _, _, _, _, _ => trivial
  | .scalar _, _, _, _, _, _, _, he, ha, h => (Draft.hears_matchField he ha h).imp fun _ h => h.1
  | .list _, _, _, _, _, _, _, he, ha, h => (Draft.hears_matchField he ha h).imp fun _ h => h.1
  | .operators _, _, _, _, _, _, _, he, ha, h =>
    (Draft.hears_matchField he ha h).imp fun _ h => h.1
  | .nested f, _, _, _, _, _, _, he, ha, h => by
    obtain ⟨site, hsite, h⟩ := Draft.matchField_nested he ha h
    refine ⟨⟨site, hsite⟩, fun site' target hsite' hrefers => ?_⟩
    obtain rfl := Except.ok.inj (hsite.symm.trans hsite')
    rcases h with ⟨hcolumn, -⟩ | ⟨target', own, outer, d₁, hrefers', htarget, -, hown, h⟩
    · exact EntityFilter.knows_of_onlyId hcolumn.2.1
    · obtain rfl := hrefers.unique hrefers'
      exact EntityFilter.knows_match htarget hown h
  | .binding _, _, _, _, _, _, _, he, ha, h =>
    (Draft.matchField_nested he ha h).imp fun _ h => h.1

end

/-! ### Conditions -/

section

variable {r : Resolver}

mutual

/-- The leaves of an expression that stands for a group stand for conditions. -/
theorem ExpressionLiteral.exists_column : ∀ {l : ExpressionLiteral} {g : Option Group},
    l.resolve r = .ok g → ∀ c ∈ l.columns, ∃ p k, r.column c.1 c.2 p = .ok k
  | ⟨_, _, _⟩, _, h => by
    obtain ⟨b, hb, -⟩ := exists_of_map_eq_ok h
    exact ConditionLiteral.exists_column_all hb

theorem ConditionLiteral.exists_column_all : ∀ {ls : List ConditionLiteral} {b : Branches},
    ConditionLiteral.resolveAll r ls = .ok b →
    ∀ c ∈ ConditionLiteral.columnsOf ls, ∃ p k, r.column c.1 c.2 p = .ok k
  | [], _, _ => nofun
  | _ :: _, _, h => by
    obtain ⟨c, hc, h⟩ := exists_of_bind_eq_ok h
    obtain ⟨bs, hbs, -⟩ := exists_of_bind_eq_ok h
    exact List.forall_mem_append.2
      ⟨ConditionLiteral.exists_column hc, ConditionLiteral.exists_column_all hbs⟩

theorem ConditionLiteral.exists_column : ∀ {l : ConditionLiteral} {c : Option Condition},
    ConditionLiteral.resolve r l = .ok c → ∀ c ∈ l.columns, ∃ p k, r.column c.1 c.2 p = .ok k
  | .undefined, _, _ => nofun
  | .column _ _ p, _, h => by
    obtain ⟨k, hk, -⟩ := exists_of_bind_eq_ok h
    exact List.forall_mem_singleton.2 ⟨p, k, hk⟩
  | .raw _ _ _, _, _ => nofun
  | .group _, _, h => by
    obtain ⟨g, hg, -⟩ := exists_of_bind_eq_ok h
    exact ExpressionLiteral.exists_column hg

end

end

theorem Draft.knows_addConditions {literal : ExpressionLiteral}
    (h : d.addConditions s literal = .ok d') :
    ∀ c ∈ literal.columns, ∃ b, d'.binding c.1 = .ok b ∧ s.Knows b.entity c.2 := by
  obtain ⟨g, hg, h⟩ := exists_of_bind_eq_ok h
  obtain rfl := Except.ok.inj h
  intro c hc
  obtain ⟨p, k, hk⟩ := literal.exists_column hg c hc
  obtain ⟨b, hb, hk⟩ := exists_of_bind_eq_ok hk
  obtain ⟨site, hsite, -⟩ := exists_of_bind_eq_ok hk
  exact ⟨b, hb, site, hsite⟩

/-! ### Orders -/

mutual

/-- The fields of an order that has sort keys are there. -/
theorem OrderBy.known_resolve : ∀ {order : OrderBy} {e : Entity} {a : String} {o o' : Ordering},
    order.resolve s e a o = .ok o' → order.Known s e
  | .keys _, _, _, _, _, h => OrderEntry.known_resolveAll h

theorem OrderEntry.known_resolveAll : ∀ {entries : List OrderEntry} {e : Entity} {a : String}
    {o o' : Ordering}, OrderEntry.resolveAll s e a entries o = .ok o' →
    OrderEntry.AllKnown s e entries
  | [], _, _, _, _, _ => trivial
  | _ :: _, _, _, _, _, h => by
    obtain ⟨o₁, ho₁, h⟩ := exists_of_bind_eq_ok h
    exact ⟨OrderEntry.known_resolve ho₁, OrderEntry.known_resolveAll h⟩

theorem OrderEntry.known_resolve : ∀ {entry : OrderEntry} {e : Entity} {a : String}
    {o o' : Ordering}, OrderEntry.resolve s e a entry o = .ok o' → entry.Known s e
  | .field _ _, _, _, _, _, h => by
    obtain ⟨site, hsite, -⟩ := exists_of_bind_eq_ok h
    exact ⟨site, hsite⟩
  | .through _ _, _, _, _, _, h => by
    obtain ⟨site, hsite, h⟩ := exists_of_bind_eq_ok h
    refine ⟨site, hsite, ?_⟩
    obtain ⟨field, kind, owner, base⟩ := site
    cases kind with
    | manyToOne column other needed =>
      obtain ⟨target, htarget, h⟩ := exists_of_bind_eq_ok h
      obtain ⟨reached, -, h⟩ := exists_of_bind_eq_ok h
      obtain ⟨o₁, ho₁, -⟩ := exists_of_bind_eq_ok h
      exact ⟨target, htarget, OrderBy.known_resolve ho₁⟩
    | _ => cases h

end

/-! ### Passes that may fail -/

theorem Lateral.failsOnly_settle {E : PlanError → Prop}
    (hE : ∀ sql roots, E (.fragmentSpansRoots sql roots)) {t : Collections}
    {eligible : List String} {top : List Condition} {rounds : Nat}
    {excluded warnings : List String} :
    FailsOnly E (settle t eligible top rounds excluded warnings) := by
  induction rounds generalizing excluded warnings with
  | zero =>
    unfold settle
    simp only
    split
    · exact .error (hE _ _)
    · split <;> first | exact .ok | contradiction
  | succ n ih =>
    unfold settle
    simp only
    split
    · exact .error (hE _ _)
    · split
      · exact .ok
      · contradiction
      · next hround _ =>
        obtain rfl := Nat.succ.inj hround
        exact ih

/-- Collections cannot be resolved only where a fragment of text spans them. -/
theorem Plan.failsOnly_resolveCollections {E : PlanError → Prop}
    (hE : ∀ sql roots, E (.fragmentSpansRoots sql roots)) {p : Plan} {strategy : Strategy}
    {threshold : Nat} {joins : List Join} {supply : AliasSupply} :
    FailsOnly E (p.resolveCollections strategy threshold joins supply) := by
  unfold resolveCollections
  split_ifs
  · exact .ok
  cases strategy with
  | existence =>
    refine FailsOnly.map ?_
    unfold toExistence
    simp only
    split_ifs
    · exact .ok
    · split
      · exact .error (hE _ _)
      · exact .ok
  | lateral force =>
    unfold toLateral
    simp only
    split_ifs
    · exact .ok
    · exact (Lateral.failsOnly_settle hE).bind fun _ => .ok
  | keep => exact .ok

theorem Plan.failsOnly_addOrder (he : e ∈ s.schema.entities) {p : Plan} {order : OrderBy}
    {supply : AliasSupply} : FailsOfQuery s (p.addOrder s e a order supply) :=
  (OrderBy.failsOnly_resolve he).bind fun _ => .ok

end

/-! ### Queries -/

section

variable {schema : Schema} {config : Config} {typeName : String} {filter : EntityFilter}
  {options : FindOptions}

theorem Schema.entity_eq_error_or_ok (schema : Schema) (typeName : String) :
    (typeName ∉ schema.entities.map (·.typeName) ∧
      schema.entity typeName = .error (.unknownEntity typeName)) ∨
    (typeName ∈ schema.entities.map (·.typeName) ∧ ∃ e, schema.entity typeName = .ok e) := by
  unfold Schema.entity
  cases h : schema.entity? typeName with
  | none =>
    refine .inl ⟨fun hmem => ?_, rfl⟩
    obtain ⟨e, he, hname⟩ := List.mem_map.1 hmem
    exact List.find?_eq_none.1 h e he (decide_eq_true hname)
  | some e =>
    have hname := typeName_of_entity? h
    exact .inr ⟨List.mem_map.2 ⟨e, mem_of_entity? h, hname⟩, e, rfl⟩

/-- A query for an entity of the schema has no plan only for what is wrong with the query. -/
theorem failsOnly_find {e : Entity} (he : schema.entity typeName = .ok e) :
    FailsOnly (PlanError.OfQuery schema) (find schema config typeName filter options) := by
  have hmem := Schema.mem_of_entity he
  have hentity : (options.setting schema config).entity typeName = .ok e :=
    Setting.entity_eq_ok he
  refine (FailsOnly.of_exists ⟨e, hentity⟩).bind_of_ok fun e' he' => ?_
  obtain rfl := Except.ok.inj (hentity.symm.trans he')
  refine (Draft.failsOnly_ofQuery (s := options.setting schema config) hmem).bind fun _ => ?_
  refine (FailsOnly.mapM fun _ _ => (Draft.failsOnly_binding
    (s := options.setting schema config)).bind fun _ => .ok).bind fun _ => ?_
  refine (Plan.failsOnly_resolveCollections fun _ _ => trivial).bind fun _ => ?_
  exact (Plan.failsOnly_addOrder (s := options.setting schema config) hmem).bind fun _ => .ok

/-- The fields that a query asks for are there if it has a plan. -/
theorem QueryRun.fieldsKnown (run : QueryRun schema config typeName filter options) :
    FieldsKnown (options.setting schema config) run.entity run.draft filter options := by
  obtain ⟨d₁, d₂, d₃, ha, hprimary, hselects, hmatch, hconditions⟩ := Draft.ofQuery_eq_ok run.draft_eq
  have hhoused : Housed d₂.names run.aliasName run.entity.baseTypes.length :=
    ha ▸ (Draft.housed_addEntity hprimary).mono (Draft.names_subset_addSelects hselects)
  refine ⟨EntityFilter.knows_match run.entity_mem hhoused hmatch, fun literal hl => ?_, ?_⟩
  · rcases hconditions with ⟨hnone, -⟩ | ⟨literal', hsome, hd⟩
    · rw [hnone] at hl
      cases hl
    · obtain rfl := Option.some.inj (hsome.symm.trans hl)
      exact Draft.knows_addConditions hd
  · obtain ⟨o, ho, -⟩ := exists_of_bind_eq_ok run.ordered_eq
    exact OrderBy.known_resolve ho

/-- The plan of a query whose passes visit the plan, and fail where a visit does. -/
def findByVisit (schema : Schema) (config : Config) (typeName : String) (filter : EntityFilter)
    (options : FindOptions) : Except PlanError Resolved := do
  let s := options.setting schema config
  let e ← s.entity typeName
  let (aliasName, d) ← Draft.ofQuery s e filter options.conditions
  let keep ← options.keepAliases.mapM fun name => return (← d.binding name).aliasName
  let strategy := options.strategy.getD config.defaultStrategy
  let (resolved, supply) ←
    d.toPlan.resolveCollections strategy config.lateralThreshold d.collections d.supply
  let checked ← resolved.plan.addNullChecksByVisit d.idDbType
  let (ordered, _) ← checked.addOrder s e aliasName options.orderBy supply
  let plan ←
    if options.pruneJoins.getD config.pruneJoins then ordered.pruneByVisit keep else pure ordered
  return ⟨plan, resolved.warnings⟩

/-- No visit fails. -/
theorem findByVisit_eq_find : findByVisit schema config typeName filter options =
    find schema config typeName filter options := by
  unfold findByVisit find
  simp only [Plan.addNullChecksByVisit_eq_ok, Plan.pruneByVisit_eq_ok, ok_bind]
  refine bind_congr fun e => bind_congr fun d => bind_congr fun keep => bind_congr fun resolved =>
    bind_congr fun ordered => ?_
  split_ifs <;> rfl

/-- A query is refused for an unknown entity just if it is for that entity, and never for a visit
that went wrong.  A field that an entity does not have is reported as unknown wherever it is looked
up, and a query that has a plan asks for no such field. -/
theorem failures_find (schema : Schema) (config : Config) (typeName : String)
    (filter : EntityFilter) (options : FindOptions) :
    findByVisit schema config typeName filter options =
      find schema config typeName filter options ∧
    (∀ err, find schema config typeName filter options = .error err →
      (typeName ∉ schema.entities.map (·.typeName) ∧ err = .schema (.unknownEntity typeName)) ∨
      (typeName ∈ schema.entities.map (·.typeName) ∧ err.OfQuery schema)) ∧
    (∀ e ∈ schema.entities, ∀ name err, schema.resolve e name = .error err →
      (options.setting schema config).resolve e name = .error (.unknownField e.typeName name)) ∧
    ∀ r, find schema config typeName filter options = .ok r → ∃ e a d,
      schema.entity typeName = .ok e ∧
      Draft.ofQuery (options.setting schema config) e filter options.conditions = .ok (a, d) ∧
      FieldsKnown (options.setting schema config) e d filter options := by
  refine ⟨findByVisit_eq_find, fun err h => ?_, fun e he name err h => ?_, fun r h => ?_⟩
  · rcases schema.entity_eq_error_or_ok typeName with
      ⟨hnone, hentity⟩ | ⟨hsome, e, hentity⟩
    · refine .inl ⟨hnone, ?_⟩
      rw [find, Setting.entity, hentity] at h
      exact (Except.error.inj h).symm
    · exact .inr ⟨hsome, failsOnly_find hentity err h⟩
  · obtain rfl := Schema.eq_unknownField_of_resolve he h
    rw [Setting.resolve, h]
    rfl
  · obtain ⟨run, -⟩ := exists_run_of_find h
    exact ⟨run.entity, run.aliasName, run.draft, of_planning_eq_ok run.entity_eq, run.draft_eq,
      run.fieldsKnown⟩

end

/-! ### Queries on the library -/

/-- Authors of the nickname. -/
def nicknamed (nickname : String) : EntityFilter :=
  ⟨none, [⟨"nickname", .scalar (.text nickname)⟩]⟩

/-- The library has no readers, and authors have no nickname; authors of a book of a title are found,
ordered by their publishers. -/
theorem failures_find_library :
    (∃ err, find library .default "Reader" (nicknamed "Bo") .default = .error err ∧
      err = .schema (.unknownEntity "Reader")) ∧
    (∃ err, find library .default "Author" (nicknamed "Bo") .default = .error err ∧
      err.OfQuery library) ∧
    (byPublisher.setting library .default).resolve Sample.Library.author "nickname" =
      .error (.unknownField "Author" "nickname") ∧
    ∃ r e a d, find library .default "Author" (authorsOf "Emma") byPublisher = .ok r ∧
      Draft.ofQuery (byPublisher.setting library .default) e (authorsOf "Emma")
        byPublisher.conditions = .ok (a, d) ∧
      FieldsKnown (byPublisher.setting library .default) e d (authorsOf "Emma") byPublisher := by
  have hauthor : "Author" ∈ library.entities.map (·.typeName) := by decide
  have hreader : "Reader" ∉ library.entities.map (·.typeName) := by decide
  have hnowhere : (find library .default "Reader" (nicknamed "Bo") .default).isOk = false := by
    decide +kernel
  have hunknown : (find library .default "Author" (nicknamed "Bo") .default).isOk = false := by
    decide +kernel
  have hfield : (library.resolve Sample.Library.author "nickname").isOk = false := by
    decide +kernel
  have hfound : (find library .default "Author" (authorsOf "Emma") byPublisher).isOk = true := by
    decide +kernel
  refine ⟨?_, ?_, ?_, ?_⟩
  · obtain ⟨err, h⟩ := exists_of_not_isOk hnowhere
    obtain ⟨-, herr⟩ | ⟨hmem, -⟩ := (failures_find _ _ _ _ _).2.1 err h
    · exact ⟨err, h, herr⟩
    · exact absurd hmem hreader
  · obtain ⟨err, h⟩ := exists_of_not_isOk hunknown
    obtain ⟨hnone, -⟩ | ⟨-, herr⟩ := (failures_find _ _ _ _ _).2.1 err h
    · exact absurd hauthor hnone
    · exact ⟨err, h, herr⟩
  · obtain ⟨err, h⟩ := exists_of_not_isOk hfield
    exact (failures_find _ _ "Author" (authorsOf "Emma") byPublisher).2.2.1 _
      (List.mem_cons_self ..) _ err h
  · obtain ⟨r, h⟩ := exists_of_isOk hfound
    obtain ⟨e, a, d, -, hd, hknown⟩ := (failures_find _ _ _ _ _).2.2.2 r h
    exact ⟨r, e, a, d, h, hd, hknown⟩

end EntityQuery
