import EntityQuery.Proofs.Blank.Passes
import EntityQuery.Proofs.Find.Run
import EntityQuery.Proofs.Scoping.Find

/-!
# Queries that ask for nothing

A filter that only names tables and leads through relations changes nothing about a query of which
no more is asked: its joins are removed again, whatever the strategy was.

* `Draft.Bare.toPlan`: the plan of a draft without filter;
* `Draft.GrowsBy.toPlan`: that of a draft with more joins and predicates;
* `find_of_isBlank`: a filter without values gives the plan of no filter at all.
-/

namespace EntityQuery

/-- The joins behind others are ordered behind their tables. -/
theorem Join.Ordered.of_append {names : List String} {js js' : List Join}
    (h : Join.Ordered names (js ++ js')) : Join.Ordered (names ++ js.map (·.aliasName)) js' := by
  induction js generalizing names with
  | nil => simpa using h
  | cons j js ih =>
    obtain ⟨-, -, -, hrest⟩ := h
    simpa using ih hrest

theorem Select.exists_of_mem_referencesOf {xs : List Select} {a : String}
    (hplain : ∀ x ∈ xs, ∀ g name, x ≠ .boolOr g name) (h : a ∈ Select.referencesOf xs) :
    ∃ x ∈ xs, a ∈ x.aliases := by
  induction xs with
  | nil => cases h
  | cons x xs ih =>
    rw [List.forall_mem_cons] at hplain
    have hsplit : Select.referencesOf (x :: xs) = x.aliases ++ Select.referencesOf xs := by
      cases x with
      | boolOr g name => exact absurd rfl (hplain.1 g name)
      | _ => rfl
    rw [hsplit, List.mem_append] at h
    rcases h with h | h
    · exact ⟨x, List.mem_cons_self, h⟩
    · obtain ⟨y, hy, ha⟩ := ih hplain.2 h
      exact ⟨y, List.mem_cons_of_mem _ hy, ha⟩

/-- Predicates alone are the conditions at the top. -/
theorem Conjuncts.group?_inlined {ks : List Condition} :
    (⟨ks, [], []⟩ : Conjuncts).group? = Group.ofTop false ks := by
  cases ks with
  | nil => rfl
  | cons k ks =>
    rw [Group.ofTop_false]
    show some (Group.all (k :: ks ++ [] ++ [])) = some (.all (k :: ks))
    rw [List.append_nil, List.append_nil]

namespace Draft

variable {schema : Schema} {a table : String} {d d' : Draft} {js cs : List Join} {ks : List Condition}

theorem topConditions_toPlan (hks : d.conjuncts = ⟨ks, [], []⟩) :
    d.toPlan.topConditions = ks := by
  have hcondition : d.toPlan.condition = Group.ofTop false ks := by
    rw [toPlan, hks, Conjuncts.group?_inlined]
  exact Plan.topConditions_ofTop hcondition nofun

/-- The plan of a draft without filter. -/
theorem Bare.toPlan (h : d.Bare) (hregular : d.Regular schema a table) (hnd : d.names.Nodup) :
    d.toPlan.Bare := by
  obtain ⟨ks, hks, hidle⟩ := h.conjuncts
  obtain ⟨T, -, hT, -⟩ := hregular.exists_tree hnd
  have htop := topConditions_toPlan hks
  refine ⟨⟨T, hT⟩, h.starred, h.plain, htop ▸ hidle, ?_, fun b hb => ?_⟩
  · rw [htop, Draft.toPlan, hks, Conjuncts.group?_inlined]
  show b ∈ d.names
  rcases Plan.mem_references_iff.1 hb with hb | hb | ⟨k, hk, -⟩ | ⟨c, hc, -⟩ | hb
  · obtain ⟨x, hx, hb⟩ := Select.exists_of_mem_referencesOf h.plain hb
    obtain rfl | ⟨j, hj, rfl, -⟩ := (hregular.selects x hx).2 b hb
    · exact hregular.mem_primary
    · exact List.mem_map_of_mem hj
  · rw [Draft.toPlan, hks, Conjuncts.group?_inlined] at hb
    obtain ⟨c, hc, hb⟩ := Group.exists_of_mem_referencesOf_ofTop hb
    rw [Condition.references_of_isPruneable (hidle c hc).isPruneable] at hb
    cases hb
  · cases hk
  · cases hc
  · show b ∈ d.tables.map Table.aliasName
    change b ∈ Table.referencesOf d.tables at hb
    rw [hT] at hb ⊢
    rw [T.map_aliasName_tables]
    rcases Table.mem_referencesOf_iff.1 hb with ⟨j, hj, rfl⟩ | ⟨x, c, query, ht, -⟩
    · obtain hj | ⟨j', hj', hj⟩ := JoinTree.mem_tables_iff.1 hj
      · cases hj
      · exact Table.join.inj hj ▸ JoinTree.parent_mem hj'
    · obtain ht | ⟨j, -, ht⟩ := JoinTree.mem_tables_iff.1 ht <;> cases ht

/-- The plan of a draft with more joins and predicates. -/
theorem GrowsBy.toPlan (h : d.GrowsBy d' js ks cs) (hd : d.Bare) :
    d'.toPlan = d.toPlan.pad js ks := by
  obtain ⟨ks₀, hks₀, -⟩ := hd.conjuncts
  rw [Plan.pad, topConditions_toPlan hks₀, Draft.toPlan, h.selects, h.tables, h.conjuncts, withInlined,
    hks₀, Conjuncts.group?_inlined]
  rfl

/-- The joins are ordered where all tables have names of their own. -/
theorem GrowsBy.ordered (h : d.GrowsBy d' js ks cs) (hregular : d.Regular schema a table)
    (hregular' : d'.Regular schema a table) (hnd : d'.names.Nodup) :
    Join.Ordered (d.toPlan.tables.map Table.aliasName) js := by
  have hnd₀ : d.names.Nodup := by
    rw [names_append h.tables] at hnd
    exact (List.nodup_append.1 hnd).1
  obtain ⟨T, rfl, hT, -⟩ := hregular.exists_tree hnd₀
  obtain ⟨T', ha, hT', -⟩ := hregular'.exists_tree hnd
  have hjoins : T'.joins = T.joins ++ js := by
    have htables := h.tables
    rw [hT, hT', JoinTree.tables, JoinTree.tables, List.cons_append, ← List.map_append] at htables
    exact List.map_injective_iff.2 (fun _ _ => Table.join.inj) (List.cons.inj htables).2
  have hordered := T'.ordered
  rw [ha, hjoins] at hordered
  show Join.Ordered (d.tables.map Table.aliasName) js
  rw [hT, T.map_aliasName_tables]
  exact hordered.of_append

end Draft

/-! ### Queries -/

/-- The plan in the order of the ids of a table. -/
def Plan.byId (p : Plan) (a : String) : Plan := { p with sortKeys := [⟨a, "id", .asc⟩] }

namespace Plan

variable {p : Plan} {js : List Join} {ks : List Condition} {a : String}

theorem Bare.byId (hp : p.Bare) (ha : a ∈ p.tables.map Table.aliasName) : (p.byId a).Bare where
  tables := hp.tables
  starred := hp.starred
  plain := hp.plain
  conditions := hp.conditions
  condition := hp.condition
  closed b hb := by
    rcases mem_references_iff.1 hb with hb | hb | ⟨k, hk, rfl⟩ | hb | hb
    · exact hp.closed b (mem_references_iff.2 (.inl hb))
    · exact hp.closed b (mem_references_iff.2 (.inr (.inl hb)))
    · rwa [List.mem_singleton.1 hk]
    · exact hp.closed b (mem_references_iff.2 (.inr (.inr (.inr (.inl hb)))))
    · exact hp.closed b (mem_references_iff.2 (.inr (.inr (.inr (.inr hb)))))

theorem addOrder_pad {s : Setting} {e : Entity} {supply : AliasSupply} (hsorted : p.sortKeys = []) :
    (p.pad js ks).addOrder s e a (.keys []) supply = .ok ((p.byId a).pad js ks, supply) := by
  rw [addOrder_nil]
  show Except.ok (({ p.pad js ks with sortKeys := (Ordering.addId ⟨_, p.sortKeys, _, _⟩ a).sortKeys } :
    Plan), supply) = _
  rw [hsorted]
  rfl

end Plan

section

variable {schema : Schema} {config : Config} {typeName : String} {filter : EntityFilter}
  {options : FindOptions} {r : Resolved} (hconditions : options.conditions = none)
  (hkeep : options.keepAliases = []) (horder : options.orderBy = .keys [])
  (hprune : options.pruneJoins.getD config.pruneJoins = true)

include hkeep horder hprune in
/-- Whatever the strategy, nothing is left of joins of which nothing was asked. -/
theorem QueryRun.plan_of_pads (run : QueryRun schema config typeName filter options) {p : Plan}
    {js : List Join} {ks : List Condition} (hp : p.Bare) (hspare : p.Spare js ks)
    (hplan : run.draft.toPlan = p.pad js ks) (hcollections : run.draft.collections ⊆ js)
    (ha : run.aliasName ∈ p.tables.map Table.aliasName) (hsorted : p.sortKeys = []) :
    run.plan = p.byId run.aliasName ∧ run.resolved.warnings = [] := by
  have hnone := run.keep_eq
  rw [hkeep] at hnone
  obtain hnone : [] = run.keep := Except.ok.inj hnone
  have hresolved := run.resolved_eq
  rw [hplan] at hresolved
  obtain ⟨ks', hks', hr⟩ := Plan.resolveCollections_pad hp hspare hcollections hresolved
  obtain hr : run.resolved = ⟨p.pad js ks', []⟩ := hr
  have hordered := run.ordered_eq
  rw [horder, hr, Plan.addNullChecks_pad hp (hspare.mono hks'), Plan.addOrder_pad hsorted] at hordered
  obtain ⟨hordered, -⟩ := Prod.mk.inj (Except.ok.inj hordered)
  have hspare' : (p.byId run.aliasName).Spare js ks' :=
    ⟨hspare.ordered, (hspare.mono hks').idle⟩
  rw [QueryRun.plan, if_pos hprune, ← hnone, ← hordered, Plan.prune_pad (hp.byId ha) hspare', hr]
  exact ⟨rfl, rfl⟩

include hconditions hkeep horder in
/-- A query without collections, and without an order, has a plan. -/
theorem exists_run_of_draft {e : Entity} {a : String} {d : Draft}
    (he : (options.setting schema config).entity typeName = .ok e)
    (hd : Draft.ofQuery (options.setting schema config) e filter none = .ok (a, d))
    (hcollections : d.collections = []) :
    ∃ run : QueryRun schema config typeName filter options, run.aliasName = a ∧ run.draft = d := by
  refine ⟨⟨e, a, d, [], ⟨d.toPlan, []⟩, d.supply, _, d.supply, he, hconditions ▸ hd, by rw [hkeep]; rfl,
    if_pos (by simp [hcollections]), horder ▸ Plan.addOrder_nil⟩, rfl, rfl⟩

include hconditions hkeep horder hprune in
/-- A filter that only names tables and leads through relations to any depth gives the plan of the
filter that asks nothing, if no expression and no order is asked for and no table is kept. -/
theorem find_of_isBlank (hfilter : filter.isBlank = true)
    (hnames : ∀ e a d, schema.entity typeName = .ok e →
      Draft.ofQuery (options.setting schema config) e filter options.conditions = .ok (a, d) →
        d.names.Nodup)
    (h : find schema config typeName filter options = .ok r) :
    find schema config typeName .empty options = .ok r := by
  obtain ⟨run, rfl⟩ := exists_run_of_find h
  have hnd := hnames _ _ _ (of_planning_eq_ok run.entity_eq) run.draft_eq
  have hdraft := run.draft_eq
  rw [hconditions] at hdraft
  obtain ⟨d, hd, js, ks, cs, hpads⟩ := Draft.pads_ofQuery hfilter hdraft
  have hregular := (Draft.regular_ofQuery run.entity_mem hd).1
  have hbare := Draft.bare_ofQuery hd
  have hnd₀ : d.names.Nodup := by
    rw [Draft.names_append hpads.tables] at hnd
    exact (List.nodup_append.1 hnd).1
  have hp := hbare.toPlan hregular hnd₀
  have hspare : d.toPlan.Spare js ks :=
    ⟨hpads.ordered hregular (Draft.regular_ofQuery run.entity_mem hdraft).1 hnd, hpads.idle⟩
  have hcollections : run.draft.collections ⊆ js := by
    rw [hpads.collections, hbare.collections, List.nil_append]
    exact hpads.recorded
  obtain ⟨hplan, hwarnings⟩ := run.plan_of_pads hkeep horder hprune hp hspare (hpads.toPlan hbare)
    hcollections hregular.mem_primary rfl
  obtain ⟨run₀, ha, rfl⟩ := exists_run_of_draft hconditions hkeep horder run.entity_eq hd hbare.collections
  have hspare₀ : run₀.draft.toPlan.Spare [] [] := ⟨trivial, nofun⟩
  obtain ⟨hplan₀, hwarnings₀⟩ := run₀.plan_of_pads hkeep horder hprune hp hspare₀
    (Plan.pad_nil hp).symm (by simp [hbare.collections]) (ha ▸ hregular.mem_primary) rfl
  rw [run₀.find_eq, hplan₀, hwarnings₀, hplan, hwarnings, ha]

end

/-! ### A query on the library -/

/-- Authors with names for their books, the reviews of these, and their tags. -/
def namedBooks : EntityFilter :=
  ⟨some "a", [⟨"books", .nested ⟨some "b", [⟨"reviews", .binding "r"⟩, ⟨"author", .nested .empty⟩]⟩⟩,
    ⟨"publisher", .binding "p"⟩, ⟨"tags", .nested .empty⟩]⟩

/-- With lateral subqueries. -/
def laterally : FindOptions := { FindOptions.default with strategy := some (.lateral true) }

theorem find_of_isBlank_library : namedBooks.isBlank = true ∧ ∃ r,
    find library .default "Author" namedBooks laterally = .ok r ∧
    (∀ e a d, library.entity "Author" = .ok e →
      Draft.ofQuery (laterally.setting library .default) e namedBooks laterally.conditions =
        .ok (a, d) → d.names.Nodup) ∧
    find library .default "Author" .empty laterally = .ok r := by
  have hdraft : ((library.entity "Author").toOption.bind fun e =>
      (Draft.ofQuery (laterally.setting library .default) e namedBooks
        none).toOption.map fun r => decide r.2.names.Nodup) = some true := by
    decide +kernel
  have hnames : ∀ e a d, library.entity "Author" = .ok e →
      Draft.ofQuery (laterally.setting library .default) e namedBooks laterally.conditions =
        .ok (a, d) → d.names.Nodup := fun e a d he hd => by
    rw [he] at hdraft
    change ((Draft.ofQuery _ e _ _).toOption.map _) = some true at hdraft
    change Draft.ofQuery (laterally.setting library .default) e namedBooks none = _ at hd
    rw [hd] at hdraft
    exact of_decide_eq_true (Option.some.inj hdraft)
  have hfound : (find library .default "Author" namedBooks laterally).isOk = true := by
    decide +kernel
  cases h : find library .default "Author" namedBooks laterally with
  | error err =>
    rw [h] at hfound
    cases hfound
  | ok r =>
    exact ⟨rfl, r, rfl, hnames, find_of_isBlank rfl rfl rfl rfl rfl hnames h⟩

end EntityQuery
