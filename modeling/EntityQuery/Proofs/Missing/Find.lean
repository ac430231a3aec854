import EntityQuery.Proofs.Blank.Find
import EntityQuery.Proofs.Deletion.Find
import EntityQuery.Proofs.Missing.Draft
import EntityQuery.Proofs.Precedence.Passes

/-!
# Queries for rows without a related row

A filter that asks for a relation to be null, or for the id of the related row to be null, selects the
rows of an entity that are linked to no row, where missing rows can be told.

* `FieldSite.holds_parent`: the row that a link starts from;
* `Draft.Seeks.exists_lacks`: what strategies make of such a filter;
* `QueryRun.lacks_plan`: what later passes make of it;
* `Draft.exists_seeks_ofQuery`: the draft of such a filter;
* `selects_find_missing`: what the query selects.
-/

namespace EntityQuery

/-! ### Links of rows -/

section

variable {s : Setting} {e target : Entity} {a field : String} {site : FieldSite} {l : Link}
  {db : Database} {σ : Assignment}

/-- A link starts from a table of the entity. -/
theorem FieldSite.parent_mem (he : e ∈ s.schema.entities) (hsite : s.resolve e field = .ok site)
    (hlink : site.link? a target = some l) : l.parent.aliasName ∈ e.tableNames a := by
  have hhoused : Housed (e.tableNames a) a e.baseTypes.length :=
    ⟨List.mem_cons_self, fun i hi => List.mem_cons_of_mem _ (List.mem_map.2 ⟨i, List.mem_range.2 hi, rfl⟩)⟩
  unfold link? at hlink
  split at hlink
  · rw [← Option.some.inj hlink]
    exact Setting.columnAlias_mem he hsite hhoused
  · rw [← Option.some.inj hlink]
    exact hhoused.mem
  · rw [← Option.some.inj hlink]
    exact hhoused.mem
  · rw [← Option.some.inj hlink]
    exact hhoused.mem
  · cases hlink

/-- Where a row of the entity is bound, a link starts from a row of its table. -/
theorem FieldSite.holds_parent (h : s.Binds e a db σ) (hsite : s.resolve e field = .ok site)
    (hlink : site.link? a target = some l) :
    ∃ row ∈ db.table (site.holder e), σ l.parent.aliasName = some row := by
  unfold link? at hlink
  unfold holder
  split at hlink
  · next hkind =>
    rw [hkind, ← Option.some.inj hlink]
    exact h.exists_row hsite
  · next hkind =>
    rw [hkind, ← Option.some.inj hlink]
    exact h.own
  · next hkind =>
    rw [hkind, ← Option.some.inj hlink]
    exact h.own
  · next hkind =>
    rw [hkind, ← Option.some.inj hlink]
    exact h.own
  · cases hlink

/-- What a plan selects is told by its combinations. -/
theorem Plan.selects_iff_combinations {p : Plan} {names names' : List String} (hsub : names ⊆ names') :
    p.Selects db names σ ↔ ∃ f ∈ p.combinations db names', f.Agree names σ := by
  constructor
  · rintro ⟨τ, hτ, hagree⟩
    exact ⟨_, ⟨τ, hτ, rfl⟩, fun b hb => (if_pos (hsub hb)).trans (hagree b hb)⟩
  · rintro ⟨_, ⟨τ, hτ, rfl⟩, hagree⟩
    exact ⟨τ, hτ, fun b hb => (if_pos (hsub hb)).symm.trans (hagree b hb)⟩

end

/-! ### Strategies -/

section

variable {schema : Schema} {holder : String} {l : Link} {rewrites : Bool} {js cs : List Join}
  {ks : List Condition} {p : Plan}

/-- A predicate on a table of the plan leaves the outer joins what they are. -/
theorem Plan.Bare.outerAliases_pad (hp : p.Bare) {c : ColumnCondition}
    (hc : c.aliasName ∈ p.tables.map Table.aliasName) :
    (p.pad [] [.column c]).outerAliases = outerJoined p.tables := by
  obtain ⟨T, hT⟩ := hp.tables
  have htables : (p.pad [] [.column c]).tables = p.tables := List.append_nil _
  have hplain : (p.pad [] [.column c]).Plain := by
    refine ⟨fun t ht => ?_, hp.plain, fun t ht _ => ?_, fun k hk => .inr ?_⟩
    · rw [htables, hT] at ht
      obtain rfl | ⟨j, -, rfl⟩ := JoinTree.mem_tables_iff.1 ht <;> rfl
    · rw [htables] at ht
      exact Select.mem_referencesOf_star (hp.starred t ht)
    · rw [topConditions_pad] at hk
      rw [htables]
      rcases List.mem_append.1 hk with hk | hk
      · obtain ⟨k, rfl, -, hk⟩ := hp.conditions k hk
        exact ⟨k, rfl, hk⟩
      · exact ⟨c, List.mem_singleton.1 hk, hc⟩
  rw [hplain.outerAliases_eq, htables]

/-- Whatever the strategy does with the joins, the plan asks for no linked row. -/
theorem Draft.Seeks.exists_lacks (h : Draft.Seeks schema holder l rewrites js ks cs) (hp : p.Bare)
    (hordered : Join.Ordered (p.tables.map Table.aliasName) js) {strategy : Strategy}
    {threshold : Nat} {supply : AliasSupply} (hrewrites : strategy.rewrites threshold = rewrites)
    (hfresh : ∀ u, Lateral.subqueryName supply u ∉ p.tables.map Table.aliasName)
    (hparent : l.parent.aliasName ∈ p.tables.map Table.aliasName)
    (hinner : l.parent.aliasName ∉ outerJoined p.tables) :
    ∃ r extra ks', (p.pad js ks).resolveCollections strategy threshold cs supply = .ok r ∧
      p.Lacks schema holder l r.1.plan extra ks' ∧
      (∀ c, .column c ∈ ks' → c.pruneable = true ∨ c.column = "id" ∨
        c.aliasName ∉ r.1.plan.outerAliases) ∧
      (strategy = .existence → cs ≠ [] → extra = [] ∧ ∃ own, ks' = [l.denial own]) := by
  have hadds := @Plan.adds_pad p js ks hp hordered
  have hstaged : Table.Staged (js.map Table.join) := by
    obtain ⟨T, hT, -⟩ := @Plan.exists_tree_pad p js ks hp hordered
    have hall := T.staged
    rw [← hT, Plan.tables_pad] at hall
    exact hall.sublist (List.sublist_append_right _ _)
  -- a joined table that is asked to have no id is left as it is
  have hjoined : ∀ {j m : Join} {bs : List Join}, js = j :: bs → Unmatched schema holder l j m bs ks →
      p.Lacks schema holder l (p.pad js ks) (js.map .join) ks ∧
      ∀ c, .column c ∈ ks → c.pruneable = true ∨ c.column = "id" ∨
        c.aliasName ∉ (p.pad js ks).outerAliases := by
    rintro j m bs rfl hu
    refine ⟨⟨hadds, .joined hu hstaged⟩, fun c hc => ?_⟩
    obtain ⟨c', he, -, hclear, -⟩ := hu.checks _ hc
    obtain rfl := Condition.column.inj he
    exact hclear.imp_right .inl
  cases h with
  | @null c required hc hpred hid hkey =>
    refine ⟨(⟨p.pad [] [.column c], []⟩, supply), [], [.column c], rfl,
      ⟨hadds, .null hc hpred hid hkey⟩, fun c' hc' => .inr (.inr ?_), fun _ hne => absurd rfl hne⟩
    obtain rfl := Condition.column.inj (List.mem_singleton.1 hc')
    rw [hc] at hparent hinner
    rwa [hp.outerAliases_pad hparent]
  | joined hu =>
    obtain ⟨hlacks, hclear⟩ := hjoined rfl hu
    exact ⟨(⟨_, []⟩, supply), _, _, rfl, hlacks, hclear, fun _ hne => absurd rfl hne⟩
  | kept hkept hu =>
    obtain ⟨hlacks, hclear⟩ := hjoined rfl hu
    refine ⟨(⟨_, []⟩, supply), _, _, Plan.resolveCollections_of_not_rewrites hp hordered
      (hrewrites.trans hkept), hlacks, hclear, fun he _ => ?_⟩
    rw [he] at hrewrites
    cases hrewrites.trans hkept
  | @rewritten j bs ks₀ ty hrewritten hlink hbehind hidle =>
    obtain ⟨r, extra, ks', hr, hlacks, hnone, hdenied⟩ := Plan.resolveCollections_absent hp
      ⟨hordered, hbehind, hidle⟩ (hrewrites.trans hrewritten) (hfresh j.aliasName)
    rw [hlink] at hlacks hdenied
    exact ⟨r, extra, ks', hr, hlacks, fun c hc => absurd hc (hnone c),
      fun he _ => ⟨(hdenied he).1, _, (hdenied he).2⟩⟩

/-- The plan of a query asks for no linked row if the plan with the resolved collections does. -/
theorem QueryRun.lacks_plan {config : Config} {typeName : String} {filter : EntityFilter}
    {options : FindOptions} (run : QueryRun schema config typeName filter options)
    (horder : options.orderBy = .keys []) (hp : p.Bare) {extra : List Table}
    (hlacks : p.Lacks schema holder l run.resolved.plan extra ks)
    (hclear : ∀ c, .column c ∈ ks → c.pruneable = true ∨ c.column = "id" ∨
      c.aliasName ∉ run.resolved.plan.outerAliases) :
    ∃ extra' ks', p.Lacks schema holder l run.plan extra' ks' ∧ (extra = [] → extra' = [] ∧ ks' = ks) := by
  obtain ⟨extra', hchecked, hsame⟩ := hlacks.addNullChecks hp hclear run.draft.idDbType
  have hordered := run.ordered_eq
  rw [horder, Plan.addOrder_nil] at hordered
  obtain ⟨hordered, -⟩ := Prod.mk.inj (Except.ok.inj hordered)
  have hlacks' : p.Lacks schema holder l run.ordered extra' ks := by
    rw [← hordered]
    exact hchecked.of_same rfl rfl rfl
  rw [QueryRun.plan]
  split_ifs
  · obtain ⟨extra'', ks', hpruned, hsame'⟩ : ∃ extra'' ks',
        p.Lacks schema holder l (run.ordered.prune run.keep) extra'' ks' ∧ _ := hlacks'.prune hp
    exact ⟨extra'', ks', hpruned, fun he => hsame' (hsame he)⟩
  · exact ⟨extra', ks, hlacks', fun he => ⟨hsame he, rfl⟩⟩

end

/-! ### Drafts -/

namespace Draft

variable {s : Setting} {e target : Entity} {a field : String} {site : FieldSite} {l : Link}
  {rewrites : Bool} {m : Missing} {deletion : Option DeletionColumn} {d : Draft}

/-- The filter is matched by what it asks of its field. -/
theorem match_missing : EntityFilter.match s e a false (.missing field m) d =
    d.matchField s e a false field (m.asked s) := by
  cases m with
  | field =>
    show (FilterValue.match s e a false field (.scalar .null) d >>= pure) = _
    rw [bind_pure]
    rfl
  | id =>
    show (FilterValue.match s e a false field (.nested (.only "id" (.scalar .null))) d >>= pure) = _
    rw [bind_pure]
    rfl

/-- The draft of such a filter is that of no filter, with joins and conditions that ask for no linked
row. -/
theorem exists_seeks_ofQuery (he : e ∈ s.schema.entities) (hsite : s.resolve e field = .ok site)
    (htarget : site.Refers s target) (hlink : site.link? e.ownAlias target = some l)
    (hdeletion : s.deletion? target = .ok deletion)
    (htells : site.kind.tellsMissing m deletion.isSome target.isTyped rewrites = true) :
    ∃ (d d' : Draft) (js : List Join) (ks : List Condition) (cs : List Join),
      Draft.ofQuery s e .empty none = .ok (e.ownAlias, d) ∧
      Draft.ofQuery s e (.missing field m) none = .ok (e.ownAlias, d') ∧ d.GrowsBy d' js ks cs ∧
      Seeks s.schema (site.holder e) l rewrites js ks cs ∧ (cs = [] ↔ site.kind.isPlural = false) := by
  obtain ⟨⟨a, d⟩, hd⟩ := exists_ofQuery_empty he
  obtain rfl : a = e.ownAlias := by
    obtain ⟨-, -, -, rfl, -⟩ := ofQuery_eq_ok hd
    rfl
  obtain ⟨js, ks, cs, d', hmatch, hgrows, hseeks, hplural⟩ := exists_seeks he hsite htarget hlink
    hdeletion htells d
  refine ⟨d, d', js, ks, cs, hd, ?_, hgrows, hseeks, hplural⟩
  rw [ofQuery_eq_bind, hd]
  show (EntityFilter.match s e e.ownAlias false (.missing field m) d).map _ = _
  rw [match_missing, hmatch]
  rfl

/-- The tables of the entity are there. -/
theorem tableNames_subset (hd : Draft.ofQuery s e .empty none = .ok (a, d)) :
    e.tableNames a ⊆ d.toPlan.tables.map Table.aliasName := by
  obtain ⟨joins, deletion, subs, hjoins, -, htables, -, -⟩ := tables_ofQuery_empty hd
  intro b hb
  show b ∈ d.tables.map Table.aliasName
  rw [htables, List.map_append, List.map_cons, List.map_map]
  refine List.mem_append_left _ (List.mem_cons.2 (((Setting.mem_tableNames_iff hjoins).1 hb).imp_right ?_))
  exact List.mem_map.2

/-- They are not outer joined. -/
theorem not_mem_outerJoined (hd : Draft.ofQuery s e .empty none = .ok (a, d)) (hnd : d.names.Nodup) :
    ∀ b ∈ e.tableNames a, b ∉ outerJoined d.tables := by
  obtain ⟨joins, deletion, subs, hjoins, -, htables, -, -⟩ := tables_ofQuery_empty hd
  intro b hb hm
  obtain ⟨t, ht, hname⟩ := List.mem_filterMap.1 hm
  -- no other table has the name of a table of the entity, and these are not outer joined
  have same : ∀ u ∈ d.tables, u.aliasName = b → u = t := by
    intro u hu hub
    refine List.inj_on_of_nodup_map hnd hu ht (hub.trans ?_)
    cases t with
    | join j =>
      dsimp only at hname
      split_ifs at hname
      exact (Option.some.inj hname).symm
    | _ => cases hname
  rcases (Setting.mem_tableNames_iff hjoins).1 hb with rfl | ⟨j, hj, rfl⟩
  · obtain rfl := same _ (htables ▸ List.mem_append_left _ List.mem_cons_self) rfl
    cases hname
  · obtain rfl := same (.join j) (htables ▸ List.mem_append_left _
      (List.mem_cons_of_mem _ (List.mem_map_of_mem hj))) rfl
    obtain ⟨-, -, -, -, -, hkind⟩ := Setting.of_mem_baseJoins hjoins j hj
    simp [hkind] at hname

end Draft

/-! ### Queries -/

section

variable {schema : Schema} {config : Config} {typeName field : String} {options : FindOptions}
  {e target : Entity} {site : FieldSite} {l : Link} {m : Missing} {deletion : Option DeletionColumn}
  (hnames : schema.Spelled) (he : schema.entity typeName = .ok e)
  (hsite : schema.resolve e field = .ok site)
  (htarget : site.Refers (options.setting schema config) target)
  (hlink : site.link? e.ownAlias target = some l)
  (hdeletion : (options.setting schema config).deletion? target = .ok deletion)
  (htells : site.kind.tellsMissing m deletion.isSome target.isTyped
    ((options.strategy.getD config.defaultStrategy).rewrites config.lateralThreshold) = true)
  (hconditions : options.conditions = none) (hkeep : options.keepAliases = [])
  (horder : options.orderBy = .keys [])

include hnames he hsite htarget hlink hdeletion htells hconditions hkeep horder in
/-- The plan of such a filter is that of no filter, with additions that ask for no linked row. -/
theorem exists_run_missing :
    ∃ (run : QueryRun schema config typeName (.missing field m) options) (d : Draft)
      (extra : List Table) (ks : List Condition),
      Draft.ofQuery (options.setting schema config) e .empty none = .ok (e.ownAlias, d) ∧
      d.toPlan.Bare ∧
      d.toPlan.Lacks schema (site.holder e) l run.plan extra ks ∧
      (options.strategy.getD config.defaultStrategy = .existence → site.kind.isPlural = true →
        ∃ own, ks = [l.denial own]) := by
  have hmem : e ∈ (options.setting schema config).schema.entities := Schema.mem_of_entity he
  have hsite' := Setting.resolve_eq_ok (s := options.setting schema config) hsite
  obtain ⟨d, d', js, ks, cs, hd, hd', hgrows, hseeks, hplural⟩ := Draft.exists_seeks_ofQuery hmem hsite'
    htarget hlink hdeletion htells
  -- all tables have names of their own
  obtain ⟨T, -, -, hsound⟩ := Draft.sound_ofQuery (s := options.setting schema config) hnames hmem hd'
  have hnd' : d'.names.Nodup := by
    rw [Draft.names, hsound.tables, T.map_aliasName_tables]
    exact T.nodup_aliases
  have hnd : d.names.Nodup := by
    rw [Draft.names_append hgrows.tables] at hnd'
    exact (List.nodup_append.1 hnd').1
  have hregular := (Draft.regular_ofQuery hmem hd).1
  have hbare := Draft.bare_ofQuery hd
  have hp := hbare.toPlan hregular hnd
  have hordered := hgrows.ordered hregular (Draft.regular_ofQuery hmem hd').1 hnd'
  have hfresh : ∀ u, Lateral.subqueryName d'.supply u ∉ d.toPlan.tables.map Table.aliasName := by
    intro u hu
    have hnew := (hsound.fresh ⟨Collections.ofPlan d'.toPlan [], [u]⟩).tables u (List.mem_singleton_self u)
    rw [hgrows.toPlan hbare, Plan.tables_pad, List.map_append] at hnew
    exact hnew (List.mem_append_left _ hu)
  have hparent : l.parent.aliasName ∈ e.tableNames e.ownAlias := FieldSite.parent_mem hmem hsite' hlink
  obtain ⟨⟨resolved, supply⟩, extra, ks', hresolved, hlacks, hclear, hdenied⟩ := hseeks.exists_lacks
    hp hordered rfl hfresh (Draft.tableNames_subset hd hparent)
    (Draft.not_mem_outerJoined hd hnd _ hparent)
  have hcollections : d'.collections = cs := by
    rw [hgrows.collections, hbare.collections, List.nil_append]
  let run : QueryRun schema config typeName (.missing field m) options :=
    ⟨e, e.ownAlias, d', [], resolved, supply, _, supply, Setting.entity_eq_ok he, hconditions ▸ hd', by
      rw [hkeep]
      rfl, by
      rw [hgrows.toPlan hbare, hcollections]
      exact hresolved, horder ▸ Plan.addOrder_nil⟩
  obtain ⟨extra', ks'', hplan, hsame⟩ := run.lacks_plan horder hp hlacks hclear
  refine ⟨run, d, extra', ks'', hd, hp, hplan, fun hexistence hmany => ?_⟩
  have hne : cs ≠ [] := fun hnil => by
    rw [hplural.1 hnil] at hmany
    cases hmany
  obtain ⟨hnone, own, hks'⟩ := hdenied hexistence hne
  exact ⟨own, (hsame hnone).2.trans hks'⟩

include hnames he hsite htarget hlink hdeletion htells hconditions hkeep horder in
/-- A filter that asks for a relation to be null, or for the id of the related row to be null, where
missing rows can be told: whatever the strategy, the query has a plan, and in a database whose rows
have ids and whose references resolve it selects the rows of the entity that are linked to no row.  As
an existence condition, a collection is asked for nothing but the link. -/
theorem selects_find_missing :
    ∃ r, find schema config typeName (.missing field m) options = .ok r ∧
      (options.strategy.getD config.defaultStrategy = .existence → site.kind.isPlural = true →
        ∃ own, ∀ c, c ∈ r.plan.topConditions ↔
          (∃ ownDeletion, (options.setting schema config).deletion? e = .ok ownDeletion ∧
            c ∈ e.implied e.ownAlias ownDeletion) ∨ c = l.denial own) ∧
      ∀ db : Database, db.HasIds → db.Resolves schema → db.Correlated l → db.ReadsColumns →
        ∀ σ : Assignment, r.plan.Selects db (e.tableNames e.ownAlias) σ ↔
          (options.setting schema config).Binds e e.ownAlias db σ ∧ ∀ row, ¬ l.Partner db σ row := by
  have hmem : e ∈ (options.setting schema config).schema.entities := Schema.mem_of_entity he
  have hsite' := Setting.resolve_eq_ok (s := options.setting schema config) hsite
  obtain ⟨run, d, extra, ks, hd, hp, hplan, hdenied⟩ := exists_run_missing hnames he hsite htarget
    hlink hdeletion htells hconditions hkeep horder
  have hnamed := Draft.tableNames_subset hd
  have hparent : l.parent.aliasName ∈ e.tableNames e.ownAlias := FieldSite.parent_mem hmem hsite' hlink
  refine ⟨_, run.find_eq, fun hexistence hmany => ?_, fun db hids hkeys hcorr hreads σ => ?_⟩
  · obtain ⟨-, ownDeletion, -, -, hown, -, -, hconjuncts⟩ := Draft.tables_ofQuery_empty hd
    obtain ⟨own, rfl⟩ := hdenied hexistence hmany
    refine ⟨own, fun c => ?_⟩
    rw [hplan.adds.conditions, List.mem_singleton, Draft.topConditions_toPlan hconjuncts]
    refine or_congr_left ⟨fun hc => ⟨ownDeletion, hown, hc⟩, ?_⟩
    rintro ⟨ownDeletion', hown', hc⟩
    exact Except.ok.inj (hown'.symm.trans hown) ▸ hc
  · have hbinds : ∀ σ, d.toPlan.Selects db (e.tableNames e.ownAlias) σ ↔
        (options.setting schema config).Binds e e.ownAlias db σ :=
      fun σ => Draft.selects_empty_iff hmem hd hp
    have hholder : ∀ τ ∈ d.toPlan.rows db .empty,
        ∃ row ∈ db.table (site.holder e), τ l.parent.aliasName = some row := fun τ hτ =>
      FieldSite.holds_parent ((hbinds τ).1 ⟨τ, hτ, fun _ _ => rfl⟩) hsite' hlink
    rw [← hbinds, Plan.selects_iff_combinations hnamed, Plan.selects_iff_combinations hnamed,
      hplan.combinations hp hids hkeys hcorr hreads (hnamed hparent) hholder]
    -- whether a row is linked is told by the tables of the entity
    have hpartner : ∀ f : Assignment, f.Agree (e.tableNames e.ownAlias) σ →
        ((∀ row, ¬ l.Partner db f row) ↔ ∀ row, ¬ l.Partner db σ row) := fun f hf =>
      forall_congr' fun _ => not_congr (Link.partner_congr (hf _ hparent))
    constructor
    · rintro ⟨f, ⟨hf, hnone⟩, hagree⟩
      exact ⟨⟨f, hf, hagree⟩, (hpartner f hagree).1 hnone⟩
    · rintro ⟨⟨f, hf, hagree⟩, hnone⟩
      exact ⟨f, ⟨hf, (hpartner f hagree).2 hnone⟩, hagree⟩

end

/-! ### Second rows -/

/-- The columns that refer to ids of another entity. -/
def FieldKind.references : FieldKind → List String
  | .manyToOne column _ _ => [column]
  | .manyToMany _ _ otherColumn _ _ => [otherColumn]
  | _ => []

theorem Schema.ForeignKey.mem_references {schema : Schema} {table column other : String}
    {required : Bool} (h : schema.ForeignKey table column other required) :
    ∃ e ∈ schema.entities, ∃ f ∈ e.fields, column ∈ f.kind.references := by
  have declared : ∀ {kind : FieldKind}, schema.Declares kind → column ∈ kind.references →
      ∃ e ∈ schema.entities, ∃ f ∈ e.fields, column ∈ f.kind.references := by
    rintro _ (rfl | ⟨e, he, f, hf, rfl⟩) hcolumn
    · cases hcolumn
    · exact ⟨e, he, f, hf, hcolumn⟩
  cases h with
  | field he hsite hkind =>
    refine declared (of_resolveWithin he hsite).2 ?_
    rw [hkind]
    exact List.mem_singleton_self _
  | junction he hsite hkind =>
    refine declared (of_resolveWithin he hsite).2 ?_
    rw [hkind]
    exact List.mem_singleton_self _

/-- A row of the given id that refers to first rows and is not marked as deleted. -/
def numbered (n : Int64) : Row := fun column =>
  if column = "id" then .int n
  else if column = "deleted_at" ∨ column = "removed_at" then .null
  else .int 1

namespace Database

/-- A fragment of text on one table names a column of it; one on two tables compares the columns of the
link. -/
def readLink (l : Link) (r : RawCondition) (e : Assignment) : Option Bool :=
  match r.aliases with
  | [a] => (e.value ⟨a, String.ofList (r.sql.toList.drop (a.toList.length + 1))⟩).truth?
  | [a, b] =>
    if a = l.parent.aliasName then
      ((e.value l.parent).compare? (e.value ⟨b, l.column⟩)).map fun o => decide (o = .eq)
    else none
  | _ => none

theorem readLink_congr {l : Link} {r : RawCondition} {e e' : Assignment} (h : e.Agree r.aliases e') :
    readLink l r e = readLink l r e' := by
  unfold readLink
  split
  · next a ha =>
    rw [ha] at h
    rw [Assignment.value_congr (c := ⟨a, _⟩) (h a List.mem_cons_self)]
  · next a b hab =>
    rw [hab] at h
    split_ifs with ha
    · rw [Assignment.value_congr (c := l.parent) (h _ (by simp [ha])),
        Assignment.value_congr (c := ⟨b, l.column⟩) (h _ (by simp))]
    · rfl
  · rfl

/-- Two rows of the named table, and one of any other. -/
def withSecond (name : String) (l : Link) : Database where
  table other := if other = name then [numbered 1, numbered 2] else [numbered 1]
  pattern _ _ _ := none
  containment _ _ _ := none
  fragment := readLink l
  fragment_congr := readLink_congr

variable {name : String} {l : Link}

theorem hasIds_withSecond : (withSecond name l).HasIds := by
  intro other row hrow
  change row ∈ (if other = name then [numbered 1, numbered 2] else [numbered 1]) at hrow
  split_ifs at hrow
  · simp only [List.mem_cons, List.not_mem_nil, or_false] at hrow
    rcases hrow with rfl | rfl <;> simp [numbered]
  · rw [List.mem_singleton.1 hrow]
    simp [numbered]

/-- The first row of a table is there. -/
theorem numbered_mem_withSecond {other : String} : numbered 1 ∈ (withSecond name l).table other := by
  show numbered 1 ∈ if other = name then [numbered 1, numbered 2] else [numbered 1]
  split_ifs
  · exact List.mem_cons_self
  · exact List.mem_singleton_self _

theorem resolves_withSecond {schema : Schema} (h : ∀ e ∈ schema.entities, ∀ f ∈ e.fields,
    ∀ column ∈ f.kind.references, column ∉ ["id", "deleted_at", "removed_at"]) :
    (withSecond name l).Resolves schema := by
  intro table column other required hkey row hrow _
  obtain ⟨e, he, f, hf, hcolumn⟩ := hkey.mem_references
  have hplain := h e he f hf column hcolumn
  have hone : ∀ n, numbered n column = .int 1 := fun n => by
    simp only [List.mem_cons, List.not_mem_nil, or_false, not_or] at hplain
    simp [numbered, hplain]
  have hvalue : row column = .int 1 := by
    change row ∈ (if table = name then [numbered 1, numbered 2] else [numbered 1]) at hrow
    split_ifs at hrow
    · simp only [List.mem_cons, List.not_mem_nil, or_false] at hrow
      rcases hrow with rfl | rfl <;> exact hone _
    · rw [List.mem_singleton.1 hrow]
      exact hone _
  refine ⟨numbered 1, numbered_mem_withSecond, ?_⟩
  rw [hvalue]
  decide

theorem correlated_withSecond : (withSecond name l).Correlated l := by
  rintro j rfl e
  show readLink j.link (.correlation j.parent j.own) e = _
  simp only [readLink, RawCondition.correlation, Join.link, if_true]

theorem readsColumns_withSecond : (withSecond name l).ReadsColumns :=
  @readsColumns_ofTables (fun _ => []) []

end Database

/-- What books link an author to. -/
def bookLink : Link := ⟨⟨"a", "id"⟩, "books", "author_id"⟩

/-- Authors without books: the one that the book does not refer to. -/
theorem selects_find_missing_library : library.Spelled ∧ ∃ r,
    find library .default "Author" (.missing "books" .id) .default = .ok r ∧
    ∀ σ, r.plan.Selects (.withSecond "authors" bookLink) ["a"] σ ↔ σ "a" = some (numbered 2) := by
  have hnames : library.Spelled := by constructor <;> decide +kernel
  have hown : Sample.Library.author.ownAlias = "a" := by decide +kernel
  have hlink : FieldSite.link? ⟨"books", .oneToMany "Book" "author_id", Sample.Library.author, none⟩
      Sample.Library.author.ownAlias Sample.Library.book = some bookLink := by
    rw [hown]
    rfl
  obtain ⟨r, hr, -, hselects⟩ : ∃ r, find library .default "Author" (.missing "books" .id) .default =
      .ok r ∧ _ ∧ ∀ db : Database, _ → _ → _ → _ → ∀ σ : Assignment, _ :=
    selects_find_missing hnames rfl rfl rfl hlink rfl rfl rfl rfl rfl
  refine ⟨hnames, r, hr, fun σ => ?_⟩
  have hσ := hselects (.withSecond "authors" bookLink) Database.hasIds_withSecond
    (Database.resolves_withSecond (by decide +kernel)) Database.correlated_withSecond
    Database.readsColumns_withSecond σ
  have htables : Sample.Library.author.tableNames Sample.Library.author.ownAlias = ["a"] := by
    rw [hown]
    rfl
  rw [htables, hown] at hσ
  rw [hσ]
  have hvalue : ∀ {n : Int64}, σ "a" = some (numbered n) → σ.value bookLink.parent = .int n :=
    fun hbound => Assignment.value_of_some (c := bookLink.parent) hbound
  constructor
  · rintro ⟨⟨⟨row, hrow, hbound⟩, -, -⟩, hnone⟩
    rcases List.mem_cons.1 hrow with rfl | hrow
    · refine absurd ⟨Database.numbered_mem_withSecond, ?_⟩ (hnone (numbered 1))
      rw [hvalue hbound]
      decide
    · rwa [← List.mem_singleton.1 hrow]
  · intro hbound
    refine ⟨⟨⟨_, List.mem_cons_of_mem _ (List.mem_singleton_self _), hbound⟩, fun i base b hbase => ?_,
      fun deletion hdeletion c hc => ?_⟩, ?_⟩
    · cases i <;> cases hbase
    · obtain rfl := Except.ok.inj hdeletion
      rw [List.mem_singleton.1 hc, Condition.holds_isNull_iff rfl]
      exact Assignment.value_of_some (c := ⟨"a", "deleted_at"⟩) hbound
    · rintro row ⟨hrow, heq⟩
      rw [List.mem_singleton.1 hrow, hvalue hbound] at heq
      revert heq
      decide

/-- What labels link a company to. -/
def labelLink : Link := ⟨⟨"c", "id"⟩, "company_labels", "company_id"⟩

/-- Companies whose label has no id.  Their labels can be marked as deleted, so the labels are joined
behind the junction, and the subquery looks for a junction without a label: there is none, and the
company without a junction is not selected. -/
theorem not_selects_find_labels : ∃ r,
    find zoo .default "Company" (.missing "labels" .id) .default = .ok r ∧
    (Database.withSecond "companies" labelLink).HasIds ∧
    (Database.withSecond "companies" labelLink).Resolves zoo ∧
    r.plan.rows (.withSecond "companies" labelLink) .empty = [] ∧
    ∃ σ, (FindOptions.default.setting zoo .default).Binds Sample.Zoo.company "c"
        (.withSecond "companies" labelLink) σ ∧
      ∀ row, ¬ labelLink.Partner (.withSecond "companies" labelLink) σ row := by
  have hfound : ((find zoo .default "Company" (.missing "labels" .id) .default).toOption.map fun r =>
      (r.plan.rows (.withSecond "companies" labelLink) .empty).isEmpty) = some true := by
    decide +kernel
  cases hr : find zoo .default "Company" (.missing "labels" .id) .default with
  | error err =>
    rw [hr] at hfound
    cases hfound
  | ok r =>
    rw [hr] at hfound
    have hbound : Assignment.empty.bind "c" (some (numbered 2)) "c" = some (numbered 2) :=
      Assignment.bind_self
    refine ⟨r, rfl, Database.hasIds_withSecond, Database.resolves_withSecond (by decide +kernel),
      List.isEmpty_iff.1 (Option.some.inj hfound), Assignment.empty.bind "c" (some (numbered 2)),
      ⟨⟨_, List.mem_cons_of_mem _ (List.mem_singleton_self _), hbound⟩, fun i base b hbase => ?_,
        fun deletion hdeletion c hc => ?_⟩, ?_⟩
    · cases i <;> cases hbase
    · obtain rfl := Except.ok.inj hdeletion
      rw [List.mem_singleton.1 hc, Condition.holds_isNull_iff rfl]
      exact Assignment.value_of_some (c := ⟨"c", "removed_at"⟩) hbound
    · rintro row ⟨hrow, heq⟩
      rw [List.mem_singleton.1 hrow, Assignment.value_of_some (c := labelLink.parent) hbound] at heq
      revert heq
      decide

end EntityQuery
