import EntityQuery.Find.Order
import EntityQuery.Plan.NullCheck
import EntityQuery.Proofs.Deletion.Filtered
import EntityQuery.Proofs.Draft.Regular
import EntityQuery.Proofs.Missing.Link

/-!
# Passes over a plan that asks for no linked row

The plan of a filter is the plan without it with more tables and conditions.  Later passes leave the
additions what they are: tests for null are not ambiguous, and pruning removes none but outer joins
with their conditions.

* `Plan.Bare`: a plan of which nothing was asked;
* `Plan.Adds`: the plan with additions;
* `Plan.Adds.combinations`: what it selects;
* `Plan.Lacks`: the additions ask for no linked row;
* `Plan.Lacks.addNullChecks`, `Plan.Lacks.addOrder`, `Plan.Lacks.prune`: the passes.
-/

namespace EntityQuery

/-- A plan with all columns of its tables of which nothing was asked. -/
structure Plan.Bare (p : Plan) : Prop where
  tables : ∃ T : JoinTree, p.tables = T.tables
  starred : ∀ t ∈ p.tables, .star t.aliasName ∈ p.selects
  plain : ∀ x ∈ p.selects, ∀ g name, x ≠ .boolOr g name
  conditions : ∀ k ∈ p.topConditions, k.Idle (p.tables.map Table.aliasName)
  condition : p.condition = Group.ofTop false p.topConditions
  closed : ∀ a ∈ p.references, a ∈ p.tables.map Table.aliasName

/-- A plan with more tables and conditions than another one. -/
structure Plan.Adds (p q : Plan) (extra : List Table) (ks : List Condition) : Prop where
  tables : q.tables = p.tables ++ extra
  nodup : (q.tables.map Table.aliasName).Nodup
  conditions : ∀ k, k ∈ q.topConditions ↔ k ∈ p.topConditions ∨ k ∈ ks
  selects : ∀ a, .star a ∈ p.selects → .star a ∈ q.selects

/-- A plan with additions that ask for no linked row. -/
structure Plan.Lacks (schema : Schema) (holder : String) (l : Link) (p q : Plan)
    (extra : List Table) (ks : List Condition) : Prop where
  adds : p.Adds q extra ks
  tells : Tells schema holder l extra ks

section

variable {p q : Plan} {extra : List Table} {ks : List Condition} {keep removed : List String}

namespace Plan

theorem Bare.flat (hp : p.Bare) : ∀ k ∈ p.topConditions, k.plans = [] ∧
    ∀ a ∈ k.aliases, a ∈ p.tables.map Table.aliasName := by
  intro k hk
  obtain ⟨c, rfl, -, hc⟩ := hp.conditions k hk
  exact ⟨rfl, fun a ha => by rwa [List.mem_singleton.1 ha]⟩

theorem Adds.disjoint (h : p.Adds q extra ks) :
    ∀ a ∈ p.tables.map Table.aliasName, a ∉ extra.map Table.aliasName := by
  have hnd := h.nodup
  rw [h.tables, List.map_append] at hnd
  exact fun a ha hm => (List.nodup_append.1 hnd).2.2 a ha a hm rfl

/-- The plan selects what the other one does where the additions have rows that meet their
conditions. -/
theorem Adds.combinations (h : p.Adds q extra ks) (hp : p.Bare) {db : Database}
    {P : Assignment → Prop} (htells : ∀ e₀ ∈ p.rows db .empty,
      (∃ e ∈ Table.bindAll db extra [e₀], ∀ k ∈ ks, k.Holds db e) ↔ P e₀)
    (hcongr : ∀ e e' : Assignment, e.Agree (p.tables.map Table.aliasName) e' → (P e ↔ P e')) :
    q.combinations db (p.tables.map Table.aliasName) =
      {f ∈ p.combinations db (p.tables.map Table.aliasName) | P f} := by
  set names := p.tables.map Table.aliasName
  have restricted : ∀ e : Assignment, (e.restrict names).Agree names e := fun e a ha => if_pos ha
  -- an assignment of the plan comes from one of the other plan that it agrees with
  have rows : ∀ e, e ∈ q.rows db .empty ↔ ∃ e₀ ∈ p.rows db .empty,
      e ∈ Table.bindAll db extra [e₀] ∧ ∀ k ∈ ks, k.Holds db e := by
    intro e
    have same : ∀ e₀, e ∈ Table.bindAll db extra [e₀] → ∀ k ∈ p.topConditions,
        (k.Holds db e ↔ k.Holds db e₀) := fun e₀ he k hk =>
      Condition.holds_congr (hp.flat k hk).1 fun a ha =>
        Table.eq_of_mem_bindAll he (h.disjoint a ((hp.flat k hk).2 a ha))
    simp only [mem_rows_iff, h.tables, Table.bindAll_append, h.conditions]
    rw [Table.mem_bindAll_iff_exists]
    constructor
    · rintro ⟨⟨e₀, he₀, he⟩, hks⟩
      exact ⟨e₀, ⟨he₀, fun k hk => (same e₀ he k hk).1 (hks k (.inl hk))⟩, he,
        fun k hk => hks k (.inr hk)⟩
    · rintro ⟨e₀, ⟨he₀, htop⟩, he, hks⟩
      exact ⟨⟨e₀, he₀, he⟩, fun k hk => hk.elim (fun hk => (same e₀ he k hk).2 (htop k hk)) (hks k)⟩
  ext f
  constructor
  · rintro ⟨e, he, rfl⟩
    obtain ⟨e₀, he₀, hbind, hks⟩ := (rows e).1 he
    have hagree : e.Agree names e₀ := fun a ha => Table.eq_of_mem_bindAll hbind (h.disjoint a ha)
    refine ⟨⟨e₀, he₀, (Assignment.restrict_congr hagree).symm⟩, ?_⟩
    rw [hcongr _ _ (restricted e), hcongr _ _ hagree]
    exact (htells e₀ he₀).1 ⟨e, hbind, hks⟩
  · rintro ⟨⟨e₀, he₀, rfl⟩, hP⟩
    obtain ⟨e, hbind, hks⟩ := (htells e₀ he₀).2 ((hcongr _ _ (restricted e₀)).1 hP)
    exact ⟨e, (rows e).2 ⟨e₀, he₀, hbind, hks⟩, Assignment.restrict_congr fun a ha =>
      Table.eq_of_mem_bindAll hbind (h.disjoint a ha)⟩

end Plan

/-- What a plan selects that asks for no linked row: where the link's parent is bound to a row of the
holder's table, what the plan without it selects and no row is linked to. -/
theorem Plan.Lacks.combinations {schema : Schema} {holder : String} {l : Link}
    (h : p.Lacks schema holder l q extra ks) (hp : p.Bare) {db : Database} (hids : db.HasIds)
    (hkeys : db.Resolves schema) (hcorr : db.Correlated l) (hreads : db.ReadsColumns)
    (hparent : l.parent.aliasName ∈ p.tables.map Table.aliasName)
    (hholder : ∀ e ∈ p.rows db .empty, ∃ row ∈ db.table holder, e l.parent.aliasName = some row) :
    q.combinations db (p.tables.map Table.aliasName) =
      {f ∈ p.combinations db (p.tables.map Table.aliasName) | ∀ row, ¬ l.Partner db f row} :=
  h.adds.combinations hp (fun e he => h.tells.exists_iff hids hkeys hcorr hreads
    (h.adds.disjoint _ hparent) (hholder e he)) fun e e' hagree => by
      simp only [Link.partner_congr (hagree _ hparent)]

/-! ### Other leaves -/

section

variable {f : Condition → List Condition} {g : Plan → Plan} {schema : Schema} {holder : String}
  {l : Link} {own label : String} {query : Plan}

/-- Tables without subqueries are left as they are. -/
theorem Table.map_mapPlan_joins {js : List Join} :
    (js.map Table.join).map (mapPlan g) = js.map .join := by
  rw [List.map_map]
  rfl

theorem Plan.Bare.map_mapPlan (hp : p.Bare) : p.tables.map (Table.mapPlan g) = p.tables := by
  obtain ⟨T, htables⟩ := hp.tables
  rw [htables, JoinTree.tables, List.map_cons, Table.map_mapPlan_joins]
  rfl

namespace Plan

/-- A subquery keeps its form when its fragment is kept. -/
theorem Probes.of_same (h : query.Probes l own) {query' : Plan}
    (htables : query'.tables = query.tables) (htop : query'.topConditions = query.topConditions) :
    query'.Probes l own where
  tables := htables ▸ h.tables
  nodup := htables ▸ h.nodup
  outside := htables ▸ h.outside
  condition := htop ▸ h.condition

theorem Probes.map_mapPlan (h : query.Probes l own) :
    query.tables.map (Table.mapPlan g) = query.tables := by
  obtain ⟨bs, htables, -⟩ := h.tables
  rw [htables, List.map_cons, Table.map_mapPlan_joins]
  rfl

theorem Probes.mapLeaves (h : query.Probes l own)
    (hraw : ∀ r, r.pruneable = false → f (.raw r) = [.raw r]) :
    (query.mapLeaves f).Probes l own :=
  h.of_same (tables_mapLeaves.trans h.map_mapPlan) (by
    rw [topConditions_mapLeaves, h.condition]
    exact Condition.mapLeavesAll_eq_self (List.forall_mem_singleton.2 (hraw _ rfl)))

theorem Probes.mapPlans (h : query.Probes l own) : (query.mapPlans g).Probes l own :=
  h.of_same h.map_mapPlan (by rw [topConditions_mapPlans, h.condition]; rfl)

end Plan

/-- The condition that no row is linked stays when fragments that were asked for do. -/
theorem Link.mapLeaves_denial (hraw : ∀ r, r.pruneable = false → f (.raw r) = [.raw r]) :
    (l.denial own).mapLeaves f = [l.denial own] := by
  have hquery : (l.search own).mapLeaves f = l.search own := by
    have hcs : Condition.mapLeavesAll f [.raw (.correlation l.parent ⟨own, l.column⟩)] = _ :=
      Condition.mapLeavesAll_eq_self (List.forall_mem_singleton.2 (hraw _ rfl))
    rw [search, Existence.subquery, Plan.mapLeaves, Group.mapLeavesTop, Group.all, Group.mapLeaves, hcs]
    rfl
  rw [denial, Condition.mapLeaves, hquery]

/-- Additions are left as they are where the tests for null and the fragments are, but for the
subquery of a lateral table. -/
theorem Plan.Lacks.mapLeaves (h : p.Lacks schema holder l q extra ks) (hp : p.Bare)
    (hraw : ∀ r, r.pruneable = false → f (.raw r) = [.raw r])
    (hcolumn : ∀ c, .column c ∈ q.topConditions → f (.column c) = [.column c]) :
    ∃ extra', p.Lacks schema holder l (q.mapLeaves f) extra' ks ∧ (extra = [] → extra' = []) := by
  have htop : (q.mapLeaves f).topConditions = q.topConditions := by
    rw [topConditions_mapLeaves]
    refine Condition.mapLeavesAll_eq_self fun k hk => ?_
    rcases (h.adds.conditions k).1 hk with hk' | hk'
    · obtain ⟨c, rfl, -⟩ := hp.conditions k hk'
      exact hcolumn c hk
    · cases h.tells with
      | null => exact List.mem_singleton.1 hk' ▸ hcolumn _ (List.mem_singleton.1 hk' ▸ hk)
      | joined hu hstaged =>
        obtain ⟨c, rfl, -⟩ := hu.checks k hk'
        exact hcolumn c hk
      | denied =>
        rw [List.mem_singleton.1 hk']
        exact Link.mapLeaves_denial hraw
      | counted =>
        rw [List.mem_singleton.1 hk']
        exact hraw _ rfl
  have adds : ∀ extra', extra.map (Table.mapPlan (Plan.mapLeaves f)) = extra' →
      p.Adds (q.mapLeaves f) extra' ks := fun extra' he =>
    { tables := by rw [tables_mapLeaves, h.adds.tables, List.map_append, hp.map_mapPlan, he]
      nodup := by
        rw [tables_mapLeaves, Table.map_aliasName_map_mapPlan]
        exact h.adds.nodup
      conditions := fun k => by rw [htop, h.adds.conditions]
      selects := fun a ha => by
        rw [selects_mapLeaves]
        exact Select.star_mem_mapLeavesAll (h.adds.selects a ha) }
  cases h.tells with
  | null hc hp hid hkey => exact ⟨[], ⟨adds _ rfl, .null hc hp hid hkey⟩, fun _ => rfl⟩
  | joined hu hstaged => exact ⟨_, ⟨adds _ Table.map_mapPlan_joins, .joined hu hstaged⟩, fun h => h⟩
  | denied hown => exact ⟨[], ⟨adds _ rfl, .denied hown⟩, fun _ => rfl⟩
  | counted hq hselects =>
    refine ⟨_, ⟨adds _ rfl, .counted (hq.mapLeaves hraw) ?_⟩, fun h => absurd h (List.cons_ne_nil _ _)⟩
    rw [selects_mapLeaves, hselects]
    rfl

/-- Tests for null that come with tables, and tests of ids, are not ambiguous. -/
theorem Plan.Lacks.addNullChecks (h : p.Lacks schema holder l q extra ks) (hp : p.Bare)
    (hclear : ∀ c, .column c ∈ ks → c.pruneable = true ∨ c.column = "id" ∨
      c.aliasName ∉ q.outerAliases) (idDbType : String → String) :
    ∃ extra', p.Lacks schema holder l (q.addNullChecks idDbType) extra' ks ∧
      (extra = [] → extra' = []) := by
  refine h.mapLeaves hp (fun _ _ => rfl) fun c hc => ?_
  rw [Condition.withNullCheck, if_neg]
  rw [ColumnCondition.isAmbiguous]
  rcases (h.adds.conditions _).1 hc with hc | hc
  · obtain ⟨c', he, hpruneable, -⟩ := hp.conditions _ hc
    obtain rfl := Condition.column.inj he
    simp [hpruneable]
  · rcases hclear c hc with hc | hc | hc <;> simp [hc]

/-- What is added is told by the tables, the conditions and the result columns. -/
theorem Plan.Lacks.of_same (h : p.Lacks schema holder l q extra ks) {q' : Plan}
    (htables : q'.tables = q.tables) (htop : q'.topConditions = q.topConditions)
    (hselects : q'.selects = q.selects) : p.Lacks schema holder l q' extra ks where
  adds :=
    { tables := htables ▸ h.adds.tables
      nodup := htables ▸ h.adds.nodup
      conditions := htop ▸ h.adds.conditions
      selects := hselects ▸ h.adds.selects }
  tells := h.tells

/-- The order by the id of the primary table. -/
theorem Plan.addOrder_nil {s : Setting} {e : Entity} {a : String} {supply : AliasSupply} :
    p.addOrder s e a (.keys []) supply =
      .ok ({ p with sortKeys := ((⟨p.tables, p.sortKeys, supply, []⟩ : Ordering).addId a).sortKeys },
        supply) := by
  have htables : ((⟨p.tables, p.sortKeys, supply, []⟩ : Ordering).addId a).tables = p.tables := by
    rw [Ordering.addId]
    split <;> rfl
  have hsupply : ((⟨p.tables, p.sortKeys, supply, []⟩ : Ordering).addId a).supply = supply := by
    rw [Ordering.addId]
    split <;> rfl
  show Except.ok (({ p with tables := _, sortKeys := _ } : Plan), _) = _
  simp only [List.nil_append, List.foldl_cons, List.foldl_nil, htables, hsupply]

/-! ### Pruning -/

namespace Plan

/-- Nothing but additions is removed. -/
theorem Adds.of_unreferenced (h : p.Adds q extra ks) (hp : p.Bare) {a : String}
    (ha : a ∈ q.unreferenced keep) : a ∈ extra.map Table.aliasName ∧ a ∉ q.references := by
  obtain ⟨⟨t, ht, -, rfl⟩, -, hr⟩ := mem_unreferenced_iff.1 ha
  refine ⟨List.mem_map_of_mem ?_, hr⟩
  rw [h.tables] at ht
  exact (List.mem_append.1 ht).resolve_left fun ht =>
    hr (mem_references_of_star (h.selects _ (hp.starred t ht)))

end Plan

/-- Conditions on columns go with the tables that nothing refers to. -/
theorem Plan.mem_topConditions_remove_iff (hcolumn : ∀ k ∈ q.topConditions, ∃ c, k = .column c)
    (hremoved : ∀ a ∈ removed, a ∉ q.references) {k : Condition} :
    k ∈ (q.remove removed).topConditions ↔
      k ∈ q.topConditions ∧ ∀ a ∈ k.aliases, a ∉ removed := by
  rw [topConditions_remove (isDisjunctive_of_no_group fun g hg => (hcolumn _ hg).elim nofun),
    Condition.mem_mapLeavesAll_iff]
  constructor
  · rintro ⟨k', hk', hk⟩
    obtain ⟨c, rfl⟩ := hcolumn k' hk'
    rw [Condition.mapLeaves, Condition.withoutRemoved] at hk
    split_ifs at hk with hc
    · exact absurd hk List.not_mem_nil
    · obtain rfl := List.mem_singleton.1 hk
      refine ⟨hk', fun a ha hr => ?_⟩
      obtain rfl := List.mem_singleton.1 ha
      cases hp : c.pruneable with
      | true => exact hc (by simp [hp, hr])
      | false => exact hremoved _ hr (mem_references_of_topConditions hk' (by
          simp [Condition.references, hp]))
  · rintro ⟨hk, hstays⟩
    obtain ⟨c, rfl⟩ := hcolumn k hk
    have hc := hstays _ (List.mem_singleton_self _)
    exact ⟨_, hk, by simp [Condition.mapLeaves, Condition.withoutRemoved, hc]⟩

/-- The conditions that are left when tables are removed. -/
def Condition.leftBy (removed : List String) (ks : List Condition) : List Condition :=
  ks.filter fun k => k.aliases.all (· ∉ removed)

theorem Condition.mem_leftBy_iff {k : Condition} :
    k ∈ leftBy removed ks ↔ k ∈ ks ∧ ∀ a ∈ k.aliases, a ∉ removed := by
  simp [leftBy]

/-- Additions of joins and conditions on columns without some that nothing refers to. -/
theorem Plan.Adds.remove {js : List Join} (h : p.Adds q (js.map .join) ks) (hp : p.Bare)
    (hks : ∀ k ∈ ks, ∃ c, k = .column c) :
    p.Adds (q.remove (q.unreferenced keep))
      ((js.filter (·.aliasName ∉ q.unreferenced keep)).map .join)
      (Condition.leftBy (q.unreferenced keep) ks) := by
  have hcolumn : ∀ k ∈ q.topConditions, ∃ c, k = .column c := fun k hk =>
    ((h.conditions k).1 hk).elim (fun hk => (hp.conditions k hk).imp fun _ hc => hc.1) (hks k)
  have hstays : ∀ a ∈ p.tables.map Table.aliasName, a ∉ q.unreferenced keep := fun a ha hr =>
    h.disjoint a ha (h.of_unreferenced hp hr).1
  have htables : (q.remove (q.unreferenced keep)).tables =
      p.tables ++ (js.filter (·.aliasName ∉ q.unreferenced keep)).map .join := by
    have hfront : p.tables.filter (·.aliasName ∉ q.unreferenced keep) = p.tables :=
      List.filter_eq_self.2 fun t ht => decide_eq_true (hstays _ (List.mem_map_of_mem ht))
    rw [tables_remove, Table.mapLeavesAll_eq_map, h.tables, List.filter_append, hfront,
      List.filter_map, List.map_append, hp.map_mapPlan, Table.map_mapPlan_joins]
    rfl
  refine ⟨htables, ?_, fun k => ?_, fun a ha => ?_⟩
  · rw [tables_remove, Table.map_aliasName_mapLeavesAll]
    exact h.nodup.sublist (List.filter_sublist.map _)
  · rw [mem_topConditions_remove_iff hcolumn fun a ha => (h.of_unreferenced hp ha).2,
      h.conditions, or_and_right, Condition.mem_leftBy_iff]
    exact or_congr_left (and_iff_left_of_imp fun hk a ha => hstays a ((hp.flat k hk).2 a ha))
  · rw [selects_remove]
    exact Select.star_mem_mapLeavesAll (h.selects a ha)

/-- The tables that a test for a missing row needs are referred to; others go with their
conditions. -/
theorem Unmatched.remove {j m : Join} {bs : List Join} (h : Unmatched schema holder l j m bs ks)
    (hadds : p.Adds q ((j :: bs).map .join) ks) (hremoved : ∀ a ∈ removed, a ∉ q.references) :
    j.aliasName ∉ removed ∧ Unmatched schema holder l j m (bs.filter (·.aliasName ∉ removed))
      (Condition.leftBy removed ks) := by
  obtain ⟨ty, hmissing⟩ := h.missing
  have hm : m.aliasName ∉ removed := fun hm => hremoved _ hm
    (Plan.mem_references_of_topConditions ((hadds.conditions _).2 (.inr hmissing))
      List.mem_cons_self)
  have hparent : ∀ b ∈ bs, b.parent.aliasName ∉ removed := fun b hb hm => by
    refine hremoved _ hm (Plan.mem_references_of_join ?_)
    rw [hadds.tables]
    exact List.mem_append_right _ (List.mem_map_of_mem (List.mem_cons_of_mem _ hb))
  have hj : j.aliasName ∉ removed := by
    rcases h.refers with rfl | ⟨hmem, hmj, -⟩
    · exact hm
    · exact hmj ▸ hparent m hmem
  have stays : ∀ a ∈ (j :: bs).map (·.aliasName), a ∉ removed →
      a ∈ (j :: bs.filter (·.aliasName ∉ removed)).map (·.aliasName) := by
    intro a ha hr
    obtain ⟨b, hb, rfl⟩ := List.mem_map.1 ha
    refine List.mem_map_of_mem ((List.mem_cons.1 hb).elim (fun he => he ▸ List.mem_cons_self) ?_)
    exact fun hb => List.mem_cons_of_mem _ (List.mem_filter.2 ⟨hb, decide_eq_true hr⟩)
  refine ⟨hj, ⟨h.link, fun b hb => ?_, h.kind, h.refers.imp_right fun ⟨hmem, hrest⟩ =>
      ⟨List.mem_filter.2 ⟨hmem, decide_eq_true hm⟩, hrest⟩,
    ⟨ty, Condition.mem_leftBy_iff.2 ⟨hmissing, List.forall_mem_singleton.2 hm⟩⟩, fun k hk => ?_⟩⟩
  · have hb := (List.mem_filter.1 hb).1
    exact ⟨(h.behind b hb).1, stays _ (h.behind b hb).2 (hparent b hb)⟩
  · obtain ⟨hk, hleft⟩ := Condition.mem_leftBy_iff.1 hk
    obtain ⟨c, rfl, hnull, hasked, hmem⟩ := h.checks k hk
    exact ⟨c, rfl, hnull, hasked, stays _ hmem (hleft _ (List.mem_singleton_self _))⟩

/-- Pruning of the plan itself. -/
theorem Plan.Lacks.trim (h : p.Lacks schema holder l q extra ks) (hp : p.Bare) :
    ∃ extra' ks', p.Lacks schema holder l (q.trim keep) extra' ks' ∧
      (extra = [] → extra' = [] ∧ ks' = ks) := by
  have kept (hall : ∀ a ∈ extra.map Table.aliasName, a ∈ q.references) :
      ∃ extra' ks', p.Lacks schema holder l (q.trim keep) extra' ks' ∧
        (extra = [] → extra' = [] ∧ ks' = ks) := by
    rw [trim_eq_self]
    · exact ⟨extra, ks, h, fun he => ⟨he, rfl⟩⟩
    · refine List.eq_nil_iff_forall_not_mem.2 fun a ha => ?_
      exact (h.adds.of_unreferenced hp ha).2 (hall a (h.adds.of_unreferenced hp ha).1)
  cases h.tells with
  | null => exact kept nofun
  | denied => exact kept nofun
  | counted =>
    refine kept fun a ha => ?_
    rw [List.mem_singleton.1 ha]
    exact mem_references_of_topConditions ((h.adds.conditions _).2 (.inr (List.mem_singleton_self _)))
      (List.mem_singleton_self _)
  | @joined j m bs _ hu hstaged =>
    obtain ⟨bs', ks', hu', hstaged', hadds'⟩ : ∃ bs' ks', Unmatched schema holder l j m bs' ks' ∧
        Table.Staged ((j :: bs').map .join) ∧ p.Adds (q.trim keep) ((j :: bs').map .join) ks' := by
      refine trim_induct (P := fun q => ∃ bs ks, Unmatched schema holder l j m bs ks ∧
        Table.Staged ((j :: bs).map .join) ∧ p.Adds q ((j :: bs).map .join) ks)
        (fun q ⟨bs, ks, hu, hstaged, hadds⟩ => ?_) ⟨bs, ks, hu, hstaged, h.adds⟩
      have hloose : ∀ a ∈ q.unreferenced keep, a ∉ q.references := fun a ha =>
        (hadds.of_unreferenced hp ha).2
      obtain ⟨hj, hu'⟩ := hu.remove hadds hloose
      refine ⟨_, _, hu', hstaged.sublist ((List.filter_sublist.cons_cons j).map _), ?_⟩
      have hremove := @Plan.Adds.remove p q ks keep (j :: bs) hadds hp fun k hk =>
        (hu.checks k hk).imp fun _ hc => hc.1
      have hfilter : (j :: bs).filter (·.aliasName ∉ q.unreferenced keep) =
          j :: bs.filter (·.aliasName ∉ q.unreferenced keep) := by simp [hj]
      rwa [hfilter] at hremove
    exact ⟨_, _, ⟨hadds', .joined hu' hstaged'⟩, fun he => absurd he (List.cons_ne_nil _ _)⟩

/-! ### Subqueries -/

namespace Plan

/-- The subquery that a link is denied with. -/
theorem Probes.remove (h : query.Probes l own) {gone : List String} (hown : own ∉ gone) :
    (query.remove gone).Probes l own := by
  obtain ⟨bs, htables, hbs⟩ := h.tables
  have hstays : (Table.primary own l.table).aliasName ∉ gone := hown
  have hleft : (query.remove gone).tables =
      .primary own l.table :: (bs.filter (·.aliasName ∉ gone)).map .join := by
    rw [tables_remove, Table.mapLeavesAll_eq_map, htables, List.filter_cons,
      if_pos (decide_eq_true hstays), List.filter_map, List.map_cons, Table.map_mapPlan_joins]
    rfl
  have hnames : ((query.remove gone).tables.map Table.aliasName).Sublist
      (query.tables.map Table.aliasName) := by
    rw [tables_remove, Table.map_aliasName_mapLeavesAll]
    exact List.filter_sublist.map _
  refine ⟨⟨_, hleft, fun b hb => hbs b (List.mem_filter.1 hb).1⟩, h.nodup.sublist hnames,
    fun hm => h.outside (hnames.subset hm), ?_⟩
  rw [topConditions_remove (isDisjunctive_of_no_group fun g hg => ?_), h.condition]
  · exact Condition.mapLeavesAll_eq_self (List.forall_mem_singleton.2 rfl)
  · rw [h.condition] at hg
    cases List.mem_singleton.1 hg

theorem Probes.trim (h : query.Probes l own) : (query.trim keep).Probes l own := by
  refine trim_induct (fun q hq => hq.remove fun hm => ?_) h
  -- no other table has the name of the primary one
  obtain ⟨bs, htables, -⟩ := hq.tables
  have hnd := hq.nodup
  obtain ⟨⟨t, ht, hprimary, hname⟩, -⟩ := mem_unreferenced_iff.1 hm
  rw [htables] at ht hnd
  rcases List.mem_cons.1 ht with rfl | ht
  · cases hprimary
  · exact (List.nodup_cons.1 hnd).1 (List.mem_map.2 ⟨t, ht, hname⟩)

/-- A lateral query that counts the linked rows is one after it has been pruned. -/
theorem Probes.pruneWithin (h : query.Probes l own) (hselects : query.selects = [.countIsZero label])
    {n : Nat} : (query.pruneWithin n keep).Probes l own ∧
      (query.pruneWithin n keep).selects = [.countIsZero label] := by
  have htrim : (query.trim keep).Probes l own ∧ (query.trim keep).selects = [.countIsZero label] := by
    refine ⟨h.trim, trim_induct (P := fun q => q.selects = [.countIsZero label]) (fun q hq => ?_) hselects⟩
    rw [selects_remove, hq]
    rfl
  cases n with
  | zero => exact htrim
  | succ n => exact ⟨htrim.1.mapPlans, htrim.2⟩

/-- A subquery that denies a link is left as it is. -/
theorem pruneWithin_search {n : Nat} : (l.search own).pruneWithin n keep = l.search own := by
  have htrim : (l.search own).trim keep = l.search own := trim_eq_self rfl
  cases n with
  | zero => exact htrim
  | succ n =>
    rw [Plan.pruneWithin, htrim]
    rfl

end Plan

/-- The passes over subqueries leave the additions what they are. -/
theorem Plan.Lacks.mapPlans (h : p.Lacks schema holder l q extra ks) (hp : p.Bare)
    (hsearch : ∀ own, g (l.search own) = l.search own)
    (hcount : ∀ {own label query}, query.Probes l own → query.selects = [.countIsZero label] →
      (g query).Probes l own ∧ (g query).selects = [.countIsZero label]) :
    ∃ extra', p.Lacks schema holder l (q.mapPlans g) extra' ks ∧ (extra = [] → extra' = []) := by
  have htop : (q.mapPlans g).topConditions = q.topConditions := by
    rw [topConditions_mapPlans]
    refine (List.map_congr_left fun k hk => ?_).trans (List.map_id _)
    rcases (h.adds.conditions k).1 hk with hk | hk
    · obtain ⟨c, rfl, -⟩ := hp.conditions k hk
      rfl
    · cases h.tells with
      | null => exact List.mem_singleton.1 hk ▸ rfl
      | joined hu hstaged =>
        obtain ⟨c, rfl, -⟩ := hu.checks k hk
        rfl
      | denied =>
        rw [List.mem_singleton.1 hk, Link.denial, Condition.mapPlans, hsearch]
        rfl
      | counted =>
        rw [List.mem_singleton.1 hk]
        rfl
  have adds : ∀ extra', extra.map (Table.mapPlan g) = extra' → p.Adds (q.mapPlans g) extra' ks :=
    fun extra' he =>
      { tables := by
          show q.tables.map (Table.mapPlan g) = _
          rw [h.adds.tables, List.map_append, hp.map_mapPlan, he]
        nodup := by
          show ((q.tables.map (Table.mapPlan g)).map Table.aliasName).Nodup
          rw [Table.map_aliasName_map_mapPlan]
          exact h.adds.nodup
        conditions := fun k => by rw [htop, h.adds.conditions]
        selects := h.adds.selects }
  cases h.tells with
  | null hc hp hid hkey => exact ⟨[], ⟨adds _ rfl, .null hc hp hid hkey⟩, fun _ => rfl⟩
  | joined hu hstaged => exact ⟨_, ⟨adds _ Table.map_mapPlan_joins, .joined hu hstaged⟩, fun h => h⟩
  | denied hown => exact ⟨[], ⟨adds _ rfl, .denied hown⟩, fun _ => rfl⟩
  | counted hq hselects =>
    obtain ⟨hq', hselects'⟩ := hcount hq hselects
    exact ⟨_, ⟨adds _ rfl, .counted hq' hselects'⟩, fun h => absurd h (List.cons_ne_nil _ _)⟩

/-- Pruning of the plan and of its subqueries. -/
theorem Plan.Lacks.prune (h : p.Lacks schema holder l q extra ks) (hp : p.Bare) :
    ∃ extra' ks', p.Lacks schema holder l (q.prune keep) extra' ks' ∧
      (extra = [] → extra' = [] ∧ ks' = ks) := by
  obtain ⟨extra', ks', htrim, hsame⟩ := @trim p q extra ks keep schema holder l h hp
  rw [Plan.prune]
  cases q.depth with
  | zero => exact ⟨extra', ks', htrim, hsame⟩
  | succ n =>
    obtain ⟨extra'', hmap, hsame'⟩ := htrim.mapPlans (g := pruneWithin n []) hp
      (fun _ => pruneWithin_search) fun hq hselects => hq.pruneWithin hselects
    exact ⟨extra'', ks', hmap, fun he => ⟨hsame' (hsame he).1, (hsame he).2⟩⟩

end

end

end EntityQuery
