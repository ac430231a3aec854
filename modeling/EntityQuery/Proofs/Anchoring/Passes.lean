import EntityQuery.Proofs.Anchoring.Draft
import EntityQuery.Proofs.Draft.Regular
import EntityQuery.Proofs.Existence.Plan
import EntityQuery.Proofs.Missing.Link
import EntityQuery.Proofs.Rendering.Collections
import EntityQuery.Proofs.Sorting.Request

/-!
# Inner joins in the passes of a query

The primary table and the inner joins of a draft belong to no collection.  So the strategies leave
them where they are, and the tables that subqueries take over are joined by outer joins alone.  Behind
that, passes add outer joins, or remove tables that nothing refers to.

* `Table.Outer`: tables without inner joins;
* `Plan.required_resolveCollections`, `Plan.required_addOrder`: the primary table and the inner joins
  stay;
* `Collections.suits_outer`: subqueries take outer joins over;
* `Draft.Flat`: a draft without subqueries;
* `Draft.exists_tree_ofQuery`: the tables of the draft of a query;
* `Table.Secure`: inner joins are joined to the primary table or to that of another inner join;
* `Table.stable_secure`: this stays true when tables are removed.
-/

namespace EntityQuery

/-- There are no inner joins. -/
def Table.Outer (ts : List Table) : Prop := ∀ j, .join j ∈ ts → j.kind = .outer

/-! ### Tables that stay -/

section

namespace Table

variable {ts : List Table} {f : Plan → Plan}

theorem isRequired_mapPlan {t : Table} : (t.mapPlan f).isRequired = t.isRequired := by
  cases t <;> rfl

theorem filter_isRequired_mapPlan :
    (ts.map (mapPlan f)).filter isRequired = ts.filter isRequired := by
  rw [List.filter_map]
  refine (List.map_congr_left fun t ht => ?_).trans
    ((List.map_id _).trans (List.filter_congr fun _ _ => isRequired_mapPlan))
  have ht := (List.mem_filter.1 ht).2
  cases t with
  | lateral => cases ht
  | _ => rfl

/-- No required table is among those that are removed. -/
theorem filter_isRequired_of_not_mem {names : List String}
    (h : ∀ t ∈ ts, t.isRequired = true → t.aliasName ∉ names) :
    (ts.filter (·.aliasName ∉ names)).filter isRequired = ts.filter isRequired := by
  rw [List.filter_filter]
  refine List.filter_congr fun t ht => ?_
  cases hreq : t.isRequired with
  | false => rfl
  | true => rw [Bool.true_and, decide_eq_true (h t ht hreq)]

end Table

/-- The primary table and inner joins belong to no collection. -/
def Collections.Frees (t : Collections) (ts : List Table) : Prop :=
  ∀ x ∈ ts, x.isRequired = true → t.above x.aliasName = []

variable {t : Collections} {ts : List Table}

theorem Collections.Frees.not_mem_subtree (h : t.Frees ts) {x : Table} (hx : x ∈ ts)
    (hreq : x.isRequired = true) {c : String} : x.aliasName ∉ t.subtree c :=
  fun hm => above_ne_nil_of_mem_subtree hm (h x hx hreq)

/-- Subqueries take outer joins over. -/
theorem Collections.suits_outer (h : t.Frees ts) : t.Suits Table.Outer ts := by
  intro ts' root names hjoins hnames j hj
  obtain ⟨x, hx, he⟩ := List.mem_map.1 hj
  obtain ⟨hx, hname⟩ := List.mem_filter.1 hx
  cases x with
  | join j' =>
    dsimp only at he
    split_ifs at he
    obtain rfl := Table.join.inj he
    cases hkind : j'.kind with
    | outer => rfl
    | inner =>
      exact absurd (h _ (hjoins j' hx) (decide_eq_true hkind)) (hnames _ (of_decide_eq_true hname))
  | _ => cases he

namespace Lateral

variable {s : Scope} {top : List Condition} {columns : List Column}

theorem required_absorb {unit name : String} {j : Join} (h : s.tree.Frees ts) :
    (absorb s top columns unit name j ts).1.filter Table.isRequired =
      ts.filter Table.isRequired := by
  unfold absorb
  dsimp only
  split
  · rfl
  · rw [List.filter_append, Table.filter_isRequired_of_not_mem fun t ht hreq => h.not_mem_subtree ht hreq]
    exact List.append_nil _

theorem required_absorbAll {names : List (String × String)} (h : s.tree.Frees ts) :
    (absorbAll s top columns names ts).1.filter Table.isRequired = ts.filter Table.isRequired := by
  induction names generalizing ts with
  | nil => rfl
  | cons n names ih =>
    rw [absorbAll]
    split
    · exact ih h
    · next j _ =>
      have hone : (absorb s top columns n.1 n.2 j ts).1.filter Table.isRequired =
          ts.filter Table.isRequired := required_absorb h
      refine (ih fun t ht hreq => ?_).trans hone
      exact h t (List.mem_filter.1 (hone ▸ List.mem_filter.2 ⟨ht, hreq⟩)).1 hreq

end Lateral

namespace Plan

variable {p : Plan} {joins : List Join}

/-- Whatever becomes of the collections, the primary table and the inner joins stay. -/
theorem required_resolveCollections {strategy : Strategy} {threshold : Nat} {supply : AliasSupply}
    {r : Resolved × AliasSupply} (h : (Collections.ofPlan p joins).Frees p.tables)
    (hr : p.resolveCollections strategy threshold joins supply = .ok r) :
    r.1.plan.tables.filter Table.isRequired = p.tables.filter Table.isRequired := by
  unfold resolveCollections at hr
  split_ifs at hr
  · rw [← Except.ok.inj hr]
  cases strategy with
  | existence =>
    obtain ⟨resolved, hresolved, rfl⟩ := exists_of_map_eq_ok hr
    rw [tables_toExistence hresolved, Table.filter_isRequired_of_not_mem]
    rintro t ht hreq hm
    obtain ⟨root, -, hm⟩ := List.mem_flatMap.1 hm
    exact h.not_mem_subtree ht hreq hm
  | lateral force =>
    unfold toLateral at hr
    simp only at hr
    split_ifs at hr
    · rw [← Except.ok.inj hr]
    · obtain ⟨⟨scope, warnings⟩, hscope, hr⟩ := exists_of_bind_eq_ok hr
      rw [← Except.ok.inj hr]
      exact Lateral.required_absorbAll (Lateral.tree_of_settle hscope ▸ h)
  | keep => rw [← Except.ok.inj hr]

/-- An order adds outer joins. -/
theorem required_addOrder {s : Setting} {e : Entity} {a : String} {order : OrderBy}
    {supply : AliasSupply} {r : Plan × AliasSupply} (h : p.addOrder s e a order supply = .ok r) :
    r.1.tables.filter Table.isRequired = p.tables.filter Table.isRequired := by
  obtain ⟨o, ho, h⟩ := exists_of_bind_eq_ok h
  obtain rfl := Except.ok.inj h
  have htables : ((o.reached ++ [a]).foldl Ordering.addId o).tables = o.tables :=
    Ordering.tables_addIds
  rw [htables]
  refine OrderBy.resolve_induct
    (P := fun ts _ => ts.filter Table.isRequired = p.tables.filter Table.isRequired)
    (fun {o o' target parent b} _ hreach hrequired => ?_) ho rfl
  rcases Ordering.reach_cases hreach with ⟨rfl, -⟩ | ⟨-, -, bases, hbases, rfl⟩
  · exact hrequired
  · have houter : ∀ j ∈ (⟨b, target.tableName, .outer, parent, ⟨b, "id"⟩, none⟩ :: bases : List Join),
        j.kind = .outer := by
      refine List.forall_mem_cons.2 ⟨rfl, fun j hj => ?_⟩
      obtain ⟨i, -, -, -, -, hkind⟩ := Setting.of_mem_baseJoins hbases j hj
      exact hkind
    rw [List.filter_append, Table.filter_isRequired_outer houter, List.append_nil, hrequired]

end Plan

end

/-! ### Drafts -/

/-- There are no subqueries in the draft. -/
structure Draft.Flat (d : Draft) : Prop where
  tables : ∀ t ∈ d.tables, t.plans = []
  selects : ∀ x ∈ d.selects, x.plans = []
  conditions : ∀ c ∈ d.conjuncts.inlined ++ d.conjuncts.existences, c.plans = []
  groups : ∀ g ∈ d.conjuncts.groups, ∀ c ∈ g.conditions, c.plans = []

namespace Draft

variable {s : Setting} {schema : Schema} {d d' : Draft} {a table : String}

theorem Regular.flat (h : d.Regular schema a table) : d.Flat where
  tables t ht := by
    obtain ⟨js, hjs⟩ := h.tables
    rw [hjs] at ht
    rcases List.mem_cons.1 ht with rfl | ht
    · rfl
    · obtain ⟨j, -, rfl⟩ := List.mem_map.1 ht
      rfl
  selects x hx := (h.selects x hx).1
  conditions c hc := by
    rw [h.existences, List.append_nil] at hc
    obtain ⟨b, -, hon⟩ := h.inlined c hc
    exact hon.flat
  groups g hg c hc := by
    obtain ⟨b, -, hon⟩ := h.groups g hg
    exact (hon c hc).flat

theorem resolver_flat : (d.resolver s).Ensures fun c => c.plans = [] :=
  ⟨fun _ => Condition.on_split.flat, fun _ => rfl, fun hcs => Condition.plansOf_eq_nil_iff.2 hcs⟩

theorem Flat.addConditions (h : d.Flat) {literal : ExpressionLiteral}
    (hd : d.addConditions s literal = .ok d') : d'.Flat := by
  obtain ⟨g, hg, hd⟩ := exists_of_bind_eq_ok hd
  obtain rfl := Except.ok.inj hd
  cases g with
  | none => exact h
  | some g =>
    exact { h with
      groups := List.forall_mem_append.2 ⟨h.groups,
        List.forall_mem_singleton.2 (ExpressionLiteral.of_resolve resolver_flat hg g rfl)⟩ }

/-- The plan of a draft without subqueries has any property of subqueries. -/
theorem Flat.inside (h : d.Flat) {L : List Table → Prop} : d.toPlan.Inside L fun _ => True where
  tables t ht q hq := by
    rw [h.tables t ht] at hq
    cases hq
  conditions := of_conjuncts_group? (fun c hc => Condition.throughout_of_flat (h.conditions c hc))
    (fun g hg _ c hc => Condition.throughout_of_flat (h.groups g hg c hc))
    (fun ⟨_, _⟩ hg => Condition.throughout_of_flat (Condition.plansOf_eq_nil_iff.2 (h.groups _ hg)))
    rfl
  selects x hx := Select.throughout_of_flat (h.selects x hx)

/-- The tables of the draft of a query form a join tree if their names are distinct; its collections
are joined by outer joins. -/
theorem exists_tree_ofQuery {e : Entity} (he : e ∈ s.schema.entities) {filter : EntityFilter}
    {conditions : Option ExpressionLiteral}
    (h : Draft.ofQuery s e filter conditions = .ok (a, d)) (hnd : d.names.Nodup) :
    d.Flat ∧ ∃ T : JoinTree, d.tables = T.tables ∧
      ∀ j ∈ d.collections, j ∈ T.joins ∧ j.kind = .outer := by
  have hregular : ∀ {d₀ : Draft}, Draft.ofQuery s e filter none = .ok (a, d₀) → d₀.names.Nodup →
      ∃ T : JoinTree, d₀.tables = T.tables ∧
        ∀ j ∈ d₀.collections, j ∈ T.joins ∧ j.kind = .outer := by
    intro d₀ hd₀ hnd
    have hregular := (regular_ofQuery he hd₀).1
    obtain ⟨T, -, hT, hgathered⟩ := hregular.exists_tree hnd
    exact ⟨T, hT, fun j hj =>
      ⟨(hgathered.collections j hj).1, (hregular.collections j hj).2.2.kind⟩⟩
  cases conditions with
  | none => exact ⟨(regular_ofQuery he h).1.flat, hregular h hnd⟩
  | some literal =>
    rw [ofQuery_some] at h
    obtain ⟨⟨b, d₀⟩, hd₀, h⟩ := exists_of_bind_eq_ok h
    obtain ⟨d₁, hd₁, h⟩ := exists_of_bind_eq_ok h
    obtain ⟨rfl, rfl⟩ := Prod.mk.inj (Except.ok.inj h)
    have hflat := (regular_ofQuery he hd₀).1.flat.addConditions hd₁
    have htables := tables_addConditions hd₁
    have hcollections : d₁.collections = d₀.collections := by
      obtain ⟨g, -, hd₁⟩ := exists_of_bind_eq_ok hd₁
      obtain rfl := Except.ok.inj hd₁
      cases g <;> rfl
    rw [names, htables] at hnd
    rw [htables, hcollections]
    exact ⟨hflat, hregular hd₀ hnd⟩

end Draft

/-! ### Collections -/

/-- In a join tree, inner joins are joined to required tables if they are so in the list of tables. -/
theorem JoinTree.rooted_of_anchored {T : JoinTree} (h : Table.Anchored T.tables) : T.Rooted := by
  intro j hj hkind
  have hfilter : T.tables.filter Table.isRequired =
      .primary T.aliasName T.table :: (T.joins.filter (·.kind = .inner)).map .join := by
    rw [tables, List.filter_cons_of_pos rfl, List.filter_map]
    rfl
  have hmem : j ∈ T.joins.filter (·.kind = .inner) := List.mem_filter.2 ⟨hj, decide_eq_true hkind⟩
  obtain ⟨front, back, hfront⟩ := List.append_of_mem hmem
  rw [Table.Anchored, hfilter, hfront, List.map_append, List.map_cons] at h
  rw [← List.cons_append] at h
  have hparent := (Table.scopedAll_append.1 h).2.1
  rw [required, hfront]
  rcases List.mem_cons.1 hparent with hparent | hparent
  · exact hparent ▸ List.mem_cons_self
  · rw [List.map_map] at hparent
    exact List.mem_cons_of_mem _ (List.map_append ▸ List.mem_append_left _ hparent)

/-- The primary table and the inner joins of a draft belong to no collection. -/
theorem Draft.frees_collections {d : Draft} {T : JoinTree} (hT : d.tables = T.tables)
    (hcollections : ∀ j ∈ d.collections, j ∈ T.joins ∧ j.kind = .outer)
    (h : Table.Anchored d.tables) :
    (Collections.ofPlan d.toPlan d.collections).Frees d.toPlan.tables := by
  intro t ht hreq
  have hrooted := JoinTree.rooted_of_anchored (hT ▸ h)
  refine hrooted.above_eq_nil hT (fun j hj => (hcollections j hj).1)
    (fun j hj => (hcollections j hj).2) ?_
  rcases JoinTree.mem_tables_iff.1 (hT ▸ ht : t ∈ T.tables) with rfl | ⟨j, hj, rfl⟩
  · exact List.mem_cons_self
  · exact JoinTree.mem_required_of_inner hj (of_decide_eq_true hreq)

/-! ### Tables that are removed -/

/-- Inner joins are joined to a table in front of them, and all tables of that name are required
ones. -/
structure Table.Secure (ts : List Table) : Prop where
  anchored : Table.Anchored ts
  parents : ∀ j, .join j ∈ ts → j.kind = .inner → ∀ t ∈ ts, t.aliasName = j.parent.aliasName →
    t.isRequired = true

namespace Table

variable {ts : List Table}

theorem scopedAll_of_isPrimary {before : List String} (h : ∀ t ∈ ts, t.isPrimary = true) :
    ScopedAll before ts := by
  induction ts generalizing before with
  | nil => trivial
  | cons t ts ih =>
    obtain ⟨ht, hts⟩ := List.forall_mem_cons.1 h
    refine scopedAll_cons_iff.2 ⟨?_, ih hts⟩
    cases t with
    | primary => trivial
    | _ => cases ht

/-- Without inner joins there is nothing to be joined to. -/
theorem Outer.secure (h : Outer ts) : Secure ts where
  anchored := scopedAll_of_isPrimary fun t ht => by
    obtain ⟨ht, hreq⟩ := List.mem_filter.1 ht
    cases t with
    | primary => rfl
    | join j => exact absurd ((h j ht).symm.trans (of_decide_eq_true hreq)) nofun
    | _ => cases hreq
  parents j hj hkind := absurd ((h j hj).symm.trans hkind) nofun

/-- Tables with distinct names: each is the only one of its name. -/
theorem Anchored.secure (h : Anchored ts) (hnd : (ts.map aliasName).Nodup) : Secure ts where
  anchored := h
  parents j hj hkind t ht hname := by
    have hmem : .join j ∈ ts.filter isRequired := List.mem_filter.2 ⟨hj, decide_eq_true hkind⟩
    obtain ⟨front, back, hfront⟩ := List.append_of_mem hmem
    rw [Anchored, hfront] at h
    obtain ⟨x, hx, hxname⟩ := List.mem_map.1 (scopedAll_append.1 h).2.1
    obtain ⟨hx, hreq⟩ := List.mem_filter.1 (hfront ▸ List.mem_append_left _ hx)
    exact List.inj_on_of_nodup_map hnd hx ht (hxname.trans hname.symm) ▸ hreq

theorem Secure.filter (h : Secure ts) {removed : List String}
    (hremoved : ∀ a ∈ referencesOf ts, a ∉ removed) :
    Secure (ts.filter (·.aliasName ∉ removed)) where
  anchored := by
    rw [Anchored, List.filter_comm]
    refine scopedAll_filter h.anchored fun a ha => hremoved a ?_
    rcases mem_referencesOf_iff.1 ha with ⟨j, hj, rfl⟩ | ⟨x, fromAlias, query, hx, -⟩
    · exact mem_referencesOf_iff.2 (.inl ⟨j, (List.mem_filter.1 hj).1, rfl⟩)
    · cases (List.mem_filter.1 hx).2
  parents j hj hkind t ht := h.parents j (List.mem_filter.1 hj).1 hkind t (List.mem_filter.1 ht).1

/-- Inner joins stay secure when tables are removed that nothing refers to. -/
theorem stable_secure : Stable Secure where
  mapPlan h :=
    { anchored := by
        rw [Anchored, filter_isRequired_mapPlan]
        exact h.anchored
      parents := fun j hj hkind => List.forall_mem_map.2 fun t ht hname => by
        rw [isRequired_mapPlan]
        exact h.parents j (join_mem_map_mapPlan.1 hj) hkind t ht (aliasName_mapPlan ▸ hname) }
  unreferenced h := h.filter fun _ ha hm => (Plan.mem_unreferenced_iff.1 hm).2.2
    (Plan.mem_references_iff.2 (.inr (.inr (.inr (.inr ha)))))

end Table

end EntityQuery
