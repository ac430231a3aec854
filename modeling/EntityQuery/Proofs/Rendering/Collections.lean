import EntityQuery.Collection.Resolved
import EntityQuery.Proofs.Draft.Tree
import EntityQuery.Proofs.Existence.Build
import EntityQuery.Proofs.Rendering.Throughout

/-!
# Subqueries of collections

The rewrites of collections move conditions into subqueries and into columns of lateral queries.  The
predicates on columns are those that were there, and the tables of the new subqueries are tables that
belong to collections.

* `Plan.Inside`: properties of the tables and of the predicates in the subqueries of a plan;
* `Collections.Suits`: the property of the tables is one of those that belong to collections;
* `Plan.inside_toExistence`: collections as existence conditions;
* `Lateral.throughout_decompose`, `Plan.inside_toLateral`: collections as lateral queries;
* `Plan.inside_resolveCollections`, `Plan.predicates_resolveCollections`: any strategy.
-/

namespace EntityQuery

/-- The subqueries of the table have the properties. -/
def Table.Throughout (L : List Table → Prop) (P : ColumnCondition → Prop) (t : Table) : Prop :=
  ∀ q ∈ t.plans, q.Throughout L P

/-- The subqueries of the plan and its predicates have the properties; nothing is said of the tables
of the plan itself. -/
structure Plan.Inside (L : List Table → Prop) (P : ColumnCondition → Prop) (p : Plan) : Prop where
  tables : ∀ t ∈ p.tables, t.Throughout L P
  conditions : ∀ c ∈ p.topConditions, c.Throughout L P
  selects : ∀ s ∈ p.selects, s.Throughout L P

/-- All predicates on columns in the plan and in its subqueries have the property. -/
abbrev Plan.Predicates (P : ColumnCondition → Prop) (p : Plan) : Prop :=
  p.Throughout (fun _ => True) P

/-- All predicates on columns in the condition have the property. -/
abbrev Condition.Predicates (P : ColumnCondition → Prop) (c : Condition) : Prop :=
  c.Throughout (fun _ => True) P

/-- Tables that belong to collections have the property in a subquery. -/
def Collections.Suits (t : Collections) (L : List Table → Prop) (ts : List Table) : Prop :=
  ∀ {ts' : List Table} {root : String} {names : List String},
    (∀ j, .join j ∈ ts' → .join j ∈ ts) → (∀ a ∈ names, t.above a ≠ []) →
      L (subqueryTables ts' root names)

namespace Collections

variable {t : Collections} {a c : String}

theorem above_ne_nil_of_isCollection (h : t.isCollection c = true) : t.above c ≠ [] := by
  have hself : c ∈ t.chain c := by
    rw [chain]
    cases t.parents.length <;> exact List.mem_cons_self
  exact List.ne_nil_of_mem (List.mem_filter.2 ⟨hself, h⟩)

theorem above_ne_nil_of_mem_ownedBy (h : a ∈ t.ownedBy c) : t.above a ≠ [] := by
  have hnearest := of_decide_eq_true (List.mem_filter.1 h).2
  rintro hnil
  rw [nearest?, hnil] at hnearest
  cases hnearest

theorem above_ne_nil_of_mem_subtree (h : a ∈ t.subtree c) : t.above a ≠ [] :=
  List.ne_nil_of_mem (inSubtree_iff.1 (List.mem_filter.1 h).2)

end Collections

section

variable {L : List Table → Prop} {P : ColumnCondition → Prop}

theorem Plan.throughout_iff_inside {p : Plan} :
    p.Throughout L P ↔ L p.tables ∧ p.Inside L P := by
  rw [Plan.throughout_iff]
  exact and_congr_right' ⟨fun h => ⟨h.1, h.2.1, h.2.2⟩, fun h => ⟨h.tables, h.conditions, h.selects⟩⟩

theorem Plan.predicates_iff {p : Plan} : p.Predicates P ↔ p.Inside (fun _ => True) P :=
  Plan.throughout_iff_inside.trans (and_iff_right trivial)

/-- The tables of a subquery are tables of the plan. -/
theorem Table.throughout_subqueryTables {tables : List Table} (h : ∀ t ∈ tables, t.Throughout L P)
    {root : String} {names : List String} : ∀ t ∈ subqueryTables tables root names,
      t.Throughout L P := by
  refine List.forall_mem_map.2 fun t ht => ?_
  have ht := h t (List.mem_filter.1 ht).1
  cases t with
  | join j =>
    dsimp only
    split_ifs <;>
    · intro q hq
      cases hq
  | _ => exact ht

/-! ### Existence conditions -/

namespace Existence

variable {tables : List Table} {t : Collections}

theorem throughout_subquery (hL : L tables) (h : ∀ t ∈ tables, t.Throughout L P)
    {cs : List Condition} (hcs : ∀ c ∈ cs, c.Throughout L P) : (subquery tables cs).Throughout L P :=
  ⟨hL, Table.throughoutAll_iff.2 h, Condition.throughoutAll_iff.2 hcs, trivial⟩

theorem above_ne_nil_of_mem_kept {a c : String} {cs : List Condition} (h : a ∈ kept t c cs) :
    t.above a ≠ [] := by
  rcases List.mem_append.1 h with h | h
  · exact Collections.above_ne_nil_of_mem_ownedBy h
  · obtain ⟨d, -, h⟩ := List.mem_flatMap.1 h
    exact Collections.above_ne_nil_of_mem_subtree h

/-- What stands for a collection has the properties that its tables and conditions have. -/
theorem throughout_build? (hL : t.Suits L tables) (h : ∀ t ∈ tables, t.Throughout L P) {n : Nat}
    {c : String} {cs : List Condition} (hcs : ∀ k ∈ cs, k.Throughout L P) :
    ∀ q ∈ build? tables t n c cs, q.Throughout L P := by
  induction n generalizing c cs with
  | zero => exact nofun
  | succ n ih =>
    intro q hq
    cases hj : t.join? c with
    | none =>
      rw [build?, hj] at hq
      cases hq
    | some j =>
      have hc : t.isCollection c = true := Option.isSome_iff_exists.2 ⟨j, hj⟩
      rw [build?_succ hj] at hq
      split_ifs at hq
      · obtain rfl := Option.some.inj hq
        exact throughout_subquery (hL (fun _ => id) (List.forall_mem_singleton.2
          (Collections.above_ne_nil_of_isCollection hc))) (Table.throughout_subqueryTables h)
            (List.forall_mem_singleton.2 trivial)
      · cases hq
      · obtain rfl := Option.some.inj hq
        refine throughout_subquery (hL (fun _ => id) fun a => above_ne_nil_of_mem_kept)
          (Table.throughout_subqueryTables h) (List.forall_mem_cons.2 ⟨trivial,
            List.forall_mem_append.2 ⟨fun k hk => hcs k (mem_own_iff.1 hk).1, fun k hk => ?_⟩⟩)
        obtain ⟨child, -, hk⟩ := List.mem_filterMap.1 hk
        exact ih (fun k hk => hcs k (List.mem_filter.1 hk).1) k hk

end Existence

namespace Plan

variable {p : Plan} {joins : List Join}

/-- Existence conditions have the properties that the plan has inside. -/
theorem inside_toExistence {r : Resolved} (hL : (Collections.ofPlan p joins).Suits L p.tables)
    (h : p.Inside L P) (hr : p.toExistence joins = .ok r) : r.plan.Inside L P := by
  unfold toExistence at hr
  simp only at hr
  split_ifs at hr
  · exact Except.ok.inj hr ▸ h
  split at hr
  · cases hr
  · obtain rfl := Except.ok.inj hr
    refine ⟨fun t ht => h.tables t (List.mem_filter.1 ht).1,
      Group.throughoutTop_iff.1 (Group.throughoutTop_ofTop fun c hc => ?_), h.selects⟩
    simp only [List.mem_append, List.mem_flatMap] at hc
    rcases hc with ((hc | ⟨_, _, hc⟩) | ⟨_, _, hc⟩) | hc
    · exact h.conditions c (List.mem_filter.1 hc).1
    · exact h.conditions c (List.mem_filter.1 hc).1
    · exact h.conditions c (List.mem_filter.1 hc).1
    · obtain ⟨x, hx, hc⟩ := List.mem_filterMap.1 hc
      obtain ⟨root, -, rfl⟩ := List.mem_map.1 hx
      exact Existence.throughout_build? hL h.tables
        (fun c hc => h.conditions c (List.mem_filter.1 hc).1) c hc

end Plan

/-! ### Lateral queries -/

namespace Lateral

/-- Whatever collections are chosen, they are those of the plan. -/
theorem tree_of_settle {t : Collections} {eligible excluded warnings warnings' : List String}
    {top : List Condition} {rounds : Nat} {s : Scope}
    (h : settle t eligible top rounds excluded warnings = .ok (s, warnings')) : s.tree = t := by
  induction rounds generalizing excluded warnings with
  | zero =>
    unfold settle at h
    simp only at h
    split at h
    · cases h
    · split at h
      · exact (Prod.mk.inj (Except.ok.inj h)).1 ▸ rfl
      · exact (Prod.mk.inj (Except.ok.inj h)).1 ▸ rfl
      · next he _ => cases he
  | succ rounds ih =>
    unfold settle at h
    simp only at h
    split at h
    · cases h
    · split at h
      · exact (Prod.mk.inj (Except.ok.inj h)).1 ▸ rfl
      · next he _ => cases he
      · next he _ =>
        obtain rfl := Nat.succ.inj he
        exact ih h

variable {s : Scope} {aliasOf : String → String} {columns : List Column}

theorem throughout_columnOf {unit name : String} {c : Condition} (h : c.Throughout L P) :
    (columnOf unit name c).Throughout L P := by
  unfold columnOf
  split_ifs
  · trivial
  · split
    · exact h
    · exact Condition.throughoutAll_iff.2 (List.forall_mem_singleton.2 h)

theorem throughout_asOne {op : Connective} {cs : List Condition} (h : ∀ c ∈ cs, c.Throughout L P) :
    (asOne op cs).Throughout L P := by
  unfold asOne
  split
  · exact h _ (List.mem_singleton_self _)
  · exact Condition.throughout_group_iff.2 h

theorem throughout_addColumn (aliasOf : String → String) (unit : String) {c : Condition}
    (h : c.Throughout L P) (hcolumns : ∀ k ∈ columns, k.select.Throughout L P) :
    (addColumn aliasOf unit c columns).1.Throughout L P ∧
      ∀ k ∈ (addColumn aliasOf unit c columns).2, k.select.Throughout L P :=
  ⟨trivial, List.forall_mem_append.2
    ⟨hcolumns, List.forall_mem_singleton.2 (throughout_columnOf h)⟩⟩

variable (s aliasOf)

mutual

/-- What is left of conditions and the columns that they refer to have the properties that the
conditions had. -/
theorem throughout_decompose (op : Connective) : ∀ (seen : List String) {cs : List Condition}
    {siblings : List Condition} {columns : List Column},
    (∀ c ∈ siblings, c.Throughout L P) → (∀ c ∈ cs, c.Throughout L P) →
    (∀ k ∈ columns, k.select.Throughout L P) →
    (∀ c ∈ (decompose s aliasOf op siblings seen cs columns).1, c.Throughout L P) ∧
      ∀ k ∈ (decompose s aliasOf op siblings seen cs columns).2, k.select.Throughout L P
  | _, [], _, _, _, _, hcolumns => ⟨nofun, hcolumns⟩
  | seen, c :: cs, siblings, columns, hsiblings, hcs, hcolumns => by
    obtain ⟨hc, hcs⟩ := List.forall_mem_cons.1 hcs
    rw [decompose]
    split
    · next unit _ =>
      split_ifs
      · exact throughout_decompose op seen hsiblings hcs hcolumns
      · have hmembers : (asOne op (siblings.filter fun m => s.only? m = some unit)).Throughout L P :=
          throughout_asOne fun c hc => hsiblings c (List.mem_filter.1 hc).1
        have hadded := throughout_addColumn aliasOf unit hmembers hcolumns
        have hrest := throughout_decompose op (unit :: seen) hsiblings hcs hadded.2
        exact ⟨List.forall_mem_cons.2 ⟨hadded.1, hrest.1⟩, hrest.2⟩
    · have hone := throughout_decomposeOne hc hcolumns
      have hrest := throughout_decompose op seen hsiblings hcs hone.2
      exact ⟨List.forall_mem_cons.2 ⟨hone.1, hrest.1⟩, hrest.2⟩

theorem throughout_decomposeOne : ∀ {c : Condition} {columns : List Column}, c.Throughout L P →
    (∀ k ∈ columns, k.select.Throughout L P) →
    (decomposeOne s aliasOf c columns).1.Throughout L P ∧
      ∀ k ∈ (decomposeOne s aliasOf c columns).2, k.select.Throughout L P
  | .group ⟨op, cs⟩, columns, hc, hcolumns => by
    rw [decomposeOne]
    split_ifs
    · exact ⟨hc, hcolumns⟩
    · have hcs := Condition.throughout_group_iff.1 hc
      have hall := throughout_decompose op [] hcs hcs hcolumns
      exact ⟨Condition.throughout_group_iff.2 hall.1, hall.2⟩
  | .column _, _, hc, hcolumns => ⟨hc, hcolumns⟩
  | .raw _, _, _, hcolumns => ⟨trivial, hcolumns⟩
  | .existence _ _ _, _, hc, hcolumns => ⟨hc, hcolumns⟩

end

theorem throughout_guarded {guards : List Condition} (hguards : ∀ c ∈ guards, c.Throughout L P)
    {x : Select} (h : x.Throughout L P) : (guarded guards x).Throughout L P := by
  unfold guarded
  split
  · exact Condition.throughoutAll_iff.2 (List.forall_mem_append.2
      ⟨hguards, Condition.throughoutAll_iff.1 h⟩)
  · exact Condition.throughoutAll_iff.2 (List.forall_mem_append.2
      ⟨hguards, List.forall_mem_singleton.2 h⟩)
  · exact h

variable {ts : List Table} {top : List Condition} (hL : s.tree.Suits L ts)
  (htop : ∀ c ∈ top, c.Throughout L P) (hcolumns : ∀ k ∈ columns, k.select.Throughout L P)

include hL htop hcolumns

/-- The subquery of a collection takes joins of the plan over. -/
theorem throughout_absorb (unit name : String) (j : Join) {tables : List Table}
    (hjoins : ∀ j, .join j ∈ tables → .join j ∈ ts) (h : ∀ t ∈ tables, t.Throughout L P) :
    (∀ j', .join j' ∈ (absorb s top columns unit name j tables).1 → .join j' ∈ ts) ∧
      (∀ t ∈ (absorb s top columns unit name j tables).1, t.Throughout L P) ∧
        ∀ c ∈ (absorb s top columns unit name j tables).2, c.Throughout L P := by
  have hguards : ∀ c ∈ guardsOf s top unit, c.Throughout L P := fun c hc =>
    htop c (List.mem_filter.1 hc).1
  unfold absorb
  simp only
  split
  · exact ⟨hjoins, h, hguards⟩
  · refine ⟨fun j' hj' => ?_,
      List.forall_mem_append.2 ⟨fun t ht => h t (List.mem_filter.1 ht).1, ?_⟩, nofun⟩
    · rcases List.mem_append.1 hj' with hj' | hj'
      · exact hjoins j' (List.mem_filter.1 hj').1
      · cases List.mem_singleton.1 hj'
    refine List.forall_mem_singleton.2 fun q hq => ?_
    rw [List.mem_singleton.1 hq]
    have hselects : ∀ x ∈ selectsOf unit columns, x.Throughout L P := fun x hx => by
      obtain ⟨k, hk, rfl⟩ := List.mem_map.1 hx
      exact hcolumns k (List.mem_filter.1 hk).1
    refine ⟨hL hjoins fun a => Collections.above_ne_nil_of_mem_subtree,
      Table.throughoutAll_iff.2 (Table.throughout_subqueryTables h),
      Condition.throughoutAll_iff.2 (List.forall_mem_singleton.2 trivial),
      Select.throughoutAll_iff.2 ?_⟩
    unfold guardedAll
    split_ifs
    · exact hselects
    · exact List.forall_mem_map.2 fun x hx => throughout_guarded hguards (hselects x hx)

theorem throughout_absorbAll (names : List (String × String)) {tables : List Table}
    (hjoins : ∀ j, .join j ∈ tables → .join j ∈ ts) (h : ∀ t ∈ tables, t.Throughout L P) :
    (∀ t ∈ (absorbAll s top columns names tables).1, t.Throughout L P) ∧
      ∀ c ∈ (absorbAll s top columns names tables).2, c.Throughout L P := by
  induction names generalizing tables with
  | nil => exact ⟨h, nofun⟩
  | cons n names ih =>
    rw [absorbAll]
    split
    · exact ih hjoins h
    · next j _ =>
      obtain ⟨hjoins', htables, hleft⟩ :=
        throughout_absorb s hL htop hcolumns n.1 n.2 j hjoins h
      have hrest := ih hjoins' htables
      exact ⟨hrest.1, List.forall_mem_append.2 ⟨hleft, hrest.2⟩⟩

end Lateral

namespace Plan

variable {p : Plan} {joins : List Join} {threshold : Nat} {supply : AliasSupply}
  {r : Resolved × AliasSupply}

/-- Lateral queries have the properties that the plan has inside. -/
theorem inside_toLateral {force : Bool} (hL : (Collections.ofPlan p joins).Suits L p.tables)
    (h : p.Inside L P) (hr : p.toLateral force threshold joins supply = .ok r) :
    r.1.plan.Inside L P := by
  unfold toLateral at hr
  simp only at hr
  split_ifs at hr
  · exact Except.ok.inj hr ▸ h
  · obtain ⟨⟨scope, warnings⟩, hscope, hr⟩ := exists_of_bind_eq_ok hr
    obtain rfl := Except.ok.inj hr
    have htree : scope.tree = Collections.ofPlan p joins := Lateral.tree_of_settle hscope
    have hasked : ∀ c ∈ p.topConditions.filter (!Lateral.isGuard scope ·), c.Throughout L P :=
      fun c hc => h.conditions c (List.mem_filter.1 hc).1
    have hdivided := fun aliasOf => Lateral.throughout_decompose scope aliasOf .and [] hasked hasked
      (List.forall_mem_nil _)
    have habsorbed := fun aliasOf names =>
      Lateral.throughout_absorbAll scope (htree ▸ hL) h.conditions (hdivided aliasOf).2 names
        (fun _ => id) h.tables
    exact ⟨(habsorbed _ _).1, Group.throughoutTop_iff.1 (Group.throughoutTop_ofTop
      (List.forall_mem_append.2 ⟨(hdivided _).1, (habsorbed _ _).2⟩)), h.selects⟩

/-- The subqueries of a plan have the properties that it had inside, whatever becomes of its
collections. -/
theorem inside_resolveCollections {strategy : Strategy}
    (hL : (Collections.ofPlan p joins).Suits L p.tables) (h : p.Inside L P)
    (hr : p.resolveCollections strategy threshold joins supply = .ok r) :
    r.1.plan.Inside L P := by
  unfold resolveCollections at hr
  split_ifs at hr
  · exact Except.ok.inj hr ▸ h
  cases strategy with
  | existence =>
    obtain ⟨resolved, hresolved, rfl⟩ := exists_of_map_eq_ok hr
    exact inside_toExistence hL h hresolved
  | lateral force => exact inside_toLateral hL h hr
  | keep => exact Except.ok.inj hr ▸ h

/-- The predicates of a plan stay what they are. -/
theorem predicates_resolveCollections {strategy : Strategy} (h : p.Predicates P)
    (hr : p.resolveCollections strategy threshold joins supply = .ok r) :
    r.1.plan.Predicates P :=
  predicates_iff.2 (inside_resolveCollections (fun _ _ => trivial) (predicates_iff.1 h) hr)

end Plan

end

end EntityQuery
