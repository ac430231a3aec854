import EntityQuery.Proofs.Lateral.Plan
import EntityQuery.Proofs.Existence.Missing
import Mathlib.Data.Set.Basic

/-!
# What a plan with lateral aggregates selects

A row of the plan is a row for each column that it needs, so the rewritten plan loses nothing.  The
rows of several columns need not be the same; where each collection has one column and no guards,
the rows of the columns make up a row of the plan.

* `Lateral.mem_rows_lateralPlan_iff`: the rows of the rewritten plan;
* `Lateral.exists_mem_rows_lateralPlan`: what the plan selects is selected by the rewritten plan;
* `Lateral.exists_mem_rows_of_lateralPlan`: the converse for single columns;
* `Plan.combinations_toLateral`: both, for what the rewrite returns.
-/

namespace EntityQuery

namespace Lateral

/-- The columns of the rewritten plan. -/
def columnsOf (s : Scope) (supply : AliasSupply) (p : Plan) : List Column :=
  (divided s supply p.topConditions).2

/-- The table is below no collection that became a subquery. -/
def Survives (s : Scope) (supply : AliasSupply) (p : Plan) (a : String) : Prop :=
  ∀ u ∈ s.active, isRewritten (columnsOf s supply p) u = true → u ∉ s.tree.above a

/-- The condition has no subquery and mentions no lateral table. -/
def Plain (s : Scope) (supply : AliasSupply) (k : Condition) : Prop :=
  k.plans = [] ∧ ∀ u ∈ s.active, subqueryName supply u ∉ k.aliases

/-- The condition reads tables below the collection alone. -/
def Liftable (s : Scope) (u : String) (k : Condition) : Prop :=
  u ∈ s.active ∧ k.plans = [] ∧ ∀ a ∈ k.aliases, s.unit? a = some u

/-- The columns of a collection come to one condition on one row: the groups that ask for a row hold
together, and there are no guards, or a group under all other conditions demands the row that meets
them; where that group asks for no row, the guards are checks for null. -/
structure Condenses (db : Database) (s : Scope) (supply : AliasSupply) (p : Plan) (u : String) :
    Prop where
  same : ∀ k k' name name', Lifts s .and (askedOf s p.topConditions) u k →
    Lifts s .and (askedOf s p.topConditions) u k' →
    ⟨u, columnOf u name k⟩ ∈ columnsOf s supply p → ⟨u, columnOf u name' k'⟩ ∈ columnsOf s supply p →
    ¬ k.isMissing u = true → ¬ k'.isMissing u = true → ∀ e, k.Holds db e ↔ k'.Holds db e
  guards : guardsOf s p.topConditions u = [] ∨
    (∃ m ∈ askedOf s p.topConditions, s.only? m = some u) ∧
      ((asOne .and ((askedOf s p.topConditions).filter fun m => s.only? m = some u)).isMissing u =
        true → ∀ g ∈ guardsOf s p.topConditions u, g.isNullCheck = true)

/-- A group that asks for a row of the collection and whose column is true. -/
structure Chosen (db : Database) (s : Scope) (supply : AliasSupply) (p : Plan) (e : Assignment)
    (u : String) (k : Condition) : Prop where
  liftable : Liftable s u k
  lifts : Lifts s .and (askedOf s p.topConditions) u k
  asks : ¬ k.isMissing u = true
  told : ∃ name, ⟨u, columnOf u name k⟩ ∈ columnsOf s supply p ∧
    (reference (aliasOf s supply) u name).Holds db e

/-- What the rows of a collection have to meet: the guards and a group whose column is true, where
there is one. -/
inductive Demands (db : Database) (s : Scope) (supply : AliasSupply) (p : Plan) (e : Assignment)
    (u : String) : List Condition → Prop
  | row {k : Condition} (h : Chosen db s supply p e u k) :
      Demands db s supply p e u (guardsOf s p.topConditions u ++ [k])
  | any (h : ∀ k, ¬ Chosen db s supply p e u k) : Demands db s supply p e u []

/-- The tables that survive are bound as in the second assignment; those below the collections that
became subqueries have rows again, which meet what the columns of the first one tell. -/
structure Restores (db : Database) (T : JoinTree) (s : Scope) (supply : AliasSupply) (p : Plan)
    (e e₀ e' : Assignment) : Prop where
  agree : ∀ a, Survives s supply p a → e' a = e₀ a
  fits : ∀ u ∈ s.active, isRewritten (columnsOf s supply p) u = true → ∀ j ∈ T.joins,
    u ∈ s.tree.above j.aliasName → j.Fits db e'
  demands : ∀ u ∈ s.active, isRewritten (columnsOf s supply p) u = true → ∃ ks,
    Demands db s supply p e u ks ∧ ∀ k ∈ ks, k.Holds db e'

section

variable {T : JoinTree} {p : Plan} {db : Database} {s : Scope} {supply : AliasSupply}
  {e e₀ e' : Assignment} {u : String} {k : Condition} {ks : List Condition}

theorem Plain.member {op : Connective} {ks : List Condition} (h : Plain s supply (.group ⟨op, ks⟩)) :
    ∀ k ∈ ks, Plain s supply k := by
  obtain ⟨hflat, hnew⟩ := h
  rw [Condition.plans_group, Condition.plansOf_eq_nil_iff] at hflat
  exact fun k hk => ⟨hflat k hk, fun u hu hm => hnew u hu (Condition.mem_aliases_group.2 ⟨k, hk, hm⟩)⟩

theorem plain_of_mem (hfresh : Fresh s p supply) (hflat : ∀ k ∈ p.topConditions, k.plans = [])
    (hk : k ∈ p.topConditions) : Plain s supply k :=
  ⟨hflat k hk, fun u hu => hfresh.conditions u hu k hk⟩

theorem liftable_of_lifts (hflat : ∀ k ∈ p.topConditions, k.plans = [])
    (h : Lifts s .and (askedOf s p.topConditions) u k) : Liftable s u k :=
  ⟨mem_active_of_lifts h, plans_of_lifts h fun k hk => hflat k (List.mem_filter.1 hk).1,
    unit?_of_lifts h⟩

/-- Tables of the plan and those that its conditions mention are bound as before. -/
theorem eq_of_mem_bindAll (hI : s.Independent) (hfresh : Fresh s p supply)
    (he : e ∈ Table.bindAll db
      (laterals s p.topConditions (columnsOf s supply p) supply p.tables) [e₀]) :
    ∀ a, (∀ u ∈ s.active, subqueryName supply u ≠ a) → e a = e₀ a := by
  intro a ha
  refine (Table.of_mem_bindAll_laterals (fun x hx => ?_)
    (nodup_laterals hI hfresh.injective) he).1 a fun hm => ?_
  · obtain ⟨u, -, j, -, -, rfl⟩ := mem_laterals_iff.1 hx
    exact ⟨_, _, _, rfl⟩
  · obtain ⟨u, hu, rfl⟩ := mem_aliases_laterals hm
    exact ha u hu rfl

theorem ne_subqueryName (hT : p.tables = T.tables) (hfresh : Fresh s p supply) {a : String}
    (ha : a ∈ T.aliases) : ∀ u ∈ s.active, subqueryName supply u ≠ a := fun u hu h =>
  hfresh.tables u hu (by rw [hT, T.map_aliasName_tables, h]; exact ha)

/-- Columns that are the same stand for groups that hold together. -/
theorem holds_iff_of_columnOf_eq {name name' : String} {k' : Condition}
    (h : columnOf u name k = columnOf u name' k') (hk : ¬ k.isMissing u = true)
    (hk' : ¬ k'.isMissing u = true) : k.Holds db e ↔ k'.Holds db e := by
  have told : ∀ name k, ¬ k.isMissing u = true →
      ((columnOf u name k).Told db [e] ↔ k.Holds db e) := by
    intro name k hk
    rw [told_columnOf_iff, if_neg hk]
    simp
  rw [← told name k hk, h, told name' k' hk']

theorem exists_unit?_of_mem_guardsOf (hk : k ∈ guardsOf s p.topConditions u) :
    ∃ a ∈ k.aliases, s.unit? a = some u :=
  (Scope.units_eq_singleton_iff.1 (mem_guardsOf_iff.1 hk).2.2).1

/-- A single column without guards comes to one condition. -/
theorem condenses_of_single {select : Select}
    (hselect : selectsOf u (columnsOf s supply p) = [select])
    (hguards : guardsOf s p.topConditions u = []) : Condenses db s supply p u where
  guards := .inl hguards
  same k k' name name' _ _ hcolumn hcolumn' hm hm' e := by
    have hmem : ∀ {name k}, ⟨u, columnOf u name k⟩ ∈ columnsOf s supply p →
        columnOf u name k = select := by
      intro name k hcolumn
      rw [← List.mem_singleton, ← hselect]
      exact List.mem_map.2 ⟨_, List.mem_filter.2 ⟨hcolumn, by simp⟩, rfl⟩
    exact holds_iff_of_columnOf_eq ((hmem hcolumn).trans (hmem hcolumn').symm) hm hm'

/-- A guard reads tables below its collection and tables below none. -/
theorem unit?_of_mem_guardsOf (hk : k ∈ guardsOf s p.topConditions u) {a : String}
    (ha : a ∈ k.aliases) : s.unit? a = some u ∨ s.unit? a = none := by
  have huniq := (Scope.units_eq_singleton_iff.1 (mem_guardsOf_iff.1 hk).2.2).2 a ha
  cases h : s.unit? a with
  | none => exact .inr rfl
  | some v => exact .inl (by rw [huniq v h])

/-- The column of a group is there for the tables of the group. -/
theorem isRewritten_of_mem {columns : List Column} {name : String}
    (hcolumn : ⟨u, columnOf u name k⟩ ∈ columns) :
    columnOf u name k ∈ selectsOf u columns ∧ isRewritten columns u = true := by
  have hselect : columnOf u name k ∈ selectsOf u columns :=
    List.mem_map.2 ⟨_, List.mem_filter.2 ⟨hcolumn, decide_eq_true rfl⟩, rfl⟩
  refine ⟨hselect, ?_⟩
  rw [isRewritten, Bool.not_eq_true', List.isEmpty_eq_false_iff]
  exact List.ne_nil_of_mem hselect

/-- Besides what stands in the place of what was asked for, the rewritten plan has the guards of the
collections that are left. -/
theorem mem_topConditions_lateralPlan_iff : k ∈ (lateralPlan s supply p).topConditions ↔
    k ∈ (divided s supply p.topConditions).1 ∨
      ∃ u ∈ s.active, isRewritten (columnsOf s supply p) u = false ∧
        k ∈ guardsOf s p.topConditions u := by
  rw [topConditions_lateralPlan, List.mem_append, List.mem_flatMap]
  refine or_congr_right (exists_congr fun u => and_congr_right fun _ => ?_)
  show k ∈ (if isRewritten (columnsOf s supply p) u = true then [] else _) ↔ _
  cases isRewritten (columnsOf s supply p) u <;> simp

theorem exists_demands (db : Database) (s : Scope) (supply : AliasSupply) (p : Plan) (e : Assignment)
    (u : String) : ∃ ks, Demands db s supply p e u ks := by
  by_cases h : ∃ k, Chosen db s supply p e u k
  · obtain ⟨k, hk⟩ := h
    exact ⟨_, .row hk⟩
  · push Not at h
    exact ⟨[], .any h⟩

theorem Demands.flat (h : Demands db s supply p e u ks) (hflat : ∀ k ∈ p.topConditions, k.plans = []) :
    ∀ k ∈ ks, k.plans = [] := by
  cases h with
  | row hk =>
    exact List.forall_mem_append.2 ⟨fun g hg => hflat g (mem_guardsOf_iff.1 hg).1,
      List.forall_mem_singleton.2 hk.liftable.2.1⟩
  | any => exact List.forall_mem_nil _

/-- The demands read tables below their collection and tables below none. -/
theorem Demands.unit?_of_mem (h : Demands db s supply p e u ks) (hk : k ∈ ks) {a : String}
    (ha : a ∈ k.aliases) : s.unit? a = some u ∨ s.unit? a = none := by
  cases h with
  | row hc =>
    rcases List.mem_append.1 hk with hk | hk
    · exact unit?_of_mem_guardsOf hk ha
    · rw [List.mem_singleton.1 hk] at ha
      exact .inl (hc.liftable.2.2 a ha)
  | any => cases hk

/-- Where the column of a group that asks for a row is true, the guards and the group hold again. -/
theorem Restores.holds_of_chosen (h : Restores db T s supply p e e₀ e')
    (hone : Condenses db s supply p u) (hk : Chosen db s supply p e u k) :
    (∀ g ∈ guardsOf s p.topConditions u, g.Holds db e') ∧ k.Holds db e' := by
  obtain ⟨name, hcolumn, -⟩ := hk.told
  obtain ⟨ks, hks, hall⟩ := h.demands u hk.liftable.1 (isRewritten_of_mem hcolumn).2
  cases hks with
  | @row k' hk' =>
    rw [List.forall_mem_append, List.forall_mem_singleton] at hall
    obtain ⟨name', hcolumn', -⟩ := hk'.told
    exact ⟨hall.1, (hone.same k k' name name' hk.lifts hk'.lifts hcolumn hcolumn' hk.asks hk'.asks
      e').2 hall.2⟩
  | any hno => exact absurd hk (hno k)

/-- What reads tables that survive holds again. -/
theorem Restores.holds_of_plain (h : Restores db T s supply p e e₀ e') (hI : s.Independent)
    (hfresh : Fresh s p supply)
    (hbind : e ∈ Table.bindAll db
      (laterals s p.topConditions (columnsOf s supply p) supply p.tables) [e₀])
    (hk : Plain s supply k) (hsurv : ∀ a ∈ k.aliases, Survives s supply p a) (hholds : k.Holds db e) :
    k.Holds db e' := by
  have hsame := eq_of_mem_bindAll hI hfresh hbind
  refine (Condition.holds_congr hk.1 fun a ha => ?_).2 hholds
  rw [h.agree a (hsurv a ha), hsame a fun u hu hne => hk.2 u hu (hne ▸ ha)]

/-- The guards of a collection that stays a join read tables that survive. -/
theorem survives_of_mem_guardsOf (hF : s.tree.IsForest) (hI : s.Independent)
    (hr : isRewritten (columnsOf s supply p) u = false) (hk : k ∈ guardsOf s p.topConditions u) :
    ∀ a ∈ k.aliases, Survives s supply p a := by
  intro a ha v hv hrv hm
  have hva := (Scope.unit?_eq_some_iff hI hF).2 ⟨hv, hm⟩
  rcases unit?_of_mem_guardsOf hk ha with h | h
  · rw [hva, Option.some.injEq] at h
    rw [h, hr] at hrv
    cases hrv
  · rw [hva] at h
    cases h

end

/-! ### The rows of the rewritten plan -/

section

variable {T : JoinTree} {p : Plan} {joins : List Join} {db : Database} {s : Scope}
  {supply : AliasSupply} {e e₀ : Assignment} {u : String} {k : Condition}
  (hT : p.tables = T.tables) (hjoins : ∀ j ∈ joins, j ∈ T.joins)
  (hs : s.tree = Collections.ofPlan p joins)

include hT

theorem staged_outside : Table.Staged (outside s (columnsOf s supply p) s.active p.tables) := by
  rw [outside, hT]
  exact T.staged.sublist List.filter_sublist

include hjoins hs

theorem mem_outside_iff {x : Table} :
    x ∈ outside s (columnsOf s supply p) s.active p.tables ↔
      x ∈ T.tables ∧ Survives s supply p x.aliasName := by
  have hF : s.tree.IsForest := hs ▸ JoinTree.isForest hT hjoins
  rw [outside, hT, List.mem_filter, List.all_eq_true, Survives]
  refine and_congr_right fun _ => forall₂_congr fun u _ => ?_
  rw [Bool.or_eq_true, Bool.not_eq_true', decide_eq_true_iff, hF.mem_subtree_iff]
  cases isRewritten (columnsOf s supply p) u <;> simp

theorem mem_aliases_outside_iff {a : String} :
    a ∈ (outside s (columnsOf s supply p) s.active p.tables).map Table.aliasName ↔
      a ∈ T.aliases ∧ Survives s supply p a := by
  rw [← T.map_aliasName_tables, List.mem_map, List.mem_map]
  simp only [mem_outside_iff hT hjoins hs]
  constructor
  · rintro ⟨x, ⟨hx, hsurv⟩, rfl⟩
    exact ⟨⟨x, hx, rfl⟩, hsurv⟩
  · rintro ⟨⟨x, hx, rfl⟩, hsurv⟩
    exact ⟨x, ⟨hx, hsurv⟩, rfl⟩

/-- The lateral tables are the subqueries of the collections with columns. -/
theorem exists_of_mem_laterals {x : Table}
    (hx : x ∈ laterals s p.topConditions (columnsOf s supply p) supply p.tables) :
    ∃ j ∈ joins, j.aliasName ∈ s.active ∧ isRewritten (columnsOf s supply p) j.aliasName = true ∧
      x = .lateral (subqueryName supply j.aliasName) j.parent.aliasName
        (subqueryOf s p.topConditions (columnsOf s supply p) j.aliasName j p.tables) := by
  obtain ⟨u, hu, j, hj, hr, rfl⟩ := mem_laterals_iff.1 hx
  rw [hs, JoinTree.join?_iff hT hjoins] at hj
  obtain ⟨hj, rfl⟩ := hj
  exact ⟨j, hj, hu, hr, rfl⟩

/-- The tables that a table is joined to survive with it. -/
theorem survives_parent {j : Join} (hj : j ∈ T.joins) (h : Survives s supply p j.aliasName) :
    Survives s supply p j.parent.aliasName := by
  intro u hu hr hm
  rw [hs] at hm
  refine h u hu hr ?_
  rw [hs]
  exact (JoinTree.isForest hT hjoins).mem_above_of_parent (JoinTree.parent?_of_mem hT hj) hm

/-- The table that a chosen collection is joined to survives. -/
theorem survives_parent_of_active {j : Join} (hI : s.Independent) (hj : j ∈ T.joins)
    (hu : j.aliasName ∈ s.active) : Survives s supply p j.parent.aliasName := by
  intro v hv _ hm
  rw [hs] at hm
  have hva : v ∈ s.tree.above j.aliasName := by
    rw [hs]
    exact (JoinTree.isForest hT hjoins).mem_above_of_parent (JoinTree.parent?_of_mem hT hj) hm
  rw [hI.apart v hv _ hu hva] at hm
  exact JoinTree.parent_not_mem_above hT hjoins hj hm

/-- What survives is bound to rows that fit whatever else is bound. -/
theorem fits_of_agree {e' : Assignment} (heq : ∀ a, Survives s supply p a → e' a = e a)
    {x : Table} (hx : x ∈ T.tables) (hsurv : Survives s supply p x.aliasName)
    (hfits : x.Fits db e) : x.Fits db e' := by
  refine (Table.fits_congr (T.staged.flat x hx) (heq _ hsurv) fun a ha => ?_).2 hfits
  rcases JoinTree.mem_tables_iff.1 hx with rfl | ⟨j, hj, rfl⟩
  · cases ha
  · rw [← Option.some.inj ha]
    exact heq _ (survives_parent hT hjoins hs hj hsurv)

/-- The rewritten plan selects rows of the tables that survive, to which the lateral tables are
added, where the conditions with references hold. -/
theorem mem_rows_lateralPlan_iff : e ∈ (lateralPlan s supply p).rows db .empty ↔
    ∃ e₀ : Assignment, (∀ a, ¬ (a ∈ T.aliases ∧ Survives s supply p a) → e₀ a = none) ∧
      (∀ x ∈ T.tables, Survives s supply p x.aliasName → x.Fits db e₀) ∧
      e ∈ Table.bindAll db (laterals s p.topConditions (columnsOf s supply p) supply p.tables) [e₀] ∧
      (∀ k ∈ (divided s supply p.topConditions).1, k.Holds db e) ∧
      ∀ u ∈ s.active, isRewritten (columnsOf s supply p) u = false →
        ∀ k ∈ guardsOf s p.topConditions u, k.Holds db e := by
  have hconditions : (∀ k ∈ (lateralPlan s supply p).topConditions, k.Holds db e) ↔
      (∀ k ∈ (divided s supply p.topConditions).1, k.Holds db e) ∧
        ∀ u ∈ s.active, isRewritten (columnsOf s supply p) u = false →
          ∀ k ∈ guardsOf s p.topConditions u, k.Holds db e := by
    constructor
    · intro h
      exact ⟨fun k hk => h k (mem_topConditions_lateralPlan_iff.2 (.inl hk)), fun u hu hr k hk =>
        h k (mem_topConditions_lateralPlan_iff.2 (.inr ⟨u, hu, hr, hk⟩))⟩
    · rintro ⟨hdivided, hguards⟩ k hk
      rcases mem_topConditions_lateralPlan_iff.1 hk with hk | ⟨u, hu, hr, hk⟩
      · exact hdivided k hk
      · exact hguards u hu hr k hk
  rw [Plan.mem_rows_iff, hconditions]
  have htables : (lateralPlan s supply p).tables =
      outside s (columnsOf s supply p) s.active p.tables ++
        laterals s p.topConditions (columnsOf s supply p) supply p.tables := rfl
  rw [htables, Table.bindAll_append, Table.mem_bindAll_iff_exists]
  simp only [Table.mem_bindAll_iff (staged_outside hT), List.mem_singleton,
    exists_eq_left, mem_aliases_outside_iff hT hjoins hs, mem_outside_iff hT hjoins hs, and_imp]
  constructor
  · rintro ⟨⟨e₀, ⟨hout, hfits⟩, he⟩, hconds⟩
    exact ⟨e₀, hout, hfits, he, hconds⟩
  · rintro ⟨e₀, hout, hfits, he, hconds⟩
    exact ⟨⟨e₀, ⟨hout, hfits⟩, he⟩, hconds⟩

/-! ### The meaning of references -/

/-- The reference to a group's column, in the terms of the rewritten plan. -/
theorem holds_reference_lateralPlan_iff (hI : s.Independent) (hfresh : Fresh s p supply)
    (hflat : ∀ k ∈ p.topConditions, k.plans = []) (hcorr : ∀ j ∈ joins, db.Correlates j)
    (hreads : db.ReadsColumns)
    (houter : ∀ j ∈ T.joins, (Collections.ofPlan p joins).above j.aliasName ≠ [] → j.kind = .outer)
    {j : Join} {name : String} (hj : j ∈ joins) (hk : Liftable s j.aliasName k)
    (hcolumn : ⟨j.aliasName, columnOf j.aliasName name k⟩ ∈ columnsOf s supply p)
    (he : e ∈ Table.bindAll db
      (laterals s p.topConditions (columnsOf s supply p) supply p.tables) [e₀]) :
    (reference (aliasOf s supply) j.aliasName name).Holds db e ↔
      if k.isMissing j.aliasName = true then ∀ row, ¬ j.Partner db e₀ row
      else ∃ e', Completes db T (Collections.ofPlan p joins) j.aliasName
        (guardsOf s p.topConditions j.aliasName ++ [k]) e₀ e' ∧ e' j.aliasName ≠ none := by
  have htables : ∀ u ∈ s.active, subqueryName supply u ∉ T.aliases := fun u hu hm =>
    ne_subqueryName hT hfresh hm u hu rfl
  refine holds_reference_iff hT hjoins hs hI hcorr hreads houter numbered_divided hfresh.injective
    htables (List.forall_mem_append.2 ⟨fun k' hk' => ?_, List.forall_mem_singleton.2 hk.2.1⟩)
    (List.forall_mem_append.2 ⟨fun k' hk' u hu => ?_, List.forall_mem_singleton.2 fun u hu hm => ?_⟩)
    hj hk.1 hcolumn _ (aliasOf_of_mem hk.1) he
  · exact hflat k' (mem_guardsOf_iff.1 hk').1
  · exact hfresh.conditions u hu k' (mem_guardsOf_iff.1 hk').1
  · -- a table below a collection is a table of the plan
    have habove := (Scope.of_unit? (hk.2.2 _ hm)).2
    rw [hs] at habove
    obtain ⟨j', hj', he'⟩ := JoinTree.exists_join_of_mem_above hT hjoins habove
    exact htables u hu (he' ▸ JoinTree.aliasName_mem hj')

/-! ### Nothing is lost -/

/-- A reference is true where the group that it stands for and the guards are. -/
theorem holds_reference_of_holds (hI : s.Independent) (hfresh : Fresh s p supply)
    (hflat : ∀ k ∈ p.topConditions, k.plans = []) (hcorr : ∀ j ∈ joins, db.Correlates j)
    (hids : db.HasIds) (hreads : db.ReadsColumns)
    (houter : ∀ j ∈ T.joins, (Collections.ofPlan p joins).above j.aliasName ≠ [] → j.kind = .outer)
    {e' : Assignment} (hfits : ∀ x ∈ T.tables, x.Fits db e)
    (hholds : ∀ k ∈ p.topConditions, k.Holds db e)
    (hagree : ∀ a, Survives s supply p a → e₀ a = e a) (hk : Liftable s u k)
    (hrejects : k.isMissing u = true ∨
      ∀ e : Assignment, (∀ a ∈ s.tree.subtree u, e a = none) → ¬ k.Holds db e)
    {name : String} (hcolumn : ⟨u, columnOf u name k⟩ ∈ columnsOf s supply p)
    (he' : e' ∈ Table.bindAll db
      (laterals s p.topConditions (columnsOf s supply p) supply p.tables) [e₀])
    (h : k.Holds db e) : (reference (aliasOf s supply) u name).Holds db e' := by
  have hF := JoinTree.isForest hT hjoins
  have hcol := hI.collection u hk.1
  rw [hs] at hcol
  obtain ⟨j, hj, rfl⟩ := (JoinTree.isCollection_iff hT hjoins).1 hcol
  have hjT := hjoins j hj
  have hself := hF.mem_above_self hcol
  have hparent := hagree _ (survives_parent_of_active hT hjoins hs hI hjT hk.1)
  have hjoinFits : ∀ j' ∈ T.joins, j'.Fits db e := fun j' hj' =>
    hfits (.join j') (JoinTree.mem_tables_iff.2 (.inr ⟨j', hj', rfl⟩))
  rw [holds_reference_lateralPlan_iff hT hjoins hs hI hfresh hflat hcorr hreads houter hj hk hcolumn
    he']
  split_ifs with hm
  · have hid := (Condition.holds_isMissing_iff hm).1 h
    intro row hp
    rcases hjoinFits j hjT with ⟨row', hp', hrow⟩ | ⟨-, hno, -⟩
    · rw [Assignment.value_of_some hrow] at hid
      exact hids j.table row' hp'.1 hid
    · exact hno row ((Join.partner_congr hparent).1 hp)
  -- the group needs a row of the collection, and the subquery finds the one that is bound
  · have hne : e j.aliasName ≠ none := fun hnone => by
      refine (hrejects.resolve_left hm) e (fun a ha => ?_) h
      rw [hs, hF.mem_subtree_iff] at ha
      exact JoinTree.eq_none_of_mem_above hT hjoins (fun j' hj' _ => hjoinFits j' hj') hnone a ha
    have hconds : ∀ k' ∈ guardsOf s p.topConditions j.aliasName ++ [k],
        k'.plans = [] ∧ k'.Holds db e ∧ ∀ a ∈ k'.aliases,
          j.aliasName ∈ (Collections.ofPlan p joins).above a ∨ e₀ a = e a := by
      intro k' hk'
      rcases List.mem_append.1 hk' with hg | hg
      · obtain ⟨htop, -, -⟩ := mem_guardsOf_iff.1 hg
        refine ⟨hflat k' htop, hholds k' htop, fun a ha => ?_⟩
        rcases unit?_of_mem_guardsOf hg ha with hu | hn
        · exact .inl (hs ▸ (Scope.of_unit? hu).2)
        · exact .inr (hagree a fun v hv _ => Scope.unit?_eq_none_iff.1 hn v hv)
      · rw [List.mem_singleton.1 hg]
        exact ⟨hk.2.1, h, fun a ha => .inl (hs ▸ (Scope.of_unit? (hk.2.2 a ha)).2)⟩
    obtain ⟨e'', he'', heq⟩ := JoinTree.completes_of_agree hT hjoins hjT
      (fun j' hj' _ => hjoinFits j' hj') hparent (fun k' hk' => (hconds k' hk').1)
      (fun k' hk' => (hconds k' hk').2.2) (fun k' hk' => (hconds k' hk').2.1)
    exact ⟨e'', he'', by rw [heq _ hself]; exact hne⟩

/-- What the plan selects is selected by the rewritten plan. -/
theorem exists_mem_rows_lateralPlan (hdiv : Divisible s p.topConditions)
    (hfresh : Fresh s p supply) (hflat : ∀ k ∈ p.topConditions, k.plans = [])
    (hcorr : ∀ j ∈ joins, db.Correlates j) (hids : db.HasIds) (hreads : db.ReadsColumns)
    (houter : ∀ j ∈ T.joins, (Collections.ofPlan p joins).above j.aliasName ≠ [] → j.kind = .outer)
    (hrejects : Rejects db s p.topConditions) (he : e ∈ p.rows db .empty) :
    ∃ e' ∈ (lateralPlan s supply p).rows db .empty,
      ∀ a ∈ T.aliases, Survives s supply p a → e' a = e a := by
  classical
  have hI := hdiv.independent
  rw [Plan.mem_rows_iff_fits (by rw [hT]; exact T.staged), hT, T.map_aliasName_tables] at he
  obtain ⟨hout, hfits, hholds⟩ := he
  -- the tables that are left are bound as before, and the lateral tables bind themselves
  let e₀ : Assignment := fun a => if a ∈ T.aliases ∧ Survives s supply p a then e a else none
  have hagree : ∀ a, Survives s supply p a → e₀ a = e a := by
    intro a ha
    by_cases haT : a ∈ T.aliases
    · exact if_pos ⟨haT, ha⟩
    · rw [hout a haT]
      exact if_neg fun h => haT h.1
  obtain ⟨e', he'⟩ : ∃ e', e' ∈ Table.bindAll db
      (laterals s p.topConditions (columnsOf s supply p) supply p.tables) [e₀] := by
    refine Table.bindAll_laterals_ne_nil fun x hx => ?_
    obtain ⟨u, -, j, -, -, rfl⟩ := mem_laterals_iff.1 hx
    exact ⟨_, _, _, rfl⟩
  have hsame := eq_of_mem_bindAll hI hfresh he'
  have hplain : ∀ k, Plain s supply k → (∀ a ∈ k.aliases, Survives s supply p a) →
      k.Holds db e → k.Holds db e' := by
    intro k hk hsurv h
    refine (Condition.holds_congr hk.1 fun a ha => ?_).2 h
    rw [hsame a fun u hu hne => hk.2 u hu (hne ▸ ha), hagree a (hsurv a ha)]
  have hfollows : Follows s (aliasOf s supply) (columnsOf s supply p) (Plain s supply)
      (fun u k => Liftable s u k ∧ (k.isMissing u = true ∨
        ∀ e : Assignment, (∀ a ∈ s.tree.subtree u, e a = none) → ¬ k.Holds db e))
      (fun k k' => k.Holds db e → k'.Holds db e') := by
    refine ⟨Plain.member, Condition.holds_group_mono, fun h hk => h (holds_regroup_iff.2 hk),
      fun {k} hk hunits => hplain k hk fun a ha u hu _ => ?_, fun hP hcolumn => ?_⟩
    · exact Scope.unit?_eq_none_iff.1 (Scope.units_eq_nil_iff.1 hunits a ha) u hu
    · exact holds_reference_of_holds hT hjoins hs hI hfresh hflat hcorr hids hreads houter hfits
        hholds hagree hP.1 hP.2 hcolumn he'
  have hasked : (Condition.group ⟨.and, askedOf s p.topConditions⟩).Holds db e :=
    Condition.holds_all_iff.2 fun k hk => hholds k (List.mem_filter.1 hk).1
  have hconds := follows_group hfollows
    (fun u k hl => ⟨liftable_of_lifts hflat hl, hrejects u k hl⟩)
    (fun k hk => plain_of_mem hfresh hflat (List.mem_filter.1 hk).1) (pinnedByAll_askedOf hdiv)
    (List.Subset.refl _) hasked
  refine ⟨e', (mem_rows_lateralPlan_iff hT hjoins hs).2 ⟨e₀, fun a ha => if_neg ha,
    fun x hx hsurv => fits_of_agree hT hjoins hs hagree hx hsurv (hfits x hx), he',
    Condition.holds_all_iff.1 hconds, fun u hu hr k hk => ?_⟩, fun a haT ha => ?_⟩
  · have hktop := (mem_guardsOf_iff.1 hk).1
    exact hplain k (plain_of_mem hfresh hflat hktop)
      (survives_of_mem_guardsOf (hs ▸ JoinTree.isForest hT hjoins) hI hr hk) (hholds k hktop)
  · rw [hsame a (ne_subqueryName hT hfresh haT), hagree a ha]

/-! ### Nothing is added -/

section

variable {e' : Assignment} {ks : List Condition} (hdiv : Divisible s p.topConditions)
  (hfresh : Fresh s p supply) (hflat : ∀ k ∈ p.topConditions, k.plans = [])
  (hcorr : ∀ j ∈ joins, db.Correlates j) (hreads : db.ReadsColumns)
  (houter : ∀ j ∈ T.joins, (Collections.ofPlan p joins).above j.aliasName ≠ [] → j.kind = .outer)
  (hbind : e ∈ Table.bindAll db
    (laterals s p.topConditions (columnsOf s supply p) supply p.tables) [e₀])

include hdiv hfresh hflat hcorr hreads houter hbind

/-- The tables of a collection have rows that meet the demands. -/
theorem Demands.exists_completes (h : Demands db s supply p e u ks) (hu : u ∈ s.active) :
    ∃ e', Completes db T (Collections.ofPlan p joins) u ks e₀ e' := by
  have hcol := hdiv.independent.collection u hu
  rw [hs] at hcol
  obtain ⟨j, hj, rfl⟩ := (JoinTree.isCollection_iff hT hjoins).1 hcol
  cases h with
  | row hk =>
    obtain ⟨name, hcolumn, href⟩ := hk.told
    rw [holds_reference_lateralPlan_iff hT hjoins hs hdiv.independent hfresh hflat hcorr hreads houter
      hj hk.liftable hcolumn hbind, if_neg hk.asks] at href
    exact href.imp fun _ => And.left
  | any =>
    exact JoinTree.exists_completes_nil
      (fun j' hj' hm => houter j' hj' (List.ne_nil_of_mem hm)) e₀

/-- The rows for the collections are glued together: no table is below two of them. -/
theorem exists_restores : ∃ e', Restores db T s supply p e e₀ e' := by
  have hF := JoinTree.isForest hT hjoins
  have hI := hdiv.independent
  have hmem : ∀ u, u ∈ s.active.filter (isRewritten (columnsOf s supply p)) ↔
      u ∈ s.active ∧ isRewritten (columnsOf s supply p) u = true := fun _ => List.mem_filter
  choose sent hsent using exists_demands db s supply p e
  have hread : ∀ u ∈ s.active.filter (isRewritten (columnsOf s supply p)), ∀ k ∈ sent u,
      ∀ a ∈ k.aliases, ∀ v ∈ s.active.filter (isRewritten (columnsOf s supply p)),
        v ∈ (Collections.ofPlan p joins).above a → v = u := fun u _ k hk a ha v hv hav => by
    have hva := (Scope.unit?_eq_some_iff hI (hs ▸ hF)).2 ⟨((hmem v).1 hv).1, hs ▸ hav⟩
    rcases (hsent u).unit?_of_mem hk ha with h | h
    · exact Option.some.inj (hva.symm.trans h)
    · rw [hva] at h
      cases h
  obtain ⟨e', hout, hin⟩ := JoinTree.exists_glued hT hjoins
    (fun a u hu v hv hau hav => hI.unique (hs ▸ hF) ((hmem u).1 hu).1 ((hmem v).1 hv).1
      (hs ▸ hau) (hs ▸ hav))
    (fun u _ => (hsent u).flat hflat) hread fun u hu => (hsent u).exists_completes hT hjoins hs hdiv
      hfresh hflat hcorr hreads houter hbind ((hmem u).1 hu).1
  refine ⟨e', fun a ha => hout a fun u hu hm => ?_, fun u hu hr j hj hm => ?_, fun u hu hr => ?_⟩
  · exact ha u ((hmem u).1 hu).1 ((hmem u).1 hu).2 (hs ▸ hm)
  · exact (hin u ((hmem u).2 ⟨hu, hr⟩)).1 j hj (hs ▸ hm)
  · exact ⟨sent u, hsent u, (hin u ((hmem u).2 ⟨hu, hr⟩)).2⟩

variable (h : Restores db T s supply p e e₀ e')
  (hone : ∀ u ∈ s.active, isRewritten (columnsOf s supply p) u = true → Condenses db s supply p u)

include h

/-- Where the count of rows is asked to be zero, the collection has no row. -/
theorem Restores.eq_none (hk : Liftable s u k) (hm : k.isMissing u = true) {name : String}
    (hcolumn : ⟨u, columnOf u name k⟩ ∈ columnsOf s supply p)
    (href : (reference (aliasOf s supply) u name).Holds db e) : e' u = none := by
  have hcol := hdiv.independent.collection u hk.1
  rw [hs] at hcol
  obtain ⟨j, hj, rfl⟩ := (JoinTree.isCollection_iff hT hjoins).1 hcol
  have hself := (JoinTree.isForest hT hjoins).mem_above_self hcol
  rw [holds_reference_lateralPlan_iff hT hjoins hs hdiv.independent hfresh hflat hcorr hreads houter hj
    hk hcolumn hbind, if_pos hm] at href
  have hparent := h.agree _
    (survives_parent_of_active hT hjoins hs hdiv.independent (hjoins j hj) hk.1)
  rcases h.fits _ hk.1 (isRewritten_of_mem hcolumn).2 j (hjoins j hj) (hs ▸ hself) with
    ⟨row, hp, -⟩ | ⟨-, -, hn⟩
  · exact absurd ((Join.partner_congr hparent).1 hp) (href row)
  · exact hn

include hone

/-- Where a column is true, its group holds again. -/
theorem Restores.holds_of_reference (hk : Liftable s u k)
    (hl : Lifts s .and (askedOf s p.topConditions) u k) {name : String}
    (hcolumn : ⟨u, columnOf u name k⟩ ∈ columnsOf s supply p)
    (href : (reference (aliasOf s supply) u name).Holds db e) : k.Holds db e' := by
  by_cases hm : k.isMissing u = true
  · rw [Condition.holds_isMissing_iff hm]
    exact Assignment.value_of_none (h.eq_none hT hjoins hs hdiv hfresh hflat hcorr hreads houter hbind
      hk hm hcolumn href)
  · exact (h.holds_of_chosen (hone u hk.1 (isRewritten_of_mem hcolumn).2)
      ⟨hk, hl, hm, name, hcolumn, href⟩).2

variable (hconds : ∀ k ∈ (divided s supply p.topConditions).1, k.Holds db e)

include hconds

/-- What was asked for holds again. -/
theorem Restores.holds_of_mem_askedOf : ∀ k ∈ askedOf s p.topConditions, k.Holds db e' := by
  have hfollows : Follows s (aliasOf s supply) (columnsOf s supply p) (Plain s supply)
      (fun u k => Liftable s u k ∧ Lifts s .and (askedOf s p.topConditions) u k)
      (fun k k' => k'.Holds db e → k.Holds db e') := by
    refine ⟨Plain.member, fun h => Condition.holds_group_mono h.flip,
      fun h hk => holds_regroup_iff.1 (h hk), fun {k} hk hunits => h.holds_of_plain hdiv.independent
        hfresh hbind hk fun a ha u hu _ => ?_, fun hk hcolumn => h.holds_of_reference hT hjoins hs hdiv
          hfresh hflat hcorr hreads houter hbind hone hk.1 hk.2 hcolumn⟩
    exact Scope.unit?_eq_none_iff.1 (Scope.units_eq_nil_iff.1 hunits a ha) u hu
  exact Condition.holds_all_iff.1 (follows_group hfollows
    (fun u k hl => ⟨liftable_of_lifts hflat hl, hl⟩)
    (fun k hk => plain_of_mem hfresh hflat (List.mem_filter.1 hk).1) (pinnedByAll_askedOf hdiv)
    (List.Subset.refl _) (Condition.holds_all_iff.2 hconds))

/-- So do the guards: those of a collection with a column hold on its row, or they are checks for null
and there is no row. -/
theorem Restores.holds_of_mem_guardsOf (hu : u ∈ s.active)
    (hr : isRewritten (columnsOf s supply p) u = true) :
    ∀ g ∈ guardsOf s p.topConditions u, g.Holds db e' := by
  intro g hg
  rcases (hone u hu hr).guards with hnil | ⟨hasks, hchecks⟩
  · rw [hnil] at hg
    cases hg
  obtain ⟨name, href, hcolumn⟩ := exists_reference_mem_decompose (aliasOf s supply) .and []
    (askedOf s p.topConditions) (List.Subset.refl _) hasks List.not_mem_nil
  have hl : Lifts s .and (askedOf s p.topConditions) u
      (asOne .and ((askedOf s p.topConditions).filter fun m => s.only? m = some u)) := .here hasks
  have hk := liftable_of_lifts hflat hl
  by_cases hm : (asOne .and ((askedOf s p.topConditions).filter
      fun m => s.only? m = some u)).isMissing u = true
  · have hnone := h.eq_none hT hjoins hs hdiv hfresh hflat hcorr hreads houter hbind hk hm hcolumn
      (hconds _ href)
    obtain ⟨a, ha, hua⟩ := exists_unit?_of_mem_guardsOf hg
    have habove := (Scope.of_unit? hua).2
    rw [hs] at habove
    exact Existence.holds_of_isNullCheck (hchecks hm g hg) ⟨a, ha, JoinTree.eq_none_of_mem_above hT
      hjoins (fun j hj hm => h.fits u hu hr j hj (hs ▸ hm)) hnone a habove⟩
  · exact (h.holds_of_chosen (hone u hu hr) ⟨hk, hl, hm, name, hcolumn, hconds _ href⟩).1 g hg

end

/-- What the rewritten plan selects is a part of what the plan selects, where the columns of each
collection that became a subquery come to one condition on one row. -/
theorem exists_mem_rows_of_lateralPlan (hdiv : Divisible s p.topConditions)
    (hfresh : Fresh s p supply) (hflat : ∀ k ∈ p.topConditions, k.plans = [])
    (hcorr : ∀ j ∈ joins, db.Correlates j) (hreads : db.ReadsColumns)
    (houter : ∀ j ∈ T.joins, (Collections.ofPlan p joins).above j.aliasName ≠ [] → j.kind = .outer)
    (hone : ∀ u ∈ s.active, isRewritten (columnsOf s supply p) u = true → Condenses db s supply p u)
    (he : e ∈ (lateralPlan s supply p).rows db .empty) :
    ∃ e' ∈ p.rows db .empty, ∀ a ∈ T.aliases, Survives s supply p a → e' a = e a := by
  have hF := JoinTree.isForest hT hjoins
  have hI := hdiv.independent
  obtain ⟨e₀, hout, hfits, hbind, hconds, hleft⟩ := (mem_rows_lateralPlan_iff hT hjoins hs).1 he
  obtain ⟨e', h⟩ := exists_restores hT hjoins hs hdiv hfresh hflat hcorr hreads houter hbind
  refine ⟨e', ?_, fun a haT ha => by
    rw [h.agree a ha, eq_of_mem_bindAll hI hfresh hbind a (ne_subqueryName hT hfresh haT)]⟩
  rw [Plan.mem_rows_iff_fits (by rw [hT]; exact T.staged), hT, T.map_aliasName_tables]
  refine ⟨fun a ha => ?_, fun x hx => ?_, fun k hk => ?_⟩
  · -- only tables of joins are below a collection
    rw [h.agree a fun u _ _ hm => ha ?_]
    · exact hout a fun h => ha h.1
    · obtain ⟨j, hj, rfl⟩ := JoinTree.exists_join_of_mem_above hT hjoins (hs ▸ hm)
      exact JoinTree.aliasName_mem hj
  · by_cases hsurv : Survives s supply p x.aliasName
    · exact fits_of_agree hT hjoins hs h.agree hx hsurv (hfits x hx hsurv)
    · unfold Survives at hsurv
      push Not at hsurv
      obtain ⟨u, hu, hr, hm⟩ := hsurv
      rcases JoinTree.mem_tables_iff.1 hx with rfl | ⟨j, hj, rfl⟩
      · exact absurd (hs ▸ hm) (JoinTree.not_mem_above_primary hT hjoins)
      · exact h.fits u hu hr j hj hm
  · rcases mem_askedOf_or_guard (s := s) hk with hk | ⟨u, hu, hg⟩
    · exact h.holds_of_mem_askedOf hT hjoins hs hdiv hfresh hflat hcorr hreads houter hbind hone hconds
        k hk
    · cases hr : isRewritten (columnsOf s supply p) u with
      | true =>
        exact h.holds_of_mem_guardsOf hT hjoins hs hdiv hfresh hflat hcorr hreads houter hbind hone
          hconds hu hr k hg
      | false =>
        exact h.holds_of_plain hI hfresh hbind (plain_of_mem hfresh hflat hk)
          (survives_of_mem_guardsOf (hs ▸ hF) hI hr hg) (hleft u hu hr k hg)

end

end Lateral

/-! ### What the rewrite returns -/

open Lateral

namespace Plan

/-- The tables of a plan that another plan has as well. -/
def survivors (p q : Plan) : List String := (p.tables.map Table.aliasName).filter (q.hasAlias ·)

variable {T : JoinTree} {p : Plan} {joins : List Join} {db : Database} {force : Bool}
  {threshold : Nat} {supply supply' : AliasSupply} {r : Resolved}

theorem mem_survivors_lateralPlan_iff {s : Scope} (hT : p.tables = T.tables)
    (hjoins : ∀ j ∈ joins, j ∈ T.joins) (hs : s.tree = Collections.ofPlan p joins)
    (hfresh : Fresh s p supply) {a : String} :
    a ∈ p.survivors (lateralPlan s supply p) ↔ a ∈ T.aliases ∧ Survives s supply p a := by
  have htables : (lateralPlan s supply p).tables =
      outside s (columnsOf s supply p) s.active p.tables ++
        laterals s p.topConditions (columnsOf s supply p) supply p.tables := rfl
  have halias : (lateralPlan s supply p).hasAlias a = true ↔
      a ∈ (lateralPlan s supply p).tables.map Table.aliasName := by
    rw [hasAlias, List.any_eq_true, List.mem_map]
    simp only [decide_eq_true_iff]
  rw [survivors, List.mem_filter, halias, htables, List.map_append, List.mem_append,
    mem_aliases_outside_iff hT hjoins hs, hT, T.map_aliasName_tables]
  refine and_congr_right fun haT => ?_
  have hnot : a ∉ (laterals s p.topConditions (columnsOf s supply p) supply T.tables).map
      Table.aliasName := fun hm => by
    obtain ⟨u, hu, rfl⟩ := mem_aliases_laterals hm
    exact ne_subqueryName hT hfresh haT u hu rfl
  simp only [haT, hnot, true_and, or_false]

/-- A collection that became a subquery has the columns of that subquery. -/
theorem exists_lateral_of_rewritten {s : Scope} (hI : s.Independent) {u : String}
    (hu : u ∈ s.active) (hr : isRewritten (columnsOf s supply p) u = true) :
    ∃ j, Table.lateral (subqueryName supply u) j.parent.aliasName
        (subqueryOf s p.topConditions (columnsOf s supply p) u j p.tables) ∈
      (lateralPlan s supply p).tables := by
  obtain ⟨j, hj⟩ := Option.isSome_iff_exists.1 (hI.collection u hu)
  exact ⟨j, List.mem_append_right _ (mem_laterals_iff.2 ⟨u, hu, j, hj, hr, rfl⟩)⟩

/-- A collection that became a subquery is no table of the plan any more. -/
theorem hasAlias_of_rewritten {s : Scope} (hT : p.tables = T.tables)
    (hjoins : ∀ j ∈ joins, j ∈ T.joins) (hs : s.tree = Collections.ofPlan p joins)
    (hI : s.Independent) (hfresh : Fresh s p supply) {u : String} (hu : u ∈ s.active)
    (hr : isRewritten (columnsOf s supply p) u = true) :
    (lateralPlan s supply p).hasAlias u = false := by
  have hcol := hI.collection u hu
  rw [hs] at hcol
  obtain ⟨j, hj, rfl⟩ := (JoinTree.isCollection_iff hT hjoins).1 hcol
  have hT' := JoinTree.aliasName_mem (hjoins j hj)
  have hself := (JoinTree.isForest hT hjoins).mem_above_self hcol
  rw [Bool.eq_false_iff]
  intro h
  have hmem : j.aliasName ∈ p.survivors (lateralPlan s supply p) :=
    List.mem_filter.2 ⟨by rw [hT, T.map_aliasName_tables]; exact hT', h⟩
  exact ((mem_survivors_lateralPlan_iff hT hjoins hs hfresh).1 hmem).2 _ hu hr (hs ▸ hself)

/-- Lateral aggregates instead of joins: the rewritten plan selects all combinations of rows of the
tables that survive which the plan selects.  Where each collection that became a subquery has one
column and no guards, it selects no other ones. -/
theorem combinations_toLateral (hT : p.tables = T.tables) (hjoins : ∀ j ∈ joins, j ∈ T.joins)
    (houter : ∀ j ∈ T.joins, (Collections.ofPlan p joins).above j.aliasName ≠ [] → j.kind = .outer)
    (hcorr : ∀ j ∈ joins, db.Correlates j) (hids : db.HasIds) (hreads : db.ReadsColumns)
    (hflat : ∀ k ∈ p.topConditions, k.plans = [])
    (hfresh : Fresh (p.lateralScope force threshold joins) p supply)
    (hrejects : Rejects db (p.lateralScope force threshold joins) p.topConditions)
    (h : p.toLateral force threshold joins supply = .ok (r, supply')) :
    p.combinations db (p.survivors r.plan) ⊆ r.plan.combinations db (p.survivors r.plan) ∧
    ((∀ a from' query, Table.lateral a from' query ∈ r.plan.tables → query.selects.length = 1) →
      (∀ u ∈ (p.lateralScope force threshold joins).active, r.plan.hasAlias u = false →
        guardsOf (p.lateralScope force threshold joins) p.topConditions u = []) →
      p.combinations db (p.survivors r.plan) = r.plan.combinations db (p.survivors r.plan)) := by
  obtain ⟨hs, hdiv⟩ : (p.lateralScope force threshold joins).tree = Collections.ofPlan p joins ∧
      Divisible (p.lateralScope force threshold joins) p.topConditions :=
    divisible_lateralScope hT hjoins
  rcases toLateral_cases hT hjoins hfresh h with hr | hr
  · rw [hr]
    exact ⟨Set.Subset.rfl, fun _ _ => rfl⟩
  · have hnames := fun a => mem_survivors_lateralPlan_iff (a := a) hT hjoins hs hfresh
    have hsub : p.combinations db (p.survivors r.plan) ⊆
        r.plan.combinations db (p.survivors r.plan) := by
      rw [hr]
      rintro f ⟨e, he, rfl⟩
      obtain ⟨e', he', heq⟩ := exists_mem_rows_lateralPlan hT hjoins hs hdiv hfresh hflat hcorr hids
        hreads houter hrejects he
      refine ⟨e', he', Assignment.restrict_congr fun a ha => ?_⟩
      exact heq a ((hnames a).1 ha).1 ((hnames a).1 ha).2
    refine ⟨hsub, fun hsingle hguards => Set.Subset.antisymm hsub ?_⟩
    rw [hr] at hsingle hguards ⊢
    have hone : ∀ u ∈ (p.lateralScope force threshold joins).active,
        isRewritten (columnsOf (p.lateralScope force threshold joins) supply p) u = true →
          (∃ select, selectsOf u (columnsOf (p.lateralScope force threshold joins) supply p) =
            [select]) ∧ guardsOf (p.lateralScope force threshold joins) p.topConditions u = [] := by
      intro u hu hr
      obtain ⟨j, hmem⟩ := exists_lateral_of_rewritten hdiv.independent hu hr
      have hguard := hguards u hu
        (hasAlias_of_rewritten hT hjoins hs hdiv.independent hfresh hu hr)
      have hlength := hsingle _ _ _ hmem
      rw [subqueryOf, hguard] at hlength
      exact ⟨List.length_eq_one_iff.1 hlength, hguard⟩
    rintro f ⟨e, he, rfl⟩
    obtain ⟨e', he', heq⟩ := exists_mem_rows_of_lateralPlan hT hjoins hs hdiv hfresh hflat hcorr
      hreads houter (fun u hu hr => condenses_of_single (hone u hu hr).1.choose_spec (hone u hu hr).2) he
    refine ⟨e', he', Assignment.restrict_congr fun a ha => ?_⟩
    exact heq a ((hnames a).1 ha).1 ((hnames a).1 ha).2

end Plan

/-! ### The authors of a book -/

namespace Bookshelf

theorem books_mem : ∀ j ∈ [books], j ∈ tree.joins := by simp [tree]

theorem kind_of_mem : ∀ j ∈ tree.joins, j.kind = .outer := by simp [tree, books, edited, biography]

theorem active_found : (found.lateralScope true 1 [books]).active = ["b"] := by decide +kernel

/-- The biography is called as the subquery would be, which gets another name. -/
theorem fresh_found : Fresh (found.lateralScope true 1 [books]) found (.ofPlan found) := by
  have hname : subqueryName (.ofPlan found) "b" = "_b1" := by decide +kernel
  refine ⟨fun u hu v hv _ => ?_, fun u hu => ?_, fun u hu c hc => ?_⟩
  · rw [active_found, List.mem_singleton] at hu hv
    rw [hu, hv]
  · rw [active_found, List.mem_singleton] at hu
    rw [hu, hname]
    decide
  · rw [active_found, List.mem_singleton] at hu
    rw [hu, hname, List.mem_singleton.1 hc]
    decide

theorem rejects_found : Rejects database (found.lateralScope true 1 [books]) found.topConditions := by
  have htree : (found.lateralScope true 1 [books]).tree = Collections.ofPlan found [books] :=
    (Plan.divisible_lateralScope rfl books_mem).1
  have hasked : ∀ k ∈ askedOf (found.lateralScope true 1 [books]) found.topConditions,
      k = titled "b" := fun k hk => List.mem_singleton.1 (List.mem_filter.1 hk).1
  intro u c hlifts
  refine .inr fun e he hholds => ?_
  cases hlifts with
  | here h =>
    obtain ⟨k, hk, hu⟩ := h
    rw [holds_asOne_iff, Condition.holds_all_iff] at hholds
    have hh := hholds k (List.mem_filter.2 ⟨hk, decide_eq_true hu⟩)
    obtain rfl := hasked k hk
    refine titled_rejects_null (fun a ha => he a ?_) hh
    have habove := (Scope.of_unit? ((Scope.only?_eq_some_iff.1 hu).2 a ha)).2
    rw [htree] at habove ⊢
    exact (JoinTree.isForest (T := tree) rfl books_mem).mem_subtree_iff.2 habove
  | inside hm => cases hasked _ hm

end Bookshelf

namespace Plan

/-- The authors of a book, found by a join and by a column of a lateral subquery. -/
theorem combinations_toLateral_books :
    ∃ r supply, Bookshelf.found.toLateral true 1 [Bookshelf.books] (.ofPlan Bookshelf.found) =
        .ok (r, supply) ∧
      Bookshelf.found.combinations Bookshelf.database ["a", "b1", "_b"] =
        r.plan.combinations Bookshelf.database ["a", "b1", "_b"] := by
  have hrun : (Bookshelf.found.toLateral true 1 [Bookshelf.books] (.ofPlan Bookshelf.found)
      ).toOption.any (fun x => Bookshelf.found.survivors x.1.plan = ["a", "b1", "_b"] &&
        x.1.plan.tables.all (·.plans.all (·.selects.length = 1))) = true := by decide +kernel
  cases h : Bookshelf.found.toLateral true 1 [Bookshelf.books] (.ofPlan Bookshelf.found) with
  | error err =>
    rw [h] at hrun
    cases hrun
  | ok x =>
    rw [h] at hrun
    obtain ⟨hsurvivors, hsingle⟩ := (Bool.and_eq_true _ _).mp hrun
    rw [decide_eq_true_iff] at hsurvivors
    rw [List.all_eq_true] at hsingle
    have hsame := (combinations_toLateral rfl Bookshelf.books_mem
      (fun j hj _ => Bookshelf.kind_of_mem j hj)
      (fun j hj => Bookshelf.correlates_database j (Bookshelf.books_mem j hj))
      Bookshelf.hasIds_database Database.readsColumns_ofTables
      (fun k hk => by rw [List.mem_singleton.1 hk]; rfl) Bookshelf.fresh_found
      Bookshelf.rejects_found h).2
      (fun a from' query hmem => by simpa [Table.plans] using hsingle _ hmem)
      (fun u _ _ => List.eq_nil_iff_forall_not_mem.2 fun k hk => by
        obtain ⟨htop, hp, -⟩ := mem_guardsOf_iff.1 hk
        rw [List.mem_singleton.1 htop] at hp
        cases hp)
    rw [hsurvivors] at hsame
    exact ⟨x.1, x.2, rfl, hsame⟩

/-- New names have to be asked for: the biography is called `_b`, so the subquery of the books is
called `_b1`, as is the one of the edited books, and the author of the book is lost. -/
theorem rows_toLateral_of_same_name :
    ∃ r supply, Bookshelf.involved.toLateral true 1 [Bookshelf.books, Bookshelf.edited]
        (.ofPlan Bookshelf.involved) = .ok (r, supply) ∧
      r.plan.tables.map Table.aliasName = ["a", "_b", "_b1", "_b1"] ∧
      Bookshelf.involved.rows Bookshelf.database .empty ≠ [] ∧
      r.plan.rows Bookshelf.database .empty = [] := by
  have hrows : (Bookshelf.involved.rows Bookshelf.database .empty).isEmpty = false := by
    decide +kernel
  have hrun : (Bookshelf.involved.toLateral true 1 [Bookshelf.books, Bookshelf.edited]
      (.ofPlan Bookshelf.involved)).toOption.any (fun x =>
        x.1.plan.tables.map Table.aliasName = ["a", "_b", "_b1", "_b1"] &&
          (x.1.plan.rows Bookshelf.database .empty).isEmpty) = true := by decide +kernel
  cases h : Bookshelf.involved.toLateral true 1 [Bookshelf.books, Bookshelf.edited]
      (.ofPlan Bookshelf.involved) with
  | error err =>
    rw [h] at hrun
    cases hrun
  | ok x =>
    rw [h] at hrun
    obtain ⟨hnames, hnone⟩ := (Bool.and_eq_true _ _).mp hrun
    refine ⟨x.1, x.2, rfl, of_decide_eq_true hnames, fun hnil => ?_, List.isEmpty_iff.1 hnone⟩
    rw [hnil] at hrows
    cases hrows

end Plan

end EntityQuery
