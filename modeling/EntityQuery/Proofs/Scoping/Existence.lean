import EntityQuery.Proofs.Existence.Plan
import EntityQuery.Proofs.Scoping.Basic

/-!
# Well-scoped existence conditions

A subquery takes along the tables that its conditions read, each with the table that it is joined to,
and is correlated with the table that its collection is joined to.

* `JoinTree.IsPartOf`: a table and the tables that inheritance joins to it;
* `Plan.Gathered`: a plan before its collections are rewritten;
* `Plan.Keeps`: what is left of its tables;
* `Plan.scoped_toExistence`, `Plan.keeps_toExistence`: the rewritten plan.
-/

namespace EntityQuery

/-- The table is the given one, or joined to it by inheritance. -/
def JoinTree.IsPartOf (T : JoinTree) (a b : String) : Prop :=
  b = a ∨ ∃ j ∈ T.joins, j.aliasName = b ∧ j.parent.aliasName = a ∧ j.distinct = some false

/-- A plan over a join tree before its collections are rewritten.  Conditions that were not asked
for read one table; what is selected belongs to the primary table. -/
structure Plan.Gathered (T : JoinTree) (joins : List Join) (p : Plan) : Prop where
  tables : p.tables = T.tables
  collections : ∀ j ∈ joins, j ∈ T.joins ∧ j.distinct = none
  flat : ∀ k ∈ p.topConditions, k.plans = []
  reads : ∀ k ∈ p.topConditions, ∀ a ∈ k.aliases, a ∈ T.aliases
  single : ∀ k ∈ p.topConditions, k.isPruneable = true → ∃ a, k.aliases = [a]
  selects : ∀ s ∈ p.selects, s.plans = [] ∧ ∀ a ∈ s.aliases, T.IsPartOf T.aliasName a
  sortKeys : p.sortKeys = []
  groupBys : p.groupBys = none

/-- The plan has the primary table of the tree in front, joins of the tree, and with each table the
tables that inheritance joins to it. -/
structure Plan.Keeps (T : JoinTree) (p : Plan) : Prop where
  joins : ∀ j, Table.join j ∈ p.tables → j ∈ T.joins
  primary : ∃ table rest, p.tables = .primary T.aliasName table :: rest
  parts : ∀ a ∈ p.tables.map Table.aliasName, ∀ b, T.IsPartOf a b →
    b ∈ p.tables.map Table.aliasName

/-! ### Tables of a join tree -/

/-- Joins in their order refer to tables in front of them, also when some are left out with all that
refer to them, or are tables that refer to none. -/
theorem Join.Ordered.scopedAll_filter {before : List String} {js : List Join}
    (h : Join.Ordered before js) {P : String → Prop} [DecidablePred P] {f : Join → Table}
    (hf : ∀ j, f j = .join j ∨ f j = .primary j.aliasName j.table)
    (hparent : ∀ j ∈ js, P j.aliasName → f j = .join j → P j.parent.aliasName) :
    Table.ScopedAll (before.filter P) ((js.filter fun j => P j.aliasName).map f) := by
  induction js generalizing before with
  | nil => trivial
  | cons j js ih =>
    obtain ⟨hj, -, -, hjs⟩ := h
    have hrest := ih hjs fun j' hj' => hparent j' (List.mem_cons_of_mem _ hj')
    by_cases hP : P j.aliasName
    · have hname : (f j).aliasName = j.aliasName := by rcases hf j with h | h <;> rw [h] <;> rfl
      have hkeep : (j :: js).filter (fun j => P j.aliasName) =
          j :: js.filter fun j => P j.aliasName := by simp [hP]
      rw [hkeep, List.map_cons, Table.scopedAll_cons_iff, hname]
      refine ⟨?_, by simpa [List.filter_append, hP] using hrest⟩
      rcases hf j with hjoin | hprimary
      · rw [hjoin]
        exact List.mem_filter.2 ⟨hj, decide_eq_true (hparent j List.mem_cons_self hP hjoin)⟩
      · rw [hprimary]
        trivial
    · simpa [List.filter_append, hP] using hrest

namespace JoinTree

section

variable {T : JoinTree} {p : Plan} {joins : List Join} {j : Join} {names : List String}

/-! ### The tables of a subquery -/

theorem scopedAll_subqueryTables (hT : p.tables = T.tables) (hnames : T.aliasName ∉ names)
    (hparent : ∀ j' ∈ T.joins, j'.aliasName ∈ names → j'.aliasName ≠ j.aliasName →
      j'.parent.aliasName ∈ names) :
    Table.ScopedAll [] (subqueryTables p.tables j.aliasName names) := by
  rw [subqueryTables_eq hT hnames]
  have h := T.ordered.scopedAll_filter (P := (· ∈ names)) (f := fun j' =>
    if j'.aliasName = j.aliasName then .primary j'.aliasName j'.table else .join j')
    (fun j' => by split_ifs <;> simp) (fun j' hj' hn hjoin => by
      refine hparent j' hj' hn fun hne => ?_
      rw [if_pos hne] at hjoin
      cases hjoin)
  simpa [hnames] using h

/-- The collection is the primary table of its subquery. -/
theorem led_subqueryTables (hT : p.tables = T.tables) (hnames : T.aliasName ∉ names)
    (hj : j ∈ T.joins) (hjn : j.aliasName ∈ names)
    (hparent : ∀ j' ∈ T.joins, j'.aliasName ∈ names → j'.aliasName ≠ j.aliasName →
      j'.parent.aliasName ∈ names) :
    Table.Led (subqueryTables p.tables j.aliasName names) := by
  have hscoped := scopedAll_subqueryTables hT hnames hparent
  rw [subqueryTables_eq hT hnames] at hscoped ⊢
  have hnodup : ((T.joins.filter (·.aliasName ∈ names)).map (·.aliasName)).Nodup :=
    (List.filter_sublist.map _).nodup T.ordered.nodup
  have hmem : j ∈ T.joins.filter (·.aliasName ∈ names) :=
    List.mem_filter.2 ⟨hj, decide_eq_true hjn⟩
  cases hfilter : T.joins.filter (·.aliasName ∈ names) with
  | nil =>
    rw [hfilter] at hmem
    cases hmem
  | cons first rest =>
    rw [hfilter] at hscoped hnodup
    obtain ⟨hfirst, hrest⟩ := List.nodup_cons.1 hnodup
    -- a join cannot come first, so the first table is the collection
    by_cases hne : first.aliasName = j.aliasName
    · rw [List.map_cons, if_pos hne]
      refine List.forall_mem_map.2 fun j' hj' => ?_
      have hne' : j'.aliasName ≠ first.aliasName := fun h =>
        hfirst (List.mem_map.2 ⟨j', hj', h⟩)
      rw [if_neg (hne ▸ hne')]
      exact ⟨rfl, hne'⟩
    · rw [List.map_cons, if_neg hne] at hscoped
      cases hscoped.1

/-- A subquery over tables that are joined to the collection is well scoped when what it reads is
among them, or is the table that the collection is joined to. -/
theorem scoped_subquery (hT : p.tables = T.tables) (hnames : T.aliasName ∉ names)
    (hj : j ∈ T.joins) (hjn : j.aliasName ∈ names)
    (hparent : ∀ j' ∈ T.joins, j'.aliasName ∈ names → j'.aliasName ≠ j.aliasName →
      j'.parent.aliasName ∈ names) {query : Plan}
    (htables : query.tables = subqueryTables p.tables j.aliasName names)
    (hselects : ∀ s ∈ query.selects,
      s.Scoped (query.tables.map Table.aliasName) [j.parent.aliasName])
    (hconditions : ∀ k ∈ query.topConditions,
      k.Scoped (query.tables.map Table.aliasName) [j.parent.aliasName])
    (hsort : query.sortKeys = []) (hgroup : query.groupBys = none) :
    query.Scoped [j.parent.aliasName] := by
  refine Plan.scoped_iff.2 ⟨?_, ?_, hselects, hconditions, by simp [hsort], by simp [hgroup]⟩
  · rw [htables]
    exact led_subqueryTables hT hnames hj hjn hparent
  · rw [htables]
    exact scopedAll_subqueryTables hT hnames hparent

end

end JoinTree

/-- The condition that stands for a join reads the two tables of the join. -/
theorem Condition.scoped_correlation {own outer : List String} {j : Join}
    (hparent : j.parent.aliasName ∈ outer) (hown : j.own.aliasName ∈ own) :
    (Condition.raw (.correlation j.parent j.own)).Scoped own outer := by
  intro a ha
  rcases List.mem_cons.1 ha with rfl | ha
  · exact .inr hparent
  · rw [List.mem_singleton.1 ha]
    exact .inl hown

namespace Existence

variable {T : JoinTree} {p : Plan} {joins : List Join} (hT : p.tables = T.tables)
  (hjoins : ∀ j ∈ joins, j ∈ T.joins)

include hT hjoins

/-- The tables of a subquery are joined to each other, starting from the collection. -/
theorem parent_mem_kept {j : Join} {c : String} {conditions : List Condition} (hj : j ∈ T.joins)
    (hn : j.aliasName ∈ kept (Collections.ofPlan p joins) c conditions) (hne : j.aliasName ≠ c) :
    j.parent.aliasName ∈ kept (Collections.ofPlan p joins) c conditions := by
  have hF := JoinTree.isForest hT hjoins
  obtain ⟨hc, hd⟩ := (mem_kept_iff hF).1 hn
  exact (mem_kept_iff hF).2 ⟨JoinTree.parent_mem_above hT hjoins hj hc hne, fun d hdc hnt hm =>
    hd d hdc hnt (hF.mem_above_of_parent (JoinTree.parent?_of_mem hT hj) hm)⟩

/-- What stands for a collection reads the table that the collection is joined to, and is well
scoped. -/
theorem scoped_build? {n : Nat} {j : Join} {conditions : List Condition} {q : Condition}
    (hj : j ∈ joins) (hflat : ∀ k ∈ conditions, k.plans = [])
    (hinside : ∀ k ∈ conditions, ∀ a ∈ k.aliases,
      j.aliasName ∈ (Collections.ofPlan p joins).above a)
    (hq : build? p.tables (Collections.ofPlan p joins) n j.aliasName conditions = some q)
    {names outer : List String} (hparent : j.parent.aliasName ∈ names) : q.Scoped names outer := by
  have hF := JoinTree.isForest hT hjoins
  induction n generalizing j conditions q names outer with
  | zero => cases hq
  | succ n ih =>
    have hjT := hjoins j hj
    have hself := hF.mem_above_self ((JoinTree.isCollection_iff hT hjoins).2 ⟨j, hj, rfl⟩)
    have hprimary : T.aliasName ≠ j.aliasName := fun he =>
      T.ordered.alias_not_mem j hjT (List.mem_singleton.2 he.symm)
    have hselects : ∀ own, ∀ s ∈ [Select.raw "1" [] none],
        s.Scoped own [j.parent.aliasName] := by
      intro own s hs
      rw [List.mem_singleton.1 hs]
      exact List.forall_mem_nil _
    rw [build?_succ ((JoinTree.join?_iff hT hjoins).2 ⟨hj, rfl⟩)] at hq
    split_ifs at hq
    · -- only the collection's own table is asked about
      rw [← Option.some.inj hq]
      refine ⟨⟨_, hparent, rfl⟩, JoinTree.scoped_subquery hT (by simpa using hprimary) hjT
        (List.mem_singleton_self _) (fun j' _ hn hne => absurd (List.mem_singleton.1 hn) hne) rfl
        (hselects _) (fun k hk => ?_) rfl rfl⟩
      rw [List.mem_singleton.1 hk]
      refine Condition.scoped_correlation (List.mem_singleton_self _) ?_
      rw [T.ordered.own_aliasName j hjT]
      exact (JoinTree.mem_aliases_subqueryTables hT (by simpa using hprimary)).2
        ⟨List.mem_singleton_self _, j, hjT, rfl⟩
    · rw [← Option.some.inj hq]
      have hnames : T.aliasName ∉ kept (Collections.ofPlan p joins) j.aliasName conditions :=
        fun hm => JoinTree.not_mem_above_primary hT hjoins ((mem_kept_iff hF).1 hm).1
      have hkept : j.aliasName ∈ kept (Collections.ofPlan p joins) j.aliasName conditions :=
        (mem_kept_iff hF).2 ⟨hself, fun d hd _ => hF.not_mem_above_of_mem_childrenOf hd⟩
      have hbound : ∀ a, a ∈ kept (Collections.ofPlan p joins) j.aliasName conditions →
          a ∈ (subqueryTables p.tables j.aliasName
            (kept (Collections.ofPlan p joins) j.aliasName conditions)).map Table.aliasName := by
        intro a ha
        exact (JoinTree.mem_aliases_subqueryTables hT hnames).2
          ⟨ha, JoinTree.exists_join_of_mem_above hT hjoins ((mem_kept_iff hF).1 ha).1⟩
      refine ⟨⟨_, hparent, rfl⟩, JoinTree.scoped_subquery hT hnames hjT hkept
        (fun j' hj' hn hne => parent_mem_kept hT hjoins hj' hn hne) rfl (hselects _)
        (fun k hk => ?_) rfl rfl⟩
      rcases List.mem_cons.1 hk with rfl | hk
      · refine Condition.scoped_correlation (List.mem_singleton_self _) (hbound _ ?_)
        rw [T.ordered.own_aliasName j hjT]
        exact hkept
      rcases List.mem_append.1 hk with hk | hk
      · have hk' := (mem_own_iff.1 hk).1
        refine Condition.scoped_of_flat (hflat k hk') fun a ha => .inl (hbound a ?_)
        exact (mem_kept_iff hF).2 ⟨hinside k hk' a ha, fun d hd hnt =>
          not_mem_above_of_mem_own hF hd hnt hk ha⟩
      · obtain ⟨d, hd, -, hb⟩ := mem_nested_iff.1 hk
        obtain ⟨hcol, -, b, hp, hnear⟩ := hF.above_of_mem_childrenOf hd
        obtain ⟨j', hj', rfl⟩ := (JoinTree.isCollection_iff hT hjoins).1 hcol
        rw [JoinTree.parent?_of_mem hT (hjoins j' hj'), Option.some.injEq] at hp
        refine ih hj' (fun k' hk' => hflat k' (mem_sent_iff.1 hk').1)
          (fun k' hk' => (of_only? (mem_sent_iff.1 hk').2).2.2) hb (hbound _ ?_)
        rw [hp]
        exact List.mem_append_left _ (hF.mem_ownedBy_iff.2 hnear)

end Existence

/-! ### The rewritten plan -/

/-- Lateral queries behind the tables that they refer to. -/
theorem Table.scopedAll_laterals {before : List String} {ts : List Table}
    (h : ∀ t ∈ ts, ∃ a f query, t = .lateral a f query ∧ f ∈ before ∧ query.Scoped [f]) :
    Table.ScopedAll before ts := by
  induction ts generalizing before with
  | nil => trivial
  | cons t ts ih =>
    obtain ⟨a, f, query, rfl, hf, hq⟩ := h t List.mem_cons_self
    refine ⟨hf, hq, ih fun x hx => ?_⟩
    obtain ⟨a', f', query', rfl, hf', hq'⟩ := h x (List.mem_cons_of_mem _ hx)
    exact ⟨a', f', query', rfl, List.mem_append_left _ hf', hq'⟩

namespace JoinTree

variable {T : JoinTree} {p : Plan} {joins : List Join} {a b : String}

/-- The tables that inheritance joins to a table belong to the same collections. -/
theorem IsPartOf.above_eq (h : T.IsPartOf a b) (hT : p.tables = T.tables)
    (hcollections : ∀ j ∈ joins, j ∈ T.joins ∧ j.distinct = none) :
    (Collections.ofPlan p joins).above b = (Collections.ofPlan p joins).above a := by
  have hjoins := fun j hj => (hcollections j hj).1
  rcases h with rfl | ⟨j, hj, rfl, rfl, hdistinct⟩
  · rfl
  · have hcol : ¬ (Collections.ofPlan p joins).isCollection j.aliasName := fun hcol => by
      obtain ⟨j', hj', he⟩ := (isCollection_iff hT hjoins).1 hcol
      rw [← JoinTree.eq_of_aliasName (hjoins j' hj') hj he, (hcollections j' hj').2] at hdistinct
      cases hdistinct
    rw [(isForest hT hjoins).above_of_parent (parent?_of_mem hT hj), if_neg hcol]

theorem IsPartOf.mem_aliases (h : T.IsPartOf a b) (ha : a ∈ T.aliases) : b ∈ T.aliases := by
  rcases h with rfl | ⟨j, hj, rfl, -, -⟩
  · exact ha
  · exact aliasName_mem hj

end JoinTree

namespace Plan

variable {T : JoinTree} {p : Plan} {joins : List Join} {r : Resolved}

theorem Gathered.mem_joins (h : p.Gathered T joins) : ∀ j ∈ joins, j ∈ T.joins := fun j hj =>
  (h.collections j hj).1

theorem Gathered.plans_tables (h : p.Gathered T joins) : ∀ x ∈ p.tables, x.plans = [] := by
  rw [h.tables]
  intro x hx
  rcases List.mem_cons.1 hx with rfl | hx
  · rfl
  · obtain ⟨j, -, rfl⟩ := List.mem_map.1 hx
    rfl

/-- What is selected is bound where the primary table and its parts are. -/
theorem Gathered.scoped_selects (h : p.Gathered T joins) {own outer : List String}
    (hown : ∀ a, T.IsPartOf T.aliasName a → a ∈ own) : ∀ s ∈ p.selects, s.Scoped own outer := by
  intro s hs
  obtain ⟨hflat, hparts⟩ := h.selects s hs
  cases s
  case boolOr g name =>
    exact Group.scoped_of_flat hflat fun a ha => .inl (hown a (hparts a ha))
  all_goals exact fun a ha => .inl (hown a (hparts a ha))

section

variable {P : String → Prop} [DecidablePred P] {laterals : List Table} {q : Plan}
  (h : p.Gathered T joins)

include h

/-- What is kept of the tables starts with the primary one. -/
theorem Gathered.filter_tables (hprimary : P T.aliasName) :
    (p.tables.filter fun t => P t.aliasName) =
      .primary T.aliasName T.table :: (T.joins.filter fun j => P j.aliasName).map .join := by
  have hfirst : decide (P (Table.primary T.aliasName T.table).aliasName) = true :=
    decide_eq_true hprimary
  rw [h.tables, JoinTree.tables, List.filter_cons, if_pos hfirst, List.filter_map]
  rfl

theorem Gathered.mem_aliases_filter_append_iff {a : String} :
    a ∈ ((p.tables.filter fun t => P t.aliasName) ++ laterals).map Table.aliasName ↔
      (a ∈ T.aliases ∧ P a) ∨ ∃ t ∈ laterals, t.aliasName = a := by
  rw [List.map_append, List.mem_append, List.mem_map, List.mem_map, h.tables,
    ← T.map_aliasName_tables]
  refine or_congr_left ?_
  simp only [List.mem_filter, decide_eq_true_iff, List.mem_map]
  constructor
  · rintro ⟨t, ⟨ht, hP⟩, rfl⟩
    exact ⟨⟨t, ht, rfl⟩, hP⟩
  · rintro ⟨⟨t, ht, rfl⟩, hP⟩
    exact ⟨t, ⟨ht, hP⟩, rfl⟩

variable (hprimary : P T.aliasName)
  (hlaterals : ∀ t ∈ laterals, ∃ a f query, t = .lateral a f query ∧ a ∉ T.aliases ∧
    (f ∈ T.aliases ∧ P f) ∧ query.Scoped [f])

include hprimary hlaterals

theorem Gathered.led_filter_append :
    Table.Led ((p.tables.filter fun t => P t.aliasName) ++ laterals) := by
  rw [h.filter_tables hprimary]
  intro t ht
  rcases List.mem_append.1 ht with ht | ht
  · obtain ⟨j, hj, rfl⟩ := List.mem_map.1 ht
    exact ⟨rfl, fun he => T.ordered.alias_not_mem j (List.mem_filter.1 hj).1
      (List.mem_singleton.2 he)⟩
  · obtain ⟨a, f, query, rfl, ha, -⟩ := hlaterals t ht
    exact ⟨rfl, fun he => ha (List.mem_cons.2 (.inl he))⟩

/-- Kept joins and lateral queries refer to kept tables in front of them. -/
theorem Gathered.scopedAll_filter_append
    (hparent : ∀ j ∈ T.joins, P j.aliasName → P j.parent.aliasName) :
    Table.ScopedAll [] ((p.tables.filter fun t => P t.aliasName) ++ laterals) := by
  rw [Table.scopedAll_append]
  constructor
  · rw [h.filter_tables hprimary]
    have hjoins := T.ordered.scopedAll_filter (P := P) (f := .join) (fun _ => .inl rfl)
      fun j hj hP _ => hparent j hj hP
    simpa [Table.ScopedAll, hprimary] using hjoins
  · refine Table.scopedAll_laterals fun t ht => ?_
    obtain ⟨a, f, query, rfl, -, ⟨hf, hP⟩, hq⟩ := hlaterals t ht
    refine ⟨a, f, query, rfl, ?_, hq⟩
    rw [h.tables, List.nil_append, List.mem_map]
    rw [← T.map_aliasName_tables] at hf
    obtain ⟨x, hx, rfl⟩ := List.mem_map.1 hf
    exact ⟨x, List.mem_filter.2 ⟨hx, decide_eq_true hP⟩, rfl⟩

/-- What is joined is of the tree, and a kept table is kept with its parts. -/
theorem Gathered.keeps_of_filter (hparts : ∀ a b, T.IsPartOf a b → P a → P b)
    (htables : q.tables = (p.tables.filter fun t => P t.aliasName) ++ laterals) : q.Keeps T := by
  have hfilter := h.filter_tables hprimary
  refine ⟨fun j hj => ?_, ⟨T.table, _, by rw [htables, hfilter, List.cons_append]⟩,
    fun a ha b hb => ?_⟩
  · rw [htables, hfilter] at hj
    rcases List.mem_append.1 hj with hj | hj
    · rcases List.mem_cons.1 hj with hj | hj
      · cases hj
      · obtain ⟨j', hj', he⟩ := List.mem_map.1 hj
        rw [← Table.join.inj he]
        exact (List.mem_filter.1 hj').1
    · obtain ⟨a, f, query, he, -⟩ := hlaterals _ hj
      cases he
  · rw [htables] at ha ⊢
    rcases h.mem_aliases_filter_append_iff.1 ha with ⟨hmem, hP⟩ | ⟨t, ht, rfl⟩
    · exact h.mem_aliases_filter_append_iff.2 (.inl ⟨hb.mem_aliases hmem, hparts a b hb hP⟩)
    · -- nothing is joined to a lateral query
      obtain ⟨a, f, query, rfl, hnot, -⟩ := hlaterals t ht
      rcases hb with rfl | ⟨j, hj, -, hparent, -⟩
      · exact ha
      · exact absurd (JoinTree.parent_mem hj) (hparent ▸ hnot)

end

/-- A plan with some of the tables, each with the table that it is joined to, and lateral queries
behind them. -/
theorem Gathered.scoped_of_filter (h : p.Gathered T joins) {P : String → Prop} [DecidablePred P]
    (hprimary : P T.aliasName) (hparent : ∀ j ∈ T.joins, P j.aliasName → P j.parent.aliasName)
    (hparts : ∀ a b, T.IsPartOf a b → P a → P b) {laterals : List Table}
    (hlaterals : ∀ t ∈ laterals, ∃ a f query, t = .lateral a f query ∧ a ∉ T.aliases ∧
      (f ∈ T.aliases ∧ P f) ∧ query.Scoped [f]) {q : Plan}
    (htables : q.tables = (p.tables.filter fun t => P t.aliasName) ++ laterals)
    (hselects : q.selects = p.selects) (hsort : q.sortKeys = p.sortKeys)
    (hgroup : q.groupBys = p.groupBys)
    (htop : ∀ own : List String, (∀ a ∈ T.aliases, P a → a ∈ own) →
      (∀ t ∈ laterals, t.aliasName ∈ own) → Group.ScopedTop own [] q.condition) :
    q.Scoped [] ∧ q.Keeps T := by
  have hkept : ∀ a ∈ T.aliases, P a → a ∈ q.tables.map Table.aliasName := fun a ha hP => by
    rw [htables]
    exact h.mem_aliases_filter_append_iff.2 (.inl ⟨ha, hP⟩)
  have hadded : ∀ t ∈ laterals, t.aliasName ∈ q.tables.map Table.aliasName := fun t ht => by
    rw [htables]
    exact h.mem_aliases_filter_append_iff.2 (.inr ⟨t, ht, rfl⟩)
  have hpart : ∀ a, T.IsPartOf T.aliasName a → a ∈ q.tables.map Table.aliasName := fun a ha =>
    hkept a (ha.mem_aliases List.mem_cons_self) (hparts _ a ha hprimary)
  refine ⟨Plan.scoped_iff.2 ⟨?_, ?_, ?_, Group.scopedTop_iff.1 (htop _ hkept hadded),
    by simp [hsort, h.sortKeys], by simp [hgroup, h.groupBys]⟩,
    h.keeps_of_filter hprimary hlaterals hparts htables⟩
  · rw [htables]
    exact h.led_filter_append hprimary hlaterals
  · rw [htables]
    exact h.scopedAll_filter_append hprimary hlaterals hparent
  · rw [hselects]
    exact h.scoped_selects hpart

/-- A plan before its collections are rewritten. -/
theorem Gathered.scoped (h : p.Gathered T joins) : p.Scoped [] ∧ p.Keeps T := by
  refine h.scoped_of_filter (P := fun _ => True) trivial (fun _ _ _ => trivial)
    (fun _ _ _ _ => trivial) (List.forall_mem_nil _) (by simp) rfl rfl rfl fun own hown _ => ?_
  exact Group.scopedTop_iff.2 fun k hk =>
    Condition.scoped_of_flat (h.flat k hk) fun a ha => .inl (hown a (h.reads k hk a ha) trivial)

/-- The plan with its collections as existence conditions is well scoped. -/
theorem Gathered.scoped_toExistence (h : p.Gathered T joins)
    (hr : p.toExistence joins = .ok r) :
    r.plan.Scoped [] ∧ r.plan.Keeps T := by
  have hF := JoinTree.isForest h.tables h.mem_joins
  rcases toExistence_cases hr with ⟨-, he⟩ | he
  · rw [he]
    exact h.scoped
  let P (a : String) : Prop := ∀ root ∈ Existence.absorbed p (Collections.ofPlan p joins),
    root ∉ (Collections.ofPlan p joins).above a
  have hparent : ∀ j ∈ T.joins, P j.aliasName → P j.parent.aliasName := fun j hj hP root hroot hm =>
    hP root hroot (hF.mem_above_of_parent (JoinTree.parent?_of_mem h.tables hj) hm)
  have htables : r.plan.tables = (p.tables.filter fun t => P t.aliasName) ++ [] := by
    rw [tables_toExistence hr, List.append_nil]
    refine List.filter_congr fun t _ => decide_eq_decide.2 ?_
    simp only [P, List.mem_flatMap, hF.mem_subtree_iff, not_exists, not_and]
  refine h.scoped_of_filter (P := P)
    (fun root _ => JoinTree.not_mem_above_primary h.tables h.mem_joins) hparent
    (fun a b hb hP root hroot => by
      rw [hb.above_eq h.tables h.collections]
      exact hP root hroot) (List.forall_mem_nil _) htables (by rw [he]) (by rw [he]) (by rw [he])
    fun own hown _ => ?_
  rw [he]
  refine Group.scopedTop_ofTop fun k hk => ?_
  rcases (Existence.mem_rewritten_iff hF).1 hk with ⟨hk, hroute⟩ | ⟨root, hroot, hq⟩
  · exact Condition.scoped_of_flat (h.flat k hk) fun a ha => .inl (hown a (h.reads k hk a ha)
      (not_mem_above_of_route? h.tables h.mem_joins hk hroute a ha))
  · obtain ⟨hroots, -, -⟩ := Existence.mem_absorbed_iff.1 hroot
    obtain ⟨hcol, habove⟩ := hF.mem_roots_iff.1 hroots
    obtain ⟨j, hj, rfl⟩ := (JoinTree.isCollection_iff h.tables h.mem_joins).1 hcol
    have hjT := h.mem_joins j hj
    refine Existence.scoped_build? h.tables h.mem_joins hj
      (fun k' hk' => h.flat k' (Existence.mem_sentTo_iff.1 hk').1) (fun k' hk' a ha => ?_) hq
      (hown _ (JoinTree.parent_mem hjT) fun root' hroot' hm => ?_)
    · obtain ⟨hk', hroute⟩ := Existence.mem_sentTo_iff.1 hk'
      obtain ⟨-, ⟨b, hb, hm⟩, -, hasked⟩ := Existence.of_route? hF hroute
      cases hp : k'.isPruneable with
      | false => exact hasked hp a ha
      | true =>
        -- what was not asked for reads one table, which is below the collection
        obtain ⟨b', hb'⟩ := h.single k' hk' hp
        rw [hb', List.mem_singleton] at ha hb
        rw [ha, ← hb]
        exact hm
    · -- an outermost collection is joined to no table below another one
      have hm' := hF.mem_above_of_parent (JoinTree.parent?_of_mem h.tables hjT) hm
      rw [habove, List.mem_singleton] at hm'
      exact JoinTree.parent_not_mem_above h.tables h.mem_joins hjT (hm' ▸ hm)

end Plan

end EntityQuery
