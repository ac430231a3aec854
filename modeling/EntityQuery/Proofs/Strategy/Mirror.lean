import EntityQuery.Proofs.Existence.Division
import EntityQuery.Proofs.Pruning.Implied
import EntityQuery.Proofs.Scoping.Existence
import EntityQuery.Proofs.Scoping.Orderly
import EntityQuery.Proofs.Strategy.Leaves

/-!
# Tables that stay under every strategy

When collections become subqueries, the tables of a plan are spread over several plans.  Pruning deals
with each of these alone; still it leaves in each of them the tables that it would have left in the
plan with joins.

* `Plan.Mirrors`: a part of a rewritten plan refers to its tables as the whole plan does;
* `Plan.Mirrors.stays_iff`: a table stays in the part exactly if the whole plan needs it;
* `Plan.Mirrors.settled`: so it is known which conditions go;
* `Plan.Mirrors.lossless`: and what goes keeps every assignment.
-/

namespace EntityQuery

/-! ### What a condition refers to -/

namespace Condition

variable {c : Condition} {a : String}

theorem Asked.mem_references_iff (h : c.Asked) : a ∈ c.references ↔ a ∈ c.aliases := by
  induction h with
  | column h => simp [references, aliases, h]
  | raw h => simp [references, aliases, h]
  | @group op cs _ ih =>
    rw [mem_aliases_group]
    exact mem_referencesOf_iff.trans (exists_congr fun c => and_congr_right fun hc => ih c hc)

theorem Asked.implied (h : c.Asked) : c.implied = [] := by
  induction h with
  | column h => simp [Condition.implied, h]
  | raw h => simp [Condition.implied, h]
  | @group op cs _ ih =>
    refine List.eq_nil_iff_forall_not_mem.2 fun a ha => ?_
    obtain ⟨c, hc, ha⟩ := mem_impliedOf_iff.1 ha
    rw [ih c hc] at ha
    cases ha

/-- A condition refers to what it reads if it was asked for. -/
theorem Parted.mem_references_iff (h : c.Parted) :
    a ∈ c.references ↔ c.isPruneable = false ∧ a ∈ c.aliases := by
  rcases h with h | ⟨k, rfl, hk⟩
  · rw [h.mem_references_iff, h.isPruneable]
    exact (and_iff_right rfl).symm
  · simp [references, isPruneable, hk]

/-- Otherwise it reads a table without having been asked for. -/
theorem Parted.mem_implied_iff (h : c.Parted) :
    a ∈ c.implied ↔ c.isPruneable = true ∧ a ∈ c.aliases := by
  rcases h with h | ⟨k, rfl, hk⟩
  · simp [h.implied, h.isPruneable]
  · simp [Condition.implied, isPruneable, aliases, hk]

end Condition

/-! ### Parts of a rewritten plan -/

namespace Plan

/-- A disjunction at the top has a member that does not go with a table. -/
def Founded (p : Plan) : Prop :=
  ∀ cs, p.condition = some ⟨.or, cs⟩ → ∃ c ∈ cs, c.isPruneable = false

/-- The second plan is a part of a rewritten form of the first one.  What it refers to among its own
tables is needed in the first plan.  What the first plan asks of these tables stays, and so do those to
which a needed table of another part is joined. -/
structure Mirrors (p q : Plan) : Prop where
  flat : ∀ s ∈ q.selects, s.plans = []
  founded : q.Founded
  tables : ∀ t ∈ q.tables,
    t.isPrimary = true ∧ (t ∈ p.tables ∨ p.Needed [] t.aliasName) ∨
      (∃ j, t = .join j ∧ t ∈ p.tables) ∨
        ∃ x fromAlias query, t = .lateral x fromAlias query ∧ x ∉ p.tables.map Table.aliasName
  own : ∀ a ∈ q.implied, a ∈ q.tables.map Table.aliasName ∧ a ∈ p.tables.map Table.aliasName
  reads : ∀ a ∈ q.ownReferences, a ∈ q.tables.map Table.aliasName →
    a ∈ p.tables.map Table.aliasName → p.Needed [] a
  carries : ∀ x fromAlias query, .lateral x fromAlias query ∈ q.tables →
    ∀ a ∈ fromAlias :: query.references, a ∈ q.tables.map Table.aliasName →
      a ∈ p.tables.map Table.aliasName → p.Needed [] a
  asked : ∀ a ∈ p.ownReferences, a ∈ q.tables.map Table.aliasName → q.Stays [] a
  joined : ∀ j, .join j ∈ p.tables → p.Needed [] j.aliasName →
    j.parent.aliasName ∈ q.tables.map Table.aliasName →
      .join j ∈ q.tables ∨ q.Stays [] j.parent.aliasName

section

variable {p q : Plan} {T : JoinTree} {a : String} {removed : List String}

theorem founded_of_ofTop {disjunctive : Bool} {ks : List Condition}
    (hq : q.condition = Group.ofTop disjunctive ks)
    (h : disjunctive = true → ∀ cs, .group ⟨.or, cs⟩ ∈ ks → ∃ c ∈ cs, c.isPruneable = false) :
    q.Founded := by
  intro cs hcs
  rw [hq] at hcs
  match ks, hcs with
  | [.group g], hcs =>
    rw [Group.ofTop] at hcs
    split_ifs at hcs with hd
    · obtain rfl := Option.some.inj hcs
      exact h hd cs (List.mem_singleton_self _)
    · cases hcs

/-- The disjunction at the top of a plan. -/
theorem Founded.of_mem (h : p.Founded) (hd : p.isDisjunctive = true) {cs : List Condition}
    (hcs : .group ⟨.or, cs⟩ ∈ p.topConditions) : ∃ c ∈ cs, c.isPruneable = false := by
  obtain ⟨selects, tables, condition, sortKeys, groupBys, ctes⟩ := p
  match condition, hd with
  | some ⟨.or, cs'⟩, _ =>
    obtain rfl := (Group.mk.inj (Condition.group.inj (List.mem_singleton.1 hcs))).2
    exact h cs rfl
  | some ⟨.and, cs'⟩, hd => cases hd

theorem nodup_names_of_tree (hT : p.tables = T.tables) : (p.tables.map Table.aliasName).Nodup := by
  rw [hT, T.map_aliasName_tables]
  exact T.nodup_aliases

theorem Needed.stays {keep : List String} (h : p.Needed keep a) : p.Stays keep a :=
  .inl ⟨_, sustains_needed, h⟩

theorem stays_of_isPrimary {keep : List String} (hnodup : (p.tables.map Table.aliasName).Nodup)
    {t : Table} (ht : t ∈ p.tables) (h : t.isPrimary = true) : p.Stays keep t.aliasName :=
  .inr fun _ ht' hname => Table.eq_of_aliasName hnodup ht' ht hname ▸ h

namespace Mirrors

/-- What the part needs is needed. -/
theorem needed (h : p.Mirrors q) (hneeded : q.Needed [] a) (ha : a ∈ q.tables.map Table.aliasName)
    (hp : a ∈ p.tables.map Table.aliasName) : p.Needed [] a := by
  induction hneeded with
  | kept hkeep => cases hkeep
  | asked hown => exact h.reads _ hown ha hp
  | @referent b t ht _ hb ih =>
    rcases h.tables t ht with ⟨hprimary, -⟩ | ⟨j, rfl, hj⟩ | ⟨x, from', query, rfl, -⟩
    · rw [Table.isPrimary_of_referent hb] at hprimary
      cases hprimary
    · exact .referent hj (ih (List.mem_map_of_mem ht) (List.mem_map_of_mem hj)) hb
    · exact h.carries x from' query ht b hb ha hp

variable (hT : p.tables = T.tables) (hseq : q.Sequenced)
  (hnodup : (q.tables.map Table.aliasName).Nodup)

include hT hseq

/-- What is needed stays in the part that has it. -/
theorem stays (h : p.Mirrors q) (hneeded : p.Needed [] a)
    (ha : a ∈ q.tables.map Table.aliasName) : q.Stays [] a := by
  induction hneeded with
  | kept hkeep => cases hkeep
  | asked hown => exact h.asked _ hown ha
  | @referent b t ht hneeded hb ih =>
    rw [hT, JoinTree.mem_tables_iff] at ht
    rcases ht with rfl | ⟨j, hj, rfl⟩
    · cases hb
    obtain rfl := List.mem_singleton.1 hb
    rcases h.joined j (hT ▸ JoinTree.mem_tables_iff.2 (.inr ⟨j, hj, rfl⟩)) hneeded ha with hm | hstays
    · have hown := (stays_iff_needed hseq hm rfl).1 (ih (List.mem_map_of_mem hm))
      exact (Needed.referent hm hown hb).stays
    · exact hstays

theorem stays_iff (h : p.Mirrors q) {t : Table} (ht : t ∈ q.tables) (hnot : t.isPrimary = false)
    (hp : t.aliasName ∈ p.tables.map Table.aliasName) :
    q.Stays [] t.aliasName ↔ p.Needed [] t.aliasName :=
  ⟨fun hs => h.needed ((stays_iff_needed hseq ht hnot).1 hs) (List.mem_map_of_mem ht) hp,
    fun hneeded => h.stays hT hseq hneeded (List.mem_map_of_mem ht)⟩

include hnodup

/-- The tables of the part that go are among those that go from the whole plan. -/
theorem mem_removed_iff (h : p.Mirrors q) (hseqp : p.Sequenced) (hremoved : p.IsRemoved [] removed)
    (ha : a ∈ q.tables.map Table.aliasName) (hp : a ∈ p.tables.map Table.aliasName) :
    a ∈ removed ↔ ¬ q.Stays [] a := by
  have hnames := nodup_names_of_tree hT
  have hgone : ∀ {t}, t ∈ p.tables → (t.aliasName ∈ removed ↔
      t.isPrimary = false ∧ ¬ p.Needed [] t.aliasName) := fun {t} ht => by
    rw [← not_iff_not, hremoved.not_mem_iff hseqp hnames t ht, not_and_not_right, ← Bool.not_eq_false]
    tauto
  obtain ⟨t, ht, rfl⟩ := List.mem_map.1 ha
  obtain ⟨x, hx, hname⟩ := List.mem_map.1 hp
  rcases h.tables t ht with ⟨hprimary, hcase⟩ | ⟨j, rfl, hj⟩ | ⟨x', from', query, rfl, hnew⟩
  · refine iff_of_false ?_ (not_not.2 (stays_of_isPrimary hnodup ht hprimary))
    rw [← hname, hgone hx, hname]
    rintro ⟨hnot, hdead⟩
    rcases hcase with hm | hneeded
    · rw [Table.eq_of_aliasName hnames hx hm hname, hprimary] at hnot
      cases hnot
    · exact hdead hneeded
  · rw [hgone hj, h.stays_iff hT hseq ht rfl hp]
    exact and_iff_right rfl
  · exact absurd hp hnew

/-- It is known which of the conditions that were not asked for go. -/
theorem settled (h : p.Mirrors q) (hseqp : p.Sequenced) (hremoved : p.IsRemoved [] removed) :
    q.Settled removed where
  flat := h.flat
  own a ha := (h.own a ha).1
  gone a ha := h.mem_removed_iff hT hseq hnodup hseqp hremoved (h.own a ha).1 (h.own a ha).2

/-- Where joins that are not needed are outer ones, what goes keeps every assignment. -/
theorem lossless (h : p.Mirrors q)
    (houter : ∀ j ∈ T.joins, ¬ p.Needed [] j.aliasName → j.kind = .outer) : q.Lossless [] := by
  intro t ht hgone
  rcases h.tables t ht with ⟨hprimary, -⟩ | ⟨j, rfl, hj⟩ | ⟨x, from', query, rfl, -⟩
  · exact absurd (stays_of_isPrimary hnodup ht hprimary) hgone
  · rw [h.stays_iff hT hseq ht rfl (List.mem_map_of_mem hj)] at hgone
    rw [hT, JoinTree.mem_tables_iff] at hj
    rcases hj with hj | ⟨j', hj', he⟩
    · cases hj
    · obtain rfl := Table.join.inj he
      exact houter j hj' hgone
  · trivial

end Mirrors

/-! ### What is asked below a collection -/

variable {joins : List Join}

/-- The result columns read no table of a collection. -/
theorem Gathered.above_of_select (h : p.Gathered T joins)
    (ha : a ∈ Select.referencesOf p.selects) : (Collections.ofPlan p joins).above a = [] := by
  have hparts : ∀ b, T.IsPartOf T.aliasName b →
      b ∈ T.aliases.filter fun b => (Collections.ofPlan p joins).above b = [] := fun b hb => by
    have hroot : (Collections.ofPlan p joins).above T.aliasName = [] :=
      List.eq_nil_iff_forall_not_mem.2 fun c =>
        JoinTree.not_mem_above_primary h.tables h.mem_joins
    exact List.mem_filter.2 ⟨hb.mem_aliases List.mem_cons_self,
      decide_eq_true ((hb.above_eq h.tables h.collections).trans hroot)⟩
  have hscoped : Select.ScopedAll _ [] p.selects := Select.scopedAll_iff.2 (h.scoped_selects hparts)
  rcases Select.references_of_scopedAll hscoped ha with (hm | hm) | hm
  · exact of_decide_eq_true (List.mem_filter.1 hm).2
  · cases hm
  · rw [Select.allAliasesOf_of_flat fun s hs => (h.selects s hs).1] at hm
    cases hm

/-- What the plan itself refers to is read by its columns or by its conditions. -/
theorem Gathered.mem_ownReferences_iff (h : p.Gathered T joins) : a ∈ p.ownReferences ↔
    a ∈ Select.referencesOf p.selects ∨ ∃ k ∈ p.topConditions, a ∈ k.references := by
  rw [ownReferences, h.sortKeys, h.groupBys, List.map_nil, List.append_nil, Option.getD_none,
    List.map_nil, List.append_nil, List.mem_append]
  exact or_congr_right mem_references_condition_iff

/-- Something is asked below each collection whose tables are needed. -/
theorem Gathered.exists_asked_of_needed (h : p.Gathered T joins) (hneeded : p.Needed [] a)
    {d : String} (hd : d ∈ (Collections.ofPlan p joins).above a) :
    ∃ k ∈ p.topConditions, ∃ b ∈ k.references, d ∈ (Collections.ofPlan p joins).above b := by
  induction hneeded with
  | kept hkeep => cases hkeep
  | @asked a hown =>
    rcases h.mem_ownReferences_iff.1 hown with hm | ⟨k, hk, hm⟩
    · rw [h.above_of_select hm] at hd
      cases hd
    · exact ⟨k, hk, a, hm, hd⟩
  | @referent b t ht _ hb ih =>
    rw [h.tables, JoinTree.mem_tables_iff] at ht
    rcases ht with rfl | ⟨j, hj, rfl⟩
    · cases hb
    obtain rfl := List.mem_singleton.1 hb
    exact ih ((JoinTree.isForest h.tables h.mem_joins).mem_above_of_parent
      (JoinTree.parent?_of_mem h.tables hj) hd)

/-- What a needed table is joined to is needed. -/
theorem Gathered.needed_of_mem_chain (h : p.Gathered T joins) {b : String}
    (hb : b ∈ (Collections.ofPlan p joins).chain a) (hneeded : p.Needed [] a) : p.Needed [] b := by
  have hF := JoinTree.isForest h.tables h.mem_joins
  revert hb hneeded
  refine hF.induction (P := fun a => b ∈ _ → p.Needed [] a → p.Needed [] b) (fun a ih hb hneeded => ?_) a
  cases hp : (Collections.ofPlan p joins).parent? a with
  | none =>
    rw [hF.chain_of_no_parent hp, List.mem_singleton] at hb
    exact hb ▸ hneeded
  | some c =>
    rw [hF.chain_of_parent hp, List.mem_cons] at hb
    rcases hb with rfl | hb
    · exact hneeded
    · obtain ⟨j, hj, rfl, rfl⟩ := (JoinTree.parent?_iff h.tables).1 hp
      have hm : .join j ∈ p.tables := h.tables ▸ JoinTree.mem_tables_iff.2 (.inr ⟨j, hj, rfl⟩)
      exact ih _ hp hb (.referent hm hneeded (List.mem_singleton_self _))

theorem Gathered.needed_of_parent (h : p.Gathered T joins) {j : Join} (hj : j ∈ T.joins)
    (hneeded : p.Needed [] j.aliasName) : p.Needed [] j.parent.aliasName :=
  .referent (t := .join j) (h.tables ▸ JoinTree.mem_tables_iff.2 (.inr ⟨j, hj, rfl⟩)) hneeded
    (List.mem_singleton_self _)

/-- A collection and the table that it is joined to are needed where the subquery refers to them. -/
theorem Gathered.needed_of_correlation (h : p.Gathered T joins) {j : Join} (hj : j ∈ T.joins)
    (hneeded : p.Needed [] j.aliasName)
    (ha : a ∈ (Condition.raw (.correlation j.parent j.own)).references) : p.Needed [] a := by
  have hm : a = j.parent.aliasName ∨ a = j.aliasName := by
    rw [← T.ordered.own_aliasName j hj]
    simpa [Condition.references, RawCondition.correlation] using ha
  rcases hm with rfl | rfl
  · exact h.needed_of_parent hj hneeded
  · exact hneeded

/-- The part with the primary table, the tables that are left with it and lateral queries behind
them. -/
theorem Gathered.mirrors_of_filter (h : p.Gathered T joins) (P : String → Prop) (laterals : List Table)
    (hplain : ∀ s ∈ p.selects, s.implied = [])
    (htables : ∀ t, t ∈ q.tables ↔ t ∈ p.tables ∧ P t.aliasName ∨ t ∈ laterals)
    (hlaterals : ∀ t ∈ laterals, ∃ x b query, t = .lateral x b query ∧ x ∉ T.aliases ∧
      ∀ a ∈ b :: query.references, P a → p.Needed [] a)
    (hselects : q.selects = p.selects) (hfounded : q.Founded) (hsort : q.sortKeys = p.sortKeys)
    (hgroup : q.groupBys = p.groupBys)
    (himplied : ∀ k ∈ q.topConditions, ∀ a ∈ k.implied, a ∈ T.aliases ∧ P a)
    (hreads : ∀ k ∈ q.topConditions, ∀ a ∈ k.references, a ∈ T.aliases → P a → p.Needed [] a)
    (hasked : ∀ k ∈ p.topConditions, ∀ a ∈ k.references, P a →
      ∃ k' ∈ q.topConditions, a ∈ k'.references)
    (hjoined : ∀ j ∈ T.joins, p.Needed [] j.aliasName → P j.parent.aliasName →
      P j.aliasName ∨ q.Stays [] j.parent.aliasName) : p.Mirrors q := by
  have hnames : ∀ {a}, a ∈ T.aliases → a ∈ q.tables.map Table.aliasName → P a := fun {a} ha hm => by
    obtain ⟨t, ht, rfl⟩ := List.mem_map.1 hm
    rcases (htables t).1 ht with ⟨-, hP⟩ | ht
    · exact hP
    · obtain ⟨x, b, query, rfl, hx, -⟩ := hlaterals t ht
      exact absurd ha hx
  have hplan : p.tables.map Table.aliasName = T.aliases := by
    rw [h.tables, T.map_aliasName_tables]
  have hown : ∀ a, a ∈ q.ownReferences ↔
      a ∈ Select.referencesOf p.selects ∨ ∃ k ∈ q.topConditions, a ∈ k.references := fun a => by
    rw [ownReferences, hselects, hsort, hgroup, h.sortKeys, h.groupBys, List.map_nil, List.append_nil,
      Option.getD_none, List.map_nil, List.append_nil, List.mem_append, mem_references_condition_iff]
  refine ⟨fun s hs => (h.selects s (hselects ▸ hs)).1, hfounded, fun t ht => ?_, fun a ha => ?_,
    fun a ha hm hp => ?_, fun x b query ht a ha hm hp => ?_, fun a ha hm => ?_,
    fun j hj hneeded hm => ?_⟩
  -- the tables, and those of implied conditions
  · rcases (htables t).1 ht with ⟨hm, -⟩ | ht
    · rcases JoinTree.mem_tables_iff.1 (h.tables ▸ hm) with rfl | ⟨j, -, rfl⟩
      · exact .inl ⟨rfl, .inl hm⟩
      · exact .inr (.inl ⟨j, rfl, hm⟩)
    · obtain ⟨x, b, query, rfl, hx, -⟩ := hlaterals t ht
      exact .inr (.inr ⟨x, b, query, rfl, hplan ▸ hx⟩)
  · have hm : a ∈ T.aliases ∧ P a := by
      rcases mem_implied_iff.1 ha with ⟨k, hk, ha⟩ | ⟨s, hs, ha⟩
      · exact himplied k hk a ha
      · rw [hplain s (hselects ▸ hs)] at ha
        cases ha
    refine ⟨?_, hplan ▸ hm.1⟩
    obtain ⟨t, ht, rfl⟩ := List.mem_map.1 (hplan ▸ hm.1 : a ∈ p.tables.map Table.aliasName)
    exact List.mem_map_of_mem ((htables t).2 (.inl ⟨ht, hm.2⟩))
  -- what the part or its lateral queries read is needed by the whole
  · rcases (hown a).1 ha with ha | ⟨k, hk, ha⟩
    · exact .asked (h.mem_ownReferences_iff.2 (.inl ha))
    · exact hreads k hk a ha (hplan ▸ hp) (hnames (hplan ▸ hp) hm)
  · rcases (htables _).1 ht with ⟨ht, -⟩ | ht
    · rcases JoinTree.mem_tables_iff.1 (h.tables ▸ ht) with he | ⟨j, -, he⟩ <;> cases he
    · obtain ⟨x, b, query, he, -, hreads⟩ := hlaterals _ ht
      obtain ⟨-, rfl, rfl⟩ := Table.lateral.inj he
      exact hreads a ha (hnames (hplan ▸ hp) hm)
  -- what the whole needs stays with the part that has it
  · rcases h.mem_ownReferences_iff.1 ha with ha | ⟨k, hk, hak⟩
    · exact (Needed.asked ((hown a).2 (.inl ha))).stays
    · have hP := hnames (h.reads k hk a (Condition.references_subset_aliases (h.flat k hk) hak)) hm
      exact (Needed.asked ((hown a).2 (.inr (hasked k hk a hak hP)))).stays
  · rcases JoinTree.mem_tables_iff.1 (h.tables ▸ hj) with he | ⟨j', hj', he⟩
    · cases he
    obtain rfl := Table.join.inj he
    exact (hjoined j hj' hneeded (hnames (JoinTree.parent_mem hj') hm)).imp_left fun hP =>
      (htables _).2 (.inl ⟨hj, hP⟩)

/-- Without subqueries there are no other plans inside. -/
theorem Gathered.nestedPlans (h : p.Gathered T joins) : p.nestedPlans = [] := by
  refine List.eq_nil_iff_forall_not_mem.2 fun q hq => ?_
  rcases mem_nestedPlans_iff.1 hq with ⟨t, ht, hq⟩ | ⟨k, hk, hq⟩ | ⟨s, hs, hq⟩
  · rw [h.plans_tables t ht] at hq
    cases hq
  · rw [h.flat k hk] at hq
    cases hq
  · rw [(h.selects s hs).1] at hq
    cases hq

/-- A plan with joins alone. -/
theorem Gathered.mirrors_self (h : p.Gathered T joins) (hplain : ∀ s ∈ p.selects, s.implied = [])
    (hfounded : p.Founded) (hparted : ∀ k ∈ p.topConditions, k.Parted) : p.Everywhere p.Mirrors := by
  refine .intro ?_ fun q hq => ?_
  · exact h.mirrors_of_filter (fun _ => True) [] hplain (by simp) (by simp) rfl hfounded
      rfl rfl
      (fun k hk a ha => ⟨h.reads k hk a ((hparted k hk).mem_implied_iff.1 ha).2, trivial⟩)
      (fun k hk a ha _ _ => .asked (h.mem_ownReferences_iff.2 (.inr ⟨k, hk, ha⟩)))
      (fun k hk a ha _ => ⟨k, hk, ha⟩) fun _ _ _ _ => .inl trivial
  · rw [h.nestedPlans] at hq
    cases hq

theorem mem_subqueryTables_iff (hT : p.tables = T.tables) {names : List String}
    (hnot : T.aliasName ∉ names) (j : Join) {t : Table} :
    t ∈ subqueryTables p.tables j.aliasName names ↔ ∃ j' ∈ T.joins, j'.aliasName ∈ names ∧
      t = if j'.aliasName = j.aliasName then .primary j'.aliasName j'.table else .join j' := by
  rw [JoinTree.subqueryTables_eq hT hnot, List.mem_map]
  constructor
  · rintro ⟨j', hj', rfl⟩
    obtain ⟨hj', hm⟩ := List.mem_filter.1 hj'
    exact ⟨j', hj', of_decide_eq_true hm, rfl⟩
  · rintro ⟨j', hj', hm, rfl⟩
    exact ⟨j', List.mem_filter.2 ⟨hj', decide_eq_true hm⟩, rfl⟩

/-- A collection is the primary table of its subquery, so it stays there. -/
theorem stays_of_subqueryTables (hT : p.tables = T.tables) {j : Join} (hj : j ∈ T.joins)
    {names : List String} (hmem : j.aliasName ∈ names) (hnot : T.aliasName ∉ names)
    (htables : q.tables = subqueryTables p.tables j.aliasName names) : q.Stays [] j.aliasName := by
  have hnodup : (q.tables.map Table.aliasName).Nodup := by
    rw [htables, map_aliasName_subqueryTables, hT, T.map_aliasName_tables]
    exact T.nodup_aliases.filter _
  have hm := (mem_subqueryTables_iff hT hnot j).2 ⟨j, hj, hmem, rfl⟩
  rw [if_pos rfl, ← htables] at hm
  exact stays_of_isPrimary hnodup hm rfl

/-- A part with the tables of a collection, the first of which is its primary table. -/
theorem Gathered.mirrors_of_subquery (h : p.Gathered T joins) {j : Join} (hj : j ∈ T.joins)
    {names : List String} (hmem : j.aliasName ∈ names)
    (hbelow : ∀ a ∈ names, j.aliasName ∈ (Collections.ofPlan p joins).above a)
    (hlive : p.Needed [] j.aliasName)
    (htables : q.tables = subqueryTables p.tables j.aliasName names)
    (hflat : ∀ s ∈ q.selects, s.plans = []) (hfounded : q.Founded) (himplied : ∀ a ∈ q.implied, a ∈ names)
    (hreads : ∀ a ∈ q.ownReferences, a ∈ names → p.Needed [] a)
    (hasked : ∀ k ∈ p.topConditions, ∀ a ∈ k.references, a ∈ names → a ≠ j.aliasName →
      a ∈ q.ownReferences)
    (hjoined : ∀ j' ∈ T.joins, p.Needed [] j'.aliasName → j'.parent.aliasName ∈ names →
      j'.parent.aliasName ≠ j.aliasName → j'.aliasName ∈ names ∨ j'.parent.aliasName ∈ q.ownReferences) :
    p.Mirrors q := by
  have hnot : T.aliasName ∉ names := fun hm =>
    JoinTree.not_mem_above_primary h.tables h.mem_joins (hbelow _ hm)
  have hcases : ∀ t ∈ q.tables, t.isPrimary = true ∧ t.aliasName = j.aliasName ∨
      ∃ j' ∈ T.joins, t = .join j' := fun t ht => by
    obtain ⟨j', hj', -, rfl⟩ := (mem_subqueryTables_iff h.tables hnot j).1 (htables ▸ ht)
    split_ifs with he
    · exact .inl ⟨rfl, he⟩
    · exact .inr ⟨j', hj', rfl⟩
  have hnames : ∀ {a}, a ∈ q.tables.map Table.aliasName ↔ a ∈ names ∧ ∃ j' ∈ T.joins, j'.aliasName = a := by
    rw [htables]
    exact JoinTree.mem_aliases_subqueryTables h.tables hnot
  have hprimary := stays_of_subqueryTables h.tables hj hmem hnot htables
  have hjoin : ∀ {j'}, j' ∈ T.joins → Table.join j' ∈ p.tables := fun hj' =>
    h.tables ▸ JoinTree.mem_tables_iff.2 (.inr ⟨_, hj', rfl⟩)
  refine ⟨hflat, hfounded, fun t ht => ?_, fun a ha => ?_, fun a ha hm _ => hreads a ha (hnames.1 hm).1,
    fun x b query ht => ?_, fun a ha hm => ?_, fun j' hj' hneeded hm => ?_⟩
  · rcases hcases t ht with ⟨hp, he⟩ | ⟨j', hj', rfl⟩
    · exact .inl ⟨hp, .inr (he ▸ hlive)⟩
    · exact .inr (.inl ⟨j', rfl, hjoin hj'⟩)
  · obtain ⟨j', hj', rfl⟩ :=
      JoinTree.exists_join_of_mem_above h.tables h.mem_joins (hbelow a (himplied a ha))
    exact ⟨hnames.2 ⟨himplied _ ha, j', hj', rfl⟩, List.mem_map_of_mem (hjoin hj')⟩
  · rcases hcases _ ht with ⟨hp, -⟩ | ⟨j', -, he⟩
    · cases hp
    · cases he
  · have hm := (hnames.1 hm).1
    by_cases he : a = j.aliasName
    · exact he ▸ hprimary
    · rcases h.mem_ownReferences_iff.1 ha with hs | ⟨k, hk, hak⟩
      · have habove := hbelow a hm
        rw [h.above_of_select hs] at habove
        cases habove
      · exact (Needed.asked (hasked k hk a hak hm he)).stays
  · rcases JoinTree.mem_tables_iff.1 (h.tables ▸ hj') with he | ⟨j'', hj'', he⟩
    · cases he
    obtain rfl := Table.join.inj he
    have hm := (hnames.1 hm).1
    by_cases hp : j'.parent.aliasName = j.aliasName
    · exact .inr (hp ▸ hprimary)
    rcases hjoined j' hj'' hneeded hm hp with hm' | hown
    · have hne : j'.aliasName ≠ j.aliasName := fun he => by
        -- the parent of the collection is not below it
        rw [JoinTree.eq_of_aliasName hj'' hj he] at hm
        exact JoinTree.parent_not_mem_above h.tables h.mem_joins hj (hbelow _ hm)
      have ht := (mem_subqueryTables_iff h.tables hnot j).2 ⟨j', hj'', hm', rfl⟩
      rw [if_neg hne, ← htables] at ht
      exact .inl ht
    · exact .inr (Needed.asked hown).stays

end

end Plan

end EntityQuery
