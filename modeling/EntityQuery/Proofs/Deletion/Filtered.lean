import EntityQuery.Proofs.Deletion.Part

/-!
# Plans that filter a table

A condition that comes with a table has to be asked wherever the table is bound: by the plan that
binds it, or by each boolean column if that plan is a lateral query.  Subqueries that are asked to
have no row are left out.

* `Plan.Asks`: the plan asks the condition of every row that it uses;
* `Plan.Free`: a plan that binds a table nowhere;
* `Plan.Filtered`: a plan that asks the condition wherever its table is bound;
* `Plan.Together`: a plan that binds one table wherever it binds another;
* `Plan.Filtered.addNullChecks`, `Plan.Filtered.prune`: passes that leave it so;
* `Plan.Filtered.prune_of_shown`: a table that is shown is filtered though pruning may remove others.
-/

namespace EntityQuery

/-- The column is true only because of rows that meet the condition; the count of rows that shows
that there are none asks nothing of them. -/
def Select.Asks (k : Condition) : Select → Prop
  | .boolOr g _ => g.op = .and ∧ k ∈ g.conditions
  | .countIsZero _ => True
  | _ => False

/-- The condition is one of those that the plan asks for; a lateral query asks with its columns. -/
def Plan.Asks (k : Condition) (lateral : Bool) (p : Plan) : Prop :=
  if lateral then ∀ x ∈ p.selects, x.Asks k else k ∈ p.topConditions

/-- The table is bound neither by the plan nor by its parts. -/
inductive Plan.Free (a : String) : Plan → Prop
  | intro {p : Plan} (tables : a ∉ p.tables.map Table.aliasName)
      (laterals : ∀ q ∈ p.laterals, q.Free a) (asserted : ∀ q ∈ p.asserted, q.Free a) : p.Free a

/-- Wherever the table `a` is bound, the condition is asked for: by the plan itself, whose parts then
bind no table of that name, or inside its parts.  The condition may be on another table than `a`, such
as the table of a base. -/
inductive Plan.Filtered (a : String) (c : ColumnCondition) : (lateral : Bool) → Plan → Prop
  | here {lateral : Bool} {p : Plan} (asks : p.Asks (.column c) lateral)
      (laterals : ∀ q ∈ p.laterals, q.Free a) (asserted : ∀ q ∈ p.asserted, q.Free a) :
      p.Filtered a c lateral
  | inside {lateral : Bool} {p : Plan} (tables : a ∉ p.tables.map Table.aliasName)
      (laterals : ∀ q ∈ p.laterals, q.Filtered a c true)
      (asserted : ∀ q ∈ p.asserted, q.Filtered a c false) : p.Filtered a c lateral

/-- Wherever the plan or one of its parts binds the table `a`, it binds the table `b` too. -/
inductive Plan.Together (a b : String) : Plan → Prop
  | intro {p : Plan}
      (tables : a ∈ p.tables.map Table.aliasName → b ∈ p.tables.map Table.aliasName)
      (laterals : ∀ q ∈ p.laterals, q.Together a b) (asserted : ∀ q ∈ p.asserted, q.Together a b) :
      p.Together a b

section

variable {f : Condition → List Condition} {p q : Plan} {c : ColumnCondition} {a b : String}
  {lateral : Bool} {keep removed : List String}

namespace Plan

/-! ### Conditions that are asked for -/

theorem Asks.mapLeaves (h : p.Asks (.column c) lateral) (hc : f (.column c) = [.column c]) :
    (p.mapLeaves f).Asks (.column c) lateral := by
  have hmem : ∀ {cs : List Condition}, .column c ∈ cs → .column c ∈ Condition.mapLeavesAll f cs := by
    intro cs hcs
    induction cs with
    | nil => cases hcs
    | cons k cs ih =>
      rw [Condition.mapLeavesAll, List.mem_append]
      refine (List.mem_cons.1 hcs).imp (fun he => ?_) ih
      rw [← he, Condition.mapLeaves, hc]
      exact List.mem_singleton_self _
  cases lateral with
  | false =>
    show Condition.column c ∈ (p.mapLeaves f).topConditions
    rw [topConditions_mapLeaves]
    exact hmem h
  | true =>
    intro x hx
    obtain ⟨x', hx', rfl⟩ := mem_selects_mapLeaves hx
    have hasks := h x' hx'
    cases x' with
    | boolOr g name =>
      obtain ⟨op, cs⟩ := g
      exact ⟨hasks.1, hmem hasks.2⟩
    | _ => exact hasks

theorem Asks.remove (h : p.Asks (.column c) lateral) (ha : c.aliasName ∉ removed) :
    (p.remove removed).Asks (.column c) lateral := by
  have hleaf : Condition.withoutRemoved removed (.column c) = [.column c] := by
    simp [Condition.withoutRemoved, ha]
  let left : Plan := { p with tables := p.tables.filter (·.aliasName ∉ removed) }
  have hleft : (left.mapLeaves (Condition.withoutRemoved removed)).Asks (.column c) lateral :=
    Asks.mapLeaves (p := left) h hleaf
  cases lateral with
  | true => exact hleft
  | false =>
    -- a group that asks for the condition is not empty
    show Condition.column c ∈ topConditions { left.mapLeaves _ with condition := _ }
    change Condition.column c ∈ (left.mapLeaves (Condition.withoutRemoved removed)).topConditions
      at hleft
    generalize left.mapLeaves (Condition.withoutRemoved removed) = q at hleft
    obtain ⟨selects, tables, condition, sortKeys, groupBys, ctes⟩ := q
    match condition, hleft with
    | some ⟨.and, _ :: _⟩, hleft => exact hleft
    | some ⟨.or, _ :: _⟩, hleft => exact hleft
    | some ⟨.or, []⟩, hleft => exact absurd (List.mem_singleton.1 hleft) nofun

theorem Asks.mapPlans {g : Plan → Plan} (h : p.Asks (.column c) lateral) :
    (p.mapPlans g).Asks (.column c) lateral := by
  have hmem : ∀ {cs : List Condition}, .column c ∈ cs → .column c ∈ Condition.mapPlansOf g cs := by
    intro cs hcs
    induction cs with
    | nil => cases hcs
    | cons k cs ih =>
      refine List.mem_cons.2 ((List.mem_cons.1 hcs).imp (fun he => ?_) ih)
      rw [← he]
      rfl
  cases lateral with
  | true => exact h
  | false =>
    obtain ⟨selects, tables, condition, sortKeys, groupBys, ctes⟩ := p
    match condition, h with
    | some ⟨.and, _⟩, h => exact hmem h
    | some ⟨.or, _⟩, h => exact absurd (List.mem_singleton.1 h) nofun

/-! ### Other leaves -/

theorem Free.mapLeaves (hf : Condition.KeepsParts f) (h : p.Free a) : (p.mapLeaves f).Free a := by
  induction h with
  | intro tables _ _ ihl iha =>
    refine .intro ?_ (fun q hq => ?_) fun q hq => ?_
    · rwa [tables_mapLeaves, Table.map_aliasName_map_mapPlan]
    · obtain ⟨q', hq', rfl⟩ := exists_of_mem_laterals_mapLeaves hq
      exact ihl q' hq'
    · obtain ⟨q', hq', rfl⟩ := exists_of_mem_asserted_mapLeaves hf hq
      exact iha q' hq'

/-- A plan that binds a table nowhere filters it. -/
theorem Free.filtered (h : p.Free a) : p.Filtered a c lateral := by
  induction h generalizing lateral with
  | intro tables _ _ ihl iha => exact .inside tables (fun q hq => ihl q hq) fun q hq => iha q hq

theorem Free.of_together (h : p.Free b) (ht : p.Together a b) : p.Free a := by
  induction h with
  | intro tables _ _ ihl iha =>
    obtain ⟨hmem, hlaterals, hasserted⟩ := ht
    exact .intro (fun ha => tables (hmem ha)) (fun q hq => ihl q hq (hlaterals q hq)) fun q hq =>
      iha q hq (hasserted q hq)

/-- A table is filtered with the one that it never goes without. -/
theorem Filtered.of_together (h : p.Filtered b c lateral) (ht : p.Together a b) :
    p.Filtered a c lateral := by
  induction h with
  | here asks laterals asserted =>
    obtain ⟨-, hlaterals, hasserted⟩ := ht
    exact .here asks (fun q hq => (laterals q hq).of_together (hlaterals q hq)) fun q hq =>
      (asserted q hq).of_together (hasserted q hq)
  | inside tables _ _ ihl iha =>
    obtain ⟨hmem, hlaterals, hasserted⟩ := ht
    exact .inside (fun ha => tables (hmem ha)) (fun q hq => ihl q hq (hlaterals q hq)) fun q hq =>
      iha q hq (hasserted q hq)

theorem Filtered.mapLeaves (hf : Condition.KeepsParts f) (hc : f (.column c) = [.column c])
    (h : p.Filtered a c lateral) : (p.mapLeaves f).Filtered a c lateral := by
  induction h with
  | here asks laterals asserted =>
    refine .here (asks.mapLeaves hc) (fun q hq => ?_) fun q hq => ?_
    · obtain ⟨q', hq', rfl⟩ := exists_of_mem_laterals_mapLeaves hq
      exact (laterals q' hq').mapLeaves hf
    · obtain ⟨q', hq', rfl⟩ := exists_of_mem_asserted_mapLeaves hf hq
      exact (asserted q' hq').mapLeaves hf
  | inside tables _ _ ihl iha =>
    refine .inside ?_ (fun q hq => ?_) fun q hq => ?_
    · rwa [tables_mapLeaves, Table.map_aliasName_map_mapPlan]
    · obtain ⟨q', hq', rfl⟩ := exists_of_mem_laterals_mapLeaves hq
      exact ihl q' hq'
    · obtain ⟨q', hq', rfl⟩ := exists_of_mem_asserted_mapLeaves hf hq
      exact iha q' hq'

/-- Tests for null are told from missing rows where they were asked for, which no condition was that
came with its table. -/
theorem Filtered.addNullChecks (hc : c.pruneable = true) (h : p.Filtered a c lateral)
    {idDbType : String → String} : (p.addNullChecks idDbType).Filtered a c lateral :=
  h.mapLeaves Condition.keepsParts_withNullCheck (by
    simp [Condition.withNullCheck, ColumnCondition.isAmbiguous, hc])

/-! ### Pruned plans -/

theorem mem_names_remove (h : a ∈ (p.remove removed).tables.map Table.aliasName) :
    a ∈ p.tables.map Table.aliasName ∧ a ∉ removed := by
  rw [tables_remove, Table.map_aliasName_mapLeavesAll, List.mem_map] at h
  obtain ⟨t, ht, rfl⟩ := h
  rw [List.mem_filter, decide_eq_true_iff] at ht
  exact ⟨List.mem_map_of_mem ht.1, ht.2⟩

theorem Free.remove (h : p.Free a) : (p.remove removed).Free a := by
  obtain ⟨tables, laterals, asserted⟩ := h
  refine .intro (fun hm => tables (mem_names_remove hm).1) (fun q hq => ?_) fun q hq => ?_
  · obtain ⟨q', hq', rfl⟩ := exists_of_mem_laterals_remove hq
    exact (laterals q' hq').mapLeaves Condition.keepsParts_withoutRemoved
  · obtain ⟨q', hq', rfl⟩ := exists_of_mem_asserted_remove hq
    exact (asserted q' hq').mapLeaves Condition.keepsParts_withoutRemoved

/-- A condition is left where the table that it is on is left. -/
theorem Filtered.remove_of_stays (ha : c.aliasName ∉ removed) (h : p.Filtered a c lateral) :
    (p.remove removed).Filtered a c lateral := by
  have hleaf : Condition.withoutRemoved removed (.column c) = [.column c] := by
    simp [Condition.withoutRemoved, ha]
  cases h with
  | here asks laterals asserted =>
    refine .here (asks.remove ha) (fun q hq => ?_) fun q hq => ?_
    · obtain ⟨q', hq', rfl⟩ := exists_of_mem_laterals_remove hq
      exact (laterals q' hq').mapLeaves Condition.keepsParts_withoutRemoved
    · obtain ⟨q', hq', rfl⟩ := exists_of_mem_asserted_remove hq
      exact (asserted q' hq').mapLeaves Condition.keepsParts_withoutRemoved
  | inside tables laterals asserted =>
    refine .inside (fun hm => tables (mem_names_remove hm).1) (fun q hq => ?_) fun q hq => ?_
    · obtain ⟨q', hq', rfl⟩ := exists_of_mem_laterals_remove hq
      exact (laterals q' hq').mapLeaves Condition.keepsParts_withoutRemoved hleaf
    · obtain ⟨q', hq', rfl⟩ := exists_of_mem_asserted_remove hq
      exact (asserted q' hq').mapLeaves Condition.keepsParts_withoutRemoved hleaf

/-- A condition goes with the table that it is on, and is left where that is left. -/
theorem Filtered.remove (hsub : removed ⊆ p.tables.map Table.aliasName)
    (h : p.Filtered c.aliasName c lateral) : (p.remove removed).Filtered c.aliasName c lateral := by
  by_cases ha : c.aliasName ∈ removed
  · cases h with
    | here _ laterals asserted =>
      refine Free.filtered (.intro (fun hm => (mem_names_remove hm).2 ha) (fun q hq => ?_)
        fun q hq => ?_)
      · obtain ⟨q', hq', rfl⟩ := exists_of_mem_laterals_remove hq
        exact (laterals q' hq').mapLeaves Condition.keepsParts_withoutRemoved
      · obtain ⟨q', hq', rfl⟩ := exists_of_mem_asserted_remove hq
        exact (asserted q' hq').mapLeaves Condition.keepsParts_withoutRemoved
    | inside tables => exact absurd (hsub ha) tables
  · exact h.remove_of_stays ha

theorem unreferenced_subset : p.unreferenced keep ⊆ p.tables.map Table.aliasName := by
  intro a ha
  obtain ⟨⟨t, ht, -, rfl⟩, -⟩ := mem_unreferenced_iff.1 ha
  exact List.mem_map_of_mem ht

theorem Free.trim (h : p.Free a) : (p.trim keep).Free a := trim_induct (fun _ hp => hp.remove) h

theorem Filtered.trim (h : p.Filtered c.aliasName c lateral) :
    (p.trim keep).Filtered c.aliasName c lateral :=
  trim_induct (fun _ hp => hp.remove unreferenced_subset) h

theorem Free.mapPlans {g : Plan → Plan} (hg : ∀ q, q.Free a → (g q).Free a) (h : p.Free a) :
    (p.mapPlans g).Free a := by
  obtain ⟨tables, laterals, asserted⟩ := h
  refine .intro ?_ (fun q hq => ?_) fun q hq => ?_
  · rwa [Plan.mapPlans, Table.map_aliasName_map_mapPlan]
  · obtain ⟨q', hq', rfl⟩ := exists_of_mem_laterals_mapPlans hq
    exact hg q' (laterals q' hq')
  · obtain ⟨q', hq', rfl | rfl⟩ := exists_of_mem_asserted_mapPlans hq
    · exact hg q' (asserted q' hq')
    · exact asserted q hq'

/-- A plan that asks the condition asks it still, whatever becomes of parts that do not bind the
table. -/
theorem Asks.filtered_mapPlans {g : Plan → Plan} (hfree : ∀ q, q.Free a → (g q).Free a)
    (asks : p.Asks (.column c) lateral) (laterals : ∀ q ∈ p.laterals, q.Free a)
    (asserted : ∀ q ∈ p.asserted, q.Free a) : (p.mapPlans g).Filtered a c lateral := by
  refine .here asks.mapPlans (fun q hq => ?_) fun q hq => ?_
  · obtain ⟨q', hq', rfl⟩ := exists_of_mem_laterals_mapPlans hq
    exact hfree q' (laterals q' hq')
  · obtain ⟨q', hq', rfl | rfl⟩ := exists_of_mem_asserted_mapPlans hq
    · exact hfree q' (asserted q' hq')
    · exact asserted q hq'

theorem Filtered.mapPlans {g : Plan → Plan} (hfree : ∀ q, q.Free a → (g q).Free a)
    (hg : ∀ b q, q.Filtered a c b → (g q).Filtered a c b) (h : p.Filtered a c lateral) :
    (p.mapPlans g).Filtered a c lateral := by
  cases h with
  | here asks laterals asserted => exact asks.filtered_mapPlans hfree laterals asserted
  | inside tables laterals asserted =>
    refine .inside ?_ (fun q hq => ?_) fun q hq => ?_
    · rwa [Plan.mapPlans, Table.map_aliasName_map_mapPlan]
    · obtain ⟨q', hq', rfl⟩ := exists_of_mem_laterals_mapPlans hq
      exact hg true q' (laterals q' hq')
    · obtain ⟨q', hq', rfl | rfl⟩ := exists_of_mem_asserted_mapPlans hq
      · exact hg false q' (asserted q' hq')
      · exact asserted q hq'

theorem Free.pruneWithin (n : Nat) (h : p.Free a) : (p.pruneWithin n keep).Free a := by
  induction n generalizing keep p with
  | zero => exact h.trim
  | succ n ih => exact h.trim.mapPlans fun q hq => ih hq

/-- A pruned plan filters the tables that are left of those that the plan filters by conditions on
them. -/
theorem Filtered.prune (h : p.Filtered c.aliasName c lateral) :
    (p.prune keep).Filtered c.aliasName c lateral := by
  suffices ∀ n {lateral : Bool} {keep : List String} {p : Plan}, p.Filtered c.aliasName c lateral →
      (Plan.pruneWithin n keep p).Filtered c.aliasName c lateral from this _ h
  intro n
  induction n with
  | zero => exact fun h => h.trim
  | succ n ih => exact fun h => h.trim.mapPlans (fun q hq => hq.pruneWithin n) fun b q hq => ih hq

/-- A table that is shown together with the one that holds the time of deletion stays filtered. -/
theorem Filtered.trim_of_shown (h : p.Filtered a c lateral) (hheld : .star c.aliasName ∈ p.selects) :
    (p.trim keep).Filtered a c lateral := by
  refine (trim_induct (P := fun x => x.Filtered a c lateral ∧ .star c.aliasName ∈ x.selects)
    (fun x hx => ⟨hx.1.remove_of_stays fun hm => ?_, ?_⟩) ⟨h, hheld⟩).1
  · exact (mem_unreferenced_iff.1 hm).2.2 (mem_references_of_star hx.2)
  · rw [selects_remove]
    exact Select.star_mem_mapLeavesAll hx.2

theorem mem_names_trim_of_shown (ha : a ∈ p.tables.map Table.aliasName)
    (hown : .star a ∈ p.selects) : a ∈ (p.trim keep).tables.map Table.aliasName := by
  refine (trim_induct (P := fun x => a ∈ x.tables.map Table.aliasName ∧ .star a ∈ x.selects)
    (fun x hx => ⟨?_, ?_⟩) ⟨ha, hown⟩).1
  · obtain ⟨t, ht, rfl⟩ := List.mem_map.1 hx.1
    rw [tables_remove, Table.map_aliasName_mapLeavesAll]
    exact List.mem_map_of_mem (List.mem_filter.2 ⟨ht, decide_eq_true fun hm =>
      (mem_unreferenced_iff.1 hm).2.2 (mem_references_of_star hx.2)⟩)
  · rw [selects_remove]
    exact Select.star_mem_mapLeavesAll hx.2

/-- A pruned plan filters a table that it shows, if it shows the one that holds the time of deletion. -/
theorem Filtered.prune_of_shown (h : p.Filtered a c lateral)
    (ha : a ∈ p.tables.map Table.aliasName) (hown : .star a ∈ p.selects)
    (hheld : .star c.aliasName ∈ p.selects) : (p.prune keep).Filtered a c lateral := by
  have htrim : (p.trim keep).Filtered a c lateral := h.trim_of_shown hheld
  rw [Plan.prune]
  cases p.depth with
  | zero => exact htrim
  | succ n =>
    cases htrim with
    | here asks laterals asserted =>
      exact asks.filtered_mapPlans (fun q hq => hq.pruneWithin n) laterals asserted
    | inside tables => exact absurd (mem_names_trim_of_shown ha hown) tables

/-! ### Plans in order -/

/-- Tables that are joined for an order are not filtered. -/
theorem Filtered.ordered (h : p.Filtered a c false) {js : List Join} {keys : List SortKey}
    (hjs : a ∉ js.map (·.aliasName)) :
    Filtered a c false { p with tables := p.tables ++ js.map .join, sortKeys := keys } := by
  have hlaterals : laterals { p with tables := p.tables ++ js.map .join, sortKeys := keys } =
      p.laterals := by
    have hnone : (js.map Table.join).flatMap Table.plans = [] := by
      simp [Table.plans]
    rw [laterals, List.flatMap_append, hnone, List.append_nil, laterals]
  cases h with
  | here asks laterals asserted => exact .here asks (by rwa [hlaterals]) asserted
  | inside tables laterals asserted =>
    refine .inside ?_ (by rwa [hlaterals]) asserted
    rw [List.map_append, List.mem_append, List.map_map]
    exact not_or.2 ⟨tables, hjs⟩

end Plan

end

end EntityQuery
