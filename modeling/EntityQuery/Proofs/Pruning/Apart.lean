import EntityQuery.Proofs.Pruning.Reference

/-!
# Tables that refer to each other alone

Pruning goes on until every table is referred to.  So tables that are referred to by joins among
them and by nothing else are all removed.

* `Plan.Apart`: nothing but joins among them refers to some tables;
* `Plan.Rooted`: a primary table with joins and lateral queries behind it;
* `Plan.Rooted.prune`: a pruned plan has none of the tables that are apart.
-/

namespace EntityQuery

/-- Nothing but joins among them refers to the tables of `L`; each ranks above those that are joined
to it. -/
structure Plan.Apart (L : String → Prop) (rank : String → Nat) (p : Plan) : Prop where
  selects : ∀ a ∈ Select.referencesOf p.selects, ¬ L a
  condition : ∀ a ∈ Group.referencesOf p.condition, ¬ L a
  sortKeys : ∀ k ∈ p.sortKeys, ¬ L k.aliasName
  groupBys : ∀ c ∈ p.groupBys.getD [], ¬ L c.aliasName
  joins : ∀ j, .join j ∈ p.tables → L j.parent.aliasName →
    L j.aliasName ∧ rank j.aliasName < rank j.parent.aliasName
  laterals : ∀ x fromAlias query, .lateral x fromAlias query ∈ p.tables →
    ¬ L fromAlias ∧ ∀ a ∈ query.references, ¬ L a

/-- The table is a lateral query, or a join of which `P` holds, under another name than `a`. -/
def Table.Behind (P : Join → Prop) (a : String) (t : Table) : Prop :=
  t.aliasName ≠ a ∧ match t with
    | .join j => P j
    | .lateral .. => True
    | _ => False

/-- The primary table `a`, and behind it lateral queries and joins of which `P` holds. -/
def Plan.Rooted (P : Join → Prop) (a table : String) (p : Plan) : Prop :=
  ∃ rest, p.tables = .primary a table :: rest ∧ ∀ t ∈ rest, t.Behind P a

/-! ### Other queries -/

namespace Table

variable {P : Join → Prop} {a : String} {f : Plan → Plan} {g : Condition → List Condition}
  {t : Table} {ts : List Table}

theorem mapLeavesAll_eq_map : mapLeavesAll g ts = ts.map (mapPlan (Plan.mapLeaves g)) := by
  induction ts with
  | nil => rfl
  | cons t ts ih => cases t <;> simp [mapLeavesAll, mapPlan, ih]

theorem behind_mapPlan : (t.mapPlan f).Behind P a ↔ t.Behind P a := by
  cases t <;> rfl

theorem isPrimary_of_behind (h : t.Behind P a) : t.isPrimary = false := by
  cases t with
  | primary => exact h.2.elim
  | _ => rfl

theorem map_aliasName_map_mapPlan : (ts.map (mapPlan f)).map aliasName = ts.map aliasName := by
  rw [List.map_map]
  exact List.map_congr_left fun t _ => aliasName_mapPlan

theorem join_mem_map_mapPlan {j : Join} : .join j ∈ ts.map (mapPlan f) ↔ .join j ∈ ts := by
  rw [List.mem_map]
  constructor
  · rintro ⟨t, ht, he⟩
    cases t with
    | join => exact he ▸ ht
    | _ => cases he
  · exact fun h => ⟨_, h, rfl⟩

theorem exists_of_lateral_mem_map_mapPlan {x fromAlias : String} {query : Plan}
    (h : .lateral x fromAlias query ∈ ts.map (mapPlan f)) :
    ∃ q, .lateral x fromAlias q ∈ ts ∧ query = f q := by
  obtain ⟨t, ht, he⟩ := List.mem_map.1 h
  cases t with
  | lateral x' fromAlias' q =>
    obtain ⟨rfl, rfl, rfl⟩ := Table.lateral.inj he
    exact ⟨q, ht, rfl⟩
  | _ => cases he

end Table

namespace Plan

variable {L : String → Prop} {rank : String → Nat} {P : Join → Prop} {a table : String} {p : Plan}
  {keep removed : List String} {f : Condition → List Condition}

theorem tables_mapLeaves : (p.mapLeaves f).tables = p.tables.map (Table.mapPlan (mapLeaves f)) := by
  cases p
  exact Table.mapLeavesAll_eq_map

theorem sortKeys_mapLeaves : (p.mapLeaves f).sortKeys = p.sortKeys := by
  cases p
  rfl

/-! ### Tables that are apart -/

namespace Apart

theorem mapLeaves (h : p.Apart L rank) (hf : Condition.KeepsReferences f) :
    (p.mapLeaves f).Apart L rank := by
  obtain ⟨selects, tables, condition, sortKeys, groupBys, ctes⟩ := p
  refine ⟨fun a ha => h.selects a (Select.referencesOf_mapLeavesAll hf ha),
    fun a ha => h.condition a (Group.referencesOf_mapLeavesTop hf ha), h.sortKeys, h.groupBys,
    fun j hj => h.joins j ?_, fun x fromAlias query hx => ?_⟩
  · rwa [tables_mapLeaves, Table.join_mem_map_mapPlan] at hj
  · rw [tables_mapLeaves] at hx
    obtain ⟨q, hq, rfl⟩ := Table.exists_of_lateral_mem_map_mapPlan hx
    exact ⟨(h.laterals x fromAlias q hq).1, fun a ha =>
      (h.laterals x fromAlias q hq).2 a (references_mapLeaves hf ha)⟩

theorem addNullChecks (h : p.Apart L rank) {idDbType : String → String} :
    (p.addNullChecks idDbType).Apart L rank :=
  h.mapLeaves Condition.keepsReferences_withNullCheck

theorem remove (h : p.Apart L rank) : (p.remove removed).Apart L rank := by
  have hleft : Apart L rank { p with tables := p.tables.filter (·.aliasName ∉ removed) } :=
    { h with
      joins := fun j hj => h.joins j (List.mem_filter.1 hj).1
      laterals := fun x fromAlias query hx => h.laterals x fromAlias query (List.mem_filter.1 hx).1 }
  have hleaves := hleft.mapLeaves (f := Condition.withoutRemoved removed)
    Condition.keepsReferences_withoutRemoved
  refine { hleaves with condition := fun a ha => hleaves.condition a ?_ }
  change a ∈ Group.referencesOf (Group.nonempty? _) at ha
  unfold Group.nonempty? at ha
  split at ha
  · cases ha
  · exact ha

theorem trim (h : p.Apart L rank) : (p.trim keep).Apart L rank := trim_induct (fun _ => remove) h

/-- Where everything is referred to, no table is apart. -/
theorem not_of_unreferenced (h : p.Apart L rank) (hall : p.unreferenced [] = []) :
    ∀ t ∈ p.tables, t.isPrimary = false → ¬ L t.aliasName := by
  suffices ∀ n, ∀ t ∈ p.tables, t.isPrimary = false → rank t.aliasName = n → ¬ L t.aliasName from
    fun t ht hp => this _ t ht hp rfl
  intro n
  induction n using Nat.strongRecOn with
  | ind n ih =>
    intro t ht hp hn hL
    have hreferred : t.aliasName ∈ p.references := by
      by_contra hnot
      have hm : t.aliasName ∈ p.unreferenced [] :=
        mem_unreferenced_iff.2 ⟨⟨t, ht, hp, rfl⟩, List.not_mem_nil, hnot⟩
      rw [hall] at hm
      cases hm
    rcases mem_references_iff.1 hreferred with ha | ha | ⟨k, hk, ha⟩ | ⟨c, hc, ha⟩ | ha
    · exact h.selects _ ha hL
    · exact h.condition _ ha hL
    · exact h.sortKeys k hk (ha ▸ hL)
    · exact h.groupBys c hc (ha ▸ hL)
    · rcases Table.mem_referencesOf_iff.1 ha with ⟨j, hj, ha⟩ | ⟨x, fromAlias, query, hx, ha | ha⟩
      · -- the join that refers to it is apart as well, and ranks below it
        obtain ⟨hown, hrank⟩ := h.joins j hj (ha ▸ hL)
        exact ih _ (by rw [← hn, ha]; exact hrank) (.join j) hj rfl rfl hown
      · exact (h.laterals x fromAlias query hx).1 (ha ▸ hL)
      · exact (h.laterals x fromAlias query hx).2 _ ha hL

end Apart

/-! ### Plans with a primary table -/

namespace Rooted

theorem mono {Q : Join → Prop} (h : p.Rooted P a table) (hsub : ∀ j, P j → Q j) :
    p.Rooted Q a table := by
  obtain ⟨rest, hp, hrest⟩ := h
  refine ⟨rest, hp, fun t ht => ⟨(hrest t ht).1, ?_⟩⟩
  have hshape := (hrest t ht).2
  cases t with
  | join j => exact hsub j hshape
  | _ => exact hshape

theorem of_tables {q : Plan} (h : p.Rooted P a table)
    {g : Plan → Plan} (hq : q.tables = p.tables.map (Table.mapPlan g)) : q.Rooted P a table := by
  obtain ⟨rest, hp, hrest⟩ := h
  refine ⟨rest.map (Table.mapPlan g), by rw [hq, hp]; rfl, List.forall_mem_map.2 fun t ht => ?_⟩
  exact Table.behind_mapPlan.2 (hrest t ht)

theorem remove (h : p.Rooted P a table) : (p.remove (p.unreferenced keep)).Rooted P a table := by
  have hleft : Rooted P a table
      { p with tables := p.tables.filter (·.aliasName ∉ p.unreferenced keep) } := by
    obtain ⟨rest, hp, hrest⟩ := h
    have hprimary : (Table.primary a table).aliasName ∉ p.unreferenced keep := fun hm => by
      obtain ⟨⟨t, ht, hnot, hname⟩, -⟩ := mem_unreferenced_iff.1 hm
      rw [hp] at ht
      rcases List.mem_cons.1 ht with rfl | ht
      · cases hnot
      · exact (hrest t ht).1 hname
    refine ⟨rest.filter (·.aliasName ∉ p.unreferenced keep), ?_, fun t ht =>
      hrest t (List.mem_filter.1 ht).1⟩
    show List.filter _ p.tables = _
    rw [hp, List.filter_cons, if_pos (decide_eq_true hprimary)]
  exact hleft.of_tables (by rw [tables_remove, Table.mapLeavesAll_eq_map])

theorem trim (h : p.Rooted P a table) : (p.trim keep).Rooted P a table :=
  trim_induct (fun _ => remove) h

/-- A pruned plan has none of the tables that are apart. -/
theorem prune (h : p.Rooted P a table) (hapart : p.Apart L rank) :
    (p.prune []).Rooted (fun j => P j ∧ ¬ L j.aliasName) a table := by
  have htrim : (p.trim []).Rooted (fun j => P j ∧ ¬ L j.aliasName) a table := by
    obtain ⟨rest, hp, hrest⟩ : (p.trim []).Rooted P a table := h.trim
    refine ⟨rest, hp, fun t ht => ?_⟩
    have hnot := hapart.trim.not_of_unreferenced unreferenced_trim t
      (hp ▸ List.mem_cons_of_mem _ ht) (Table.isPrimary_of_behind (hrest t ht))
    obtain ⟨hne, hshape⟩ := hrest t ht
    refine ⟨hne, ?_⟩
    cases t with
    | join j => exact ⟨hshape, hnot⟩
    | _ => exact hshape
  unfold Plan.prune
  cases p.depth with
  | zero => exact htrim
  | succ n => exact htrim.of_tables rfl

end Rooted

end Plan

end EntityQuery
