import EntityQuery.Proofs.Collection.Acyclic

/-!
# The collections of ordered tables

The tables of a plan have names of their own, and each stands behind the table that it is joined to.
So no table is above itself, and whatever joins are collections, these form a forest.

* `Table.Ordered`: the order of the tables;
* `Plan.parent?_iff`: parents in terms of the tables;
* `Plan.Grounded`: each table is joined to a table of the plan, and none to itself;
* `Plan.Grounded.isForest`, `Plan.isForest`: the collections of such a plan form a forest;
* `Plan.pairwise_collections`: no collection is below one that comes after it.
-/

namespace EntityQuery

/-- Tables under names of their own, each behind the one that it is joined to. -/
def Table.Ordered : List String → List Table → Prop
  | _, [] => True
  | names, t :: rest => (∀ a, t.parentAlias? = some a → a ∈ names) ∧ t.aliasName ∉ names ∧
      Table.Ordered (names ++ [t.aliasName]) rest

namespace Table.Ordered

variable {names : List String} {ts : List Table}

theorem alias_not_mem (h : Ordered names ts) : ∀ t ∈ ts, t.aliasName ∉ names := by
  induction ts generalizing names with
  | nil => simp
  | cons t ts ih =>
    obtain ⟨-, hfresh, hrest⟩ := h
    intro t' ht'
    rcases List.mem_cons.1 ht' with rfl | ht'
    · exact hfresh
    · exact fun hm => ih hrest t' ht' (List.mem_append_left _ hm)

theorem nodup (h : Ordered names ts) : (ts.map Table.aliasName).Nodup := by
  induction ts generalizing names with
  | nil => simp
  | cons t ts ih =>
    obtain ⟨-, -, hrest⟩ := h
    rw [List.map_cons, List.nodup_cons]
    refine ⟨fun hm => ?_, ih hrest⟩
    obtain ⟨t', ht', he⟩ := List.mem_map.1 hm
    exact hrest.alias_not_mem t' ht' (by rw [he]; simp)

theorem parent_mem (h : Ordered names ts) : ∀ t ∈ ts, ∀ a, t.parentAlias? = some a →
    a ∈ names ++ ts.map Table.aliasName := by
  induction ts generalizing names with
  | nil => simp
  | cons t ts ih =>
    obtain ⟨hparent, -, hrest⟩ := h
    intro t' ht' a ha
    rcases List.mem_cons.1 ht' with rfl | ht'
    · exact List.mem_append_left _ (hparent a ha)
    · have := ih hrest t' ht' a ha
      rwa [List.append_assoc] at this

/-- A table stands behind the one that it is joined to, in terms of the places. -/
theorem idxOf_parent_lt (h : Ordered names ts) : ∀ t ∈ ts, ∀ a, t.parentAlias? = some a →
    (names ++ ts.map Table.aliasName).idxOf a <
      (names ++ ts.map Table.aliasName).idxOf t.aliasName := by
  induction ts generalizing names with
  | nil => simp
  | cons t ts ih =>
    obtain ⟨hparent, hfresh, hrest⟩ := h
    intro t' ht' a ha
    rcases List.mem_cons.1 ht' with rfl | ht'
    · rw [List.idxOf_append_of_mem (hparent a ha), List.idxOf_append_of_notMem hfresh]
      exact Nat.lt_add_right _ (List.idxOf_lt_length_of_mem (hparent a ha))
    · have := ih hrest t' ht' a ha
      rwa [List.append_assoc] at this

end Table.Ordered

/-! ### Parents -/

section

variable {p : Plan} {joins : List Join} {a b : String}

theorem Table.eq_of_aliasName {ts : List Table} {t t' : Table}
    (h : (ts.map Table.aliasName).Nodup) (ht : t ∈ ts) (ht' : t' ∈ ts)
    (he : t.aliasName = t'.aliasName) : t = t' :=
  List.inj_on_of_nodup_map h ht ht' he

/-- The parent of a table is the one that the table is joined to. -/
theorem Plan.parent?_iff (h : (p.tables.map Table.aliasName).Nodup) :
    (Collections.ofPlan p joins).parent? a = some b ↔
      ∃ t ∈ p.tables, t.aliasName = a ∧ t.parentAlias? = some b := by
  have entries : ∀ entry, entry ∈ (Collections.ofPlan p joins).parents ↔
      ∃ t ∈ p.tables, t.aliasName = entry.1 ∧ t.parentAlias? = some entry.2 := by
    rintro ⟨x, y⟩
    rw [Collections.ofPlan, List.mem_reverse, List.mem_filterMap]
    simp only [Option.map_eq_some_iff, Prod.mk.injEq]
    constructor
    · rintro ⟨t, ht, z, hz, rfl, rfl⟩
      exact ⟨t, ht, rfl, hz⟩
    · rintro ⟨t, ht, rfl, hz⟩
      exact ⟨t, ht, y, hz, rfl, rfl⟩
  rw [Collections.parent?]
  constructor
  · intro hf
    obtain ⟨entry, hentry, rfl⟩ := Option.map_eq_some_iff.1 hf
    obtain ⟨t, ht, hta, hp⟩ := (entries entry).1 (List.mem_of_find?_eq_some hentry)
    exact ⟨t, ht, hta.trans (by simpa using List.find?_some hentry), hp⟩
  · rintro ⟨t, ht, rfl, hp⟩
    have hex : ∃ entry ∈ (Collections.ofPlan p joins).parents,
        decide (entry.1 = t.aliasName) = true :=
      ⟨(t.aliasName, b), (entries _).2 ⟨t, ht, rfl, hp⟩, by simp⟩
    obtain ⟨entry, hf⟩ := Option.isSome_iff_exists.1 (List.find?_isSome.2 hex)
    obtain ⟨t', ht', hta, hp'⟩ := (entries entry).1 (List.mem_of_find?_eq_some hf)
    have hx : entry.1 = t.aliasName := by simpa using List.find?_some hf
    obtain rfl := Table.eq_of_aliasName h ht' ht (hta.trans hx)
    rw [hf, Option.map_some, Option.some.inj (hp'.symm.trans hp)]

/-- The join of a collection is among the joins that are given. -/
theorem Plan.of_join? {j : Join} (h : (Collections.ofPlan p joins).join? a = some j) :
    j ∈ joins ∧ j.aliasName = a ∧ a ∈ p.tables.map Table.aliasName := by
  rw [Collections.join?] at h
  have hja : j.aliasName = a := by simpa using List.find?_some h
  have hm := List.mem_of_find?_eq_some h
  rw [Collections.ofPlan, List.mem_reverse, List.mem_filter, Plan.hasAlias, List.any_eq_true] at hm
  obtain ⟨hj, t, ht, hta⟩ := hm
  exact ⟨hj, hja, List.mem_map.2 ⟨t, ht, (of_decide_eq_true hta).trans hja⟩⟩

end

/-! ### The forest -/

/-- A table of the plan is joined to another one. -/
def Plan.JoinedTo (p : Plan) (a b : String) : Prop :=
  ∃ t ∈ p.tables, t.aliasName = a ∧ t.parentAlias? = some b

/-- The tables have names of their own, and each is joined to a table of the plan, none of them to
itself, directly or not. -/
structure Plan.Grounded (p : Plan) : Prop where
  nodup : (p.tables.map Table.aliasName).Nodup
  parent_mem : ∀ {a b}, p.JoinedTo a b → b ∈ p.tables.map Table.aliasName
  acyclic : ∀ a, ¬ Relation.TransGen p.JoinedTo a a

section

variable {p : Plan} (joins : List Join)

/-- Whatever joins of a grounded plan are collections, these form a forest. -/
theorem Plan.Grounded.isForest (h : p.Grounded) : (Collections.ofPlan p joins).IsForest := by
  have acyclic : (Collections.ofPlan p joins).Acyclic := fun a ha =>
    h.acyclic a (Relation.TransGen.mono (fun _ _ hp => (Plan.parent?_iff h.nodup).1 hp) _ _ ha)
  refine acyclic.isForest (fun hp => ?_) (fun hc => ?_) h.nodup
  · obtain ⟨t, ht, rfl, hparent⟩ := (Plan.parent?_iff h.nodup).1 hp
    exact ⟨List.mem_map_of_mem ht, h.parent_mem ⟨t, ht, rfl, hparent⟩⟩
  · obtain ⟨j, hj⟩ := Option.isSome_iff_exists.1 hc
    exact (Plan.of_join? hj).2.2

theorem Table.Ordered.grounded (h : Table.Ordered [] p.tables) : p.Grounded where
  nodup := h.nodup
  parent_mem := by
    rintro a b ⟨t, ht, -, hparent⟩
    exact h.parent_mem t ht b hparent
  acyclic := by
    refine not_transGen_of_rank (p.tables.map Table.aliasName).idxOf ?_
    rintro a b ⟨t, ht, rfl, hparent⟩
    exact h.idxOf_parent_lt t ht b hparent

/-- The collections of a plan with ordered tables form a forest. -/
theorem Plan.isForest (h : Table.Ordered [] p.tables) :
    (Collections.ofPlan p joins).IsForest := h.grounded.isForest joins

/-- A collection comes before the tables that are below it. -/
theorem Plan.idxOf_le_of_mem_above (h : Table.Ordered [] p.tables) {c : String} :
    ∀ a, c ∈ (Collections.ofPlan p joins).above a →
      (p.tables.map Table.aliasName).idxOf c ≤ (p.tables.map Table.aliasName).idxOf a := by
  refine (Plan.isForest joins h).induction fun a ih hc => ?_
  by_cases hne : a = c
  · rw [hne]
  · obtain ⟨b, hp, hb⟩ := (Plan.isForest joins h).exists_parent_of_mem_above hc hne
    obtain ⟨t, ht, rfl, hparent⟩ := (Plan.parent?_iff h.nodup).1 hp
    exact (ih _ hp hb).trans (h.idxOf_parent_lt t ht b hparent).le

/-- No collection is below one that comes after it. -/
theorem Plan.pairwise_collections (h : Table.Ordered [] p.tables) :
    (Collections.ofPlan p joins).collections.Pairwise fun c d =>
      d ∉ (Collections.ofPlan p joins).above c := by
  have hsub : (Collections.ofPlan p joins).collections.Sublist (p.tables.map Table.aliasName) :=
    List.filter_sublist
  refine List.Pairwise.sublist hsub (List.pairwise_iff_getElem.2 fun i k hi hk hlt hm => ?_)
  have := Plan.idxOf_le_of_mem_above joins h _ hm
  rw [h.nodup.idxOf_getElem, h.nodup.idxOf_getElem] at this
  omega

end

end EntityQuery
