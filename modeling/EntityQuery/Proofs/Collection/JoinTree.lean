import EntityQuery.Proofs.Collection.Ordered
import EntityQuery.Proofs.Evaluation.Fit

/-!
# The collections of a join tree

In a join tree every join refers to a table in front of it.  So its tables can be bound in their
order, and whatever joins of it are collections, these form a forest.

* `JoinTree.staged`: the tables of a join tree are staged;
* `JoinTree.parent?_iff`, `JoinTree.join?_iff`: parents and collections in terms of the joins;
* `JoinTree.isForest`: the collections of a join tree form a forest.
-/

namespace EntityQuery

namespace Join.Ordered

variable {names : List String} {joins : List Join}

theorem alias_not_mem (h : Ordered names joins) : ∀ j ∈ joins, j.aliasName ∉ names := by
  induction joins generalizing names with
  | nil => simp
  | cons j joins ih =>
    obtain ⟨_, hfresh, _, hrest⟩ := h
    intro j' hj'
    rcases List.mem_cons.1 hj' with rfl | hj'
    · exact hfresh
    · exact fun hm => ih hrest j' hj' (List.mem_append_left _ hm)

theorem nodup (h : Ordered names joins) : (joins.map (·.aliasName)).Nodup := by
  induction joins generalizing names with
  | nil => simp
  | cons j joins ih =>
    obtain ⟨_, _, _, hrest⟩ := h
    rw [List.map_cons, List.nodup_cons]
    refine ⟨fun hm => ?_, ih hrest⟩
    obtain ⟨j', hj', he⟩ := List.mem_map.1 hm
    exact hrest.alias_not_mem j' hj' (by rw [he]; simp)

theorem own_aliasName (h : Ordered names joins) : ∀ j ∈ joins, j.own.aliasName = j.aliasName := by
  induction joins generalizing names with
  | nil => simp
  | cons j joins ih =>
    obtain ⟨_, _, hown, hrest⟩ := h
    intro j' hj'
    rcases List.mem_cons.1 hj' with rfl | hj'
    · exact hown
    · exact ih hrest j' hj'

theorem parent_mem (h : Ordered names joins) :
    ∀ j ∈ joins, j.parent.aliasName ∈ names ++ joins.map (·.aliasName) := by
  induction joins generalizing names with
  | nil => simp
  | cons j joins ih =>
    obtain ⟨hparent, _, _, hrest⟩ := h
    intro j' hj'
    rcases List.mem_cons.1 hj' with rfl | hj'
    · exact List.mem_append_left _ hparent
    · have := ih hrest j' hj'
      rwa [List.append_assoc] at this

/-- A join refers to a table in front of it, so not to itself nor to one behind it. -/
theorem parent_ne (h : Ordered names joins) :
    joins.Pairwise (fun j j' => j.parent.aliasName ≠ j'.aliasName) ∧
      ∀ j ∈ joins, j.parent.aliasName ≠ j.aliasName := by
  induction joins generalizing names with
  | nil => simp
  | cons j joins ih =>
    obtain ⟨hparent, hfresh, _, hrest⟩ := h
    obtain ⟨hp, hn⟩ := ih hrest
    refine ⟨List.pairwise_cons.2 ⟨fun j' hj' he => ?_, hp⟩, fun j' hj' => ?_⟩
    · exact hrest.alias_not_mem j' hj' (List.mem_append_left _ (he ▸ hparent))
    · rcases List.mem_cons.1 hj' with rfl | hj'
      · exact fun he => hfresh (he ▸ hparent)
      · exact hn j' hj'

/-- A join refers to a table in front of it, in terms of the places. -/
theorem idxOf_parent_lt (h : Ordered names joins) : ∀ j ∈ joins,
    (names ++ joins.map (·.aliasName)).idxOf j.parent.aliasName <
      (names ++ joins.map (·.aliasName)).idxOf j.aliasName := by
  induction joins generalizing names with
  | nil => simp
  | cons j joins ih =>
    obtain ⟨hparent, hfresh, _, hrest⟩ := h
    intro j' hj'
    rcases List.mem_cons.1 hj' with rfl | hj'
    · rw [List.idxOf_append_of_mem hparent, List.idxOf_append_of_notMem hfresh]
      exact Nat.lt_add_right _ (List.idxOf_lt_length_of_mem hparent)
    · have := ih hrest j' hj'
      rwa [List.append_assoc] at this

end Join.Ordered

namespace JoinTree

variable (T : JoinTree)

theorem nodup_aliases : T.aliases.Nodup := by
  rw [aliases, List.nodup_cons]
  refine ⟨fun hm => ?_, T.ordered.nodup⟩
  obtain ⟨j, hj, he⟩ := List.mem_map.1 hm
  exact T.ordered.alias_not_mem j hj (by simp [he])

theorem eq_of_aliasName {T : JoinTree} {j j' : Join} (hj : j ∈ T.joins) (hj' : j' ∈ T.joins)
    (h : j.aliasName = j'.aliasName) : j = j' :=
  List.inj_on_of_nodup_map T.ordered.nodup hj hj' h

theorem aliasName_mem {T : JoinTree} {j : Join} (hj : j ∈ T.joins) : j.aliasName ∈ T.aliases :=
  List.mem_cons_of_mem _ (List.mem_map_of_mem hj)

theorem parent_mem {T : JoinTree} {j : Join} (hj : j ∈ T.joins) :
    j.parent.aliasName ∈ T.aliases := T.ordered.parent_mem j hj

/-- The tables of a join tree can be bound in their order. -/
theorem staged : Table.Staged T.tables where
  flat t ht := by
    rcases List.mem_cons.1 ht with rfl | ht
    · rfl
    · obtain ⟨j, -, rfl⟩ := List.mem_map.1 ht
      rfl
  irreflexive t ht := by
    rcases List.mem_cons.1 ht with rfl | ht
    · simp [Table.parentAlias?]
    · obtain ⟨j, hj, rfl⟩ := List.mem_map.1 ht
      simpa [Table.parentAlias?, Table.aliasName] using T.ordered.parent_ne.2 j hj
  pairwise := by
    have hnames := T.nodup_aliases
    rw [← T.map_aliasName_tables, List.Nodup, List.pairwise_map] at hnames
    refine hnames.and (List.pairwise_cons.2 ⟨by simp [Table.parentAlias?], ?_⟩)
    rw [List.pairwise_map]
    exact T.ordered.parent_ne.1.imp fun h he => h (Option.some.inj he)

theorem mem_tables_iff {T : JoinTree} {t : Table} :
    t ∈ T.tables ↔ t = .primary T.aliasName T.table ∨ ∃ j ∈ T.joins, t = .join j := by
  simp [tables, eq_comm]

/-! ### Parents and collections -/

section

variable {T : JoinTree} {p : Plan} {joins : List Join} (hT : p.tables = T.tables)

include hT

theorem ordered_tables : Table.Ordered [] p.tables := by
  have joined : ∀ {names : List String} {js : List Join}, Join.Ordered names js →
      Table.Ordered names (js.map .join) := by
    intro names js h
    induction js generalizing names with
    | nil => trivial
    | cons j js ih =>
      obtain ⟨hparent, hfresh, -, hrest⟩ := h
      exact ⟨fun a ha => Option.some.inj ha ▸ hparent, hfresh, ih hrest⟩
  rw [hT]
  exact ⟨nofun, List.not_mem_nil, joined T.ordered⟩

theorem parent?_iff {a b : String} : (Collections.ofPlan p joins).parent? a = some b ↔
    ∃ j ∈ T.joins, j.aliasName = a ∧ j.parent.aliasName = b := by
  rw [Plan.parent?_iff (ordered_tables hT).nodup, hT]
  constructor
  · rintro ⟨t, ht, rfl, hp⟩
    rcases mem_tables_iff.1 ht with rfl | ⟨j, hj, rfl⟩
    · cases hp
    · exact ⟨j, hj, rfl, Option.some.inj hp⟩
  · rintro ⟨j, hj, rfl, rfl⟩
    exact ⟨.join j, mem_tables_iff.2 (.inr ⟨j, hj, rfl⟩), rfl, rfl⟩

variable (hjoins : ∀ j ∈ joins, j ∈ T.joins)

include hjoins

/-- The collections of a join tree are the joins that are given as such. -/
theorem join?_iff {c : String} {j : Join} :
    (Collections.ofPlan p joins).join? c = some j ↔ j ∈ joins ∧ j.aliasName = c := by
  have hmem : ∀ j, j ∈ (Collections.ofPlan p joins).joins ↔ j ∈ joins := by
    intro j
    rw [Collections.ofPlan, List.mem_reverse, List.mem_filter]
    refine and_iff_left_of_imp fun hj => ?_
    rw [Plan.hasAlias, hT, List.any_eq_true]
    exact ⟨.join j, mem_tables_iff.2 (.inr ⟨j, hjoins j hj, rfl⟩), by simp [Table.aliasName]⟩
  rw [Collections.join?]
  constructor
  · intro h
    exact ⟨(hmem j).1 (List.mem_of_find?_eq_some h), by simpa using List.find?_some h⟩
  · rintro ⟨hj, rfl⟩
    have hex : ∃ j' ∈ (Collections.ofPlan p joins).joins,
        decide (j'.aliasName = j.aliasName) = true := ⟨j, (hmem j).2 hj, by simp⟩
    obtain ⟨j', hf⟩ := Option.isSome_iff_exists.1 (List.find?_isSome.2 hex)
    have hj' := (hmem j').1 (List.mem_of_find?_eq_some hf)
    rw [hf, eq_of_aliasName (hjoins j' hj') (hjoins j hj) (by simpa using List.find?_some hf)]

theorem isCollection_iff {c : String} :
    (Collections.ofPlan p joins).isCollection c ↔ ∃ j ∈ joins, j.aliasName = c := by
  rw [Collections.isCollection, Option.isSome_iff_exists]
  simp only [join?_iff hT hjoins]

end

/-! ### The forest -/

section

variable {T : JoinTree} {p : Plan} {joins : List Join} (hT : p.tables = T.tables)

include hT

/-- The collections of a join tree form a forest. -/
theorem isForest (_hjoins : ∀ j ∈ joins, j ∈ T.joins) :
    (Collections.ofPlan p joins).IsForest := Plan.isForest joins (ordered_tables hT)

/-- A collection comes before the tables that are below it. -/
theorem idxOf_le_of_mem_above (_hjoins : ∀ j ∈ joins, j ∈ T.joins) {c : String} :
    ∀ a, c ∈ (Collections.ofPlan p joins).above a → T.aliases.idxOf c ≤ T.aliases.idxOf a := by
  have hnames : p.tables.map Table.aliasName = T.aliases := by rw [hT, map_aliasName_tables]
  exact hnames ▸ fun a => Plan.idxOf_le_of_mem_above joins (ordered_tables hT) a

end

end JoinTree

end EntityQuery
