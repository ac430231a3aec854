import EntityQuery.Proofs.Collection.Ordered

/-!
# Ownership of tables

Which collection a table belongs to can be asked in three ways: of the tables above it, of the
collections around its nearest collection, and of the lists of tables that belong to a collection.
Where no table is above itself, the answers agree.

* `Plan.Lineage`: a table and all tables above it;
* `Collections.Follows`: the collections of a table are those on its lineage;
* `Collections.Partitioned`: the subtrees of the roots are apart, and each subtree is divided between
  the collection itself and those nested in it;
* `Plan.owned_ofPlan`: both hold of the collections of a plan.
-/

namespace EntityQuery

/-- A table and the tables above it, up to one that is joined to none. -/
inductive Plan.Lineage (p : Plan) : String → List String → Prop
  | top {a : String} (h : ∀ b, ¬ p.JoinedTo a b) : Lineage p a [a]
  | joined {a b : String} {path : List String} (h : p.JoinedTo a b) (rest : Lineage p b path) :
      Lineage p a (a :: path)

namespace Collections

/-- Which collection a table belongs to follows the joins of the plan, where `names` are the tables
of collections. -/
structure Follows (t : Collections) (p : Plan) (names : List String) : Prop where
  /-- The nearest collection is the first one on the way up. -/
  nearest : ∀ {a path}, p.Lineage a path → t.nearest? a = path.find? (· ∈ names)
  /-- The root is the last collection on the way up. -/
  root : ∀ {a path}, p.Lineage a path → t.root? a = path.reverse.find? (· ∈ names)
  /-- A table is in the subtrees of the collections on its way up. -/
  inSubtree : ∀ {a path}, p.Lineage a path → ∀ {c}, t.inSubtree a c = true ↔ c ∈ path ∧ c ∈ names
  /-- They are the collections that one comes to from the nearest one. -/
  climbs : ∀ {a c}, t.inSubtree a c = true ↔ t.Climbs a c
  /-- The subtrees of the roots hold the tables with a collection on their way up. -/
  covered : ∀ {a path}, p.Lineage a path →
    ((∃ r ∈ t.roots, a ∈ t.subtree r) ↔ ∃ c ∈ path, c ∈ names)

/-- The tables are divided between the roots and within each subtree. -/
structure Partitioned (t : Collections) : Prop where
  /-- No table is in the subtrees of two roots. -/
  apart : t.roots.Pairwise fun r r' => (t.subtree r).Disjoint (t.subtree r')
  nodup_subtree : ∀ c, (t.subtree c).Nodup
  /-- A table below a collection belongs to it or is below one nested in it, and not to two of them. -/
  subtree_perm : ∀ c, (t.subtree c).Perm (t.ownedBy c ++ (t.childrenOf c).flatMap t.subtree)

namespace IsForest

variable {t : Collections} {a b c d : String}

/-! ### Subtrees -/

theorem nodup_subtree (h : t.IsForest) : (t.subtree c).Nodup := h.nodup_aliases.filter _

theorem disjoint_subtree_children (h : t.IsForest) : (t.childrenOf c).Pairwise fun d d' =>
    (t.subtree d).Disjoint (t.subtree d') :=
  h.nodup_childrenOf.imp_of_mem fun hd hd' hne _ ha ha' =>
    hne (h.child_unique hd hd' (h.mem_subtree_iff.1 ha) (h.mem_subtree_iff.1 ha'))

/-- The subtree of a collection is divided between it and the collections nested in it. -/
theorem subtree_perm (h : t.IsForest) (c : String) :
    (t.subtree c).Perm (t.ownedBy c ++ (t.childrenOf c).flatMap t.subtree) := by
  have hparts : (t.ownedBy c ++ (t.childrenOf c).flatMap t.subtree).Nodup := by
    refine List.nodup_append'.2 ⟨h.nodup_aliases.filter _, ?_, fun a ha hm => ?_⟩
    · exact List.nodup_flatMap.2 ⟨fun d _ => h.nodup_subtree, h.disjoint_subtree_children⟩
    · obtain ⟨d, hd, hm⟩ := List.mem_flatMap.1 hm
      exact h.not_mem_above_of_nearest (h.mem_ownedBy_iff.1 ha) hd (h.mem_subtree_iff.1 hm)
  refine (List.perm_ext_iff_of_nodup h.nodup_subtree hparts).2 fun a => ?_
  rw [h.mem_subtree_iff, List.mem_append, List.mem_flatMap, h.mem_ownedBy_iff]
  simp only [h.mem_subtree_iff]
  constructor
  · exact h.child_of_mem_above a
  · rintro (hn | ⟨d, hd, hm⟩)
    · exact mem_above_of_nearest hn
    · exact h.mem_above_of_mem_childrenOf hd hm

theorem partitioned (h : t.IsForest) : t.Partitioned where
  apart := h.nodup_roots.imp_of_mem fun hr hr' hne _ ha ha' =>
    hne (h.root_unique hr hr' (h.mem_subtree_iff.1 ha) (h.mem_subtree_iff.1 ha'))
  nodup_subtree _ := h.nodup_subtree
  subtree_perm := h.subtree_perm

/-- The subtrees of the roots hold the tables that some collection is above. -/
theorem exists_root_iff (h : t.IsForest) :
    (∃ r ∈ t.roots, a ∈ t.subtree r) ↔ ∃ c ∈ t.chain a, t.isCollection c := by
  simp only [h.mem_subtree_iff]
  constructor
  · rintro ⟨r, -, hr⟩
    exact ⟨r, mem_above.1 hr⟩
  · rintro ⟨c, hc⟩
    cases hr : t.root? a with
    | none =>
      have hc : c ∈ t.above a := mem_above.2 hc
      rw [root?_eq_none_iff.1 hr] at hc
      cases hc
    | some r => exact ⟨r, h.root?_eq_some_iff.1 hr⟩

end IsForest

end Collections

/-! ### Plans -/

section

variable {p : Plan} {joins : List Join} {a : String}

/-- The chain of a table leads through the joins of the plan. -/
theorem Plan.Grounded.lineage_chain (h : p.Grounded) (joins : List Join) :
    ∀ a, p.Lineage a ((Collections.ofPlan p joins).chain a) := by
  have hF := h.isForest joins
  refine hF.induction fun a ih => ?_
  cases hp : (Collections.ofPlan p joins).parent? a with
  | none =>
    rw [hF.chain_of_no_parent hp]
    refine .top fun b hb => ?_
    rw [(Plan.parent?_iff h.nodup).2 hb] at hp
    cases hp
  | some b =>
    rw [hF.chain_of_parent hp]
    exact .joined ((Plan.parent?_iff h.nodup).1 hp) (ih b hp)

/-- A table has one lineage. -/
theorem Plan.Grounded.lineage_unique (h : p.Grounded) {path path' : List String}
    (hpath : p.Lineage a path) (hpath' : p.Lineage a path') : path = path' := by
  induction hpath generalizing path' with
  | top htop =>
    cases hpath' with
    | top => rfl
    | joined hjoin => exact absurd hjoin (htop _)
  | joined hjoin _ ih =>
    cases hpath' with
    | top htop => exact absurd hjoin (htop _)
    | joined hjoin' hrest' =>
      have hparent : (Collections.ofPlan p []).parent? _ = some _ :=
        (Plan.parent?_iff h.nodup).2 hjoin
      rw [(Plan.parent?_iff h.nodup).2 hjoin', Option.some.injEq] at hparent
      rw [ih (hparent ▸ hrest')]

theorem Collections.isCollection_ofPlan (hjoins : ∀ j ∈ joins, j ∈ p.joins) {c : String} :
    (Collections.ofPlan p joins).isCollection c = true ↔ c ∈ joins.map (·.aliasName) := by
  rw [Collections.isCollection, Option.isSome_iff_exists, List.mem_map]
  constructor
  · rintro ⟨j, hj⟩
    exact ⟨j, (Plan.of_join? hj).1, (Plan.of_join? hj).2.1⟩
  · rintro ⟨j, hj, rfl⟩
    obtain ⟨t, ht, htj⟩ := List.mem_filterMap.1 (hjoins j hj)
    have hname : t.aliasName = j.aliasName := by
      cases t <;> simp_all [Table.join?, Table.aliasName]
    refine Option.isSome_iff_exists.1 (List.find?_isSome.2 ⟨j, ?_, decide_eq_true rfl⟩)
    rw [Collections.ofPlan, List.mem_reverse, List.mem_filter, Plan.hasAlias, List.any_eq_true]
    exact ⟨hj, t, ht, decide_eq_true hname⟩

end

/-- What collections a table belongs to follows the joins of the plan. -/
theorem Plan.owned_ofPlan {p : Plan} (h : p.Grounded) {joins : List Join}
    (hjoins : ∀ j ∈ joins, j ∈ p.joins) : (∀ a, ∃ path, p.Lineage a path) ∧
      (Collections.ofPlan p joins).Follows p (joins.map (·.aliasName)) ∧
      (Collections.ofPlan p joins).Partitioned := by
  have hF := h.isForest joins
  have hcollection : (Collections.ofPlan p joins).isCollection =
      fun c => decide (c ∈ joins.map (·.aliasName)) := by
    funext c
    rw [Bool.eq_iff_iff, Collections.isCollection_ofPlan hjoins, decide_eq_true_iff]
  have hchain : ∀ {a path}, p.Lineage a path → path = (Collections.ofPlan p joins).chain a :=
    fun hpath => h.lineage_unique hpath (h.lineage_chain joins _)
  refine ⟨fun a => ⟨_, h.lineage_chain joins a⟩, ?_, hF.partitioned⟩
  constructor
  case nearest =>
    intro a path hpath
    rw [hchain hpath, Collections.nearest?, Collections.above, List.head?_filter, hcollection]
  case root =>
    intro a path hpath
    rw [hchain hpath, Collections.root?, Collections.above, hcollection, ← List.head?_reverse,
      ← List.filter_reverse, List.head?_filter]
  case inSubtree =>
    intro a path hpath c
    rw [hchain hpath, Collections.inSubtree_iff, Collections.mem_above,
      Collections.isCollection_ofPlan hjoins]
  case climbs => exact Collections.inSubtree_iff_climbs
  case covered =>
    intro a path hpath
    simp only [hchain hpath, hF.exists_root_iff, Collections.isCollection_ofPlan hjoins]

/-- A join of `table` to `parent` by a foreign key. -/
def joinBelow (aliasName table parent : String) : Join :=
  ⟨aliasName, table, .outer, ⟨parent, "id"⟩, ⟨aliasName, "parent_id"⟩, none⟩

/-- Authors with the reviews of their books, the images of these and the authors of their publisher;
the reviews stand in front of the books that they are joined to. -/
def shelves : Plan where
  selects := []
  tables := [.join (joinBelow "br" "book_reviews" "b"), .primary "a" "authors",
    .join (joinBelow "b" "books" "a"), .join (joinBelow "i" "images" "b"),
    .join (joinBelow "p" "publishers" "a"), .join (joinBelow "a1" "authors" "p")]
  condition := none
  sortKeys := []
  groupBys := none
  ctes := none

/-- The joins of `shelves` that are collections. -/
def shelvesCollections : List Join :=
  [joinBelow "b" "books" "a", joinBelow "br" "book_reviews" "b", joinBelow "a1" "authors" "p"]

theorem owned_shelves : shelves.Grounded ∧ (∀ j ∈ shelvesCollections, j ∈ shelves.joins) ∧
    (∀ a, ∃ path, shelves.Lineage a path) ∧
    (Collections.ofPlan shelves shelvesCollections).Follows shelves ["b", "br", "a1"] ∧
    (Collections.ofPlan shelves shelvesCollections).Partitioned := by
  have hgrounded : shelves.Grounded := by
    refine ⟨by decide, ?_, not_transGen_of_rank
      (["a", "b", "p", "br", "i", "a1"].idxOf) ?_⟩
    all_goals
      rintro a b ⟨t, ht, rfl, hp⟩
      simp only [shelves, List.mem_cons, List.not_mem_nil, or_false] at ht
      rcases ht with rfl | rfl | rfl | rfl | rfl | rfl <;> cases hp <;> decide
  have hjoins : ∀ j ∈ shelvesCollections, j ∈ shelves.joins := by decide
  exact ⟨hgrounded, hjoins, Plan.owned_ofPlan hgrounded hjoins⟩

end EntityQuery
