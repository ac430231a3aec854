import EntityQuery.Proofs.Collection.Path
import Mathlib.Data.List.Infix

/-!
# The forest of collections

Parents lead from a table to the tables above it and never back.  The collections among these form a
forest: those above a table are a path to the root of its tree.

* `Collections.IsForest`: the chain of a table is the table and the chain of its parent, and no
  table comes twice;
* `IsForest.induction`: what parents hand down to their children holds of all tables;
* `IsForest.above_suffix`: the collections above a collection end the path of every table below it;
* `IsForest.root?_eq_some_iff`, `IsForest.above_of_mem_childrenOf`, `IsForest.child_of_mem_above`:
  roots, nested collections and the subtrees that they cut a subtree into.
-/

namespace EntityQuery.Collections

/-- Each table's chain leads through its parents and no table comes twice. -/
structure IsForest (t : Collections) : Prop where
  chain_eq : ∀ a, t.chain a = a :: ((t.parent? a).map t.chain).getD []
  nodup_chain : ∀ a, (t.chain a).Nodup
  mem_of_parent : ∀ {a b}, t.parent? a = some b → a ∈ t.aliases ∧ b ∈ t.aliases
  mem_of_collection : ∀ {c}, t.isCollection c → c ∈ t.aliases
  nodup_aliases : t.aliases.Nodup

namespace IsForest

variable {t : Collections} {a b c d r : String}

theorem chain_of_parent (h : t.IsForest) (hp : t.parent? a = some b) :
    t.chain a = a :: t.chain b := by
  rw [h.chain_eq, hp, Option.map_some, Option.getD_some]

theorem chain_of_no_parent (h : t.IsForest) (hp : t.parent? a = none) : t.chain a = [a] := by
  rw [h.chain_eq, hp, Option.map_none, Option.getD_none]

/-- What every table takes over from its parent holds of all tables. -/
theorem induction (h : t.IsForest) {P : String → Prop}
    (step : ∀ a, (∀ b, t.parent? a = some b → P b) → P a) (a : String) : P a := by
  suffices ∀ n a, (t.chain a).length ≤ n → P a from this _ a le_rfl
  intro n
  induction n with
  | zero =>
    intro a ha
    rw [h.chain_eq] at ha
    simp at ha
  | succ n ih =>
    intro a ha
    refine step a fun b hb => ih b ?_
    rw [h.chain_of_parent hb, List.length_cons] at ha
    omega

theorem mem_chain_self (h : t.IsForest) : a ∈ t.chain a := by
  rw [h.chain_eq]
  exact List.mem_cons_self

theorem ne_of_mem_chain_parent (h : t.IsForest) (hp : t.parent? a = some b)
    (hc : c ∈ t.chain b) : c ≠ a := by
  have := h.nodup_chain a
  rw [h.chain_of_parent hp, List.nodup_cons] at this
  rintro rfl
  exact this.1 hc

/-! ### Paths of collections -/

theorem above_of_parent (h : t.IsForest) (hp : t.parent? a = some b) :
    t.above a = if t.isCollection a then a :: t.above b else t.above b := by
  rw [above, h.chain_of_parent hp, List.filter_cons]
  rfl

theorem above_of_no_parent (h : t.IsForest) (hp : t.parent? a = none) :
    t.above a = if t.isCollection a then [a] else [] := by
  rw [above, h.chain_of_no_parent hp, List.filter_cons, List.filter_nil]

theorem nodup_above (h : t.IsForest) : (t.above a).Nodup := (h.nodup_chain a).filter _

theorem mem_above_self (h : t.IsForest) (hc : t.isCollection c) : c ∈ t.above c :=
  mem_above.2 ⟨h.mem_chain_self, hc⟩

/-- Below a collection is all that is joined to what is below it. -/
theorem mem_above_of_parent (h : t.IsForest) (hp : t.parent? a = some b) (hc : c ∈ t.above b) :
    c ∈ t.above a := by
  rw [h.above_of_parent hp]
  split_ifs
  · exact List.mem_cons_of_mem _ hc
  · exact hc

/-- What is below a collection is its table or is joined to what is below it. -/
theorem exists_parent_of_mem_above (h : t.IsForest) (hc : c ∈ t.above a) (hne : a ≠ c) :
    ∃ b, t.parent? a = some b ∧ c ∈ t.above b := by
  cases hp : t.parent? a with
  | none =>
    rw [h.above_of_no_parent hp] at hc
    split_ifs at hc
    · exact absurd (List.mem_singleton.1 hc).symm hne
    · cases hc
  | some b =>
    refine ⟨b, rfl, ?_⟩
    rw [h.above_of_parent hp] at hc
    split_ifs at hc
    · rcases List.mem_cons.1 hc with rfl | hc
      · exact absurd rfl hne
      · exact hc
    · exact hc

/-- The path of a collection starts with it. -/
theorem above_collection (h : t.IsForest) (hc : t.isCollection c) :
    t.above c = c :: ((t.parent? c).map t.above).getD [] := by
  cases hp : t.parent? c with
  | none =>
    rw [h.above_of_no_parent hp, if_pos hc]
    rfl
  | some b =>
    rw [h.above_of_parent hp, if_pos hc]
    rfl

/-- The path of a collection ends the paths of all tables below it. -/
theorem above_suffix (h : t.IsForest) : ∀ a, c ∈ t.above a → t.above c <:+ t.above a := by
  refine h.induction fun a ih hc => ?_
  by_cases hne : a = c
  · rw [hne]
  · obtain ⟨b, hp, hb⟩ := h.exists_parent_of_mem_above hc hne
    refine (ih b hp hb).trans ?_
    rw [h.above_of_parent hp]
    split_ifs
    · exact List.suffix_cons _ _
    · exact List.suffix_rfl

theorem mem_above_trans (h : t.IsForest) (hc : c ∈ t.above a) (hd : d ∈ t.above c) :
    d ∈ t.above a := (h.above_suffix a hc).subset hd

/-- Of two collections that a table is below, one is below the other. -/
theorem mem_above_or_mem_above (h : t.IsForest) (hc : c ∈ t.above a) (hd : d ∈ t.above a) :
    c ∈ t.above d ∨ d ∈ t.above c := by
  have hcs := h.mem_above_self (mem_above.1 hc).2
  have hds := h.mem_above_self (mem_above.1 hd).2
  rcases le_total (t.above c).length (t.above d).length with hle | hle
  · exact .inl ((List.suffix_of_suffix_length_le (h.above_suffix a hc) (h.above_suffix a hd)
      hle).subset hcs)
  · exact .inr ((List.suffix_of_suffix_length_le (h.above_suffix a hd) (h.above_suffix a hc)
      hle).subset hds)

theorem mem_collections_iff (h : t.IsForest) : c ∈ t.collections ↔ t.isCollection c := by
  rw [collections, List.mem_filter]
  exact ⟨fun hc => hc.2, fun hc => ⟨h.mem_of_collection hc, hc⟩⟩

theorem mem_aliases_of_above (h : t.IsForest) (hc : c ∈ t.above a) : a ∈ t.aliases := by
  by_cases hne : a = c
  · rw [hne]
    exact h.mem_of_collection (mem_above.1 hc).2
  · obtain ⟨b, hp, -⟩ := h.exists_parent_of_mem_above hc hne
    exact (h.mem_of_parent hp).1

theorem mem_subtree_iff (h : t.IsForest) : a ∈ t.subtree c ↔ c ∈ t.above a := by
  rw [subtree, List.mem_filter, inSubtree_iff]
  exact ⟨fun ha => ha.2, fun ha => ⟨h.mem_aliases_of_above ha, ha⟩⟩

theorem length_above_le (h : t.IsForest) : (t.above a).length ≤ t.collections.length :=
  (List.subperm_of_subset h.nodup_above fun _ hc =>
    h.mem_collections_iff.2 (mem_above.1 hc).2).length_le

/-! ### Roots -/

theorem parentCollection?_eq (hc : t.isCollection c) (h : t.IsForest) :
    t.parentCollection? c = (t.above c).tail.head? := by
  rw [parentCollection?, h.above_collection hc]
  cases t.parent? c <;> rfl

theorem mem_roots_iff (h : t.IsForest) : r ∈ t.roots ↔ t.isCollection r ∧ t.above r = [r] := by
  rw [roots, List.mem_filter, h.mem_collections_iff]
  refine and_congr_right fun hr => ?_
  rw [parentCollection?_eq hr h, h.above_collection hr, List.tail_cons]
  cases ((t.parent? r).map t.above).getD [] <;> simp

/-- A table's root is the root that the table is below. -/
theorem root?_eq_some_iff (h : t.IsForest) : t.root? a = some r ↔ r ∈ t.roots ∧ r ∈ t.above a := by
  rw [root?]
  constructor
  · intro hl
    have hm := List.mem_of_getLast? hl
    refine ⟨h.mem_roots_iff.2 ⟨(mem_above.1 hm).2, ?_⟩, hm⟩
    -- the path of the last collection starts with it and holds nothing behind it
    have hs := h.above_suffix a hm
    rw [h.above_collection (mem_above.1 hm).2] at hs ⊢
    obtain ⟨pre, he⟩ := hs
    cases hrest : ((t.parent? r).map t.above).getD [] with
    | nil => rfl
    | cons x xs =>
      rw [hrest] at he
      have hnd := h.nodup_above (a := a)
      rw [← he, List.nodup_append] at hnd
      rw [← he, List.getLast?_append, List.getLast?_cons_cons] at hl
      cases hlast : (x :: xs).getLast? with
      | none => simp at hlast
      | some y =>
        rw [hlast, Option.some_or, Option.some.injEq] at hl
        exact absurd (List.mem_of_getLast? (hl ▸ hlast)) (List.nodup_cons.1 hnd.2.1).1
  · rintro ⟨hr, hm⟩
    obtain ⟨pre, he⟩ := h.above_suffix a hm
    rw [← he, (h.mem_roots_iff.1 hr).2]
    simp

theorem root?_eq_none_iff : t.root? a = none ↔ t.above a = [] := by
  rw [root?, List.getLast?_eq_none_iff]

/-- A root is joined to a table without a root. -/
theorem root?_parent_of_root (h : t.IsForest) (hp : t.parent? r = some b) (hr : r ∈ t.roots) :
    t.root? b = none := by
  obtain ⟨hc, ha⟩ := h.mem_roots_iff.1 hr
  rw [h.above_collection hc, hp, Option.map_some, Option.getD_some] at ha
  exact root?_eq_none_iff.2 (List.cons.inj ha).2

theorem nodup_roots (h : t.IsForest) : t.roots.Nodup := (h.nodup_aliases.filter _).filter _

/-- Outermost collections above the same table are the same. -/
theorem root_unique (h : t.IsForest) {r' : String} (hr : r ∈ t.roots) (hr' : r' ∈ t.roots)
    (ha : r ∈ t.above a) (ha' : r' ∈ t.above a) : r = r' := by
  have := h.root?_eq_some_iff.2 ⟨hr, ha⟩
  rwa [h.root?_eq_some_iff.2 ⟨hr', ha'⟩, Option.some.injEq, eq_comm] at this

/-! ### Nested collections -/

theorem nodup_childrenOf (h : t.IsForest) : (t.childrenOf c).Nodup :=
  (h.nodup_aliases.filter _).filter _

theorem nearest?_eq_some_iff : t.nearest? a = some c ↔ ∃ path, t.above a = c :: path := by
  rw [nearest?, List.head?_eq_some_iff]

theorem mem_above_of_nearest (hn : t.nearest? a = some c) : c ∈ t.above a := by
  obtain ⟨path, he⟩ := nearest?_eq_some_iff.1 hn
  rw [he]
  exact List.mem_cons_self

/-- A table has the path of its nearest collection. -/
theorem above_of_nearest (h : t.IsForest) (hn : t.nearest? a = some c) : t.above a = t.above c := by
  obtain ⟨path, he⟩ := nearest?_eq_some_iff.1 hn
  have hm := mem_above_of_nearest hn
  obtain ⟨pre, hpre⟩ := h.above_suffix a hm
  have hnd := h.nodup_above (a := a)
  rw [h.above_collection (mem_above.1 hm).2] at hpre ⊢
  -- both paths start with the collection, which comes only once
  cases pre with
  | nil => exact hpre.symm
  | cons x xs =>
    rw [← hpre, List.cons_append] at hnd he
    obtain ⟨rfl, -⟩ := List.cons.inj he
    exact absurd (List.mem_append_right xs List.mem_cons_self) (List.nodup_cons.1 hnd).1

/-- What is below a collection has a nearest one, which is below that collection as well. -/
theorem exists_nearest (h : t.IsForest) (hc : c ∈ t.above a) :
    ∃ d, t.nearest? a = some d ∧ c ∈ t.above d := by
  cases he : t.above a with
  | nil =>
    rw [he] at hc
    cases hc
  | cons d path =>
    have hn : t.nearest? a = some d := nearest?_eq_some_iff.2 ⟨path, he⟩
    exact ⟨d, hn, h.above_of_nearest hn ▸ hc⟩

/-- The path of a nested collection is the path of the one around it, one longer. -/
theorem above_of_mem_childrenOf (h : t.IsForest) (hd : d ∈ t.childrenOf c) :
    t.isCollection d ∧ t.above d = d :: t.above c ∧
      ∃ b, t.parent? d = some b ∧ t.nearest? b = some c := by
  rw [childrenOf, List.mem_filter, h.mem_collections_iff, decide_eq_true_iff,
    parentCollection?] at hd
  obtain ⟨hd, hp⟩ := hd
  obtain ⟨b, hb, hn⟩ := Option.bind_eq_some_iff.1 hp
  refine ⟨hd, ?_, b, hb, hn⟩
  rw [h.above_collection hd, hb, Option.map_some, Option.getD_some, h.above_of_nearest hn]

theorem mem_above_of_mem_childrenOf (h : t.IsForest) (hd : d ∈ t.childrenOf c)
    (ha : d ∈ t.above a) : c ∈ t.above a := by
  obtain ⟨-, he, b, -, hn⟩ := h.above_of_mem_childrenOf hd
  refine h.mem_above_trans ha ?_
  rw [he]
  exact List.mem_cons_of_mem _ (h.mem_above_self (mem_above.1 (mem_above_of_nearest hn)).2)

theorem not_mem_above_of_mem_childrenOf (h : t.IsForest) (hd : d ∈ t.childrenOf c) :
    d ∉ t.above c := by
  have := h.nodup_above (a := d)
  rw [(h.above_of_mem_childrenOf hd).2.1] at this
  exact (List.nodup_cons.1 this).1

/-- A table below a collection belongs to it, or is below one of the collections nested in it. -/
theorem child_of_mem_above (h : t.IsForest) :
    ∀ a, c ∈ t.above a → t.nearest? a = some c ∨ ∃ d ∈ t.childrenOf c, d ∈ t.above a := by
  refine h.induction fun a ih hc => ?_
  by_cases hne : a = c
  · left
    rw [hne] at hc ⊢
    exact nearest?_eq_some_iff.2 ⟨_, h.above_collection (mem_above.1 hc).2⟩
  · obtain ⟨b, hp, hb⟩ := h.exists_parent_of_mem_above hc hne
    rcases ih b hp hb with hn | ⟨d, hd, hdb⟩
    · by_cases ha : t.isCollection a
      · refine .inr ⟨a, ?_, h.mem_above_self ha⟩
        rw [childrenOf, List.mem_filter, h.mem_collections_iff, decide_eq_true_iff,
          parentCollection?, hp, Option.bind_some]
        exact ⟨ha, hn⟩
      · left
        rw [nearest?, h.above_of_parent hp, if_neg ha]
        exact hn
    · exact .inr ⟨d, hd, h.mem_above_of_parent hp hdb⟩

/-- Subtrees of collections nested in the same one have no table in common. -/
theorem child_unique (h : t.IsForest) {d' : String} (hd : d ∈ t.childrenOf c)
    (hd' : d' ∈ t.childrenOf c) (ha : d ∈ t.above a) (ha' : d' ∈ t.above a) : d = d' := by
  have hs := h.above_suffix a ha
  have hs' := h.above_suffix a ha'
  rw [(h.above_of_mem_childrenOf hd).2.1] at hs
  rw [(h.above_of_mem_childrenOf hd').2.1] at hs'
  have he := (List.suffix_of_suffix_length_le hs hs' (by simp)).eq_of_length (by simp)
  exact (List.cons.inj he).1

/-- A table that belongs to a collection is below none of the nested ones. -/
theorem not_mem_above_of_nearest (h : t.IsForest) (hn : t.nearest? a = some c)
    (hd : d ∈ t.childrenOf c) : d ∉ t.above a := by
  rw [h.above_of_nearest hn]
  exact h.not_mem_above_of_mem_childrenOf hd

theorem mem_ownedBy_iff (h : t.IsForest) : a ∈ t.ownedBy c ↔ t.nearest? a = some c := by
  rw [ownedBy, List.mem_filter, decide_eq_true_iff]
  exact ⟨fun ha => ha.2, fun ha => ⟨h.mem_aliases_of_above (mem_above_of_nearest ha), ha⟩⟩

end IsForest

end EntityQuery.Collections
