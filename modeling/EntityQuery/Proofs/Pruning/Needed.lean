import EntityQuery.Proofs.Evaluation.Tables
import EntityQuery.Proofs.Pruning.Round

/-!
# Tables that are needed

What pruning leaves can be said without its rounds: the tables that are to be kept, those that the
result columns, the condition and the order refer to, and those that a needed table refers to.  This
needs tables in order, as tables that refer to each other alone would hold each other otherwise.

* `Plan.Needed`: the least set of tables with these properties;
* `Plan.Sequenced`: no table refers to itself or to one behind it;
* `Plan.PrunesTo`: the plan without the tables that are not needed, and so its subqueries;
* `Plan.Orderly`: different names, and tables in order, in the plan and in all plans inside it;
* `Plan.prunesTo_iff`: this is what pruning makes of a plan.
-/

namespace EntityQuery

namespace Plan

/-- The tables that are to be kept, those that the result columns, the condition and the order refer
to, and with each table those that its join or its lateral query refers to. -/
inductive Needed (keep : List String) (p : Plan) : String → Prop
  | kept {a : String} (h : a ∈ keep) : Needed keep p a
  | asked {a : String} (h : a ∈ p.ownReferences) : Needed keep p a
  | referent {a : String} {t : Table} (ht : t ∈ p.tables) (h : Needed keep p t.aliasName)
      (ha : a ∈ t.referents) : Needed keep p a

/-- No table refers to itself or to one behind it. -/
structure Sequenced (p : Plan) : Prop where
  irreflexive : ∀ t ∈ p.tables, t.aliasName ∉ t.referents
  pairwise : p.tables.Pairwise fun t t' => t'.aliasName ∉ t.referents

/-- Pruning of a plan leads to another one: the primary table and the tables that are needed are left
in their order, the conditions that were not asked for go with the tables that they read, and the
lateral queries that are left and the subqueries of the condition are pruned in the same way, where
nothing is to be kept. -/
inductive PrunesTo : List String → Plan → Plan → Prop
  | intro {keep removed : List String} {p : Plan} {g : Plan → Plan}
      (hnames : ∀ a ∈ removed, a ∈ p.tables.map Table.aliasName)
      (hleft : ∀ t ∈ p.tables,
        t.aliasName ∉ removed ↔ t.isPrimary = true ∨ p.Needed keep t.aliasName)
      (hlaterals : ∀ x fromAlias query, .lateral x fromAlias query ∈ (p.without removed).tables →
        PrunesTo [] query (g query))
      (hsubqueries : ∀ query ∈ (p.without removed).subqueries, PrunesTo [] query (g query)) :
      PrunesTo keep p ((p.without removed).mapPlans g)

/-! ### Tables that stay are needed -/

section

variable {p : Plan} {keep removed : List String} {a : String}

/-- Where tables are in order, those that sustain each other are needed: the last of them is not
referred to by a table. -/
theorem Sustains.needed {S : String → Prop} (h : p.Sustains keep S) (hseq : p.Sequenced) (ha : S a) :
    p.Needed keep a := by
  have hbehind : ∀ ts, ts <:+ p.tables → ∀ t ∈ ts, S t.aliasName → p.Needed keep t.aliasName := by
    intro ts
    induction ts with
    | nil => exact fun _ t ht => absurd ht List.not_mem_nil
    | cons t ts ih =>
      intro hsuffix
      have hrest := ih ((List.suffix_cons t ts).trans hsuffix)
      refine List.forall_mem_cons.2 ⟨fun hS => ?_, hrest⟩
      rcases h _ hS with hkeep | hasked | ⟨t', ht', hS', hr⟩
      · exact .kept hkeep
      · exact .asked hasked
      · obtain ⟨before, hbefore⟩ := hsuffix
        have hpairs := hseq.pairwise
        rw [← hbefore, List.pairwise_append] at hpairs
        have hm : t' ∈ before ∨ t' = t ∨ t' ∈ ts := by
          rwa [← hbefore, List.mem_append, List.mem_cons] at ht'
        rcases hm with hm | rfl | hm
        · exact absurd hr (hpairs.2.2 t' hm t List.mem_cons_self)
        · exact absurd hr (hseq.irreflexive t' ht')
        · exact .referent ht' (hrest t' hm hS') hr
  rcases h a ha with hkeep | hasked | ⟨t, ht, hS, hr⟩
  · exact .kept hkeep
  · exact .asked hasked
  · exact .referent ht (hbehind p.tables List.suffix_rfl t ht hS) hr

theorem sustains_needed : p.Sustains keep (p.Needed keep) := fun _ ha => by
  cases ha with
  | kept h => exact .inl h
  | asked h => exact .inr (.inl h)
  | referent ht h ha => exact .inr (.inr ⟨_, ht, h, ha⟩)

/-- A table besides the primary one stays exactly if it is needed. -/
theorem stays_iff_needed (hseq : p.Sequenced) {t : Table} (ht : t ∈ p.tables)
    (hnot : t.isPrimary = false) : p.Stays keep t.aliasName ↔ p.Needed keep t.aliasName := by
  constructor
  · rintro (⟨S, hS, ha⟩ | hprimary)
    · exact hS.needed hseq ha
    · rw [hprimary t ht rfl] at hnot
      cases hnot
  · exact fun h => .inl ⟨_, sustains_needed, h⟩

theorem IsRemoved.not_mem_iff (h : p.IsRemoved keep removed) (hseq : p.Sequenced)
    (hnodup : (p.tables.map Table.aliasName).Nodup) : ∀ t ∈ p.tables,
    t.aliasName ∉ removed ↔ t.isPrimary = true ∨ p.Needed keep t.aliasName := by
  intro t ht
  rw [h]
  cases hp : t.isPrimary with
  | true =>
    simp only [true_or, iff_true]
    rintro ⟨⟨t', ht', hnot, hname⟩, -⟩
    rw [List.inj_on_of_nodup_map hnodup ht' ht hname, hp] at hnot
    cases hnot
  | false =>
    rw [← stays_iff_needed hseq ht hp, not_and_not_right]
    simp only [Bool.false_eq_true, false_or]
    exact ⟨fun hs => hs ⟨t, ht, hp, rfl⟩, fun hs _ => hs⟩

/-! ### Plans in order -/

/-- All tables have different names, those of the plans inside included, and all these plans have
their tables in order. -/
structure Orderly (p : Plan) : Prop where
  nodup : p.allAliases.Nodup
  sequenced : p.Everywhere Sequenced

variable {f : Condition → List Condition} {query : Plan} {x fromAlias : String}

theorem Sequenced.mapLeaves (hf : Condition.SameReferences f) (h : p.Sequenced) :
    (p.mapLeaves f).Sequenced := by
  have hreferents : ∀ (t : Table) b, b ∈ (t.mapPlan (Plan.mapLeaves f)).referents ↔
      b ∈ t.referents := fun _ _ =>
    Table.mem_referents_mapPlan_iff (mem_references_mapLeaves_iff hf)
  constructor
  · rw [tables_mapLeaves]
    refine List.forall_mem_map.2 fun t ht => ?_
    rw [hreferents, Table.aliasName_mapPlan]
    exact h.irreflexive t ht
  · rw [tables_mapLeaves, List.pairwise_map]
    exact h.pairwise.imp fun hnot => by rwa [hreferents, Table.aliasName_mapPlan]

namespace Orderly

theorem nested (h : p.Orderly) (hq : query ∈ p.nestedPlans) : query.Orderly :=
  ⟨h.nodup.sublist (sublist_allAliases_of_nested hq), h.sequenced.nested query hq⟩

theorem mapLeaves (hf : Condition.SameReferences f) (hflat : Condition.Flat f) (h : p.Orderly) :
    (p.mapLeaves f).Orderly :=
  ⟨by rw [allAliases_mapLeaves hflat]; exact h.nodup,
    h.sequenced.mapLeaves hflat fun _ => Sequenced.mapLeaves hf⟩

theorem withoutRemoved (h : p.Orderly) :
    (p.mapLeaves (Condition.withoutRemoved removed)).Orderly :=
  h.mapLeaves Condition.sameReferences_withoutRemoved Condition.flat_withoutRemoved

/-- The lateral queries that are left. -/
theorem lateral (h : p.Orderly) (ht : .lateral x fromAlias query ∈ (p.without removed).tables) :
    query.Orderly := by
  obtain ⟨q, hq, rfl⟩ := Table.exists_of_lateral_mem_map_mapPlan ht
  have hm := mem_nestedPlans_of_table (List.mem_filter.1 hq).1 (List.mem_singleton_self q)
  exact (h.nested hm).withoutRemoved

/-- The subqueries of the condition that is left. -/
theorem subquery (h : p.Orderly) (hq : query ∈ (p.without removed).subqueries) :
    query.Orderly := by
  by_cases hnil : removed = []
  · rw [hnil, without_nil] at hq
    exact h.nested (mem_nestedPlans_of_condition hq)
  · have hsub : query ∈ (p.mapLeaves (Condition.withoutRemoved removed)).subqueries := by
      obtain ⟨selects, tables, condition, sortKeys, groupBys, ctes⟩ := p
      rw [without, if_neg hnil] at hq
      cases condition with
      | none => cases hq
      | some g =>
        obtain ⟨op, cs⟩ := g
        cases hcs : Condition.mapLeavesAll (Condition.withoutRemoved removed) cs with
        | nil =>
          simp [Group.mapLeavesTop, Group.mapLeaves, hcs, Group.nonempty?, subqueries] at hq
        | cons c cs' =>
          simpa [Group.mapLeavesTop, Group.mapLeaves, hcs, Group.nonempty?, subqueries,
            Plan.mapLeaves] using hq
    rw [subqueries_mapLeaves Condition.flat_withoutRemoved] at hsub
    obtain ⟨q, hq', rfl⟩ := List.mem_map.1 hsub
    exact (h.nested (mem_nestedPlans_of_condition hq')).withoutRemoved

end Orderly

/-! ### Pruning -/

theorem without_congr {removed' : List String} (h : ∀ a, a ∈ removed ↔ a ∈ removed') :
    p.without removed = p.without removed' := by
  have hleaves := Condition.withoutRemoved_congr h
  have hnil : removed = [] ↔ removed' = [] := by
    simp only [List.eq_nil_iff_forall_not_mem, h]
  rw [without, without, hleaves]
  simp only [h, hnil]

/-- Pruning leaves the primary table and the tables that are needed, and deals with the subqueries
in the same way; nothing else does so. -/
theorem prunesTo_iff {q : Plan} (h : p.Orderly) : p.PrunesTo keep q ↔ q = p.prune keep := by
  constructor
  · intro hprunes
    induction hprunes with
    | @intro keep gone p g hgone hleft _ _ ihlaterals ihsubqueries =>
      obtain ⟨removed, htrim, hremoved⟩ := exists_trim_eq keep p
      have hiff := hremoved.not_mem_iff h.sequenced.here (nodup_names h.nodup)
      -- both sets are the tables of the plan that are not needed
      have hsame : p.without gone = p.without removed := without_congr fun a => by
        constructor
        · intro ha
          obtain ⟨t, ht, rfl⟩ := List.mem_map.1 (hgone a ha)
          exact not_not.1 fun hnot => (hleft t ht).2 ((hiff t ht).1 hnot) ha
        · intro ha
          obtain ⟨⟨t, ht, -, rfl⟩, -⟩ := (hremoved a).1 ha
          exact not_not.1 fun hnot => (hiff t ht).2 ((hleft t ht).1 hnot) ha
      rw [prune_eq, htrim, ← hsame]
      exact mapPlans_congr (fun x b query ht => ihlaterals x b query ht (h.lateral ht))
        fun query hq => ihsubqueries query hq (h.subquery hq)
  · rintro rfl
    induction hd : p.depth using Nat.strongRecOn generalizing keep p with
    | ind d ih =>
      obtain ⟨removed, htrim, hremoved⟩ := exists_trim_eq keep p
      -- subqueries of what is left are subqueries of the plan, less deep than it
      have hdepth : (p.without removed).depth ≤ d := by
        rw [← htrim, ← hd]
        exact depth_trim_le
      rw [prune_eq, htrim]
      refine .intro (fun a ha => ?_) (hremoved.not_mem_iff h.sequenced.here (nodup_names h.nodup))
        (fun x b query ht => ih query.depth ?_ (h.lateral ht) rfl)
        fun query hq => ih query.depth ?_ (h.subquery hq) rfl
      · obtain ⟨⟨t, ht, -, rfl⟩, -⟩ := (hremoved a).1 ha
        exact List.mem_map_of_mem ht
      · exact (depth_lt_of_lateral ht).trans_le hdepth
      · exact (depth_lt_of_subquery hq).trans_le hdepth

end

end Plan

/-! ### Authors with a review -/

namespace Bookshelf

/-- A book of the author that was printed by someone. -/
def printed : Plan where
  selects := []
  tables := [.primary "w" "books",
    .join ⟨"v", "printers", .outer, ⟨"w", "printer_id"⟩, ⟨"v", "id"⟩, none⟩]
  condition := some (.all [.raw (.correlation ⟨"a", "id"⟩ ⟨"w", "author_id"⟩)])
  sortKeys := []
  groupBys := none
  ctes := none

/-- Whether a copy of a book of the author, with its cover, is Emma. -/
def copied : Plan where
  selects := [.boolOr (.all [titled "c"]) "c1"]
  tables := [.primary "c" "books",
    .join ⟨"d", "covers", .outer, ⟨"c", "cover_id"⟩, ⟨"d", "id"⟩, none⟩]
  condition := some (.all [.raw (.correlation ⟨"a", "id"⟩ ⟨"c", "author_id"⟩)])
  sortKeys := []
  groupBys := none
  ctes := none

/-- The authors with a review of a book: the edited books and the tables at the end of the subqueries
are not needed. -/
def reviewed : Plan where
  selects := [.star "a"]
  tables := [.primary "a" "authors", .join books, .join edited,
    .join ⟨"r", "reviews", .outer, ⟨"b", "id"⟩, ⟨"r", "book_id"⟩, none⟩, .lateral "l" "a" copied]
  condition := some (.all [.column (.asked "r" "stars" "int" .notNull),
    .column (.implied "b1" "removed" "date" .isNull), .existence printed false ["a"],
    .column (.asked "l" "c1" "bool" (.compare .eq (.bool true)))])
  sortKeys := []
  groupBys := none
  ctes := none

theorem everywhere_of_nested {P : Plan → Prop} {p : Plan}
    (hnested : p.nestedPlans = [copied, printed]) (h : P p) (hcopied : P copied)
    (hprinted : P printed) : p.Everywhere P := by
  refine .intro h fun q hq => ?_
  rw [hnested, List.mem_cons, List.mem_singleton] at hq
  rcases hq with rfl | rfl
  · exact .intro hcopied fun q hq => absurd hq List.not_mem_nil
  · exact .intro hprinted fun q hq => absurd hq List.not_mem_nil

theorem orderly_reviewed : reviewed.Orderly :=
  ⟨by decide, everywhere_of_nested rfl ⟨by decide, by decide⟩ ⟨by decide, by decide⟩
    ⟨by decide, by decide⟩⟩

/-- The books are left, as their reviews refer to them. -/
theorem prunesTo_reviewed : reviewed.Orderly ∧ reviewed.PrunesTo [] (reviewed.prune []) ∧
    (reviewed.prune []).allAliases = ["a", "b", "r", "l", "c", "w"] :=
  ⟨orderly_reviewed, (Plan.prunesTo_iff orderly_reviewed).2 rfl, by decide⟩

end Bookshelf

end EntityQuery
