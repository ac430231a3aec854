import EntityQuery.Proofs.Existence.Division
import EntityQuery.Proofs.Existence.Plan

/-!
# Conditions and tables are conserved

A plan whose outermost collections become existence conditions loses no condition that was asked for
and binds no table twice.  It is refused exactly when a fragment of text mentions tables of two
outermost collections.

* `Condition.fragments`, `Plan.SpansRoots`: the fragments of text, and those that are refused;
* `Plan.isSome_spanningOf?_iff`: the search finds such a fragment if there is one;
* `Existence.Conserved`: what becomes of the conditions and the tables of a plan;
* `Plan.conserved_toExistence`: the rewritten plan conserves them.
-/

namespace EntityQuery

open Existence

/-! ### Fragments of text -/

mutual

/-- The fragments of text of a condition, its subqueries aside. -/
def Condition.fragments : Condition → List RawCondition
  | .group g => g.fragments
  | .raw r => [r]
  | .column _ => []
  | .existence .. => []

/-- The fragments of text of a group. -/
def Group.fragments : Group → List RawCondition
  | ⟨_, conditions⟩ => Condition.fragmentsOf conditions

/-- The fragments of text of conditions. -/
def Condition.fragmentsOf : List Condition → List RawCondition
  | [] => []
  | c :: rest => c.fragments ++ Condition.fragmentsOf rest

end

/-- A fragment of text of the plan's condition mentions tables of two outermost collections. -/
def Plan.SpansRoots (p : Plan) (t : Collections) : Prop :=
  ∃ f ∈ (p.condition.map Group.fragments).getD [], ∃ a ∈ f.aliases, ∃ b ∈ f.aliases, ∃ r r',
    t.root? a = some r ∧ t.root? b = some r' ∧ r ≠ r'

/-- Several owners are two that differ. -/
theorem one_lt_length_ownersOf_iff {ownerOf : String → Option String} {aliases : List String} :
    1 < (ownersOf ownerOf aliases).1.length ↔ ∃ a ∈ aliases, ∃ b ∈ aliases, ∃ r r',
      ownerOf a = some r ∧ ownerOf b = some r' ∧ r ≠ r' := by
  have hnd : (ownersOf ownerOf aliases).1.Nodup := nodup_foldl_insertNew List.nodup_nil
  have hmem : ∀ r, r ∈ (ownersOf ownerOf aliases).1 ↔ ∃ a ∈ aliases, ownerOf a = some r := by
    simp [ownersOf, mem_foldl_insertNew]
  constructor
  · intro hlen
    obtain ⟨r, r', rest, he⟩ : ∃ r r' rest, (ownersOf ownerOf aliases).1 = r :: r' :: rest := by
      revert hlen
      rcases (ownersOf ownerOf aliases).1 with _ | ⟨r, _ | ⟨r', rest⟩⟩
      · simp
      · simp
      · exact fun _ => ⟨r, r', rest, rfl⟩
    obtain ⟨a, ha, hr⟩ := (hmem r).1 (by simp [he])
    obtain ⟨b, hb, hr'⟩ := (hmem r').1 (by simp [he])
    rw [he] at hnd
    exact ⟨a, ha, b, hb, r, r', hr, hr', fun h => (List.nodup_cons.1 hnd).1 (by simp [h])⟩
  · rintro ⟨a, ha, b, hb, r, r', hr, hr', hne⟩
    by_contra hlen
    obtain ⟨x, hx⟩ := List.length_eq_one_iff.1 (le_antisymm (not_lt.1 hlen)
      (List.length_pos_of_mem ((hmem r).2 ⟨a, ha, hr⟩)))
    have hrx := (hmem r).2 ⟨a, ha, hr⟩
    have hrx' := (hmem r').2 ⟨b, hb, hr'⟩
    rw [hx, List.mem_singleton] at hrx hrx'
    exact hne (hrx.trans hrx'.symm)

section

variable {ownerOf : String → Option String}

mutual

theorem Group.isSome_spanning?_iff : ∀ {g : Group}, (g.spanning? ownerOf).isSome = true ↔
    ∃ f ∈ g.fragments, 1 < (ownersOf ownerOf f.aliases).1.length
  | ⟨_, _⟩ => Condition.isSome_spanningOf?_iff

theorem Condition.isSome_spanningOf?_iff : ∀ {cs : List Condition},
    (Condition.spanningOf? ownerOf cs).isSome = true ↔
      ∃ f ∈ Condition.fragmentsOf cs, 1 < (ownersOf ownerOf f.aliases).1.length
  | [] => by simp [Condition.spanningOf?, Condition.fragmentsOf]
  | c :: cs => by
    have hc : (c.spanning? ownerOf).isSome = true ↔ _ := Condition.isSome_spanning?_iff
    have hcs : (Condition.spanningOf? ownerOf cs).isSome = true ↔ _ :=
      Condition.isSome_spanningOf?_iff
    rw [Condition.spanningOf?, Condition.fragmentsOf]
    simp only [List.mem_append, or_and_right, exists_or, ← hc, ← hcs]
    cases c.spanning? ownerOf <;> simp

theorem Condition.isSome_spanning?_iff : ∀ {c : Condition}, (c.spanning? ownerOf).isSome = true ↔
    ∃ f ∈ c.fragments, 1 < (ownersOf ownerOf f.aliases).1.length
  | .group _ => Group.isSome_spanning?_iff
  | .raw r => by
    simp only [Condition.spanning?, Condition.fragments, List.mem_singleton, exists_eq_left]
    split_ifs with h <;> simp [h]
  | .column _ => by simp [Condition.spanning?, Condition.fragments]
  | .existence .. => by simp [Condition.spanning?, Condition.fragments]

end

end

namespace Plan

variable {p : Plan} {joins : List Join} {r : Resolved}

theorem fragmentsOf_topConditions :
    Condition.fragmentsOf p.topConditions = (p.condition.map Group.fragments).getD [] := by
  unfold topConditions
  split
  · next h => simp [h, Condition.fragmentsOf]
  · next h => simp [h, Group.fragments]
  · next g _ h => simp [h, Condition.fragmentsOf, Condition.fragments]

/-- The search through the conditions at the top finds a fragment that is refused. -/
theorem isSome_spanningOf?_iff {t : Collections} :
    (Condition.spanningOf? t.root? p.topConditions).isSome = true ↔ p.SpansRoots t := by
  rw [Condition.isSome_spanningOf?_iff, fragmentsOf_topConditions]
  simp only [one_lt_length_ownersOf_iff, SpansRoots]

/-- The plan is refused for such a fragment alone. -/
theorem toExistence_error_iff : (∃ sql roots, p.toExistence joins =
    .error (.fragmentSpansRoots sql roots)) ↔ p.SpansRoots (Collections.ofPlan p joins) := by
  rw [← isSome_spanningOf?_iff]
  unfold toExistence
  simp only
  split_ifs with he
  · -- without collections no table has an outermost one
    refine iff_of_false (by simp) fun hs => ?_
    obtain ⟨-, -, a, -, -, -, r, -, hr, -⟩ := isSome_spanningOf?_iff.1 hs
    have hm := (Collections.mem_above.1 (List.mem_of_getLast? hr)).2
    obtain ⟨j, hj⟩ := Option.isSome_iff_exists.1 hm
    have hc : r ∈ (Collections.ofPlan p joins).collections :=
      List.mem_filter.2 ⟨(of_join? hj).2.2, hm⟩
    rw [List.isEmpty_iff.1 he] at hc
    cases hc
  · split
    · next sql roots h => simp [h]
    · next h => simp [h]

theorem exists_toExistence (h : ¬ p.SpansRoots (Collections.ofPlan p joins)) :
    ∃ r, p.toExistence joins = .ok r := by
  rw [← isSome_spanningOf?_iff] at h
  unfold toExistence
  simp only
  split_ifs
  · exact ⟨_, rfl⟩
  · split
    · next hs => simp [hs] at h
    · exact ⟨_, rfl⟩

end Plan

/-! ### Conditions and tables -/

namespace Existence

/-- A plan `q` conserves the conditions and tables of the plan `p`: its conditions are outer ones and
those that stand for subqueries; each condition of `p` is an outer one, was taken over by one of the
subqueries or was dropped; every table is bound once at most.  What was dropped was not asked for and
reads a table that is not bound, or is asked to have no row.  Where something that was asked for
reads a table of an outermost collection and another one, that collection stays as it is. -/
structure Conserved (p : Plan) (t : Collections) (q : Plan) (outer : List Condition)
    (ss : Subqueries) (dropped : List Condition) : Prop where
  others : q.selects = p.selects ∧ q.sortKeys = p.sortKeys ∧ q.groupBys = p.groupBys ∧ q.ctes = p.ctes
  top : q.topConditions = outer ++ ss.conditions p.tables
  perm : p.topConditions.Perm (outer ++ ss.taken ++ dropped)
  tables : q.tables.Sublist p.tables
  nodup : (q.tables.map Table.aliasName ++ ss.names p.tables).Nodup
  of_dropped : ∀ k ∈ dropped, k.isPruneable = true ∧ ∃ a ∈ k.aliases,
    a ∉ q.tables.map Table.aliasName ∧ (a ∈ ss.names p.tables → a ∈ ss.absent)
  whole : ∀ k ∈ p.topConditions, k.isPruneable = false → ∀ r ∈ t.roots,
    (∃ a ∈ k.aliases, r ∈ t.above a) → (∃ a ∈ k.aliases, r ∉ t.above a) →
      (∀ x ∈ p.tables, r ∈ t.above x.aliasName → x ∈ q.tables) ∧
        ∀ k' ∈ ss.taken ++ dropped, ∀ a ∈ k'.aliases, r ∉ t.above a

section

variable {p : Plan} {t : Collections} {r : String} {k : Condition}

/-- The outermost collections that nothing is asked of. -/
def skipped (p : Plan) (t : Collections) : List String :=
  (t.roots.filter (· ∉ spoiled t p.topConditions)).filter fun r => (demand p t r).isNone

/-- The conditions that stay with the plan. -/
def outside (p : Plan) (t : Collections) : List Condition :=
  staying (route? t) p.topConditions ++
    ((spoiled t p.topConditions).flatMap fun root => sentTo (route? t) root p.topConditions) ++
    (skipped p t).flatMap fun root => sentTo (route? t) root p.topConditions

theorem rewritten_eq (hF : t.IsForest) :
    rewritten p t = outside p t ++ (absorbed p t).filterMap (demand p t) := by
  have hresults : results p t = (t.roots.filter (· ∉ spoiled t p.topConditions)).map
      fun root => (root, demand p t root) := by
    rw [results, foldl_insertNew_of_nodup (hF.nodup_roots.filter _), List.nil_append]
  have habsorbed : absorbed p t = (t.roots.filter (· ∉ spoiled t p.topConditions)).filter
      fun r => (demand p t r).isSome := by
    rw [absorbed, List.filter_filter]
    exact List.filter_congr fun r _ => Bool.and_comm _ _
  rw [rewritten, hresults, habsorbed, outside, skipped]
  congr 1
  · congr 1
    rw [List.filter_map, List.flatMap_map]
    rfl
  · rw [List.filterMap_map]
    induction t.roots.filter (· ∉ spoiled t p.topConditions) with
    | nil => rfl
    | cons root roots ih => cases h : demand p t root <;> simp [h] at ih ⊢ <;> exact ih

/-- Each condition stays with the plan or goes to a collection that becomes a condition. -/
theorem perm_outside (hF : t.IsForest) : p.topConditions.Perm (outside p t ++
    (absorbed p t).flatMap fun root => sentTo (route? t) root p.topConditions) := by
  set send := fun root => sentTo (route? t) root p.topConditions
  set unspoiled := t.roots.filter (· ∉ spoiled t p.topConditions) with hun
  have hnd : (spoiled t p.topConditions ++ unspoiled).Nodup := by
    rw [List.nodup_append]
    refine ⟨nodup_foldl_insertNew List.nodup_nil, hF.nodup_roots.filter _, ?_⟩
    rintro a ha b hb rfl
    exact of_decide_eq_true (List.mem_filter.1 hb).2 ha
  have hall := perm_sentTo (route? t) p.topConditions hnd fun k _ root hs => by
    by_cases hroot : root ∈ spoiled t p.topConditions
    · exact List.mem_append_left _ hroot
    · exact List.mem_append_right _
        (List.mem_filter.2 ⟨(of_route? hF hs).1, decide_eq_true hroot⟩)
  have hsplit : (unspoiled.flatMap send).Perm
      ((skipped p t).flatMap send ++ (absorbed p t).flatMap send) := by
    have habsorbed : absorbed p t = unspoiled.filter fun r => !(demand p t r).isNone := by
      rw [absorbed, hun, List.filter_filter]
      exact List.filter_congr fun r _ => by cases demand p t r <;> simp
    rw [← List.flatMap_append, habsorbed]
    exact (List.filter_append_perm (fun r => (demand p t r).isNone) unspoiled).symm.flatMap_right _
  rw [List.flatMap_append] at hall
  refine hall.trans ?_
  rw [outside, List.append_assoc, List.append_assoc]
  exact (hsplit.append_left _).append_left _

/-- What goes to the collections that become conditions is divided between their subqueries. -/
theorem exists_divided_absorbed (hF : t.IsForest) (hts : (p.tables.map Table.aliasName).Nodup) :
    ∃ ss dropped, ss.conditions p.tables = (absorbed p t).filterMap (demand p t) ∧
      Divided p.tables (fun a => ∃ root ∈ absorbed p t, root ∈ t.above a)
        ((absorbed p t).flatMap fun root => sentTo (route? t) root p.topConditions) ss dropped := by
  refine Divided.flatMap (Q := fun root a => root ∈ t.above a) (hF.nodup_roots.filter _)
    (fun a root hroot root' hroot' => hF.root_unique (mem_absorbed_iff.1 hroot).1
      (mem_absorbed_iff.1 hroot').1) fun root hroot => ?_
  obtain ⟨hc, habove⟩ := hF.mem_roots_iff.1 (mem_absorbed_iff.1 hroot).1
  refine exists_divided hF hts hc ?_ fun k hk => (of_route? hF (mem_sentTo_iff.1 hk).2).2.1
  rw [habove, List.length_singleton]
  exact Nat.lt_succ_self _

/-- A collection that something asked for reads together with another table stays as it is. -/
theorem mem_spoiled (hF : t.IsForest) (hk : k ∈ p.topConditions) (hp : k.isPruneable = false)
    (hr : r ∈ t.roots) (hin : ∃ a ∈ k.aliases, r ∈ t.above a)
    (hout : ∃ a ∈ k.aliases, r ∉ t.above a) : r ∈ spoiled t p.topConditions := by
  by_contra hs
  obtain ⟨a, ha, hm⟩ := hin
  obtain ⟨b, hb, hn⟩ := hout
  exact hn ((of_route? hF (route?_of_mem_above hF hr hs hk ha hm)).2.2.2 hp b hb)

end

end Existence

namespace Plan

variable {p : Plan} {joins : List Join} {r : Resolved}

/-- A rewritten plan conserves the conditions and tables of the plan that it was made of. -/
theorem exists_conserved (hts : Table.Ordered [] p.tables) (h : p.toExistence joins = .ok r) :
    ∃ outer ss dropped,
      Conserved p (Collections.ofPlan p joins) r.plan outer ss dropped := by
  have hF := isForest joins hts
  have htables := tables_toExistence h
  set t := Collections.ofPlan p joins with ht
  rcases toExistence_cases h with ⟨hnil, hr⟩ | hr
  · have hroots : t.roots = [] := by rw [Collections.roots, hnil, List.filter_nil]
    refine ⟨p.topConditions, .nil, [], ?_⟩
    rw [hr]
    exact ⟨⟨rfl, rfl, rfl, rfl⟩, by simp [Subqueries.conditions], by simp [Subqueries.taken], .refl _,
      by simpa [Subqueries.names, Subqueries.tables] using hts.nodup, by simp,
      fun k _ _ r hr => by rw [hroots] at hr; cases hr⟩
  · obtain ⟨ss, dropped, hss, hdiv⟩ := exists_divided_absorbed hF hts.nodup
    have hconditions : rewritten p t = outside p t ++ ss.conditions p.tables := by
      rw [rewritten_eq hF, hss]
    have hperm := perm_outside (p := p) hF
    have hbound : ∀ a ∈ r.plan.tables.map Table.aliasName, ¬ ∃ root ∈ absorbed p t,
        root ∈ t.above a := by
      rintro a ha ⟨root, hroot, hm⟩
      obtain ⟨x, hx, rfl⟩ := List.mem_map.1 ha
      rw [htables, List.mem_filter, decide_eq_true_iff] at hx
      exact hx.2 (List.mem_flatMap.2 ⟨root, hroot, hF.mem_subtree_iff.2 hm⟩)
    refine ⟨outside p t, ss, dropped, by simp [hr], ?_, ?_, ?_, ?_, fun k hk => ?_,
      fun k hk hp root hroot hin hout => ?_⟩
    · rw [hr, ← hconditions]
      refine topConditions_ofTop rfl fun hd g hg => ?_
      rw [hconditions, List.mem_append] at hg
      have hg := hg.resolve_right Subqueries.group_not_mem_conditions
      exact op_of_isDisjunctive hd (hperm.mem_iff.2 (List.mem_append_left _ hg))
    · rw [List.append_assoc]
      exact hperm.trans (hdiv.perm.append_left _)
    · rw [htables]
      exact List.filter_sublist
    · rw [List.nodup_append]
      refine ⟨?_, hdiv.nodup, ?_⟩
      · rw [htables]
        exact hts.nodup.sublist (List.filter_sublist.map _)
      · rintro a ha b hb rfl
        exact hbound a ha (hdiv.inside a hb)
    · obtain ⟨hp, a, ha, hroot, habsent⟩ := hdiv.of_dropped k hk
      exact ⟨hp, a, ha, fun hm => hbound a hm hroot, habsent⟩
    · have hs := mem_spoiled hF hk hp hroot hin hout
      have hother : ∀ root' ∈ absorbed p t, root ≠ root' := by
        rintro root' hroot' rfl
        exact (mem_absorbed_iff.1 hroot').2.1 hs
      refine ⟨fun x hx hm => ?_, fun k' hk' a ha hm => ?_⟩
      · rw [htables, List.mem_filter, decide_eq_true_iff, List.mem_flatMap]
        refine ⟨hx, ?_⟩
        rintro ⟨root', hroot', hm'⟩
        exact hother root' hroot' (hF.root_unique hroot (mem_absorbed_iff.1 hroot').1 hm
          (hF.mem_subtree_iff.1 hm'))
      · obtain ⟨root', hroot', hk'⟩ := List.mem_flatMap.1 (hdiv.perm.mem_iff.2 hk')
        rcases (of_route? hF (mem_sentTo_iff.1 hk').2).2.2.1 a ha with hnil | hm'
        · rw [hnil] at hm
          cases hm
        · exact hother root' hroot'
            (hF.root_unique hroot (mem_absorbed_iff.1 hroot').1 hm hm')

/-- Existence conditions instead of joins neither lose nor duplicate conditions or tables: a plan is
refused for a fragment of text that mentions tables of two outermost collections, and otherwise
conserves what it has. -/
theorem conserved_toExistence (hts : Table.Ordered [] p.tables) :
    ((∃ sql roots, p.toExistence joins = .error (.fragmentSpansRoots sql roots)) ↔
      p.SpansRoots (Collections.ofPlan p joins)) ∧
    (¬ p.SpansRoots (Collections.ofPlan p joins) → ∃ r outer ss dropped,
      p.toExistence joins = .ok r ∧
        Conserved p (Collections.ofPlan p joins) r.plan outer ss dropped) := by
  refine ⟨toExistence_error_iff, fun h => ?_⟩
  obtain ⟨r, hr⟩ := exists_toExistence h
  obtain ⟨outer, ss, dropped, hconserved⟩ := exists_conserved hts hr
  exact ⟨r, outer, ss, dropped, hr, hconserved⟩

/-- The authors of a book, whose books become an existence condition. -/
theorem conserved_toExistence_books : Table.Ordered [] Bookshelf.found.tables ∧
    ∃ r outer ss dropped, Bookshelf.found.toExistence [Bookshelf.books] = .ok r ∧
      Conserved Bookshelf.found (Collections.ofPlan Bookshelf.found [Bookshelf.books]) r.plan outer
        ss dropped := by
  have hordered : Table.Ordered [] Bookshelf.found.tables :=
    JoinTree.ordered_tables (T := Bookshelf.tree) rfl
  refine ⟨hordered, (conserved_toExistence hordered).2 ?_⟩
  rintro ⟨f, hf, -⟩
  simp [Bookshelf.found, Bookshelf.authors, Group.all, Bookshelf.titled, Group.fragments,
    Condition.fragmentsOf, Condition.fragments] at hf

end Plan

end EntityQuery
