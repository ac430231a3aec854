import EntityQuery.Proofs.Existence.Build

/-!
# Collections that are asked to have no row

Where the only thing asked of a collection is that its id is null, the condition that stands for it
is that no row is a partner.  Tables below such a collection have no row either, so checks for null
hold of them.

* `Condition.isNullCheck`: the conditions that may stand beside it;
* `Existence.build?_of_isMissing`: the condition is a negated subquery over one table;
* `Existence.holds_build?_missing_iff`: the meaning of the condition.
-/

namespace EntityQuery

/-- The condition is that a column is null. -/
def Condition.isNullCheck : Condition → Bool
  | .column c => c.predicate.isNullTest
  | _ => false

namespace Existence

section

variable {tables : List Table} {t : Collections} {conditions : List Condition} {k : Condition}
  {r : String}

theorem aliases_of_isMissing (h : k.isMissing r = true) : k.aliases = [r] := by
  cases k with
  | column c =>
    simp only [Condition.isMissing, Bool.and_eq_true, decide_eq_true_iff] at h
    rw [Condition.aliases, h.1.1]
  | _ => cases h

theorem isNullCheck_of_isMissing (h : k.isMissing r = true) : k.isNullCheck = true := by
  cases k with
  | column c =>
    simp only [Condition.isMissing, Bool.and_eq_true] at h
    exact h.2
  | _ => cases h

/-- A check for null holds where the table has no row. -/
theorem holds_of_isNullCheck {db : Database} {e : Assignment} (h : k.isNullCheck = true)
    (he : ∃ a ∈ k.aliases, e a = none) : k.Holds db e := by
  cases k with
  | column c =>
    obtain ⟨a, ha, he⟩ := he
    rw [Condition.aliases, List.mem_singleton] at ha
    subst ha
    have hnull : e.value ⟨c.aliasName, c.column⟩ = .null := Assignment.value_of_none he
    unfold Condition.Holds
    rw [Condition.eval, Predicate.isNullTest_iff.1 h, hnull]
    rfl
  | _ => cases h

/-- Conditions that ask for the row of a collection alone to be missing read no nested one. -/
theorem not_mem_above_of_isMissing (hF : t.IsForest) (hr : Routed t r conditions)
    (hasked : conditions.filter (!·.isPruneable) = [k]) (hk : k.isMissing r = true) {d : String}
    (hd : d ∈ t.childrenOf r) : ∀ k' ∈ conditions, ∀ a ∈ k'.aliases, d ∉ t.above a := by
  have only : ∀ k' ∈ conditions, k'.isPruneable = false → ∀ a ∈ k'.aliases, a = r := by
    intro k' hk' hp a ha
    have hm : k' ∈ conditions.filter (!·.isPruneable) := List.mem_filter.2 ⟨hk', by simp [hp]⟩
    rw [hasked, List.mem_singleton] at hm
    rwa [hm, aliases_of_isMissing hk, List.mem_singleton] at ha
  have hdr := hF.not_mem_above_of_mem_childrenOf hd
  intro k' hk' a ha hm
  cases hp : k'.isPruneable with
  | false => exact hdr (only k' hk' hp a ha ▸ hm)
  | true =>
    obtain ⟨d', hn, hd'⟩ := hF.exists_nearest hm
    obtain ⟨k'', hk'', hp', a', ha', hm'⟩ := hr.covered k' hk' hp a ha d' hn
      (hF.mem_above_of_mem_childrenOf hd hd')
    rw [only k'' hk'' hp' a' ha'] at hm'
    exact hdr (hF.mem_above_trans hm' hd')

/-- Such conditions become a negated subquery over the collection's own table. -/
theorem build?_of_isMissing {j : Join} {n : Nat} (hF : t.IsForest) (hj : t.join? r = some j)
    (hfuel : t.collections.length < n + 1 + (t.above r).length) (hr : Routed t r conditions)
    (hasked : conditions.filter (!·.isPruneable) = [k]) (hk : k.isMissing r = true) :
    build? tables t (n + 1) r conditions = some (.existence (subquery (subqueryTables tables r [r])
      [.raw (.correlation j.parent j.own)]) true [j.parent.aliasName]) := by
  have unread := fun d hd => not_mem_above_of_isMissing hF hr hasked hk (d := d) hd
  have stays : ∀ k' ∈ conditions, only? t (t.childrenOf r) k' = none := by
    intro k' hk'
    rw [Option.eq_none_iff_forall_ne_some]
    intro d hd
    obtain ⟨hd, ⟨a, ha, hm⟩, -⟩ := of_only? hd
    exact unread d hd k' hk' a ha hm
  have htainted : tainted t r conditions = [] := by
    refine List.eq_nil_iff_forall_not_mem.2 fun d hd => ?_
    obtain ⟨k', hk', -, ht⟩ := mem_tainted_iff.1 hd
    obtain ⟨hd, a, ha, hm⟩ := mem_touched_iff.1 ht
    exact unread d hd k' hk' a ha hm
  have hown : own t r conditions = conditions := by
    rw [own, htainted, List.flatMap_nil, List.append_nil, staying, List.filter_eq_self]
    exact fun k' hk' => decide_eq_true (stays k' hk')
  have hnested : nested tables t n r conditions = [] := by
    refine nested_eq_nil_iff.2 fun d hd _ => ?_
    refine (build?_eq_none_iff hF (hF.above_of_mem_childrenOf hd).1
      (fuel_of_mem_childrenOf hF hd hfuel)).2 fun k' hk' => ?_
    obtain ⟨hk', hs⟩ := mem_sent_iff.1 hk'
    rw [stays k' hk'] at hs
    cases hs
  rw [build?_succ hj, if_pos]
  rw [asksMissing_iff, hown]
  exact ⟨⟨k, hasked, hk⟩, hnested, htainted⟩

end

/-! ### The meaning of the conditions -/

section

variable {T : JoinTree} {p : Plan} {joins : List Join} {db : Database} {e₀ : Assignment}
  {conditions : List Condition} {k q : Condition} {r : String} {j : Join} {n : Nat}
  (hT : p.tables = T.tables) (hjoins : ∀ j ∈ joins, j ∈ T.joins)

include hT hjoins

/-- The subquery over a collection's own table has no row where the collection has no partner. -/
theorem rows_alone_eq_nil_iff (hj : j ∈ joins) (hcorr : db.Correlates j) :
    (subquery (subqueryTables p.tables j.aliasName [j.aliasName])
      [.raw (.correlation j.parent j.own)]).rows db e₀ = [] ↔ ∀ row, ¬ j.Partner db e₀ row := by
  have hjT := hjoins j hj
  have hne : j.parent.aliasName ≠ j.aliasName := T.ordered.parent_ne.2 j hjT
  rw [List.eq_nil_iff_forall_not_mem]
  have rows : ∀ e, e ∈ (subquery (subqueryTables p.tables j.aliasName [j.aliasName])
      [.raw (.correlation j.parent j.own)]).rows db e₀ ↔ (∀ a, a ≠ j.aliasName → e a = e₀ a) ∧
        ∃ row, j.Partner db e row ∧ e j.aliasName = some row := by
    intro e
    rw [JoinTree.mem_rows_subquery_iff hT (by simpa using ⟨j, hjT, rfl⟩) hjT
      (List.mem_singleton_self _) hcorr tables_subquery topConditions_subquery]
    simp only [List.mem_singleton]
    constructor
    · rintro ⟨hout, hrow, -⟩
      exact ⟨hout, hrow⟩
    · rintro ⟨hout, hrow⟩
      exact ⟨hout, hrow, fun _ _ h h' => absurd h h', by simp⟩
  constructor
  · intro h row hp
    refine h (e₀.bind j.aliasName (some row)) ((rows _).2 ⟨fun a ha => Assignment.bind_of_ne ha,
      row, ?_, Assignment.bind_self⟩)
    exact (Join.partner_congr (Assignment.bind_of_ne hne)).2 hp
  · intro h e he
    obtain ⟨hout, row, hp, -⟩ := (rows e).1 he
    exact h row ((Join.partner_congr (hout _ hne)).1 hp)

/-- A collection that is asked to have no row, and no more than that, has a condition that holds
when no row is a partner. -/
theorem holds_build?_missing_iff
    (houter : ∀ j ∈ T.joins, (Collections.ofPlan p joins).above j.aliasName ≠ [] → j.kind = .outer)
    (hcorr : ∀ j ∈ joins, db.Correlates j) (hids : db.HasIds)
    (hc : (Collections.ofPlan p joins).isCollection r)
    (hfuel : (Collections.ofPlan p joins).collections.length <
      n + ((Collections.ofPlan p joins).above r).length)
    (hr : Routed (Collections.ofPlan p joins) r conditions)
    (hasked : conditions.filter (!·.isPruneable) = [k]) (hk : k.isMissing r = true)
    (hchecks : ∀ k ∈ conditions, k.isPruneable = true → k.isNullCheck = true)
    (hb : build? p.tables (Collections.ofPlan p joins) n r conditions = some q) :
    q.Holds db e₀ ↔ ∃ e, Completes db T (Collections.ofPlan p joins) r conditions e₀ e := by
  classical
  have hF := JoinTree.isForest hT hjoins
  obtain ⟨j, hj, rfl⟩ := (JoinTree.isCollection_iff hT hjoins).1 hc
  have hjT := hjoins j hj
  obtain ⟨m, rfl⟩ := lt_of_fuel hF hfuel
  rw [build?_of_isMissing hF ((JoinTree.join?_iff hT hjoins).2 ⟨hj, rfl⟩) hfuel hr hasked hk] at hb
  obtain rfl := Option.some.inj hb
  have hkm : k ∈ conditions.filter (!·.isPruneable) := by
    rw [hasked]
    exact List.mem_singleton_self _
  have checks : ∀ k' ∈ conditions, k'.isNullCheck = true := by
    intro k' hk'
    cases hp : k'.isPruneable with
    | true => exact hchecks k' hk' hp
    | false =>
      have hm : k' ∈ conditions.filter (!·.isPruneable) := List.mem_filter.2 ⟨hk', by simp [hp]⟩
      rw [hasked, List.mem_singleton] at hm
      rw [hm]
      exact isNullCheck_of_isMissing hk
  rw [Condition.holds_existence_iff, rows_alone_eq_nil_iff hT hjoins hj (hcorr j hj),
    iff_true_left rfl]
  have hparent := JoinTree.parent_not_mem_above hT hjoins hjT
  constructor
  · intro hnone
    -- without a partner no table of the collection is bound to a row
    let t := Collections.ofPlan p joins
    let e : Assignment := fun a => if j.aliasName ∈ t.above a then none else e₀ a
    have inside : ∀ a, j.aliasName ∈ t.above a → e a = none := fun a ha => if_pos ha
    refine ⟨e, fun a ha => if_neg ha, fun j' hj' hm => ?_, fun k' hk' => ?_⟩
    · refine .inr ⟨houter j' hj' (List.ne_nil_of_mem hm), fun row hp => ?_, inside _ hm⟩
      by_cases hne : j'.aliasName = j.aliasName
      · obtain rfl := JoinTree.eq_of_aliasName hj' hjT hne
        exact hnone row ((Join.partner_congr (if_neg hparent)).1 hp)
      · have hp' := hp.2
        rw [Assignment.value_of_none (inside _ (JoinTree.parent_mem_above hT hjoins hj' hm hne))]
          at hp'
        exact Value.not_equals_null _ hp'
    · obtain ⟨a, ha, hm⟩ := hr.touches k' hk'
      exact holds_of_isNullCheck (checks k' hk') ⟨a, ha, inside a hm⟩
  · rintro ⟨e, he⟩ row hp
    have hid := (Condition.holds_isMissing_iff hk).1 (he.holds k (List.mem_filter.1 hkm).1)
    rcases he.fits j hjT (hF.mem_above_self hc) with ⟨row', hp', hrow⟩ | ⟨-, hnone, -⟩
    · rw [Assignment.value_of_some hrow] at hid
      exact hids j.table row' hp'.1 hid
    · exact hnone row ((Join.partner_congr (he.outside _ hparent)).2 hp)

end

end Existence

end EntityQuery
