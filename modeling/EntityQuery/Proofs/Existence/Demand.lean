import EntityQuery.Proofs.Existence.Missing

/-!
# What is demanded of a collection

The condition that stands for a collection finds a row, while the tables of the collection may be
joined without one.  The two come to the same where the conditions on the collection tell whether
there is a row: one of them is not true without it, or nothing is asked but that there is none.
Nested collections have conditions of their own, so the conditions on each of them have to tell.

* `Existence.asksOf`: a condition was asked for and reads the subtree of one collection alone;
* `Existence.ReadsAlone`, `Existence.Decides`: the conditions tell of a collection that they read
  alone whether it has a row;
* `Existence.Tells`: they tell of all collections below one;
* `Existence.Tells.filter`: the conditions that go to a nested collection tell as well;
* `Existence.holds_build?_iff`: the meaning of the condition that stands for a collection.
-/

namespace EntityQuery.Existence

/-- A condition that was asked for reads the subtree of the collection alone. -/
def asksOf (t : Collections) (c : String) (k : Condition) : Bool :=
  !k.isPruneable && !k.aliases.isEmpty && k.aliases.all (t.inSubtree · c)

/-- What was asked for reads no table of the collection together with other tables. -/
def ReadsAlone (t : Collections) (d : String) (conditions : List Condition) : Prop :=
  ∀ k ∈ conditions, k.isPruneable = false → (∃ a ∈ k.aliases, d ∈ t.above a) → asksOf t d k = true

/-- Where a collection is read alone by what was asked for, one of these conditions is not true
without a row; or nothing is asked but that there is none, and what was not asked for are checks for
null. -/
def Decides (db : Database) (t : Collections) (d : String) (conditions : List Condition) : Prop :=
  ReadsAlone t d conditions → (∃ k ∈ conditions, asksOf t d k = true) →
    (∃ k ∈ conditions, asksOf t d k = true ∧ RejectsNull db k) ∨
      (∃ k, conditions.filter (asksOf t d) = [k] ∧ k.isMissing d = true) ∧
        ∀ k ∈ conditions, k.isPruneable = true → (∃ a ∈ k.aliases, d ∈ t.above a) →
          k.isNullCheck = true

/-- The conditions tell of each collection at or below `c` whether it has a row. -/
def Tells (db : Database) (t : Collections) (c : String) (conditions : List Condition) : Prop :=
  ∀ d, t.isCollection d = true → c ∈ t.above d → Decides db t d conditions

section

variable {t : Collections} {c d : String} {conditions : List Condition} {k : Condition}

theorem asksOf_iff : asksOf t c k = true ↔
    k.isPruneable = false ∧ k.aliases ≠ [] ∧ ∀ a ∈ k.aliases, c ∈ t.above a := by
  rw [asksOf, Bool.and_eq_true, Bool.and_eq_true, List.all_eq_true, Bool.not_eq_true',
    Bool.not_eq_true', List.isEmpty_eq_false_iff, and_assoc]
  simp only [Collections.inSubtree_iff]

theorem exists_mem_above_of_asksOf (h : asksOf t c k = true) : ∃ a ∈ k.aliases, c ∈ t.above a := by
  obtain ⟨-, hne, hall⟩ := asksOf_iff.1 h
  obtain ⟨a, ha⟩ := List.exists_mem_of_ne_nil k.aliases hne
  exact ⟨a, ha, hall a ha⟩

theorem Routed.asksOf (h : Routed t c conditions) (hk : k ∈ conditions)
    (hp : k.isPruneable = false) : asksOf t c k = true := by
  obtain ⟨a, ha, -⟩ := h.touches k hk
  exact asksOf_iff.2 ⟨hp, List.ne_nil_of_mem ha, h.inside k hk hp⟩

/-- The conditions that read a collection below tell of what they tell all together. -/
theorem Tells.filter {db : Database} {p : Condition → Bool} (h : Tells db t c conditions)
    (hF : t.IsForest) (hd : c ∈ t.above d)
    (hp : ∀ k ∈ conditions, (∃ a ∈ k.aliases, d ∈ t.above a) → p k = true) :
    Tells db t d (conditions.filter p) := by
  intro d' hcol hd' halone ⟨k, hk, hasks⟩
  have reads : ∀ k ∈ conditions, (∃ a ∈ k.aliases, d' ∈ t.above a) → k ∈ conditions.filter p :=
    fun k hk ⟨a, ha, hm⟩ => List.mem_filter.2 ⟨hk, hp k hk ⟨a, ha, hF.mem_above_trans hm hd'⟩⟩
  have hfilter : (conditions.filter p).filter (asksOf t d') = conditions.filter (asksOf t d') := by
    rw [List.filter_filter]
    refine List.filter_congr fun k hk => ?_
    cases ha : asksOf t d' k with
    | false => rfl
    | true =>
      have hm := (List.mem_filter.1 (reads k hk (exists_mem_above_of_asksOf ha))).2
      simp [hm]
  refine (h d' hcol (hF.mem_above_trans hd' hd)
    (fun k hk hasked hread => halone k (reads k hk hread) hasked hread)
    ⟨k, (List.mem_filter.1 hk).1, hasks⟩).imp ?_ ?_
  · rintro ⟨k, hk, hasks, hnull⟩
    exact ⟨k, reads k hk (exists_mem_above_of_asksOf hasks), hasks, hnull⟩
  · rintro ⟨hone, hchecks⟩
    exact ⟨hfilter ▸ hone, fun k hk => hchecks k (List.mem_filter.1 hk).1⟩

theorem Tells.sent {db : Database} (h : Tells db t c conditions) (hF : t.IsForest)
    (hd : d ∈ t.childrenOf c) (hnt : d ∉ tainted t c conditions) :
    Tells db t d (sent t c conditions d) := by
  refine h.filter hF (hF.mem_above_of_mem_childrenOf hd ?_) fun k hk ⟨a, ha, hm⟩ => ?_
  · exact hF.mem_above_self (hF.above_of_mem_childrenOf hd).1
  · exact (List.mem_filter.1 (mem_sent_of_mem_above hF hd hnt hk ha hm)).2

end

section

variable {T : JoinTree} {p : Plan} {joins : List Join} {db : Database} {e₀ : Assignment}
  {conditions : List Condition} {c : String} {k : Condition} {n : Nat}
  (hT : p.tables = T.tables) (hjoins : ∀ j ∈ joins, j ∈ T.joins)

include hT hjoins

/-- A condition that asks for the row to be missing holds of no row, so it is not all that is asked
where another condition is not true without a row. -/
theorem not_asksMissing_of_rejectsNull
    (hfuel : (Collections.ofPlan p joins).collections.length <
      n + 1 + ((Collections.ofPlan p joins).above c).length)
    (hk : k ∈ conditions) (hasked : k.isPruneable = false) (hnull : RejectsNull db k) :
    ¬ asksMissing p.tables (Collections.ofPlan p joins) n c conditions = true := by
  have hF := JoinTree.isForest hT hjoins
  intro hmissing
  obtain ⟨⟨k₁, hfilter, hk₁⟩, hnested, -⟩ := asksMissing_iff.1 hmissing
  have hown : k ∈ own (Collections.ofPlan p joins) c conditions := by
    by_contra hnot
    rw [mem_own_iff] at hnot
    push Not at hnot
    obtain ⟨d, hs, hnt⟩ := hnot hk
    have hd := (of_only? hs).1
    have hall := (build?_eq_none_iff hF (hF.above_of_mem_childrenOf hd).1
      (fuel_of_mem_childrenOf hF hd hfuel)).1 (nested_eq_nil_iff.1 hnested d hd hnt) k
        (mem_sent_iff.2 ⟨hk, hs⟩)
    rw [hasked] at hall
    cases hall
  have hm : k ∈ (own (Collections.ofPlan p joins) c conditions).filter (!·.isPruneable) :=
    List.mem_filter.2 ⟨hown, by simp [hasked]⟩
  rw [hfilter, List.mem_singleton] at hm
  refine absurd ?_ (hnull .empty fun _ _ => rfl)
  rw [hm]
  exact (Condition.holds_isMissing_iff hk₁).2 (Assignment.value_of_none rfl)

/-- A collection that is asked for by a condition that is not true without a row: its condition finds a
row, if those of the nested collections mean what they stand for. -/
theorem holds_build?_found_iff
    (houter : ∀ j ∈ T.joins, (Collections.ofPlan p joins).above j.aliasName ≠ [] → j.kind = .outer)
    (hcorr : ∀ j ∈ joins, db.Correlates j) {j : Join} (hj : j ∈ joins)
    (hfuel : (Collections.ofPlan p joins).collections.length <
      n + 1 + ((Collections.ofPlan p joins).above j.aliasName).length)
    (hr : Routed (Collections.ofPlan p joins) j.aliasName conditions) {k' : Condition}
    (hk' : k' ∈ conditions) (hasks : asksOf (Collections.ofPlan p joins) j.aliasName k' = true)
    (hnull : RejectsNull db k')
    (hnested : ∀ d ∈ (Collections.ofPlan p joins).childrenOf j.aliasName,
      d ∉ tainted (Collections.ofPlan p joins) j.aliasName conditions → ∀ q e,
        build? p.tables (Collections.ofPlan p joins) n d
          (sent (Collections.ofPlan p joins) j.aliasName conditions d) = some q →
        (q.Holds db e ↔ ∃ e', Completes db T (Collections.ofPlan p joins) d
          (sent (Collections.ofPlan p joins) j.aliasName conditions d) e e'))
    (hb : build? p.tables (Collections.ofPlan p joins) (n + 1) j.aliasName conditions = some k) :
    k.Holds db e₀ ↔
      ∃ e, Completes db T (Collections.ofPlan p joins) j.aliasName conditions e₀ e := by
  have hF := JoinTree.isForest hT hjoins
  have hjT := hjoins j hj
  set t := Collections.ofPlan p joins with ht
  have hc : t.isCollection j.aliasName := (JoinTree.isCollection_iff hT hjoins).2 ⟨j, hj, rfl⟩
  have hasked := (asksOf_iff.1 hasks).1
  rw [build?_succ ((JoinTree.join?_iff hT hjoins).2 ⟨hj, rfl⟩)] at hb
  split_ifs at hb with hmissing
  · exact absurd hmissing (not_asksMissing_of_rejectsNull hT hjoins hfuel hk' hasked hnull)
  obtain rfl := Option.some.inj hb
  rw [Condition.holds_exists_iff]
  have hnames : ∀ a ∈ kept t j.aliasName conditions, ∃ j' ∈ T.joins, j'.aliasName = a :=
    fun a ha => JoinTree.exists_join_of_mem_above hT hjoins ((mem_kept_iff hF).1 ha).1
  have hmem : j.aliasName ∈ kept t j.aliasName conditions := (mem_kept_iff hF).2
    ⟨hF.mem_above_self hc, fun d hd _ => hF.not_mem_above_of_mem_childrenOf hd⟩
  constructor
  · rintro ⟨e', he'⟩
    obtain ⟨hout, ⟨row, hp, hrow⟩, hfits, hholds⟩ := (JoinTree.mem_rows_subquery_iff hT hnames
      hjT hmem (hcorr j hj) tables_subquery topConditions_subquery).1 he'
    refine completes_of_nested hT hjoins hjT hr hout (.inl ⟨row, hp, hrow⟩) hfits
      (fun k hk => hholds k (List.mem_append_left _ hk)) fun d hd hnt => ?_
    have hd' := (hF.above_of_mem_childrenOf hd).1
    cases hq : build? p.tables t n d (sent t j.aliasName conditions d) with
    | none =>
      -- nothing is asked of the nested collection
      rw [(hr.child hF hd hnt).eq_nil hF
        ((build?_eq_none_iff hF hd' (fuel_of_mem_childrenOf hF hd hfuel)).1 hq)]
      exact JoinTree.exists_completes_nil
        (fun j' hj' hm => houter j' hj' (List.ne_nil_of_mem hm)) e'
    | some q =>
      refine (hnested d hd hnt q e' hq).1 (hholds q ?_)
      exact List.mem_append_right _ (mem_nested_iff.2 ⟨d, hd, hnt, hq⟩)
  · rintro ⟨e, he⟩
    obtain ⟨row, hp, hrow⟩ := partner_of_completes hT hjoins hjT hc hr hk' hasked hnull he
    obtain ⟨e', hout, hrow', hfits, hown, hcompletes⟩ := nested_of_completes hT hjoins hjT hr he
    refine ⟨e', (JoinTree.mem_rows_subquery_iff hT hnames hjT hmem (hcorr j hj)
      tables_subquery topConditions_subquery).2
        ⟨hout, ⟨row, hrow' row hp hrow⟩, hfits, fun q hq => ?_⟩⟩
    rcases List.mem_append.1 hq with hq | hq
    · exact hown q hq
    · obtain ⟨d, hd, hnt, hq⟩ := mem_nested_iff.1 hq
      exact (hnested d hd hnt q e' hq).2 (hcompletes d hd hnt)

/-- The condition of a collection holds when the tables below it can be bound so that the conditions
that were sent to it hold. -/
theorem holds_build?_iff
    (houter : ∀ j ∈ T.joins, (Collections.ofPlan p joins).above j.aliasName ≠ [] → j.kind = .outer)
    (hcorr : ∀ j ∈ joins, db.Correlates j) (hids : db.HasIds)
    (hc : (Collections.ofPlan p joins).isCollection c)
    (hfuel : (Collections.ofPlan p joins).collections.length <
      n + ((Collections.ofPlan p joins).above c).length)
    (hr : Routed (Collections.ofPlan p joins) c conditions)
    (htells : Tells db (Collections.ofPlan p joins) c conditions)
    (hb : build? p.tables (Collections.ofPlan p joins) n c conditions = some k) :
    k.Holds db e₀ ↔ ∃ e, Completes db T (Collections.ofPlan p joins) c conditions e₀ e := by
  have hF := JoinTree.isForest hT hjoins
  induction n generalizing c conditions k e₀ with
  | zero => exact absurd (lt_of_fuel hF hfuel) (by simp)
  | succ n ih =>
    have asked : ∃ k' ∈ conditions, asksOf (Collections.ofPlan p joins) c k' = true := by
      by_contra hnone
      rw [(build?_eq_none_iff hF hc hfuel).2 fun k' hk' => ?_] at hb
      · cases hb
      · rw [← Bool.not_eq_false]
        exact fun hp => hnone ⟨k', hk', hr.asksOf hk' hp⟩
    rcases htells c hc (hF.mem_above_self hc) (fun k' hk' hp _ => hr.asksOf hk' hp) asked with
      ⟨k', hk', hasks, hnull⟩ | ⟨⟨k₀, hone, hk₀⟩, hchecks⟩
    · obtain ⟨j, hj, rfl⟩ := (JoinTree.isCollection_iff hT hjoins).1 hc
      exact holds_build?_found_iff hT hjoins houter hcorr hj hfuel hr hk' hasks hnull
        (fun d hd hnt q e hq => ih (hF.above_of_mem_childrenOf hd).1
          (fuel_of_mem_childrenOf hF hd hfuel) (hr.child hF hd hnt) (htells.sent hF hd hnt) hq) hb
    · refine holds_build?_missing_iff hT hjoins houter hcorr hids hc hfuel hr ?_ hk₀
        (fun k' hk' hp => hchecks k' hk' hp (hr.touches k' hk')) hb
      rw [← hone]
      refine List.filter_congr fun k' hk' => ?_
      rw [Bool.eq_iff_iff, Bool.not_eq_true']
      exact ⟨fun hp => hr.asksOf hk' hp, fun h => (asksOf_iff.1 h).1⟩

end

end EntityQuery.Existence
