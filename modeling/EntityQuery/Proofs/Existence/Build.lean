import EntityQuery.Proofs.Collection.Subtree
import EntityQuery.Collection.Existence

/-!
# The condition of a collection

The condition that stands for a collection holds when the tables below the collection can be bound
so that the conditions sent to it hold.  Nothing need be asked where only conditions are sent that
were not asked for.

* `Existence.own`, `Existence.tainted`, `Existence.nested`: what the conditions are divided into;
* `Existence.Routed`: the conditions that reach a collection, and what they read;
* `Existence.RejectsNull`: a condition that is not true without rows;
* `Existence.build?_eq_none_iff`: the collections that have no condition;
* `Existence.completes_of_nested`, `Existence.nested_of_completes`: rows that complete a collection,
  and rows of its subquery that are completed below the nested collections.
-/

namespace EntityQuery.Existence

variable {tables : List Table} {t : Collections} {c d : String} {conditions : List Condition}
  {k : Condition} {n : Nat} {j : Join}

/-! ### The division of conditions -/

/-- The nested collections that a condition reads together with other tables. -/
def tainted (t : Collections) (c : String) (conditions : List Condition) : List String :=
  ((staying (only? t (t.childrenOf c)) conditions).flatMap
    (touched t (t.childrenOf c))).foldl insertNew []

/-- The conditions that read a nested collection alone. -/
def sent (t : Collections) (c : String) (conditions : List Condition) (d : String) :
    List Condition := sentTo (only? t (t.childrenOf c)) d conditions

/-- The conditions of the subquery itself. -/
def own (t : Collections) (c : String) (conditions : List Condition) : List Condition :=
  staying (only? t (t.childrenOf c)) conditions ++
    (tainted t c conditions).flatMap (sent t c conditions)

/-- The conditions that stand for nested collections. -/
def nested (tables : List Table) (t : Collections) (n : Nat) (c : String)
    (conditions : List Condition) : List Condition :=
  (((t.childrenOf c).filter (· ∉ tainted t c conditions)).foldl insertNew []).filterMap fun d =>
    build? tables t n d (sent t c conditions d)

/-- The tables of the subquery. -/
def kept (t : Collections) (c : String) (conditions : List Condition) : List String :=
  t.ownedBy c ++ (tainted t c conditions).flatMap t.subtree

/-- Nothing is asked but that the collection has no row. -/
def asksMissing (tables : List Table) (t : Collections) (n : Nat) (c : String)
    (conditions : List Condition) : Bool :=
  match (own t c conditions).filter (!·.isPruneable) with
  | [k] => (nested tables t n c conditions).isEmpty && (tainted t c conditions).isEmpty &&
      k.isMissing c
  | _ => false

theorem tables_subquery : (subquery tables conditions).tables = tables := rfl

theorem topConditions_subquery : (subquery tables conditions).topConditions = conditions := rfl

theorem build?_succ (hj : t.join? c = some j) : build? tables t (n + 1) c conditions =
    if asksMissing tables t n c conditions then
      some (.existence (subquery (subqueryTables tables c [c])
        [.raw (.correlation j.parent j.own)]) true [j.parent.aliasName])
    else if ((own t c conditions).filter (!·.isPruneable)).isEmpty &&
        (nested tables t n c conditions).isEmpty then none
    else some (.existence (subquery (subqueryTables tables c (kept t c conditions))
      (.raw (.correlation j.parent j.own) :: (own t c conditions ++ nested tables t n c conditions)))
        false [j.parent.aliasName]) := by
  rw [build?, hj]
  rfl

/-- What stands for a collection asks for no row, or for a row under its conditions. -/
theorem build?_cases (h : build? tables t n c conditions = some k) :
    ∃ (m : Nat) (j : Join), n = m + 1 ∧ t.join? c = some j ∧
      (k = .existence (subquery (subqueryTables tables c [c])
          [.raw (.correlation j.parent j.own)]) true [j.parent.aliasName] ∨
        k = .existence (subquery (subqueryTables tables c (kept t c conditions))
          (.raw (.correlation j.parent j.own) :: (own t c conditions ++
            nested tables t m c conditions))) false [j.parent.aliasName]) := by
  cases n with
  | zero => cases h
  | succ m =>
    cases hj : t.join? c with
    | none =>
      rw [build?, hj] at h
      cases h
    | some j =>
      rw [build?_succ hj] at h
      refine ⟨m, j, rfl, rfl, ?_⟩
      split_ifs at h
      · exact .inl (Option.some.inj h).symm
      · exact .inr (Option.some.inj h).symm

theorem asksMissing_iff : asksMissing tables t n c conditions = true ↔
    (∃ k, (own t c conditions).filter (!·.isPruneable) = [k] ∧ k.isMissing c = true) ∧
      nested tables t n c conditions = [] ∧ tainted t c conditions = [] := by
  unfold asksMissing
  split
  · next k hk => simp [hk, and_comm]
  · next hne =>
    refine iff_of_false Bool.false_ne_true ?_
    rintro ⟨⟨k, hk, -⟩, -⟩
    exact hne k hk

theorem mem_touched_iff {children : List String} : d ∈ touched t children k ↔
    d ∈ children ∧ ∃ a ∈ k.aliases, d ∈ t.above a := by
  rw [touched, List.mem_filter, List.any_eq_true]
  simp only [Collections.inSubtree_iff]

/-- A condition that reads a nested collection alone reads its subtree and no other table. -/
theorem of_only? {children : List String} (h : only? t children k = some d) :
    d ∈ children ∧ (∃ a ∈ k.aliases, d ∈ t.above a) ∧ ∀ a ∈ k.aliases, d ∈ t.above a := by
  unfold only? at h
  split at h
  · next child he =>
    split_ifs at h with hall
    obtain rfl := Option.some.inj h
    have hm : child ∈ touched t children k := by rw [he]; exact List.mem_singleton_self _
    obtain ⟨hd, ha⟩ := mem_touched_iff.1 hm
    rw [List.all_eq_true] at hall
    exact ⟨hd, ha, fun a ha => Collections.inSubtree_iff.1 (hall a ha)⟩
  · cases h

theorem mem_tainted_iff : d ∈ tainted t c conditions ↔
    ∃ k ∈ conditions, only? t (t.childrenOf c) k = none ∧ d ∈ touched t (t.childrenOf c) k := by
  rw [tainted, mem_foldl_insertNew, List.mem_flatMap]
  simp [staying, and_assoc]

theorem mem_sent_iff : k ∈ sent t c conditions d ↔
    k ∈ conditions ∧ only? t (t.childrenOf c) k = some d := by
  rw [sent, sentTo, List.mem_filter, decide_eq_true_iff]

theorem mem_own_iff : k ∈ own t c conditions ↔
    k ∈ conditions ∧ ∀ d, only? t (t.childrenOf c) k = some d → d ∈ tainted t c conditions := by
  rw [own, List.mem_append, List.mem_flatMap, staying, List.mem_filter, decide_eq_true_iff]
  simp only [mem_sent_iff]
  constructor
  · rintro (⟨hk, hn⟩ | ⟨d, hd, hk, hs⟩)
    · exact ⟨hk, fun d hs => by rw [hn] at hs; cases hs⟩
    · exact ⟨hk, fun d' hs' => by rw [hs, Option.some.injEq] at hs'; exact hs' ▸ hd⟩
  · rintro ⟨hk, h⟩
    cases hs : only? t (t.childrenOf c) k with
    | none => exact .inl ⟨hk, rfl⟩
    | some d => exact .inr ⟨d, h d hs, hk, rfl⟩

theorem mem_nested_iff {q : Condition} : q ∈ nested tables t n c conditions ↔
    ∃ d ∈ t.childrenOf c, d ∉ tainted t c conditions ∧
      build? tables t n d (sent t c conditions d) = some q := by
  rw [nested, List.mem_filterMap]
  simp only [mem_foldl_insertNew, List.mem_filter, decide_eq_true_iff, List.not_mem_nil, false_or,
    and_assoc]

theorem nested_eq_nil_iff : nested tables t n c conditions = [] ↔
    ∀ d ∈ t.childrenOf c, d ∉ tainted t c conditions →
      build? tables t n d (sent t c conditions d) = none := by
  rw [List.eq_nil_iff_forall_not_mem]
  constructor
  · intro h d hd hnt
    rw [Option.eq_none_iff_forall_ne_some]
    exact fun q hq => h q (mem_nested_iff.2 ⟨d, hd, hnt, hq⟩)
  · intro h q hq
    obtain ⟨d, hd, hnt, hb⟩ := mem_nested_iff.1 hq
    rw [h d hd hnt] at hb
    cases hb

/-- A nested collection that is not tainted is read by the conditions that are sent to it. -/
theorem mem_sent_of_mem_above (hF : t.IsForest) (hd : d ∈ t.childrenOf c)
    (hnt : d ∉ tainted t c conditions) (hk : k ∈ conditions) {a : String} (ha : a ∈ k.aliases)
    (hm : d ∈ t.above a) : k ∈ sent t c conditions d := by
  rw [mem_sent_iff]
  refine ⟨hk, ?_⟩
  cases hs : only? t (t.childrenOf c) k with
  | none => exact absurd (mem_tainted_iff.2 ⟨k, hk, hs, mem_touched_iff.2 ⟨hd, a, ha, hm⟩⟩) hnt
  | some d' =>
    obtain ⟨hd', -, hall⟩ := of_only? hs
    rw [hF.child_unique hd hd' hm (hall a ha)]

/-- The conditions of the subquery read no nested collection that is not tainted. -/
theorem not_mem_above_of_mem_own (hF : t.IsForest) (hd : d ∈ t.childrenOf c)
    (hnt : d ∉ tainted t c conditions) (hk : k ∈ own t c conditions) {a : String}
    (ha : a ∈ k.aliases) : d ∉ t.above a := fun hm => by
  rw [mem_own_iff] at hk
  exact hnt (hk.2 d (mem_sent_iff.1 (mem_sent_of_mem_above hF hd hnt hk.1 ha hm)).2)

/-! ### Collections without a condition -/

/-- A collection below another one takes one more step to build. -/
theorem fuel_of_mem_childrenOf (hF : t.IsForest) (hd : d ∈ t.childrenOf c)
    (hfuel : t.collections.length < n + 1 + (t.above c).length) :
    t.collections.length < n + (t.above d).length := by
  rw [(hF.above_of_mem_childrenOf hd).2.1, List.length_cons]
  omega

theorem lt_of_fuel (hF : t.IsForest) (h : t.collections.length < n + (t.above c).length) :
    ∃ m, n = m + 1 := by
  have := hF.length_above_le (a := c)
  exact ⟨n - 1, by omega⟩

/-- Nothing stands for a collection that is sent no condition that was asked for. -/
theorem build?_eq_none_iff (hF : t.IsForest) (hc : t.isCollection c)
    (hfuel : t.collections.length < n + (t.above c).length) :
    build? tables t n c conditions = none ↔ ∀ k ∈ conditions, k.isPruneable = true := by
  induction n generalizing c conditions with
  | zero => exact absurd (lt_of_fuel hF hfuel) (by simp)
  | succ n ih =>
    have child : ∀ d ∈ t.childrenOf c, (build? tables t n d (sent t c conditions d) = none ↔
        ∀ k ∈ sent t c conditions d, k.isPruneable = true) := fun d hd =>
      ih (hF.above_of_mem_childrenOf hd).1 (fuel_of_mem_childrenOf hF hd hfuel)
    have asked : (own t c conditions).filter (!·.isPruneable) = [] ↔
        ∀ k ∈ own t c conditions, k.isPruneable = true := by simp [List.filter_eq_nil_iff]
    obtain ⟨j, hj⟩ := Option.isSome_iff_exists.1 hc
    rw [build?_succ hj]
    constructor
    · intro h k hk
      split_ifs at h with hm hnone
      rw [Bool.and_eq_true, List.isEmpty_iff, List.isEmpty_iff, asked, nested_eq_nil_iff] at hnone
      by_cases hown : k ∈ own t c conditions
      · exact hnone.1 k hown
      · -- what is not asked in the subquery is sent to a nested collection
        rw [mem_own_iff] at hown
        push Not at hown
        obtain ⟨d, hs, hnt⟩ := hown hk
        have hd := (of_only? hs).1
        exact (child d hd).1 (hnone.2 d hd hnt) k (mem_sent_iff.2 ⟨hk, hs⟩)
    · intro h
      have hown := asked.2 fun k hk => h k (mem_own_iff.1 hk).1
      have hnested : nested tables t n c conditions = [] :=
        nested_eq_nil_iff.2 fun d hd _ => (child d hd).2 fun k hk => h k (mem_sent_iff.1 hk).1
      have hm : ¬ asksMissing tables t n c conditions = true := by
        rw [asksMissing_iff, hown]
        simp
      rw [if_neg hm, hown, hnested]
      rfl

/-! ### The meaning of the condition -/

/-- The conditions that reach a collection.  They read tables below it; those that were asked for
read no other ones.  Where one that was not asked for reads a collection below, one that was asked
for reads that collection too. -/
structure Routed (t : Collections) (c : String) (conditions : List Condition) : Prop where
  flat : ∀ k ∈ conditions, k.plans = []
  touches : ∀ k ∈ conditions, ∃ a ∈ k.aliases, c ∈ t.above a
  inside : ∀ k ∈ conditions, k.isPruneable = false → ∀ a ∈ k.aliases, c ∈ t.above a
  covered : ∀ k ∈ conditions, k.isPruneable = true → ∀ a ∈ k.aliases, ∀ d, t.nearest? a = some d →
    c ∈ t.above d → ∃ k' ∈ conditions, k'.isPruneable = false ∧ ∃ a' ∈ k'.aliases, d ∈ t.above a'

/-- The condition is not true when the tables that it reads have no row. -/
def RejectsNull (db : Database) (k : Condition) : Prop :=
  ∀ e : Assignment, (∀ a ∈ k.aliases, e a = none) → ¬ k.Holds db e

namespace Routed

/-- What reaches a collection is asked for, or nothing reaches it. -/
theorem eq_nil (h : Routed t c conditions) (hF : t.IsForest)
    (hall : ∀ k ∈ conditions, k.isPruneable = true) : conditions = [] := by
  refine List.eq_nil_iff_forall_not_mem.2 fun k hk => ?_
  obtain ⟨a, ha, hm⟩ := h.touches k hk
  obtain ⟨d, hn, hd⟩ := hF.exists_nearest hm
  obtain ⟨k', hk', hasked, -⟩ := h.covered k hk (hall k hk) a ha d hn hd
  rw [hall k' hk'] at hasked
  cases hasked

theorem child (h : Routed t c conditions) (hF : t.IsForest) (hd : d ∈ t.childrenOf c)
    (hnt : d ∉ tainted t c conditions) : Routed t d (sent t c conditions d) where
  flat k hk := h.flat k (mem_sent_iff.1 hk).1
  touches k hk := (of_only? (mem_sent_iff.1 hk).2).2.1
  inside k hk _ := (of_only? (mem_sent_iff.1 hk).2).2.2
  covered k hk hp a ha d' hn hdd' := by
    obtain ⟨k', hk', hasked, a', ha', hm⟩ := h.covered k (mem_sent_iff.1 hk).1 hp a ha d' hn
      (hF.mem_above_of_mem_childrenOf hd hdd')
    exact ⟨k', mem_sent_of_mem_above hF hd hnt hk' ha' (hF.mem_above_trans hm hdd'), hasked, a',
      ha', hm⟩

end Routed

/-- The tables of the subquery are all below the collection but for the nested collections that
have subqueries of their own. -/
theorem mem_kept_iff (hF : t.IsForest) {a : String} : a ∈ kept t c conditions ↔
    c ∈ t.above a ∧ ∀ d ∈ t.childrenOf c, d ∉ tainted t c conditions → d ∉ t.above a := by
  rw [kept, List.mem_append, List.mem_flatMap, hF.mem_ownedBy_iff]
  simp only [hF.mem_subtree_iff]
  constructor
  · rintro (hn | ⟨d, hd, ha⟩)
    · exact ⟨Collections.IsForest.mem_above_of_nearest hn,
        fun d hd _ => hF.not_mem_above_of_nearest hn hd⟩
    · obtain ⟨k, -, -, ht⟩ := mem_tainted_iff.1 hd
      have hdc := (mem_touched_iff.1 ht).1
      exact ⟨hF.mem_above_of_mem_childrenOf hdc ha,
        fun d' hd' hnt ha' => hnt (hF.child_unique hdc hd' ha ha' ▸ hd)⟩
  · rintro ⟨hc, h⟩
    rcases hF.child_of_mem_above a hc with hn | ⟨d, hd, ha⟩
    · exact .inl hn
    · by_cases hnt : d ∈ tainted t c conditions
      · exact .inr ⟨d, hnt, ha⟩
      · exact absurd ha (h d hd hnt)

section

variable {T : JoinTree} {p : Plan} {joins : List Join} {db : Database} {e e₀ : Assignment}
  (hT : p.tables = T.tables) (hjoins : ∀ j ∈ joins, j ∈ T.joins)

include hT hjoins

/-- A row of the subquery and rows that complete it below the nested collections make up one that
completes the collection. -/
theorem completes_of_nested (hj : j ∈ T.joins)
    (hr : Routed (Collections.ofPlan p joins) j.aliasName conditions)
    (hout : ∀ a, a ∉ kept (Collections.ofPlan p joins) j.aliasName conditions → e a = e₀ a)
    (hrow : j.Fits db e)
    (hfits : ∀ j' ∈ T.joins, j'.aliasName ∈ kept (Collections.ofPlan p joins) j.aliasName
      conditions → j'.aliasName ≠ j.aliasName → j'.Fits db e)
    (hown : ∀ k ∈ own (Collections.ofPlan p joins) j.aliasName conditions, k.Holds db e)
    (hnested : ∀ d ∈ (Collections.ofPlan p joins).childrenOf j.aliasName,
      d ∉ tainted (Collections.ofPlan p joins) j.aliasName conditions →
        ∃ e', Completes db T (Collections.ofPlan p joins) d
          (sent (Collections.ofPlan p joins) j.aliasName conditions d) e e') :
    ∃ e', Completes db T (Collections.ofPlan p joins) j.aliasName conditions e₀ e' := by
  have hF := JoinTree.isForest hT hjoins
  set t := Collections.ofPlan p joins with ht
  set D := (t.childrenOf j.aliasName).filter (· ∉ tainted t j.aliasName conditions) with hD
  have mem_D : ∀ d, d ∈ D ↔ d ∈ t.childrenOf j.aliasName ∧
      d ∉ tainted t j.aliasName conditions := by
    intro d
    rw [hD, List.mem_filter, decide_eq_true_iff]
  have glued : ∀ d ∈ D, ∃ e', Completes db T t d (sent t j.aliasName conditions d) e e' :=
    fun d hd => hnested d ((mem_D d).1 hd).1 ((mem_D d).1 hd).2
  obtain ⟨e', hout', hin⟩ := JoinTree.exists_glued hT hjoins
    (fun a d hd d' hd' ha ha' =>
      hF.child_unique ((mem_D d).1 hd).1 ((mem_D d').1 hd').1 ha ha')
    (fun d _ k hk => hr.flat k (mem_sent_iff.1 hk).1)
    (fun d hd k hk a ha d' hd' ha' => hF.child_unique ((mem_D d').1 hd').1 ((mem_D d).1 hd).1 ha'
      ((of_only? (mem_sent_iff.1 hk).2).2.2 a ha)) glued
  refine ⟨e', fun a ha => ?_, fun j' hj' ha => ?_, fun k hk => ?_⟩
  · rw [hout' a fun d hd hm => ha (hF.mem_above_of_mem_childrenOf ((mem_D d).1 hd).1 hm)]
    exact hout a fun hm => ha ((mem_kept_iff hF).1 hm).1
  · by_cases hm : ∃ d ∈ D, d ∈ t.above j'.aliasName
    · obtain ⟨d, hd, hm⟩ := hm
      exact (hin d hd).1 j' hj' hm
    · -- a table of the subquery, joined to one of the subquery or outside
      push Not at hm
      have hkept : j'.aliasName ∈ kept t j.aliasName conditions :=
        (mem_kept_iff hF).2 ⟨ha, fun d hd hnt => hm d ((mem_D d).2 ⟨hd, hnt⟩)⟩
      have hparent : e' j'.parent.aliasName = e j'.parent.aliasName := hout' _ fun d hd hd' =>
        hm d hd (hF.mem_above_of_parent (JoinTree.parent?_of_mem hT hj') hd')
      refine (Join.fits_congr (hout' _ hm) hparent).2 ?_
      by_cases hne : j'.aliasName = j.aliasName
      · rwa [JoinTree.eq_of_aliasName hj' hj hne]
      · exact hfits j' hj' hkept hne
  · by_cases hk' : k ∈ own t j.aliasName conditions
    · refine (Condition.holds_congr (hr.flat k hk) fun a ha => hout' a fun d hd => ?_).2 (hown k hk')
      exact not_mem_above_of_mem_own hF ((mem_D d).1 hd).1 ((mem_D d).1 hd).2 hk' ha
    · rw [mem_own_iff] at hk'
      push Not at hk'
      obtain ⟨d, hs, hnt⟩ := hk' hk
      exact (hin d ((mem_D d).2 ⟨(of_only? hs).1, hnt⟩)).2 k (mem_sent_iff.2 ⟨hk, hs⟩)

/-- What completes a collection has a row in the collection's table, once something is asked that is
not true without rows. -/
theorem partner_of_completes (hj : j ∈ T.joins)
    (hself : (Collections.ofPlan p joins).isCollection j.aliasName)
    (hr : Routed (Collections.ofPlan p joins) j.aliasName conditions)
    (hk : k ∈ conditions) (hasked : k.isPruneable = false) (hnull : RejectsNull db k)
    (he : Completes db T (Collections.ofPlan p joins) j.aliasName conditions e₀ e) :
    ∃ row, j.Partner db e row ∧ e j.aliasName = some row := by
  have hF := JoinTree.isForest hT hjoins
  have hne : e j.aliasName ≠ none := fun hnone => hnull e (fun a ha =>
    JoinTree.eq_none_of_mem_above hT hjoins he.fits hnone a (hr.inside k hk hasked a ha))
    (he.holds k hk)
  rcases he.fits j hj (hF.mem_above_self hself) with hrow | ⟨-, -, hnone⟩
  · exact hrow
  · exact absurd hnone hne

/-- What completes a collection with a row makes up a row of the subquery, and completes that row
below the nested collections. -/
theorem nested_of_completes (hj : j ∈ T.joins)
    (hr : Routed (Collections.ofPlan p joins) j.aliasName conditions)
    (he : Completes db T (Collections.ofPlan p joins) j.aliasName conditions e₀ e) :
    ∃ e' : Assignment,
      (∀ a, a ∉ kept (Collections.ofPlan p joins) j.aliasName conditions → e' a = e₀ a) ∧
      (∀ row, j.Partner db e row → e j.aliasName = some row →
        j.Partner db e' row ∧ e' j.aliasName = some row) ∧
      (∀ j' ∈ T.joins, j'.aliasName ∈ kept (Collections.ofPlan p joins) j.aliasName conditions →
        j'.aliasName ≠ j.aliasName → j'.Fits db e') ∧
      (∀ k ∈ own (Collections.ofPlan p joins) j.aliasName conditions, k.Holds db e') ∧
      ∀ d ∈ (Collections.ofPlan p joins).childrenOf j.aliasName,
        d ∉ tainted (Collections.ofPlan p joins) j.aliasName conditions →
          ∃ e'', Completes db T (Collections.ofPlan p joins) d
            (sent (Collections.ofPlan p joins) j.aliasName conditions d) e' e'' := by
  classical
  have hF := JoinTree.isForest hT hjoins
  set t := Collections.ofPlan p joins with ht
  let names := kept t j.aliasName conditions
  let e' : Assignment := fun a => if a ∈ names then e a else e₀ a
  have agrees : ∀ a, (∀ d ∈ t.childrenOf j.aliasName, d ∉ tainted t j.aliasName conditions →
      d ∉ t.above a) → e' a = e a := by
    intro a ha
    by_cases hm : a ∈ names
    · exact if_pos hm
    · have hc : j.aliasName ∉ t.above a := fun hc => hm ((mem_kept_iff hF).2 ⟨hc, ha⟩)
      simp only [e', if_neg hm]
      exact (he.outside a hc).symm
  have atParent : ∀ j' ∈ T.joins, (∀ d ∈ t.childrenOf j.aliasName,
      d ∉ tainted t j.aliasName conditions → d ∉ t.above j'.aliasName) →
        e' j'.parent.aliasName = e j'.parent.aliasName := fun j' hj' h =>
    agrees _ fun d hd hnt hm =>
      h d hd hnt (hF.mem_above_of_parent (JoinTree.parent?_of_mem hT hj') hm)
  have atSelf : ∀ d ∈ t.childrenOf j.aliasName, d ∉ t.above j.aliasName := fun d hd =>
    hF.not_mem_above_of_mem_childrenOf hd
  refine ⟨e', fun a ha => if_neg ha, fun row hp hrow => ?_, fun j' hj' hm _ => ?_, fun k hk => ?_,
    fun d hd hnt => ?_⟩
  · refine ⟨(Join.partner_congr (atParent j hj fun d hd _ => atSelf d hd)).2 hp, ?_⟩
    rw [agrees _ fun d hd _ => atSelf d hd, hrow]
  · obtain ⟨hc, hout⟩ := (mem_kept_iff hF).1 hm
    exact (Join.fits_congr (agrees _ hout) (atParent j' hj' hout)).2 (he.fits j' hj' hc)
  · have hk' := (mem_own_iff.1 hk).1
    exact (Condition.holds_congr (hr.flat k hk') fun a ha => agrees a fun d hd hnt =>
      not_mem_above_of_mem_own hF hd hnt hk ha).2 (he.holds k hk')
  · obtain ⟨i, hi, rfl⟩ := (JoinTree.isCollection_iff hT hjoins).1
      (hF.above_of_mem_childrenOf hd).1
    refine (JoinTree.completes_of_agree hT hjoins (hjoins i hi) (e := e)
      (fun j' hj' hm => he.fits j' hj' (hF.mem_above_of_mem_childrenOf hd hm)) ?_
      (fun k hk => hr.flat k (mem_sent_iff.1 hk).1)
      (fun k hk a ha => .inl ((of_only? (mem_sent_iff.1 hk).2).2.2 a ha))
      (fun k hk => he.holds k (mem_sent_iff.1 hk).1)).imp fun _ => And.left
    -- the table that a nested collection is joined to is in none of them
    refine agrees _ fun d' hd' _ hm => ?_
    have := hF.child_unique hd' hd (hF.mem_above_of_parent
      (JoinTree.parent?_of_mem hT (hjoins i hi)) hm) (hF.mem_above_self
        (hF.above_of_mem_childrenOf hd).1)
    exact JoinTree.parent_not_mem_above hT hjoins (hjoins i hi) (this ▸ hm)

end

end EntityQuery.Existence
