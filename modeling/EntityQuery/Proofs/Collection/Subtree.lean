import EntityQuery.Proofs.Collection.JoinTree

/-!
# Subtrees of a collection

What a query says of a collection it says of the rows that the tables below the collection can be
bound to around given rows of the other tables.  Subtrees without common tables can be bound
independently.

* `Completes`: an assignment binds the tables below a collection as its conditions ask for it;
* `Completes.of_agree`: what completes one assignment completes those that agree with it;
* `exists_completes_nil`: where all joins are outer ones, nothing need be asked of the tables;
* `exists_glued`: subtrees without common tables are completed together;
* `mem_rows_subquery_iff`: what the subquery of a collection selects.
-/

namespace EntityQuery

/-- The assignment `e` differs from `e₀` in the tables below the collection alone, which it binds
as they are joined and so that the conditions hold. -/
structure Completes (db : Database) (T : JoinTree) (t : Collections) (c : String)
    (conditions : List Condition) (e₀ e : Assignment) : Prop where
  outside : ∀ a, c ∉ t.above a → e a = e₀ a
  fits : ∀ j ∈ T.joins, c ∈ t.above j.aliasName → j.Fits db e
  holds : ∀ k ∈ conditions, k.Holds db e

/-- An outer join loses no row. -/
theorem Join.bind_ne_nil {db : Database} {j : Join} {e : Assignment} (h : j.kind = .outer) :
    j.bind db e ≠ [] := by
  unfold Join.bind
  simp only
  split_ifs with hc
  · simp
  · intro hnil
    rw [List.map_eq_nil_iff] at hnil
    exact hc (by simp [hnil, h])

namespace JoinTree

variable {T : JoinTree} {p : Plan} {joins : List Join} {db : Database} {e e₀ : Assignment}
  {c : String} {conditions : List Condition} {j : Join}

/-! ### Binding some of the tables -/

theorem bindAll_ne_nil {js : List Join} (h : ∀ j ∈ js, j.kind = .outer) {es : List Assignment}
    (hes : es ≠ []) : Table.bindAll db (js.map .join) es ≠ [] := by
  induction js generalizing es with
  | nil => exact hes
  | cons j js ih =>
    rw [List.map_cons, Table.bindAll]
    refine ih (fun j hj => h j (List.mem_cons_of_mem _ hj)) fun hnil => hes ?_
    rw [List.flatMap_eq_nil_iff] at hnil
    refine List.eq_nil_iff_forall_not_mem.2 fun e he => ?_
    exact absurd (hnil e he) (Join.bind_ne_nil (h j List.mem_cons_self))

/-- Tables of outer joins can be bound around any rows of the others. -/
theorem exists_fits (db : Database) (P : Join → Prop) (houter : ∀ j ∈ T.joins, P j → j.kind = .outer)
    (e₀ : Assignment) : ∃ e : Assignment, (∀ a, (∀ j ∈ T.joins, P j → j.aliasName ≠ a) →
      e a = e₀ a) ∧ ∀ j ∈ T.joins, P j → j.Fits db e := by
  classical
  have hne : Table.bindAll db ((T.joins.filter (P ·)).map .join) [e₀] ≠ [] := by
    refine bindAll_ne_nil (fun j hj => ?_) (by simp)
    rw [List.mem_filter, decide_eq_true_iff] at hj
    exact houter j hj.1 hj.2
  have hstaged : Table.Staged ((T.joins.filter (P ·)).map Table.join) :=
    T.staged.sublist ((List.filter_sublist.map _).trans (List.sublist_cons_self _ _))
  obtain ⟨e, he⟩ := List.exists_mem_of_ne_nil _ hne
  obtain ⟨e₁, he₁, hout, hfits⟩ := (Table.mem_bindAll_iff hstaged).1 he
  obtain rfl := List.mem_singleton.1 he₁
  refine ⟨e, fun a ha => hout a fun hm => ?_, fun j hj hP => ?_⟩
  · rw [List.map_map, List.mem_map] at hm
    obtain ⟨j, hj, hja⟩ := hm
    rw [List.mem_filter, decide_eq_true_iff] at hj
    exact ha j hj.1 hj.2 hja
  · exact hfits (.join j) (List.mem_map_of_mem (List.mem_filter.2 ⟨hj, decide_eq_true hP⟩))

/-- Where all joins below a collection are outer ones, any assignment can be completed. -/
theorem exists_completes_nil
    (houter : ∀ j ∈ T.joins, c ∈ (Collections.ofPlan p joins).above j.aliasName → j.kind = .outer)
    (e₀ : Assignment) : ∃ e, Completes db T (Collections.ofPlan p joins) c [] e₀ e := by
  obtain ⟨e, hout, hfits⟩ := exists_fits db
    (fun j => c ∈ (Collections.ofPlan p joins).above j.aliasName) houter e₀
  exact ⟨e, fun a ha => hout a fun j _ hc he => ha (he ▸ hc), hfits, by simp⟩

section

variable (hT : p.tables = T.tables) (hjoins : ∀ j ∈ joins, j ∈ T.joins)

include hT

theorem parent?_of_mem (hj : j ∈ T.joins) :
    (Collections.ofPlan p joins).parent? j.aliasName = some j.parent.aliasName :=
  (parent?_iff hT).2 ⟨j, hj, rfl, rfl⟩

include hjoins

/-- What is below a collection is a joined table. -/
theorem exists_join_of_mem_above {a : String} (hc : c ∈ (Collections.ofPlan p joins).above a) :
    ∃ j ∈ T.joins, j.aliasName = a := by
  have hF := isForest hT hjoins
  by_cases hne : a = c
  · obtain ⟨j, hj, hja⟩ := (isCollection_iff hT hjoins).1 (Collections.mem_above.1 hc).2
    exact ⟨j, hjoins j hj, hja.trans hne.symm⟩
  · obtain ⟨b, hp, -⟩ := hF.exists_parent_of_mem_above hc hne
    obtain ⟨j, hj, hja, -⟩ := (parent?_iff hT).1 hp
    exact ⟨j, hj, hja⟩

theorem not_mem_above_primary : c ∉ (Collections.ofPlan p joins).above T.aliasName := by
  intro hc
  obtain ⟨j, hj, hja⟩ := exists_join_of_mem_above hT hjoins hc
  exact T.ordered.alias_not_mem j hj (by simp [hja])

/-- The table that a table below the collection is joined to is below it too, unless the table is
that of the collection. -/
theorem parent_mem_above (hj : j ∈ T.joins)
    (hc : c ∈ (Collections.ofPlan p joins).above j.aliasName) (hne : j.aliasName ≠ c) :
    c ∈ (Collections.ofPlan p joins).above j.parent.aliasName := by
  obtain ⟨b, hp, hb⟩ := (isForest hT hjoins).exists_parent_of_mem_above hc hne
  rw [parent?_of_mem hT hj, Option.some.injEq] at hp
  exact hp ▸ hb

/-- The table that a collection is joined to is not below it. -/
theorem parent_not_mem_above (hj : j ∈ T.joins) :
    j.aliasName ∉ (Collections.ofPlan p joins).above j.parent.aliasName := fun hm =>
  (isForest hT hjoins).ne_of_mem_chain_parent (parent?_of_mem hT hj)
    (Collections.mem_above.1 hm).1 rfl

/-- A collection without a row has no row in any table below it. -/
theorem eq_none_of_mem_above
    (hfits : ∀ j ∈ T.joins, c ∈ (Collections.ofPlan p joins).above j.aliasName → j.Fits db e)
    (hc : e c = none) : ∀ a, c ∈ (Collections.ofPlan p joins).above a → e a = none := by
  refine (isForest hT hjoins).induction fun a ih ha => ?_
  by_cases hne : a = c
  · rw [hne, hc]
  · obtain ⟨j, hj, rfl⟩ := exists_join_of_mem_above hT hjoins ha
    exact Join.eq_none_of_fits (hfits j hj ha)
      (ih _ (parent?_of_mem hT hj) (parent_mem_above hT hjoins hj ha hne))

/-! ### Completing an assignment -/

/-- What binds a subtree inside of one assignment completes those that agree with it in the tables
that the conditions read and the collection is joined to. -/
theorem completes_of_agree (hc : j ∈ T.joins)
    (hfits : ∀ j' ∈ T.joins, j.aliasName ∈ (Collections.ofPlan p joins).above j'.aliasName →
      j'.Fits db e) (hparent : e₀ j.parent.aliasName = e j.parent.aliasName)
    (hflat : ∀ k ∈ conditions, k.plans = [])
    (hread : ∀ k ∈ conditions, ∀ a ∈ k.aliases,
      j.aliasName ∈ (Collections.ofPlan p joins).above a ∨ e₀ a = e a)
    (hholds : ∀ k ∈ conditions, k.Holds db e) :
    ∃ e', Completes db T (Collections.ofPlan p joins) j.aliasName conditions e₀ e' ∧
      ∀ a, j.aliasName ∈ (Collections.ofPlan p joins).above a → e' a = e a := by
  classical
  let t := Collections.ofPlan p joins
  let e' : Assignment := fun a => if j.aliasName ∈ t.above a then e a else e₀ a
  have inside : ∀ a, j.aliasName ∈ t.above a → e' a = e a := fun a ha => if_pos ha
  have outside : ∀ a, j.aliasName ∉ t.above a → e' a = e₀ a := fun a ha => if_neg ha
  refine ⟨e', ⟨outside, fun j' hj' hm => ?_, fun k hk => ?_⟩, inside⟩
  · refine (Join.fits_congr (inside _ hm) ?_).2 (hfits j' hj' hm)
    by_cases hne : j'.aliasName = j.aliasName
    · obtain rfl := eq_of_aliasName hj' hc hne
      rw [outside _ (parent_not_mem_above hT hjoins hc), hparent]
    · exact inside _ (parent_mem_above hT hjoins hj' hm hne)
  · refine (Condition.holds_congr (hflat k hk) fun a ha => ?_).2 (hholds k hk)
    by_cases hm : j.aliasName ∈ t.above a
    · exact inside a hm
    · rw [outside a hm]
      exact (hread k hk a ha).resolve_left hm

/-- Subtrees without common tables are completed together, when no condition of one of them reads a
table of another one. -/
theorem exists_glued {D : List String} {sent : String → List Condition}
    (hdisjoint : ∀ a, ∀ d ∈ D, ∀ d' ∈ D, d ∈ (Collections.ofPlan p joins).above a →
      d' ∈ (Collections.ofPlan p joins).above a → d = d')
    (hflat : ∀ d ∈ D, ∀ k ∈ sent d, k.plans = [])
    (hread : ∀ d ∈ D, ∀ k ∈ sent d, ∀ a ∈ k.aliases, ∀ d' ∈ D,
      d' ∈ (Collections.ofPlan p joins).above a → d' = d)
    (h : ∀ d ∈ D, ∃ e, Completes db T (Collections.ofPlan p joins) d (sent d) e₀ e) :
    ∃ e : Assignment, (∀ a, (∀ d ∈ D, d ∉ (Collections.ofPlan p joins).above a) → e a = e₀ a) ∧
      ∀ d ∈ D, (∀ j ∈ T.joins, d ∈ (Collections.ofPlan p joins).above j.aliasName →
        j.Fits db e) ∧ ∀ k ∈ sent d, k.Holds db e := by
  classical
  let t := Collections.ofPlan p joins
  choose! part hpart using h
  -- the rows of a table come from the part that completes the subtree it is in
  let e : Assignment := fun a =>
    if h : ∃ d ∈ D, d ∈ t.above a then part h.choose a else e₀ a
  have inside : ∀ d ∈ D, ∀ a, d ∈ t.above a → e a = part d a := by
    intro d hd a ha
    have hex : ∃ d ∈ D, d ∈ t.above a := ⟨d, hd, ha⟩
    have hd' := hex.choose_spec
    simp only [e, dif_pos hex]
    rw [hdisjoint a _ hd'.1 d hd hd'.2 ha]
  have outside : ∀ a, (∀ d ∈ D, d ∉ t.above a) → e a = e₀ a := by
    intro a ha
    exact dif_neg fun ⟨d, hd, hm⟩ => ha d hd hm
  -- a part agrees with the whole wherever no other subtree is
  have agrees : ∀ d ∈ D, ∀ a, (∀ d' ∈ D, d' ∈ t.above a → d' = d) → e a = part d a := by
    intro d hd a ha
    by_cases hm : d ∈ t.above a
    · exact inside d hd a hm
    · rw [(hpart d hd).outside a hm]
      exact outside a fun d' hd' hm' => hm (ha d' hd' hm' ▸ hm')
  refine ⟨e, outside, fun d hd => ⟨fun j hj hm => ?_, fun k hk => ?_⟩⟩
  · refine (Join.fits_congr (inside d hd _ hm) (agrees d hd _ fun d' hd' hm' => ?_)).2
      ((hpart d hd).fits j hj hm)
    exact hdisjoint j.aliasName d' hd' d hd
      ((isForest hT hjoins).mem_above_of_parent (parent?_of_mem hT hj) hm') hm
  · exact (Condition.holds_congr (hflat d hd k hk) fun a ha =>
      agrees d hd a (hread d hd k hk a ha)).2 ((hpart d hd).holds k hk)

end

/-! ### The subquery of a collection -/

theorem subqueryTables_eq (hT : p.tables = T.tables) {names : List String}
    (hnames : T.aliasName ∉ names) :
    subqueryTables p.tables j.aliasName names =
      (T.joins.filter (·.aliasName ∈ names)).map fun j' =>
        if j'.aliasName = j.aliasName then .primary j'.aliasName j'.table else .join j' := by
  have hfilter : T.tables.filter (·.aliasName ∈ names) =
      (T.joins.filter (·.aliasName ∈ names)).map .join := by
    rw [tables, List.filter_cons_of_neg (by simp [Table.aliasName, hnames]), List.filter_map]
    rfl
  rw [subqueryTables, hT, hfilter, List.map_map]
  rfl

theorem mem_aliases_subqueryTables (hT : p.tables = T.tables) {names : List String}
    (hnames : T.aliasName ∉ names) {a : String} :
    a ∈ (subqueryTables p.tables j.aliasName names).map Table.aliasName ↔
      a ∈ names ∧ ∃ j' ∈ T.joins, j'.aliasName = a := by
  rw [subqueryTables_eq hT hnames, List.map_map, List.mem_map]
  simp only [List.mem_filter, decide_eq_true_iff, Function.comp_apply]
  constructor
  · rintro ⟨j', ⟨hj', hn⟩, rfl⟩
    split_ifs
    · exact ⟨hn, j', hj', rfl⟩
    · exact ⟨hn, j', hj', rfl⟩
  · rintro ⟨hn, j', hj', rfl⟩
    refine ⟨j', ⟨hj', hn⟩, ?_⟩
    split_ifs <;> rfl

theorem staged_subqueryTables (hT : p.tables = T.tables) {names : List String}
    (hnames : T.aliasName ∉ names) :
    Table.Staged (subqueryTables p.tables j.aliasName names) := by
  rw [subqueryTables_eq hT hnames]
  have hs := T.staged.sublist ((List.filter_sublist (p := fun j' : Join =>
    decide (j'.aliasName ∈ names))).map Table.join |>.trans (List.sublist_cons_self _ _))
  have hparent : ∀ j' : Join, ∀ a,
      (if j'.aliasName = j.aliasName then Table.primary j'.aliasName j'.table
        else .join j').parentAlias? = some a → (Table.join j').parentAlias? = some a := by
    intro j' a
    split_ifs
    · intro h; cases h
    · exact id
  have hname : ∀ j' : Join, (if j'.aliasName = j.aliasName then
      Table.primary j'.aliasName j'.table else .join j').aliasName = j'.aliasName := by
    intro j'
    split_ifs <;> rfl
  refine ⟨fun t ht => ?_, fun t ht => ?_, ?_⟩
  · obtain ⟨j', -, rfl⟩ := List.mem_map.1 ht
    split_ifs <;> rfl
  · obtain ⟨j', hj', rfl⟩ := List.mem_map.1 ht
    rw [hname]
    exact fun h => hs.irreflexive _ (List.mem_map_of_mem hj') (hparent j' _ h)
  · have := List.pairwise_map.1 hs.pairwise
    rw [List.pairwise_map]
    refine this.imp fun {j₁ j₂} h => ?_
    rw [hname, hname]
    exact ⟨h.1, fun h' => h.2 (hparent j₁ _ h')⟩

/-- A subquery over the named tables selects the bindings of these that have a partner in the
collection and fit below it, where the conditions hold. -/
theorem mem_rows_subquery_iff (hT : p.tables = T.tables) {names : List String}
    (hnames : ∀ a ∈ names, ∃ j' ∈ T.joins, j'.aliasName = a) (hj : j ∈ T.joins)
    (hmem : j.aliasName ∈ names) (hcorr : db.Correlates j) {query : Plan}
    (htables : query.tables = subqueryTables p.tables j.aliasName names)
    (hcondition : query.topConditions = .raw (.correlation j.parent j.own) :: conditions) :
    e ∈ query.rows db e₀ ↔ (∀ a, a ∉ names → e a = e₀ a) ∧
      (∃ row, j.Partner db e row ∧ e j.aliasName = some row) ∧
      (∀ j' ∈ T.joins, j'.aliasName ∈ names → j'.aliasName ≠ j.aliasName → j'.Fits db e) ∧
      ∀ k ∈ conditions, k.Holds db e := by
  have hprimary : T.aliasName ∉ names := fun hm => by
    obtain ⟨j', hj', he⟩ := hnames _ hm
    exact T.ordered.alias_not_mem j' hj' (by simp [he])
  have hown : ∀ row, e j.aliasName = some row → e.value j.own = row j.own.column := fun row he =>
    Assignment.value_of_some (by rw [T.ordered.own_aliasName j hj, he])
  have hnames' : ∀ a, a ∈ (subqueryTables p.tables j.aliasName names).map Table.aliasName ↔
      a ∈ names := fun a =>
    (mem_aliases_subqueryTables hT hprimary).trans (and_iff_left_of_imp (hnames a))
  rw [Plan.mem_rows_iff_fits (by rw [htables]; exact staged_subqueryTables hT hprimary),
    htables, hcondition, List.forall_mem_cons, Condition.holds_correlation_iff hcorr]
  simp only [hnames']
  rw [subqueryTables_eq hT hprimary]
  constructor
  · rintro ⟨hout, hfits, hpartner, hholds⟩
    have fits : ∀ j' ∈ T.joins, j'.aliasName ∈ names → (if j'.aliasName = j.aliasName then
        Table.primary j'.aliasName j'.table else .join j').Fits db e := fun j' hj' hm =>
      hfits _ (List.mem_map_of_mem (List.mem_filter.2 ⟨hj', decide_eq_true hm⟩))
    refine ⟨hout, ?_, fun j' hj' hm hne => ?_, hholds⟩
    · have hf := fits j hj hmem
      rw [if_pos rfl] at hf
      obtain ⟨row, hrow, he⟩ := hf
      rw [hown row he] at hpartner
      exact ⟨row, ⟨hrow, hpartner⟩, he⟩
    · have hf := fits j' hj' hm
      rwa [if_neg hne] at hf
  · rintro ⟨hout, ⟨row, ⟨hrow, hpartner⟩, he⟩, hfits, hholds⟩
    refine ⟨hout, fun t ht => ?_, ?_, hholds⟩
    · obtain ⟨j', hj', rfl⟩ := List.mem_map.1 ht
      rw [List.mem_filter, decide_eq_true_iff] at hj'
      by_cases hne : j'.aliasName = j.aliasName
      · obtain rfl := eq_of_aliasName hj'.1 hj hne
        rw [if_pos rfl]
        exact ⟨row, hrow, he⟩
      · rw [if_neg hne]
        exact hfits j' hj'.1 hj'.2 hne
    · rwa [hown row he]

end JoinTree

end EntityQuery
