import EntityQuery.Proofs.Lateral.Tables

/-!
# References to columns

A reference to the column of a group is true when the tables below the collection can be bound so
that the group and the guards hold; where the group asks for no row, when no row is a partner.

* `Lateral.mem_rows_subqueryOf_iff`: the rows of a collection's subquery;
* `Lateral.Fresh`: the names of the subqueries are new;
* `Lateral.holds_reference_iff`: the meaning of a reference.
-/

namespace EntityQuery.Lateral

/-- The names of the subqueries are names of no table and of no other subquery, and no condition
mentions them. -/
structure Fresh (s : Scope) (p : Plan) (supply : AliasSupply) : Prop where
  injective : ∀ u ∈ s.active, ∀ v ∈ s.active, subqueryName supply u = subqueryName supply v → u = v
  tables : ∀ u ∈ s.active, subqueryName supply u ∉ p.tables.map Table.aliasName
  conditions : ∀ u ∈ s.active, ∀ c ∈ p.topConditions, subqueryName supply u ∉ c.aliases

/-- Names with an underscore in front are new where no name with one has been given. -/
theorem fresh_of_count_eq_zero {s : Scope} {p : Plan} {supply : AliasSupply}
    (hcount : ∀ u ∈ s.active, supply.count ("_" ++ u) = 0)
    (htables : ∀ u ∈ s.active, "_" ++ u ∉ p.tables.map Table.aliasName)
    (hconditions : ∀ u ∈ s.active, ∀ c ∈ p.topConditions, "_" ++ u ∉ c.aliases) :
    Fresh s p supply := by
  have hname : ∀ u ∈ s.active, subqueryName supply u = "_" ++ u := fun u hu => by
    rw [subqueryName, AliasSupply.literal, hcount u hu]
    rfl
  refine ⟨fun u hu v hv h => ?_, fun u hu => ?_, fun u hu => ?_⟩
  · rw [hname u hu, hname v hv] at h
    exact underscore_injective h
  · rw [hname u hu]
    exact htables u hu
  · rw [hname u hu]
    exact hconditions u hu

/-! ### The lateral tables -/

section

variable {s : Scope} {top : List Condition} {columns : List Column} {supply : AliasSupply}
  {tables : List Table}

/-- The lateral tables of all chosen collections with columns. -/
def laterals (s : Scope) (top : List Condition) (columns : List Column) (supply : AliasSupply)
    (tables : List Table) : List Table :=
  s.active.filterMap (lateral? s top columns (subqueryName supply) tables)

theorem mem_laterals_iff {x : Table} :
    x ∈ laterals s top columns supply tables ↔ ∃ u ∈ s.active, ∃ j, s.tree.join? u = some j ∧
      isRewritten columns u = true ∧ x = .lateral (subqueryName supply u) j.parent.aliasName
        (subqueryOf s top columns u j tables) := by
  rw [laterals, List.mem_filterMap]
  refine exists_congr fun u => and_congr_right fun _ => ?_
  unfold lateral?
  cases s.tree.join? u with
  | none => simp
  | some j =>
    simp only [Option.some.injEq, exists_eq_left']
    split_ifs with hr
    · simp [hr, eq_comm]
    · simp [hr]

theorem mem_aliases_laterals {a : String}
    (h : a ∈ (laterals s top columns supply tables).map Table.aliasName) :
    ∃ u ∈ s.active, a = subqueryName supply u := by
  obtain ⟨x, hx, rfl⟩ := List.mem_map.1 h
  obtain ⟨u, hu, j, -, -, rfl⟩ := mem_laterals_iff.1 hx
  exact ⟨u, hu, rfl⟩

theorem nodup_laterals (hI : s.Independent)
    (hinj : ∀ u ∈ s.active, ∀ v ∈ s.active, subqueryName supply u = subqueryName supply v → u = v) :
    ((laterals s top columns supply tables).map Table.aliasName).Nodup := by
  have hsub : ((laterals s top columns supply tables).map Table.aliasName).Sublist
      (s.active.map (subqueryName supply)) := by
    have : ∀ units : List String, ((units.filterMap (lateral? s top columns (subqueryName supply)
        tables)).map Table.aliasName).Sublist (units.map (subqueryName supply)) := by
      intro units
      induction units with
      | nil => exact List.Sublist.refl _
      | cons u units ih =>
        rw [List.map_cons, List.filterMap_cons]
        cases hl : lateral? s top columns (subqueryName supply) tables u with
        | none => exact ih.cons _
        | some x =>
          have hx : x.aliasName = subqueryName supply u := by
            unfold lateral? at hl
            split at hl
            · split_ifs at hl
              rw [← Option.some.inj hl]
              rfl
            · cases hl
          simp only [List.map_cons, hx]
          exact ih.cons_cons _
    exact this s.active
  exact hsub.nodup (hI.nodup.map_on hinj)

end

/-! ### The rows of a subquery -/

section

variable {T : JoinTree} {p : Plan} {joins : List Join} {db : Database} {e e₀ e₁ : Assignment}
  {s : Scope} {top : List Condition} {columns : List Column} {j : Join}
  {conditions : List Condition} {c : Condition} {name : String} {supply : AliasSupply}
  (hT : p.tables = T.tables) (hjoins : ∀ j ∈ joins, j ∈ T.joins)

include hT hjoins

/-- The rows of a collection's subquery bind the tables below the collection, which has a row. -/
theorem mem_rows_subqueryOf_iff (hs : s.tree = Collections.ofPlan p joins) (hj : j ∈ joins)
    (hcorr : db.Correlates j) :
    e ∈ (subqueryOf s top columns j.aliasName j p.tables).rows db e₀ ↔
      Completes db T (Collections.ofPlan p joins) j.aliasName [] e₀ e ∧ e j.aliasName ≠ none := by
  have hF := JoinTree.isForest hT hjoins
  have hjT := hjoins j hj
  have hself := hF.mem_above_self ((JoinTree.isCollection_iff hT hjoins).2 ⟨j, hj, rfl⟩)
  have hnames : ∀ a ∈ (Collections.ofPlan p joins).subtree j.aliasName,
      ∃ j' ∈ T.joins, j'.aliasName = a := fun a ha =>
    JoinTree.exists_join_of_mem_above hT hjoins (hF.mem_subtree_iff.1 ha)
  rw [JoinTree.mem_rows_subquery_iff hT hnames hjT (hF.mem_subtree_iff.2 hself) hcorr
    (by rw [subqueryOf, hs]) rfl]
  simp only [hF.mem_subtree_iff]
  constructor
  · rintro ⟨hout, ⟨row, hp, hrow⟩, hfits, -⟩
    refine ⟨⟨hout, fun j' hj' hm => ?_, by simp⟩, by rw [hrow]; simp⟩
    by_cases hne : j'.aliasName = j.aliasName
    · rw [JoinTree.eq_of_aliasName hj' hjT hne]
      exact .inl ⟨row, hp, hrow⟩
    · exact hfits j' hj' hm hne
  · rintro ⟨⟨hout, hfits, -⟩, hne⟩
    refine ⟨hout, ?_, fun j' hj' hm _ => hfits j' hj' hm, by simp⟩
    rcases hfits j hjT hself with hrow | ⟨-, -, hnone⟩
    · exact hrow
    · exact absurd hnone hne

/-- The subquery has no row where the collection has no partner. -/
theorem rows_subqueryOf_eq_nil_iff (hs : s.tree = Collections.ofPlan p joins) (hj : j ∈ joins)
    (hcorr : db.Correlates j) (houter : ∀ j' ∈ T.joins,
      j.aliasName ∈ (Collections.ofPlan p joins).above j'.aliasName → j'.kind = .outer) :
    (subqueryOf s top columns j.aliasName j p.tables).rows db e₀ = [] ↔
      ∀ row, ¬ j.Partner db e₀ row := by
  have hF := JoinTree.isForest hT hjoins
  have hself := hF.mem_above_self ((JoinTree.isCollection_iff hT hjoins).2 ⟨j, hj, rfl⟩)
  have hparent := JoinTree.parent_not_mem_above hT hjoins (hjoins j hj)
  rw [List.eq_nil_iff_forall_not_mem]
  simp only [mem_rows_subqueryOf_iff hT hjoins hs hj hcorr]
  constructor
  · intro h row hp
    obtain ⟨e, he⟩ : ∃ e, Completes db T (Collections.ofPlan p joins) j.aliasName [] e₀ e :=
      JoinTree.exists_completes_nil houter e₀
    refine h e ⟨he, fun hnone => ?_⟩
    rcases he.fits j (hjoins j hj) hself with ⟨row', -, hrow⟩ | ⟨-, hno, -⟩
    · rw [hnone] at hrow
      cases hrow
    · exact hno row ((Join.partner_congr (he.outside _ hparent)).2 hp)
  · rintro h e ⟨he, hne⟩
    rcases he.fits j (hjoins j hj) hself with ⟨row, hp, -⟩ | ⟨-, -, hnone⟩
    · exact h row ((Join.partner_congr (he.outside _ hparent)).1 hp)
    · exact hne hnone

/-- Whether an assignment can be completed depends on what the collection is joined to and on what
the conditions read outside. -/
theorem exists_completes_congr (hj : j ∈ joins)
    (hparent : e₁ j.parent.aliasName = e₀ j.parent.aliasName)
    (hflat : ∀ k ∈ conditions, k.plans = [])
    (hread : ∀ k ∈ conditions, ∀ a ∈ k.aliases,
      j.aliasName ∈ (Collections.ofPlan p joins).above a ∨ e₁ a = e₀ a)
    (h : ∃ e, Completes db T (Collections.ofPlan p joins) j.aliasName conditions e₁ e ∧
      e j.aliasName ≠ none) :
    ∃ e, Completes db T (Collections.ofPlan p joins) j.aliasName conditions e₀ e ∧
      e j.aliasName ≠ none := by
  have hF := JoinTree.isForest hT hjoins
  have hself := hF.mem_above_self ((JoinTree.isCollection_iff hT hjoins).2 ⟨j, hj, rfl⟩)
  obtain ⟨e, he, hne⟩ := h
  have hparent' : e₀ j.parent.aliasName = e j.parent.aliasName := by
    rw [he.outside _ (JoinTree.parent_not_mem_above hT hjoins (hjoins j hj)), hparent]
  obtain ⟨e', he', heq⟩ := JoinTree.completes_of_agree hT hjoins (hjoins j hj) he.fits hparent' hflat
    (fun k hk a ha => (or_iff_not_imp_left.2 fun hn => by
      rw [he.outside a hn, (hread k hk a ha).resolve_left hn])) he.holds
  exact ⟨e', he', by rw [heq _ hself]; exact hne⟩

/-! ### References -/

/-- A reference to a column is true when the tables below the collection can be bound so that the
group and the guards hold.  The reference to a column that asks for no row is true when no row is a
partner. -/
theorem holds_reference_iff (hs : s.tree = Collections.ofPlan p joins) (hI : s.Independent)
    (hcorr : ∀ j ∈ joins, db.Correlates j) (hreads : db.ReadsColumns)
    (houter : ∀ j ∈ T.joins, (Collections.ofPlan p joins).above j.aliasName ≠ [] → j.kind = .outer)
    (hnumbered : Numbered columns)
    (hinj : ∀ u ∈ s.active, ∀ v ∈ s.active, subqueryName supply u = subqueryName supply v → u = v)
    (htables : ∀ u ∈ s.active, subqueryName supply u ∉ T.aliases)
    (hflat : ∀ k ∈ guardsOf s top j.aliasName ++ [c], k.plans = [])
    (hmention : ∀ k ∈ guardsOf s top j.aliasName ++ [c], ∀ u ∈ s.active,
      subqueryName supply u ∉ k.aliases)
    (hj : j ∈ joins) (hu : j.aliasName ∈ s.active)
    (hcolumn : ⟨j.aliasName, columnOf j.aliasName name c⟩ ∈ columns)
    (aliasOf : String → String) (halias : aliasOf j.aliasName = subqueryName supply j.aliasName)
    (he : e ∈ Table.bindAll db (laterals s top columns supply p.tables) [e₀]) :
    (reference aliasOf j.aliasName name).Holds db e ↔
      if c.isMissing j.aliasName = true then ∀ row, ¬ j.Partner db e₀ row
      else ∃ e', Completes db T (Collections.ofPlan p joins) j.aliasName
        (guardsOf s top j.aliasName ++ [c]) e₀ e' ∧ e' j.aliasName ≠ none := by
  have hselect : columnOf j.aliasName name c ∈ selectsOf j.aliasName columns :=
    List.mem_map.2 ⟨_, List.mem_filter.2 ⟨hcolumn, by simp⟩, rfl⟩
  have hrewritten : isRewritten columns j.aliasName = true := by
    simp [isRewritten, List.ne_nil_of_mem hselect]
  have hjoin : s.tree.join? j.aliasName = some j := by
    rw [hs]
    exact (JoinTree.join?_iff hT hjoins).2 ⟨hj, rfl⟩
  obtain ⟨-, hrows⟩ := Table.of_mem_bindAll_laterals
    (fun x hx => by
      obtain ⟨u, -, j', -, -, rfl⟩ := mem_laterals_iff.1 hx
      exact ⟨_, _, _, rfl⟩)
    (nodup_laterals hI hinj) he
  obtain ⟨e₁, hout, hrow⟩ := hrows _ _ _
    (mem_laterals_iff.2 ⟨j.aliasName, hu, j, hjoin, hrewritten, rfl⟩)
  -- the other tables are the same, whichever lateral tables have been bound before
  have same : ∀ a, (∀ u ∈ s.active, subqueryName supply u ≠ a) → e₁ a = e₀ a := fun a ha =>
    hout a fun hm => by
      obtain ⟨u, hu, rfl⟩ := mem_aliases_laterals hm
      exact ha u hu rfl
  have hparent : e₁ j.parent.aliasName = e₀ j.parent.aliasName := same _ fun u hu h =>
    htables u hu (h ▸ JoinTree.parent_mem (hjoins j hj))
  have hread : ∀ k ∈ guardsOf s top j.aliasName ++ [c], ∀ a ∈ k.aliases, e₁ a = e₀ a :=
    fun k hk a ha => same a fun u hu h => hmention k hk u hu (h ▸ ha)
  have hvalue : e.value ⟨aliasOf j.aliasName, name⟩ =
      (subqueryOf s top columns j.aliasName j p.tables).aggregates db e₁ name :=
    Assignment.value_of_some (by rw [halias, hrow])
  have htrue : ∀ v : Value, v.truth? = some true ↔ v = .bool true := by
    intro v
    cases v <;> simp [Value.truth?]
  have houter' : ∀ j' ∈ T.joins, j.aliasName ∈ (Collections.ofPlan p joins).above j'.aliasName →
      j'.kind = .outer := fun j' hj' hm => houter j' hj' (List.ne_nil_of_mem hm)
  rw [reference, Condition.Holds, Condition.eval, hreads, hvalue, htrue, Plan.aggregates_eq]
  refine (aggregates_guardedAll_iff hnumbered.pairwise hselect).trans ?_
  split_ifs with hm
  · rw [rows_subqueryOf_eq_nil_iff hT hjoins hs hj (hcorr j hj) houter']
    exact forall_congr' fun row => not_congr (Join.partner_congr hparent)
  · have hrows' : (∃ e' ∈ (subqueryOf s top columns j.aliasName j p.tables).rows db e₁,
        (∀ k ∈ guardsOf s top j.aliasName, k.Holds db e') ∧ c.Holds db e') ↔
          ∃ e', Completes db T (Collections.ofPlan p joins) j.aliasName
            (guardsOf s top j.aliasName ++ [c]) e₁ e' ∧ e' j.aliasName ≠ none := by
      refine exists_congr fun e' => ?_
      rw [mem_rows_subqueryOf_iff hT hjoins hs hj (hcorr j hj)]
      constructor
      · rintro ⟨⟨⟨ho, hf, -⟩, hne⟩, hg, hc⟩
        exact ⟨⟨ho, hf, List.forall_mem_append.2 ⟨hg, List.forall_mem_singleton.2 hc⟩⟩, hne⟩
      · rintro ⟨⟨ho, hf, hall⟩, hne⟩
        obtain ⟨hg, hc⟩ := List.forall_mem_append.1 hall
        exact ⟨⟨⟨ho, hf, by simp⟩, hne⟩, hg, hc c (List.mem_singleton_self c)⟩
    rw [hrows']
    constructor
    · exact exists_completes_congr hT hjoins hj hparent hflat fun k hk a ha => .inr (hread k hk a ha)
    · exact exists_completes_congr hT hjoins hj hparent.symm hflat
        fun k hk a ha => .inr (hread k hk a ha).symm

end

end EntityQuery.Lateral
