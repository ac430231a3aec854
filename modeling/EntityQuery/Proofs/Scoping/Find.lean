import EntityQuery.Sample.Library
import EntityQuery.Proofs.Scoping.Lateral
import EntityQuery.Proofs.Scoping.Order

/-!
# Well-scoped queries

The plan of a query is well scoped: its draft is, and each pass behind it keeps it so.

* `Draft.Sound.scoped_resolveCollections`: the plan with its collections resolved by any strategy;
* `scoped_find`: the plan of a query.
-/

namespace EntityQuery

/-! ### Tests for null -/

section

variable {f : Condition → List Condition} {T : JoinTree} {p : Plan}

theorem Table.join_mem_of_mapLeavesAll {ts : List Table} {j : Join}
    (h : .join j ∈ Table.mapLeavesAll f ts) : .join j ∈ ts := by
  induction ts with
  | nil => exact h
  | cons t ts ih =>
    cases t with
    | lateral a fromAlias query =>
      rcases List.mem_cons.1 h with h | h
      · cases h
      · exact List.mem_cons_of_mem _ (ih h)
    | _ =>
      rcases List.mem_cons.1 h with h | h
      · exact List.mem_cons.2 (.inl h)
      · exact List.mem_cons_of_mem _ (ih h)

theorem Plan.Keeps.mapLeaves (h : p.Keeps T) : (p.mapLeaves f).Keeps T := by
  have htables : (p.mapLeaves f).tables = Table.mapLeavesAll f p.tables := by
    cases p
    rfl
  refine ⟨fun j hj => ?_, ?_, ?_⟩
  · rw [htables] at hj
    exact h.joins j (Table.join_mem_of_mapLeavesAll hj)
  · obtain ⟨table, rest, he⟩ := h.primary
    exact ⟨table, Table.mapLeavesAll f rest, by rw [htables, he]; rfl⟩
  · rw [htables, Table.map_aliasName_mapLeavesAll]
    exact h.parts

end

/-! ### Strategies -/

theorem Lateral.gave_nameUnits {units : List String} {supply : AliasSupply} {name : List Char}
    (h : supply.Gave name) : (Lateral.nameUnits units supply).2.Gave name := by
  induction units generalizing supply with
  | nil => exact h
  | cons unit units ih => exact ih (h.literal _)

/-- Names that have been given are not given to lateral queries. -/
theorem Plan.gave_toLateral {p : Plan} {force : Bool} {threshold : Nat} {joins : List Join}
    {supply : AliasSupply} {r : Resolved × AliasSupply} {name : List Char}
    (hr : p.toLateral force threshold joins supply = .ok r) (h : supply.Gave name) :
    r.2.Gave name := by
  unfold Plan.toLateral at hr
  simp only at hr
  split_ifs at hr
  · exact Except.ok.inj hr ▸ h
  · obtain ⟨⟨scope, warnings⟩, -, hr⟩ := exists_of_bind_eq_ok hr
    exact Except.ok.inj hr ▸ Lateral.gave_nameUnits h

namespace Draft

variable {s : Setting} {T : JoinTree} {d : Draft}

/-- No table has a name with an underscore in front, and no such name has been counted. -/
theorem Sound.fresh (h : d.Sound s T) (scope : Lateral.Scope) :
    Lateral.Fresh scope d.toPlan d.supply := by
  have hnot : ∀ u, "_" ++ u ∉ T.aliases := fun u hu => by
    have hgave := h.names _ hu
    rw [trunk_underscore] at hgave
    exact hgave.ne_nil rfl
  refine Lateral.fresh_of_count_eq_zero (fun u _ => h.stemmed.count_underscore u) (fun u _ hm => ?_)
    fun u _ c hc hm => hnot u ((within_of_mem_topConditions h c hc).reads _ hm)
  exact hnot u (h.mem_aliases_iff.1 hm)

/-- The plan of a draft is well scoped, whatever becomes of its collections. -/
theorem Sound.scoped_resolveCollections (h : d.Sound s T) {strategy : Strategy} {threshold : Nat}
    {r : Resolved × AliasSupply}
    (hr : d.toPlan.resolveCollections strategy threshold d.collections d.supply = .ok r) :
    (r.1.plan.Scoped [] ∧ r.1.plan.Keeps T) ∧ ∀ name, d.supply.Gave name → r.2.Gave name := by
  have hgathered := gathered_toPlan h
  unfold Plan.resolveCollections at hr
  split_ifs at hr
  · exact Except.ok.inj hr ▸ ⟨hgathered.scoped, fun _ => id⟩
  cases strategy with
  | existence =>
    obtain ⟨resolved, hresolved, rfl⟩ := exists_of_map_eq_ok hr
    exact ⟨hgathered.scoped_toExistence hresolved, fun _ => id⟩
  | lateral force =>
    exact ⟨hgathered.scoped_toLateral (h.fresh _) hr, fun _ => Plan.gave_toLateral hr⟩
  | keep => exact Except.ok.inj hr ▸ ⟨hgathered.scoped, fun _ => id⟩

end Draft

/-! ### Queries -/

/-- The plan of a query is well scoped. -/
theorem scoped_find {schema : Schema} (hnames : schema.WellNamed) {config : Config}
    {typeName : String} {filter : EntityFilter} {options : FindOptions} {r : Resolved}
    (h : find schema config typeName filter options = .ok r) : r.plan.Scoped [] := by
  obtain ⟨e, he, h⟩ := exists_of_bind_eq_ok h
  obtain ⟨⟨a, d⟩, hd, h⟩ := exists_of_bind_eq_ok h
  obtain ⟨keep, -, h⟩ := exists_of_bind_eq_ok h
  obtain ⟨⟨resolved, supply⟩, hresolved, h⟩ := exists_of_bind_eq_ok h
  obtain ⟨⟨ordered, supply'⟩, hordered, h⟩ := exists_of_bind_eq_ok h
  obtain rfl := Except.ok.inj h
  have he := Setting.mem_of_entity he
  obtain ⟨T, rfl, hhouses, hsound⟩ := Draft.sound_ofQuery hnames.spelled he hd
  obtain ⟨⟨hscoped, hkeeps⟩, hgave⟩ := hsound.scoped_resolveCollections hresolved
  have hplan : ordered.Scoped [] := Plan.scoped_addOrder hnames he hsound.complete hhouses
    (Plan.scoped_addNullChecks hscoped) hkeeps.mapLeaves
    (hgave _ (hsound.names _ List.mem_cons_self)) hordered
  show (if _ then _ else _ : Plan).Scoped []
  split_ifs
  · exact Plan.scoped_prune hplan
  · exact hplan

/-! ### A query on the library -/

/-- The schema of the library. -/
def library : Schema := ⟨Sample.Library.entities, by decide +kernel⟩

/-- Authors of a book with the title. -/
def authorsOf (title : String) : EntityFilter :=
  ⟨none, [⟨"books", .nested ⟨none, [⟨"title", .scalar (.text title)⟩]⟩⟩]⟩

/-- In the order of the names of publishers, with lateral subqueries. -/
def byPublisher : FindOptions :=
  { FindOptions.default with
    orderBy := .keys [.through "publisher" (.keys [.field "name" .asc])]
    strategy := some (.lateral true) }

theorem scoped_find_library : library.WellNamed ∧ ∃ r,
    find library .default "Author" (authorsOf "Emma") byPublisher = .ok r ∧ r.plan.Scoped [] := by
  have hnames : library.WellNamed := by refine ⟨?_, ?_, ?_, ?_⟩ <;> decide +kernel
  have hfound : (find library .default "Author" (authorsOf "Emma") byPublisher).isOk = true := by
    decide +kernel
  cases h : find library .default "Author" (authorsOf "Emma") byPublisher with
  | error err =>
    rw [h] at hfound
    cases hfound
  | ok r => exact ⟨hnames, r, rfl, scoped_find hnames h⟩

end EntityQuery
