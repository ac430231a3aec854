import EntityQuery.Proofs.Deletion.Find
import EntityQuery.Proofs.Naming.Collections

/-!
# Distinct names

A query names each of its tables once, in its plan and in all plans inside it, where the words of
the names of tables start with letters.  Otherwise two tables can get one name: the abbreviation of a
name with a number in it is the numbered abbreviation of another.

* `AliasSupply.Covers`: distinct names that a supply will not give again;
* `AliasSupply.Covers.next`: a new name with those that extend it;
* `Plan.nodup_allAliases_addOrder`: the tables that an order joins;
* `nodup_allAliases_find`: the names of the tables of a query are distinct;
* `not_nodup_allAliases_find_boxes`: a table name with a number.
-/

namespace EntityQuery

/-- The names are distinct, and each has been given by the supply, extends such a name, or names a
lateral query. -/
structure AliasSupply.Covers (supply : AliasSupply) (names : List String) : Prop where
  nodup : names.Nodup
  known : ∀ a ∈ names, trunk a = [] ∨ supply.Gave (trunk a)

namespace AliasSupply.Covers

variable {supply supply' : AliasSupply} {names names' : List String} {table : String}

theorem perm (h : supply.Covers names) (hperm : names.Perm names') : supply.Covers names' :=
  ⟨hperm.nodup h.nodup, fun a ha => h.known a (hperm.mem_iff.2 ha)⟩

/-- More names follow the next one. -/
theorem next (h : supply.Covers names) (hw : Worded table) (hnd : names'.Nodup)
    (htrunk : ∀ a ∈ names', trunk a = (supply.next table).1.toList) :
    (supply.next table).2.Covers (names ++ names') := by
  have hgave := AliasSupply.gave_next (s := supply) hw
  refine ⟨List.nodup_append.2 ⟨h.nodup, hnd, ?_⟩, fun a ha => ?_⟩
  · rintro a ha b hb rfl
    rcases h.known a ha with hnil | hknown
    · exact hgave.ne_nil ((htrunk a hb).symm.trans hnil)
    · exact AliasSupply.not_gave_next hw (htrunk a hb ▸ hknown)
  · rcases List.mem_append.1 ha with ha | ha
    · exact (h.known a ha).imp_right AliasSupply.Gave.next
    · exact .inr (htrunk a ha ▸ hgave)

end AliasSupply.Covers

/-! ### Drafts -/

/-- The name of a lateral query has an underscore in front, whatever its number. -/
theorem Lateral.trunk_subqueryName {supply : AliasSupply} {u : String} :
    trunk (Lateral.subqueryName supply u) = [] := by
  have hnumbered : ∀ n, ∃ rest, AliasSupply.numbered ("_" ++ u) n = "_" ++ rest := by
    intro n
    cases n with
    | zero => exact ⟨u, rfl⟩
    | succ n => exact ⟨u ++ toString (n + 1), String.append_assoc ..⟩
  obtain ⟨rest, hname⟩ := hnumbered (supply.count ("_" ++ u))
  exact (congrArg trunk hname).trans (trunk_underscore rest)

namespace Draft.Sound

variable {s : Setting} {T : JoinTree} {d : Draft}

/-- The tables of a draft have distinct names, whatever becomes of its collections. -/
theorem covers_resolveCollections (h : d.Sound s T) {strategy : Strategy} {threshold : Nat}
    {r : Resolved × AliasSupply}
    (hr : d.toPlan.resolveCollections strategy threshold d.collections d.supply = .ok r) :
    r.2.Covers r.1.plan.allAliases := by
  have hgathered := gathered_toPlan h
  have hkeep : d.supply.Covers d.toPlan.allAliases := by
    rw [hgathered.allAliases]
    exact ⟨T.nodup_aliases, fun a ha => .inr (h.names a ha)⟩
  unfold Plan.resolveCollections at hr
  split_ifs at hr
  · exact Except.ok.inj hr ▸ hkeep
  cases strategy with
  | existence =>
    obtain ⟨resolved, hresolved, rfl⟩ := exists_of_map_eq_ok hr
    obtain ⟨hnd, hsub⟩ := hgathered.nodup_allAliases_toExistence hresolved
    exact ⟨hnd, fun a ha => .inr (h.names a (hsub ha))⟩
  | lateral force =>
    obtain ⟨hnd, hnames⟩ := hgathered.nodup_allAliases_toLateral (h.fresh _) hr
    refine ⟨hnd, fun a ha => ?_⟩
    rcases hnames a ha with ha | ⟨u, rfl⟩
    · exact .inr (Plan.gave_toLateral hr (h.names a ha))
    · exact .inl Lateral.trunk_subqueryName
  | keep => exact Except.ok.inj hr ▸ hkeep

end Draft.Sound

/-! ### Orders -/

section

variable {s : Setting} {e target : Entity} {o o' : Ordering} {b : String} {others : List String}

/-- Reaching a table joins it under a new name, and its bases under names that extend it. -/
theorem Ordering.covers_reach (hw : Worded target.tableName) {parent : ColumnRef}
    (hr : o.reach s parent target = .ok (b, o'))
    (h : o.supply.Covers (o.tables.map Table.aliasName ++ others)) :
    o'.supply.Covers (o'.tables.map Table.aliasName ++ others) ∧
      Table.allAliasesOf o'.tables = Table.allAliasesOf o.tables := by
  unfold Ordering.reach at hr
  split at hr
  · obtain ⟨-, rfl⟩ := Prod.mk.inj (Except.ok.inj hr)
    exact ⟨h, rfl⟩
  · obtain ⟨bases, hbases, hr⟩ := exists_of_bind_eq_ok hr
    obtain ⟨-, rfl⟩ := Prod.mk.inj (Except.ok.inj hr)
    let own := (o.supply.next target.tableName).1
    let join : Join := ⟨own, target.tableName, .outer, parent, ⟨own, "id"⟩, none⟩
    have hbases : s.baseJoins own .outer 0 target.baseTypes = .ok bases := hbases
    have hordered : Join.Ordered [own] bases :=
      Setting.ordered_baseJoins hbases (List.mem_singleton_self _) fun i _ hm =>
        baseAlias_ne _ _ (List.mem_singleton.1 hm)
    have hnd : ((join :: bases).map (·.aliasName)).Nodup := by
      rw [List.map_cons, List.nodup_cons]
      refine ⟨fun hm => ?_, hordered.nodup⟩
      obtain ⟨j, hj, hname⟩ := List.mem_map.1 hm
      exact hordered.alias_not_mem j hj (by rw [hname]; exact List.mem_singleton_self _)
    have htrunk : ∀ a ∈ (join :: bases).map (·.aliasName), trunk a = own.toList := by
      have hown : trunk own = own.toList := AliasSupply.trunk_next
      refine List.forall_mem_cons.2 ⟨hown, List.forall_mem_map.2 fun j hj => ?_⟩
      obtain ⟨i, -, hname, -⟩ := Setting.of_mem_baseJoins hbases j hj
      rw [hname, trunk_baseAlias, hown]
    have hjoins : ((join :: bases).map Table.join).map Table.aliasName =
        (join :: bases).map (·.aliasName) := by
      rw [List.map_map]
      rfl
    refine ⟨(h.next hw hnd htrunk).perm ?_, ?_⟩
    · have hall : (o.tables ++ (join :: bases).map Table.join).map Table.aliasName ++ others =
          o.tables.map Table.aliasName ++ ((join :: bases).map (·.aliasName) ++ others) := by
        rw [List.map_append, hjoins, List.append_assoc]
      refine List.Perm.trans ?_ (List.Perm.of_eq hall.symm)
      rw [List.append_assoc]
      exact List.perm_append_comm.append_left _
    · have hflat : ∀ t ∈ (join :: bases).map Table.join, t.plans = [] :=
        List.forall_mem_map.2 fun _ _ => rfl
      show Table.allAliasesOf (o.tables ++ (join :: bases).map Table.join) = _
      rw [Table.allAliasesOf_append, Table.allAliasesOf_of_flat hflat, List.append_nil]

/-- The tables that an order joins have new names. -/
theorem Plan.nodup_allAliases_addOrder (hw : ∀ e ∈ s.schema.entities, Worded e.tableName) {p : Plan}
    {supply : AliasSupply} (h : supply.Covers p.allAliases) {order : OrderBy}
    {r : Plan × AliasSupply} (hr : p.addOrder s e b order supply = .ok r) :
    r.1.allAliases.Nodup := by
  obtain ⟨o, ho, hr⟩ := exists_of_bind_eq_ok hr
  obtain rfl := Except.ok.inj hr
  let inside := Table.allAliasesOf p.tables ++ (Group.allAliasesOf p.condition ++
    Select.allAliasesOf p.selects)
  have hinside : p.allAliases = p.tables.map Table.aliasName ++ inside := by
    rw [allAliases_eq, List.append_assoc, List.append_assoc]
  obtain ⟨hcovers, hsame⟩ : o.supply.Covers (o.tables.map Table.aliasName ++ inside) ∧
      Table.allAliasesOf o.tables = Table.allAliasesOf p.tables := by
    refine OrderBy.resolve_induct (P := fun ts supply =>
      supply.Covers (ts.map Table.aliasName ++ inside) ∧
        Table.allAliasesOf ts = Table.allAliasesOf p.tables)
      (fun htarget hr hold => ?_) ho ⟨hinside ▸ h, rfl⟩
    exact (Ordering.covers_reach (hw _ htarget) hr hold.1).imp_right fun hsame =>
      hsame.trans hold.2
  have htables : ((o.reached ++ [b]).foldl Ordering.addId o).tables = o.tables :=
    Ordering.tables_addIds
  rw [allAliases_eq]
  simp only [htables, hsame, List.append_assoc]
  exact hcovers.nodup

end

/-! ### Queries -/

/-- The names of the tables of a query and of all its subqueries are distinct: names that were given,
names of base and subtype tables, and names of lateral queries. -/
theorem nodup_allAliases_find {schema : Schema} (hnames : schema.Spelled) {config : Config}
    {typeName : String} {filter : EntityFilter} {options : FindOptions} {r : Resolved}
    (h : find schema config typeName filter options = .ok r) : r.plan.allAliases.Nodup := by
  obtain ⟨run, rfl⟩ := exists_run_of_find h
  obtain ⟨T, -, -, hsound⟩ := Draft.sound_ofQuery hnames run.entity_mem run.draft_eq
  have hresolved := hsound.covers_resolveCollections run.resolved_eq
  have hchecked : run.supply.Covers
      (run.resolved.plan.addNullChecks run.draft.idDbType).allAliases := by
    rw [Plan.addNullChecks, Plan.allAliases_mapLeaves Condition.flat_withNullCheck]
    exact hresolved
  have hordered := Plan.nodup_allAliases_addOrder hnames.tables hchecked run.ordered_eq
  show (if _ then _ else _ : Plan).allAliases.Nodup
  split_ifs
  · exact hordered.sublist Plan.sublist_allAliases_prune
  · exact hordered

/-- Authors of a book in the order of their publishers, with a lateral query. -/
theorem nodup_allAliases_find_library : library.Spelled ∧ ∃ r,
    find library .default "Author" (authorsOf "Emma") byPublisher = .ok r ∧
      r.plan.allAliases.Nodup := by
  have hnames : library.Spelled := by constructor <;> decide +kernel
  have hfound : (find library .default "Author" (authorsOf "Emma") byPublisher).isOk = true := by
    decide +kernel
  cases h : find library .default "Author" (authorsOf "Emma") byPublisher with
  | error err =>
    rw [h] at hfound
    cases hfound
  | ok r => exact ⟨hnames, r, rfl, nodup_allAliases_find hnames h⟩

/-- Brands with a box of a brand with the slogan. -/
def boxesOf (slogan : String) : EntityFilter :=
  ⟨none, [⟨"boxes", .nested ⟨none, [⟨"brand", .nested ⟨none, [⟨"slogan", .scalar (.text slogan)⟩]⟩⟩]⟩⟩]⟩

/-- The table `b_1` is abbreviated to `b1`, and so is the second table of brands. -/
theorem not_nodup_allAliases_find_boxes : ∃ r,
    find zoo .default "Brand" (boxesOf "x") { FindOptions.default with strategy := some .keep } =
      .ok r ∧ ¬ r.plan.allAliases.Nodup := by
  have hfound : ((find zoo .default "Brand" (boxesOf "x")
      { FindOptions.default with strategy := some .keep }).toOption.map fun r =>
        r.plan.allAliases) = some ["b", "b_b0", "b_s0", "b1", "b1"] := by
    decide +kernel
  obtain ⟨r, hr, hnames⟩ := exists_of_map_toOption hfound
  refine ⟨r, hr, ?_⟩
  rw [hnames]
  decide

end EntityQuery
