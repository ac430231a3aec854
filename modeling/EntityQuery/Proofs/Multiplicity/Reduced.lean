import EntityQuery.Proofs.Multiplicity.Order

/-!
# Plans without collections

When its collections have been rewritten, a plan still joins those of which nothing is asked.
Nothing refers to their tables but joins among them, so they are pruned, and no order leads to them.
All other joins are joins by keys.

* `Collections.Under`: the tables that belong to some collections;
* `Plan.Reduced`: a plan all of whose collections will be pruned;
* `Draft.Regular.reduced`: the tables of a draft, without the collections that were rewritten;
* `Plan.Reduced.rooted_prune`: such a plan is pruned to joins by keys, in any order.
-/

namespace EntityQuery

/-- The table belongs to one of the collections. -/
def Collections.Under (t : Collections) (cs : List String) (a : String) : Prop :=
  ∃ c ∈ cs, c ∈ t.above a

/-- A plan on the primary table `a`.  The tables `L` are apart from the others, which are joined by
keys or are lateral queries. -/
structure Plan.Reduced (schema : Schema) (L : String → Prop) (a table : String) (p : Plan) :
    Prop where
  rooted : p.Rooted (fun j => L j.aliasName ∨ schema.Key j.table j.own.column) a table
  apart : ∃ rank, p.Apart L rank
  primary : ¬ L a
  name : '_' ∉ a.toList
  bases : BasesClear L
  joined : ∀ b, L b → b ∈ p.tables.map Table.aliasName
  references : ∀ j, .join j ∈ p.tables → j.parent.column ≠ "id" → ¬ L j.parent.aliasName →
    ¬ L j.aliasName ∧ '_' ∉ j.aliasName.toList
  sortKeys : p.sortKeys = []

/-! ### Tables of a draft -/

section

variable {schema : Schema} {a table : String} {d : Draft} {cs : List String}

/-- The collections of a draft. -/
abbrev Draft.tree (d : Draft) : Collections := .ofPlan d.toPlan d.collections

namespace Draft.Regular

variable {T : JoinTree}

theorem mem_joins_iff (hg : d.toPlan.Gathered T d.collections) {j : Join} :
    .join j ∈ d.tables ↔ j ∈ T.joins := by
  have hT : d.tables = T.tables := hg.tables
  rw [hT, JoinTree.mem_tables_iff]
  simp

theorem not_under_primary (hg : d.toPlan.Gathered T d.collections) :
    ¬ d.tree.Under cs T.aliasName := by
  rintro ⟨c, -, hc⟩
  exact JoinTree.not_mem_above_primary hg.tables hg.mem_joins hc

theorem not_under_selects (hg : d.toPlan.Gathered T d.collections) :
    ∀ b ∈ Select.referencesOf d.selects, ¬ d.tree.Under cs b := by
  have hselect : ∀ x ∈ d.selects, x.plans = [] ∧ ∀ b ∈ x.aliases, ¬ d.tree.Under cs b := by
    intro x hx
    obtain ⟨hflat, hparts⟩ := hg.selects x hx
    refine ⟨hflat, fun b hb => ?_⟩
    rintro ⟨c, hc, hm⟩
    have habove : d.tree.above b = d.tree.above T.aliasName :=
      (hparts b hb).above_eq hg.tables hg.collections
    exact not_under_primary hg ⟨c, hc, habove ▸ hm⟩
  revert hselect
  induction d.selects with
  | nil => exact fun _ _ hb => absurd hb List.not_mem_nil
  | cons x xs ih =>
    intro hselect
    obtain ⟨⟨hflat, hx⟩, hxs⟩ := List.forall_mem_cons.1 hselect
    cases x with
    | boolOr g name =>
      exact List.forall_mem_append.2
        ⟨fun b hb => hx b (Group.references_subset_aliases hflat hb), ih hxs⟩
    | _ => exact List.forall_mem_append.2 ⟨hx, ih hxs⟩

/-- A table that is joined by no collection belongs to the collections of its parent. -/
theorem under_parent_iff (hg : d.toPlan.Gathered T d.collections) {j : Join}
    (hj : .join j ∈ d.tables) (hdistinct : j ∉ d.collections) :
    d.tree.Under cs j.aliasName ↔ d.tree.Under cs j.parent.aliasName := by
  have hjT := (mem_joins_iff hg).1 hj
  have hcol : ¬ d.tree.isCollection j.aliasName := fun hcol => by
    obtain ⟨j', hj', he⟩ := (JoinTree.isCollection_iff hg.tables hg.mem_joins).1 hcol
    exact hdistinct (JoinTree.eq_of_aliasName (hg.mem_joins j' hj') hjT he ▸ hj')
  have habove : d.tree.above j.aliasName = d.tree.above j.parent.aliasName := by
    rw [(JoinTree.isForest hg.tables hg.mem_joins).above_of_parent
      (JoinTree.parent?_of_mem hg.tables hjT), if_neg hcol]
  rw [Collections.Under, Collections.Under, habove]

variable (h : d.Regular schema a table) (hg : d.toPlan.Gathered T d.collections)

include h hg

/-- The name of a base table is that of no table of other collections than its table's. -/
theorem basesClear_under : BasesClear (d.tree.Under cs) := by
  rintro b hb hclear i ⟨c, hc, hm⟩
  obtain ⟨j, hj, hname⟩ := JoinTree.exists_join_of_mem_above hg.tables hg.mem_joins hm
  have hjd := (mem_joins_iff hg).2 hj
  rcases h.named j hjd with hnamed | ⟨hdistinct, -, htrunk⟩
  · exact hnamed (hname ▸ underscore_mem_baseAlias)
  · -- the table is a base table of the table that the name is made of
    rw [hname, trunk_baseAlias, trunk_eq hb] at htrunk
    have hcol : j ∉ d.collections := fun hcol => by
      have hnone := (h.collections j hcol).2.1
      rw [hdistinct] at hnone
      cases hnone
    have hparent := (under_parent_iff hg hjd hcol).1 ⟨c, hc, hname ▸ hm⟩
    exact hclear (String.toList_inj.1 htrunk ▸ hparent)

/-- The tables of a draft without the collections that were rewritten, and lateral queries for
these: the collections that are left are apart if the conditions do not refer to them. -/
theorem reduced (cs : List String) (ha : T.aliasName = a) {q : Plan} {rest : List Table}
    (htables : q.tables = .primary a table :: rest)
    (hrest : ∀ t ∈ rest, (∃ j, t = .join j ∧ .join j ∈ d.tables ∧
        (j ∈ d.collections → d.tree.Under cs j.aliasName)) ∨
      ∃ x fromAlias query, t = .lateral x fromAlias query ∧ x ≠ a ∧ ¬ d.tree.Under cs fromAlias ∧
        ∀ b ∈ query.references, ¬ d.tree.Under cs b)
    (hleft : ∀ b, d.tree.Under cs b → b ∈ q.tables.map Table.aliasName)
    (hselects : q.selects = d.selects) (hsort : q.sortKeys = []) (hgroup : q.groupBys = none)
    (hcondition : ∀ b ∈ Group.referencesOf q.condition, ¬ d.tree.Under cs b) :
    q.Reduced schema (d.tree.Under cs) a table := by
  have hjoin : ∀ j, .join j ∈ q.tables → .join j ∈ d.tables ∧
      (j ∈ d.collections → d.tree.Under cs j.aliasName) := by
    intro j hj
    rw [htables] at hj
    rcases List.mem_cons.1 hj with hj | hj
    · cases hj
    · rcases hrest _ hj with ⟨j', he, hold⟩ | ⟨x, fromAlias, query, he, -⟩
      · exact Table.join.inj he ▸ hold
      · cases he
  have hnames : ∀ j, .join j ∈ d.tables → j.aliasName ≠ a := fun j hj he =>
    T.ordered.alias_not_mem j ((mem_joins_iff hg).1 hj) (List.mem_singleton.2 (he.trans ha.symm))
  exact
    { rooted := ⟨rest, htables, fun t ht => by
        rcases hrest t ht with ⟨j, rfl, hold, hleft⟩ | ⟨x, fromAlias, query, rfl, hne, -⟩
        · exact ⟨hnames j hold, (h.keyed j hold).imp_left hleft⟩
        · exact ⟨hne, trivial⟩⟩
      apart := ⟨fun b => T.aliases.length - T.aliases.idxOf b,
        { selects := fun b hb => not_under_selects hg b (hselects ▸ hb)
          condition := hcondition
          sortKeys := by simp [hsort]
          groupBys := by simp [hgroup]
          joins := fun j hj hunder => by
            have hjT := (mem_joins_iff hg).1 (hjoin j hj).1
            obtain ⟨c, hc, hm⟩ := hunder
            refine ⟨⟨c, hc, (JoinTree.isForest hg.tables hg.mem_joins).mem_above_of_parent
              (JoinTree.parent?_of_mem hg.tables hjT) hm⟩, ?_⟩
            have hlt : T.aliases.idxOf j.parent.aliasName < T.aliases.idxOf j.aliasName :=
              T.ordered.idxOf_parent_lt j hjT
            have := List.idxOf_lt_length_iff.2 (JoinTree.parent_mem hjT)
            omega
          laterals := fun x fromAlias query hx => by
            rw [htables] at hx
            rcases List.mem_cons.1 hx with hx | hx
            · cases hx
            · rcases hrest _ hx with ⟨j, he, -⟩ | ⟨x', fromAlias', query', he, -, hclear⟩
              · cases he
              · obtain ⟨-, rfl, rfl⟩ := Table.lateral.inj he
                exact hclear }⟩
      primary := ha ▸ not_under_primary hg
      name := h.primary
      bases := h.basesClear_under hg
      joined := hleft
      references := fun j hj hcolumn hclear => by
        obtain ⟨hold, -⟩ := hjoin j hj
        have hcol : j ∉ d.collections := fun hcol => hcolumn (h.collections j hcol).2.2.parent
        refine ⟨fun hunder => hclear ((under_parent_iff hg hold hcol).1 hunder), ?_⟩
        exact (h.named j hold).resolve_right fun hbase => hcolumn hbase.2.1
      sortKeys := hsort }

end Draft.Regular

end

/-! ### Orders and pruning -/

namespace Plan.Reduced

variable {schema : Schema} {L : String → Prop} {a table : String} {p : Plan}

theorem addNullChecks (h : p.Reduced schema L a table) {idDbType : String → String} :
    (p.addNullChecks idDbType).Reduced schema L a table := by
  obtain ⟨rank, hapart⟩ := h.apart
  exact
    { h with
      rooted := h.rooted.of_tables tables_mapLeaves
      apart := ⟨rank, hapart.addNullChecks⟩
      joined := fun b hb => by
        rw [Plan.addNullChecks, tables_mapLeaves, Table.map_aliasName_map_mapPlan]
        exact h.joined b hb
      references := fun j hj => h.references j (by
        rwa [Plan.addNullChecks, tables_mapLeaves, Table.join_mem_map_mapPlan] at hj)
      sortKeys := sortKeys_mapLeaves.trans h.sortKeys }

/-- Whatever order it is in, a pruned plan joins all its tables by keys. -/
theorem rooted_prune (h : p.Reduced schema L a table) {s : Setting} (hs : s.schema = schema)
    (hids : schema.IdsApart) {e : Entity} (he : e ∈ schema.entities) {order : OrderBy}
    {supply : AliasSupply} {r : Plan × AliasSupply} (hr : p.addOrder s e a order supply = .ok r)
    (hnd : (r.1.tables.map Table.aliasName).Nodup) :
    (r.1.prune []).Rooted (fun j => schema.Key j.table j.own.column) a table := by
  subst hs
  obtain ⟨rank, hapart⟩ := h.apart
  obtain ⟨o, ho, hfront, hplan⟩ := exists_clear_of_addOrder hids h.bases he hr hnd h.primary h.name
    { joined := h.joined
      keys := by simp [h.sortKeys]
      reached := nofun
      references := h.references
      added := fun t ht => .inl ht }
  rw [hplan] at hnd ⊢
  have hrooted := (h.rooted.ordered (fun j hj => .inr (by rw [hj]; exact .id _)) ho hfront
    hnd).prune (hapart.ordered ho)
  exact hrooted.mono fun j hj => hj.1.resolve_left hj.2

end Plan.Reduced

end EntityQuery
