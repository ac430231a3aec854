import EntityQuery.Proofs.Draft.Step

/-!
# Drafts and their tables

Whatever names its tables have, a draft starts with one primary table, joins the others to tables in
front of them, and multiplies rows only by the joins that it records as collections.  Each of its
conditions reads one table.  Where the names are distinct, its tables form a join tree.

* `Condition.Single`: a condition on one of the named tables;
* `Condition.Idle`: a predicate on one of the named tables that was not asked for;
* `Draft.Regular`: what is true of a draft at every moment;
* `Draft.Step.regular`: each step keeps it;
* `Draft.regular_ofQuery`: the draft of a query without conditions over user aliases;
* `Draft.Regular.exists_tree`: the join tree of a draft with distinct names.
-/

namespace EntityQuery

/-- The condition reads one of the named tables and no other. -/
def Condition.Single (names : List String) (c : Condition) : Prop := ∃ a ∈ names, c.On a

/-- The condition is a predicate on one of the named tables that was not asked for. -/
def Condition.Idle (names : List String) (c : Condition) : Prop :=
  ∃ k, c = .column k ∧ k.pruneable = true ∧ k.aliasName ∈ names

/-- The joined table has a name that was given to it, or one that extends its parent's. -/
def Join.Named (j : Join) : Prop :=
  '_' ∉ j.aliasName.toList ∨ (j.distinct = some false ∧ j.parent.column = "id" ∧
    trunk j.aliasName = j.parent.aliasName.toList)

/-- A draft over joins that are known: those that multiply rows are recorded as collections. -/
structure Draft.Regular (schema : Schema) (a table : String) (d : Draft) : Prop where
  primary : '_' ∉ a.toList
  named : ∀ j, .join j ∈ d.tables → j.Named
  tables : ∃ js : List Join, d.tables = .primary a table :: js.map .join
  behind : Table.ScopedAll [] d.tables
  own : ∀ j, .join j ∈ d.tables → j.own.aliasName = j.aliasName
  keyed : ∀ j, .join j ∈ d.tables → j ∈ d.collections ∨ schema.Key j.table j.own.column
  collections : ∀ j ∈ d.collections, .join j ∈ d.tables ∧ j.distinct = none ∧ j.Plural
  selects : ∀ x ∈ d.selects, x.plans = [] ∧ ∀ b ∈ x.aliases, b = a ∨
    ∃ j, .join j ∈ d.tables ∧ j.aliasName = b ∧ j.parent.aliasName = a ∧ j.distinct = some false
  existences : d.conjuncts.existences = []
  inlined : ∀ c ∈ d.conjuncts.inlined, c.Single d.names
  groups : ∀ g ∈ d.conjuncts.groups, ∃ b ∈ d.names, ∀ c ∈ g.conditions, c.On b

/-- The tables of bases are joined by their ids. -/
theorem Setting.own_of_mem_baseJoins {s : Setting} {a : String} {kind : JoinKind} {i : Nat}
    {bases : List String} {joins : List Join} (h : s.baseJoins a kind i bases = .ok joins) :
    ∀ j ∈ joins, j.own = ⟨j.aliasName, "id"⟩ := by
  induction bases generalizing i joins with
  | nil =>
    obtain rfl := Except.ok.inj h
    exact nofun
  | cons base bases ih =>
    obtain ⟨b, -, h⟩ := exists_of_bind_eq_ok h
    obtain ⟨others, hothers, h⟩ := exists_of_bind_eq_ok h
    obtain rfl := Except.ok.inj h
    exact List.forall_mem_cons.2 ⟨rfl, ih hothers⟩

theorem Setting.named_of_mem_baseJoins {s : Setting} {a : String} {kind : JoinKind} {i : Nat}
    {bases : List String} {joins : List Join} (h : s.baseJoins a kind i bases = .ok joins)
    (ha : '_' ∉ a.toList) : ∀ j ∈ joins, j.Named := by
  intro j hj
  obtain ⟨k, -, hname, hparent, hdistinct, -⟩ := of_mem_baseJoins h j hj
  exact .inr ⟨hdistinct, by rw [hparent], by rw [hname, hparent, trunk_baseAlias, trunk_eq ha]⟩

/-! ### Conditions on one table -/

namespace Condition

variable {names names' : List String} {c : ColumnCondition}

theorem single_column (h : c.aliasName ∈ names) : (column c).Single names :=
  ⟨_, h, on_column rfl⟩

theorem single_split (h : c.aliasName ∈ names) : c.split.Single names := ⟨_, h, on_split⟩

theorem Single.mono {k : Condition} (h : k.Single names) (hsub : names ⊆ names') :
    k.Single names' := by
  obtain ⟨a, ha, hk⟩ := h
  exact ⟨a, hsub ha, hk⟩

theorem Idle.single {k : Condition} (h : k.Idle names) : k.Single names := by
  obtain ⟨c, rfl, -, hc⟩ := h
  exact single_column hc

theorem Idle.mono {k : Condition} (h : k.Idle names) (hsub : names ⊆ names') : k.Idle names' := by
  obtain ⟨c, rfl, hp, hc⟩ := h
  exact ⟨c, rfl, hp, hsub hc⟩

end Condition

namespace Draft

variable {s : Setting} {schema : Schema} {d d' : Draft} {e : Entity} {a b table : String}
  {joins : List Join} {supply : AliasSupply}

theorem names_append {ts : List Table} (h : d'.tables = d.tables ++ ts) :
    d'.names = d.names ++ ts.map Table.aliasName := by
  rw [names, h, List.map_append, names]

/-- The conditions that come with the table of an entity are on that table or on one of its
bases. -/
theorem idle_implied {names : List String} {deletion : Option DeletionColumn}
    (hdeletion : s.deletion? e = .ok deletion) (ha : Housed names b e.baseTypes.length) :
    ∀ c ∈ e.implied b deletion, c.Idle names := by
  intro c hc
  obtain ⟨k, hk, rfl⟩ := List.mem_map.1 hc
  rcases List.mem_append.1 hk with hk | hk
  · obtain ⟨column, hcolumn, rfl⟩ := Option.map_eq_some_iff.1 (Option.mem_toList.1 hk)
    refine ⟨_, rfl, rfl, ?_⟩
    show column.holder b ∈ names
    unfold DeletionColumn.holder
    split
    · exact ha.mem
    · next i hi => exact ha.bases i (Setting.baseIndex_lt_of_deletion? hdeletion _ hcolumn i hi)
  · have hk := Option.mem_toList.1 hk
    unfold Entity.typeCondition? at hk
    split at hk
    · obtain rfl := Option.some.inj hk
      exact ⟨_, rfl, rfl, ha.mem⟩
    · cases hk

theorem single_implied {names : List String} {deletion : Option DeletionColumn}
    (hdeletion : s.deletion? e = .ok deletion) (ha : Housed names b e.baseTypes.length) :
    ∀ c ∈ e.implied b deletion, c.Single names := fun c hc => (idle_implied hdeletion ha c hc).single

namespace Regular

/-- More tables behind, with conditions on tables that are there then. -/
theorem append (h : d.Regular schema a table) (js : List Join) (cs : List Condition)
    (htables : d'.tables = d.tables ++ js.map .join)
    (hnamed : ∀ j ∈ js, j.Named) (hbehind : Table.ScopedAll d.names (js.map .join))
    (hown : ∀ j ∈ js, j.own.aliasName = j.aliasName)
    (hkeyed : ∀ j ∈ js, j ∈ d'.collections ∨ schema.Key j.table j.own.column)
    (hsub : d.collections ⊆ d'.collections)
    (hcollections : ∀ j ∈ d'.collections,
      j ∈ d.collections ∨ (j ∈ js ∧ j.distinct = none ∧ j.Plural))
    (hselects : d'.selects = d.selects) (hconjuncts : d'.conjuncts = d.withInlined cs)
    (hcs : ∀ c ∈ cs, c.Single d'.names) : d'.Regular schema a table := by
  have hnames : d.names ⊆ d'.names := by
    rw [names_append htables]
    exact List.subset_append_left _ _
  have hjoin : ∀ j, .join j ∈ d'.tables → .join j ∈ d.tables ∨ j ∈ js := by
    intro j hj
    rw [htables] at hj
    refine (List.mem_append.1 hj).imp_right fun hj => ?_
    obtain ⟨j', hj', he⟩ := List.mem_map.1 hj
    exact Table.join.inj he ▸ hj'
  have hold : ∀ j, .join j ∈ d.tables → .join j ∈ d'.tables := fun j hj =>
    htables ▸ List.mem_append_left _ hj
  have hnew : ∀ j ∈ js, .join j ∈ d'.tables := fun j hj =>
    htables ▸ List.mem_append_right _ (List.mem_map_of_mem hj)
  refine ⟨h.primary, fun j hj => (hjoin j hj).elim (h.named j) (hnamed j), ?_, ?_, fun j hj => ?_,
    fun j hj => ?_, fun j hj => ?_, fun x hx => ?_, ?_, fun c hc => ?_, fun g hg => ?_⟩
  · obtain ⟨js', hjs'⟩ := h.tables
    exact ⟨js' ++ js, by rw [htables, hjs', List.map_append, List.cons_append]⟩
  · rw [htables, Table.scopedAll_append]
    exact ⟨h.behind, by rwa [List.nil_append]⟩
  · exact (hjoin j hj).elim (h.own j) (hown j)
  · exact (hjoin j hj).elim (fun hj => (h.keyed j hj).imp_left fun hc => hsub hc) (hkeyed j)
  · rcases hcollections j hj with hj | ⟨hj, hc⟩
    · exact (h.collections j hj).imp_left (hold j)
    · exact ⟨hnew j hj, hc⟩
  · obtain ⟨hflat, hparts⟩ := h.selects x (hselects ▸ hx)
    refine ⟨hflat, fun b hb => (hparts b hb).imp_right ?_⟩
    rintro ⟨j, hj, hjb⟩
    exact ⟨j, hold j hj, hjb⟩
  · rw [hconjuncts]
    exact h.existences
  · rw [hconjuncts] at hc
    rcases List.mem_append.1 hc with hc | hc
    · exact (h.inlined c hc).mono hnames
    · exact hcs c hc
  · rw [hconjuncts] at hg
    obtain ⟨b, hb, hon⟩ := h.groups g hg
    exact ⟨b, hnames hb, hon⟩

/-- The tables of an entity, joined by a join that is known, and by one that is recorded. -/
theorem addEntity (h : d.Regular s.schema a table) {j : Join} (hj : d.Links j)
    (hd : d.addEntity s e (.join j) = .ok d') (recorded : List Join)
    (hkeyed : j ∈ recorded ∨ s.schema.Key j.table j.own.column)
    (hrecorded : ∀ j' ∈ recorded, j' = j ∧ j.Plural) :
    ({ d' with collections := d'.collections ++ recorded } : Draft).Regular s.schema a table := by
  have hhoused := housed_addEntity hd
  obtain ⟨joins, deletion, hjoins, hdeletion, rfl⟩ := addEntity_eq_ok hd
  have hbases := Setting.of_mem_baseJoins hjoins
  refine h.append (j :: joins) (e.implied j.aliasName deletion) rfl
    (List.forall_mem_cons.2 ⟨.inl hj.name, Setting.named_of_mem_baseJoins hjoins hj.name⟩)
    ⟨hj.parent, Table.scopedAll_joins fun k hk => ?_⟩ (fun k hk => ?_) (fun k hk => ?_)
    (List.subset_append_left _ _) (fun k hk => ?_) rfl rfl (single_implied hdeletion hhoused)
  · obtain ⟨i, -, -, hparent, -⟩ := hbases k hk
    rw [hparent]
    exact List.mem_append_right _ (List.mem_singleton_self _)
  · rcases List.mem_cons.1 hk with rfl | hk
    · exact hj.own
    · rw [Setting.own_of_mem_baseJoins hjoins k hk]
  · rcases List.mem_cons.1 hk with rfl | hk
    · exact hkeyed.imp_left (List.mem_append_right _)
    · right
      rw [Setting.own_of_mem_baseJoins hjoins k hk]
      exact .id _
  · rcases List.mem_append.1 hk with hk | hk
    · exact .inl hk
    · obtain ⟨rfl, hplural⟩ := hrecorded k hk
      exact .inr ⟨List.mem_cons_self, hj.distinct, hplural⟩

theorem addConditions (h : d.Regular schema a table) {cs : List Condition} {gs : List Group}
    (hcs : ∀ c ∈ cs, c.Single d.names)
    (hgs : ∀ g ∈ gs, ∃ b ∈ d.names, ∀ c ∈ g.conditions, c.On b) :
    ({ d with conjuncts := ⟨d.conjuncts.inlined ++ cs, d.conjuncts.existences,
      d.conjuncts.groups ++ gs⟩ } : Draft).Regular schema a table :=
  { h with
    inlined := List.forall_mem_append.2 ⟨h.inlined, hcs⟩
    groups := List.forall_mem_append.2 ⟨h.groups, hgs⟩ }

end Regular

/-- Each step keeps a draft regular. -/
theorem Step.regular (hstep : d.Step s d') (h : d.Regular s.schema a table) :
    d'.Regular s.schema a table := by
  cases hstep with
  | name table => exact { h with }
  | bind name he ha => exact { h with }
  | column ha =>
    have := h.addConditions (List.forall_mem_singleton.2 (Condition.single_split ha))
      (List.forall_mem_nil _)
    rwa [List.append_nil] at this
  | group ha hg =>
    have := h.addConditions (List.forall_mem_nil _) (List.forall_mem_singleton.2 ⟨_, ha, hg⟩)
    rwa [List.append_nil] at this
  | entity he htable hj hkey hd =>
    have := h.addEntity hj hd [] (.inr hkey) nofun
    rwa [List.append_nil] at this
  | @collection e j d₁ he htable hj hplural hd =>
    exact h.addEntity hj hd [j] (.inl (List.mem_singleton_self j))
      (List.forall_mem_singleton.2 ⟨rfl, hplural⟩)
  | @junction j idDbType _ hj hplural =>
    refine h.append [j] [] rfl (List.forall_mem_singleton.2 (.inl hj.name))
      ⟨hj.parent, trivial⟩
      (List.forall_mem_singleton.2 hj.own)
      (List.forall_mem_singleton.2 (.inl (List.mem_append_right _ (List.mem_singleton_self j))))
      (List.subset_append_left _ _) (List.forall_mem_append.2 ⟨fun _ => .inl,
        List.forall_mem_singleton.2 (.inr ⟨List.mem_singleton_self j, hj.distinct, hplural⟩)⟩)
      rfl ?_ nofun
    rw [withInlined, List.append_nil]
    rfl

/-- So does any number of them. -/
theorem Steps.regular (hsteps : d.Steps s d') (h : d.Regular s.schema a table) :
    d'.Regular s.schema a table := hsteps.induct (fun hstep => hstep.regular) h

/-! ### The entity that is asked for -/

/-- The table of the entity that is asked for, with those of its bases. -/
theorem regular_primary (ha : '_' ∉ a.toList)
    (hd : Draft.addEntity ⟨supply, [], [], .empty, [], [], []⟩ s e (.primary a table) = .ok d) :
    d.Regular s.schema a table := by
  have hhoused := housed_addEntity hd
  obtain ⟨joins, deletion, hjoins, hdeletion, rfl⟩ := addEntity_eq_ok hd
  have hbases := Setting.of_mem_baseJoins hjoins
  have hmem : ∀ j, .join j ∈ [] ++ Table.primary a table :: joins.map .join → j ∈ joins := by
    intro j hj
    simpa using hj
  exact
    { primary := ha
      named := fun j hj => Setting.named_of_mem_baseJoins hjoins ha j (hmem j hj)
      tables := ⟨joins, rfl⟩
      behind := Table.scopedAll_joins fun k hk => by
        obtain ⟨i, -, -, hparent, -⟩ := hbases k hk
        rw [hparent]
        exact List.mem_singleton_self _
      own := fun j hj => by rw [Setting.own_of_mem_baseJoins hjoins j (hmem j hj)]
      keyed := fun j hj => .inr (by
        rw [Setting.own_of_mem_baseJoins hjoins j (hmem j hj)]
        exact .id _)
      collections := nofun
      selects := nofun
      existences := rfl
      inlined := single_implied hdeletion hhoused
      groups := nofun }

namespace Regular

/-- More result columns on the table of the entity and its parts. -/
theorem select (h : d.Regular schema a table) (xs : List Select)
    (hxs : ∀ x ∈ xs, x.plans = [] ∧ ∀ b ∈ x.aliases, b = a ∨
      ∃ j, .join j ∈ d.tables ∧ j.aliasName = b ∧ j.parent.aliasName = a ∧
        j.distinct = some false) :
    ({ d with selects := d.selects ++ xs } : Draft).Regular schema a table :=
  { h with selects := List.forall_mem_append.2 ⟨h.selects, hxs⟩ }

theorem mem_primary (h : d.Regular schema a table) : a ∈ d.names := by
  obtain ⟨js, hjs⟩ := h.tables
  rw [names, hjs]
  exact List.mem_cons_self

/-- The tables of subtypes. -/
theorem addSubtypes {subs : List String} {i : Nat} {cases : List DiscriminatorCase}
    (h : d.Regular s.schema a table) (hd : addSubtypes s a i subs d = .ok (d', cases)) :
    d'.Regular s.schema a table ∧ d.tables <+: d'.tables ∧ ∀ c ∈ cases, ∃ j, .join j ∈ d'.tables ∧
      j.aliasName = c.aliasName ∧ j.parent.aliasName = a ∧ j.distinct = some false := by
  induction subs generalizing i d cases with
  | nil =>
    obtain ⟨rfl, rfl⟩ := Prod.mk.inj (Except.ok.inj hd)
    exact ⟨h, List.prefix_rfl, nofun⟩
  | cons sub subs ih =>
    obtain ⟨e, -, hd⟩ := exists_of_bind_eq_ok hd
    obtain ⟨⟨d₁, others⟩, hothers, hd⟩ := exists_of_bind_eq_ok hd
    obtain ⟨rfl, rfl⟩ := Prod.mk.inj (Except.ok.inj hd)
    let j : Join := ⟨subAlias a i, e.tableName, .outer, ⟨a, "id"⟩, ⟨subAlias a i, "id"⟩, some false⟩
    have hj : Table.join j ∈ (d.addTable (.join j) e.idDbType).tables :=
      List.mem_append_right _ (List.mem_singleton_self _)
    have hadded : (d.addTable (.join j) e.idDbType).Regular s.schema a table :=
      h.append [j] [] rfl (List.forall_mem_singleton.2
          (.inr ⟨rfl, rfl, (trunk_subAlias a i).trans (trunk_eq h.primary)⟩))
        ⟨h.mem_primary, trivial⟩ (List.forall_mem_singleton.2 rfl)
        (List.forall_mem_singleton.2 (.inr (.id _))) (List.Subset.refl _) (fun _ => .inl) rfl (by rw [withInlined, List.append_nil]; rfl) nofun
    have hselected := hadded.select [.star (subAlias a i)] (List.forall_mem_singleton.2
      ⟨rfl, List.forall_mem_singleton.2 (.inr ⟨j, hj, rfl, rfl, rfl⟩)⟩)
    obtain ⟨hregular, hfront, hcases⟩ := ih hselected hothers
    exact ⟨hregular, (List.prefix_append _ _).trans hfront,
      List.forall_mem_cons.2 ⟨⟨j, hfront.subset hj, rfl, rfl, rfl⟩, hcases⟩⟩

/-- The result columns of the entity. -/
theorem addSelects (h : d.Regular s.schema a table)
    (hbases : ∀ i < e.baseTypes.length, ∃ j, .join j ∈ d.tables ∧ j.aliasName = baseAlias a i ∧
      j.parent.aliasName = a ∧ j.distinct = some false)
    (hd : d.addSelects s e a = .ok d') : d'.Regular s.schema a table ∧ d.tables <+: d'.tables := by
  obtain ⟨⟨d₁, cases⟩, hcases, hd⟩ := exists_of_bind_eq_ok hd
  have hstars := h.select (.star a :: (List.range e.baseTypes.length).map fun i =>
      Select.star (baseAlias a i)) (List.forall_mem_cons.2
    ⟨⟨rfl, List.forall_mem_singleton.2 (.inl rfl)⟩, fun x hx => by
      obtain ⟨i, hi, rfl⟩ := List.mem_map.1 hx
      exact ⟨rfl, List.forall_mem_singleton.2 (.inr (hbases i (List.mem_range.1 hi)))⟩⟩)
  obtain ⟨hregular, hfront, hparts⟩ := hstars.addSubtypes hcases
  obtain rfl := Except.ok.inj hd
  split_ifs
  · exact ⟨hregular, hfront⟩
  · refine ⟨hregular.select _ (List.forall_mem_singleton.2 ⟨rfl, fun b hb => ?_⟩), hfront⟩
    obtain ⟨c, hc, rfl⟩ := List.mem_map.1 hb
    exact .inr (hparts c hc)

end Regular

/-- The draft of a query without conditions over user aliases. -/
theorem regular_ofQuery (he : e ∈ s.schema.entities) {filter : EntityFilter}
    (h : Draft.ofQuery s e filter none = .ok (a, d)) :
    d.Regular s.schema a e.tableName ∧ Housed d.names a e.baseTypes.length := by
  obtain ⟨d₁, hprimary, h⟩ := exists_of_bind_eq_ok h
  obtain ⟨d₂, hselects, h⟩ := exists_of_bind_eq_ok h
  obtain ⟨d₃, hmatch, h⟩ := exists_of_bind_eq_ok h
  obtain ⟨rfl, rfl⟩ := Prod.mk.inj (Except.ok.inj h)
  have hhoused := housed_addEntity hprimary
  have ha : '_' ∉ (AliasSupply.empty.next e.tableName).1.toList :=
    AliasSupply.underscore_not_mem_next
  have hregular := regular_primary ha hprimary
  obtain ⟨hregular₂, hfront⟩ := hregular.addSelects (fun i hi => by
    obtain ⟨joins, deletion, hjoins, -, rfl⟩ := addEntity_eq_ok hprimary
    obtain ⟨j, hj, hji, hparent, hdistinct, -⟩ :=
      Setting.exists_of_baseJoins hjoins (Nat.zero_le i) (by omega)
    exact ⟨j, List.mem_append_right _ (List.mem_cons_of_mem _ (List.mem_map_of_mem hj)), hji,
      hparent, hdistinct⟩) hselects
  have hhoused₂ := hhoused.mono (hfront.map _).subset
  have hsteps := EntityFilter.steps_match he hhoused₂ hmatch
  exact ⟨hsteps.regular hregular₂, hhoused₂.mono hsteps.names_subset⟩

/-! ### Distinct names -/

/-- Joins to tables in front of them are ordered when their names are distinct. -/
theorem ordered_joins {names : List String} (h : Table.ScopedAll names (js.map .join))
    (hown : ∀ j ∈ js, j.own.aliasName = j.aliasName)
    (hnd : (names ++ js.map (·.aliasName)).Nodup) : Join.Ordered names js := by
  induction js generalizing names with
  | nil => trivial
  | cons j js ih =>
    rw [List.map_cons, List.append_cons] at hnd
    have hfresh := (List.nodup_append.1 (List.nodup_append.1 hnd).1).2.2
    exact ⟨h.1, fun hm => hfresh _ hm _ (List.mem_singleton_self _) rfl, hown j List.mem_cons_self,
      ih h.2 (fun k hk => hown k (List.mem_cons_of_mem _ hk)) hnd⟩

/-- Each condition at the top of the plan reads one table. -/
theorem Regular.single_of_mem_topConditions (h : d.Regular schema a table) :
    ∀ k ∈ d.toPlan.topConditions, k.Single d.names := by
  refine of_conjuncts_group? (fun c hc => ?_) (fun g hg _ c hc => ?_) (fun g hg => ?_) rfl
  · rw [h.existences, List.append_nil] at hc
    exact h.inlined c hc
  · obtain ⟨b, hb, hon⟩ := h.groups g hg
    exact ⟨b, hb, hon c hc⟩
  · obtain ⟨op, cs⟩ := g
    obtain ⟨b, hb, hon⟩ := h.groups _ hg
    exact ⟨b, hb, Condition.on_group hon⟩

/-- The tables of a draft with distinct names form a join tree. -/
theorem Regular.exists_tree (h : d.Regular schema a table) (hnd : d.names.Nodup) :
    ∃ T : JoinTree, T.aliasName = a ∧ d.tables = T.tables ∧ d.toPlan.Gathered T d.collections := by
  obtain ⟨js, hjs⟩ := h.tables
  have hjoin : ∀ j, .join j ∈ d.tables ↔ j ∈ js := fun j => by simp [hjs]
  have hbehind := h.behind
  rw [hjs] at hbehind
  have hnames : d.names = a :: js.map (·.aliasName) := by
    simp [names, hjs, Table.aliasName, Function.comp_def]
  have hordered : Join.Ordered [a] js :=
    ordered_joins hbehind (fun j hj => h.own j ((hjoin j).2 hj)) (by rwa [hnames] at hnd)
  refine ⟨⟨a, table, js, hordered⟩, rfl, hjs, ?_⟩
  exact
    { tables := hjs
      collections := fun j hj => ⟨(hjoin j).1 (h.collections j hj).1, (h.collections j hj).2.1⟩
      flat := fun k hk => (h.single_of_mem_topConditions k hk).elim fun b hb => hb.2.flat
      reads := fun k hk x hx => by
        obtain ⟨b, hb, hon⟩ := h.single_of_mem_topConditions k hk
        rw [hon.reads x hx]
        rw [hnames] at hb
        exact hb
      single := fun k hk hp => by
        obtain ⟨b, -, hon⟩ := h.single_of_mem_topConditions k hk
        exact ⟨b, hon.single hp⟩
      selects := fun x hx => (h.selects x hx).imp_right fun hparts b hb =>
        (hparts b hb).imp_right fun hb => hb.imp fun j hj => ⟨(hjoin j).1 hj.1, hj.2⟩
      sortKeys := rfl
      groupBys := rfl }

end Draft

end EntityQuery
