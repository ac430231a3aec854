import EntityQuery.Find.Basic
import EntityQuery.Proofs.Draft.Tree

/-!
# Drafts

What is true of a plan under construction at every moment: its tables are a join tree whose names
the supply has given, conditions read tables that are there, and user aliases name tables of entities
that are there with their bases.

* `Condition.Within`: a condition without subqueries on the tables of a tree;
* `Draft.Sound`: a draft over a join tree;
* `Sound.addBases`: more tables;
* `Sound.addEntity`: the table of an entity with what comes with it;
* `Draft.gathered_toPlan`: the plan of a sound draft.
-/

namespace EntityQuery

/-- The condition has no subquery and reads tables of the tree, one alone if it was not asked for. -/
structure Condition.Within (T : JoinTree) (c : Condition) : Prop where
  flat : c.plans = []
  reads : ∀ a ∈ c.aliases, a ∈ T.aliases
  single : c.isPruneable = true → ∃ a, c.aliases = [a]

/-- Where a table is joined by its id to a foreign key, an entity of that table is there with the
tables of its bases. -/
def JoinTree.Complete (T : JoinTree) (schema : Schema) : Prop :=
  ∀ j ∈ T.joins, j.own.column = "id" → j.parent.column ≠ "id" →
    ∃ e ∈ schema.entities, e.tableName = j.table ∧ T.Houses j.aliasName e.baseTypes.length

/-- Inner joins are joined to required tables. -/
def JoinTree.Rooted (T : JoinTree) : Prop :=
  ∀ j ∈ T.joins, j.kind = .inner → j.parent.aliasName ∈ T.required

/-- Required tables belong to no collection, where collections are joined by outer joins. -/
theorem JoinTree.Rooted.above_eq_nil {T : JoinTree} (h : T.Rooted) {p : Plan} {joins : List Join}
    (hT : p.tables = T.tables) (hjoins : ∀ j ∈ joins, j ∈ T.joins)
    (houter : ∀ j ∈ joins, j.kind = .outer) {a : String} (ha : a ∈ T.required) :
    (Collections.ofPlan p joins).above a = [] := by
  have hF := isForest hT hjoins
  suffices hall : ∀ a, a ∈ T.required → (Collections.ofPlan p joins).above a = [] from hall a ha
  refine hF.induction fun a ih ha => ?_
  rcases List.mem_cons.1 ha with rfl | ha
  · exact List.eq_nil_iff_forall_not_mem.2 fun c => not_mem_above_primary hT hjoins
  · obtain ⟨j, hj, rfl⟩ := List.mem_map.1 ha
    obtain ⟨hj, hkind⟩ := List.mem_filter.1 hj
    rw [decide_eq_true_iff] at hkind
    have hp : (Collections.ofPlan p joins).parent? j.aliasName = some j.parent.aliasName :=
      parent?_of_mem hT hj
    rw [hF.above_of_parent hp, ih _ hp (h j hj hkind), if_neg]
    intro hc
    obtain ⟨j', hj', he⟩ := (isCollection_iff hT hjoins).1 hc
    rw [← eq_of_aliasName (hjoins j' hj') hj he, houter j' hj'] at hkind
    cases hkind

/-- The draft is one over the join tree. -/
structure Draft.Sound (s : Setting) (T : JoinTree) (d : Draft) : Prop where
  tables : d.tables = T.tables
  names : ∀ a ∈ T.aliases, d.supply.Gave (trunk a)
  stemmed : d.supply.Stemmed
  selects : ∀ x ∈ d.selects, x.plans = [] ∧ ∀ a ∈ x.aliases, T.IsPartOf T.aliasName a
  conditions : ∀ c ∈ d.conjuncts.inlined ++ d.conjuncts.existences, c.Within T
  groups : ∀ g ∈ d.conjuncts.groups, ∀ c ∈ g.conditions, c.Within T
  collections : ∀ j ∈ d.collections, j ∈ T.joins ∧ j.distinct = none
  outer : ∀ j ∈ d.collections, j.kind = .outer
  bindings : ∀ b ∈ d.bindings, b.entity ∈ s.schema.entities ∧
    T.Houses b.aliasName b.entity.baseTypes.length
  complete : T.Complete s.schema
  rooted : T.Rooted

/-- What is true of predicates on a column, and of groups of such, is true of membership in a list
with null. -/
theorem ColumnCondition.split_induct {P : Condition → Prop} {c : ColumnCondition}
    (hcolumn : ∀ p : Predicate, P (.column { c with predicate := p }))
    (hgroup : ∀ {op : Connective} {cs : List Condition}, (∀ k ∈ cs, P k) → P (.group ⟨op, cs⟩)) :
    P c.split := by
  have hboth : ∀ {op : Connective} {p q : Predicate},
      P (.group ⟨op, [.column { c with predicate := p }, .column { c with predicate := q }]⟩) :=
    fun {_ _ _} => hgroup (List.forall_mem_cons.2
      ⟨hcolumn _, List.forall_mem_singleton.2 (hcolumn _)⟩)
  unfold split
  split
  · split_ifs
    · split
      · exact hcolumn _
      · exact hboth
    · exact hcolumn c.predicate
  · split_ifs
    · split
      · exact hcolumn _
      · exact hboth
    · exact hcolumn c.predicate
  · exact hcolumn c.predicate

/-! ### Conditions on tables that are there -/

namespace Condition

variable {T T' : JoinTree} {c : ColumnCondition} {cs : List Condition} {op : Connective}

theorem Within.extends {k : Condition} (h : k.Within T) (hext : T.Extends T') : k.Within T' :=
  ⟨h.flat, fun a ha => hext.mem_aliases (h.reads a ha), h.single⟩

theorem within_column (h : c.aliasName ∈ T.aliases) : (column c).Within T := by
  refine ⟨rfl, fun a ha => ?_, fun _ => ⟨_, rfl⟩⟩
  rwa [List.mem_singleton.1 ha]

theorem within_group (h : ∀ c ∈ cs, c.Within T) : (group ⟨op, cs⟩).Within T := by
  refine ⟨plansOf_eq_nil_iff.2 fun c hc => (h c hc).flat, fun a ha => ?_, nofun⟩
  obtain ⟨c, hc, ha⟩ := mem_aliases_group.1 ha
  exact (h c hc).reads a ha

theorem within_split (h : c.aliasName ∈ T.aliases) : c.split.Within T :=
  ColumnCondition.split_induct (fun _ => within_column h) fun hcs => within_group hcs

end Condition

namespace Draft

variable {s : Setting} {T T' : JoinTree} {d d' : Draft} {e : Entity} {a table ty : String}
  {c : ColumnCondition} {g : Group} {j : Join} {js : List Join}

theorem addBases_eq {d : Draft} : d.addBases ty js =
    { d with
      tables := d.tables ++ js.map .join
      idDbTypes := (js.map fun j => (j.aliasName, ty)).reverse ++ d.idDbTypes } := by
  induction js generalizing d with
  | nil => simp [Draft.addBases]
  | cons j js ih =>
    show (d.addTable (.join j) ty).addBases ty js = _
    rw [ih]
    simp [Draft.addTable, Table.aliasName]

namespace Sound

/-! ### Steps that leave the tables as they are -/

theorem mem_aliases_iff (h : Sound s T d) : a ∈ d.tables.map Table.aliasName ↔ a ∈ T.aliases := by
  rw [h.tables, T.map_aliasName_tables]

theorem nextAlias (h : Sound s T d) (hw : Worded table) : Sound s T (d.nextAlias table).2 :=
  { h with
    names := fun a ha => (h.names a ha).next
    stemmed := h.stemmed.next hw }

theorem addColumn (h : Sound s T d) (hc : c.aliasName ∈ T.aliases) : Sound s T (d.addColumn c) := by
  refine { h with conditions := fun k hk => ?_ }
  rcases List.mem_append.1 hk with hk | hk
  · rcases List.mem_append.1 hk with hk | hk
    · exact h.conditions k (List.mem_append_left _ hk)
    · rw [List.mem_singleton.1 hk]
      exact Condition.within_split hc
  · exact h.conditions k (List.mem_append_right _ hk)

theorem addGroup (h : Sound s T d) (hg : ∀ c ∈ g.conditions, c.Within T) :
    Sound s T (d.addGroup g) := by
  refine { h with groups := fun g' hg' => ?_ }
  rcases List.mem_append.1 hg' with hg' | hg'
  · exact h.groups g' hg'
  · rw [List.mem_singleton.1 hg']
    exact hg

theorem addCollection (h : Sound s T d) (hj : j ∈ T.joins) (hdistinct : j.distinct = none)
    (hkind : j.kind = .outer) : Sound s T (d.addCollection j) := by
  refine { h with collections := fun j' hj' => ?_, outer := fun j' hj' => ?_ }
  · rcases List.mem_append.1 hj' with hj' | hj'
    · exact h.collections j' hj'
    · rw [List.mem_singleton.1 hj']
      exact ⟨hj, hdistinct⟩
  · rcases List.mem_append.1 hj' with hj' | hj'
    · exact h.outer j' hj'
    · rwa [List.mem_singleton.1 hj']

theorem bind (h : Sound s T d) (he : e ∈ s.schema.entities) {name : String}
    (ha : T.Houses a e.baseTypes.length) : Sound s T (d.bind name a e) := by
  refine { h with bindings := fun b hb => ?_ }
  rcases List.mem_cons.1 hb with rfl | hb
  · exact ⟨he, ha⟩
  · exact h.bindings b hb

theorem select (h : Sound s T d) (xs : List Select)
    (hxs : ∀ x ∈ xs, x.plans = [] ∧ ∀ a ∈ x.aliases, T.IsPartOf T.aliasName a) :
    Sound s T { d with selects := d.selects ++ xs } := by
  refine { h with selects := fun x hx => ?_ }
  rcases List.mem_append.1 hx with hx | hx
  · exact h.selects x hx
  · exact hxs x hx

/-! ### More tables -/

/-- Joins on tables that are there, under names that the supply has given. -/
theorem addBases (h : Sound s T d) (ty : String) (hjs : Join.Ordered T.aliases js)
    (hnames : ∀ j ∈ js, d.supply.Gave (trunk j.aliasName))
    (hcomplete : ∀ j ∈ js, j.own.column = "id" → j.parent.column ≠ "id" →
      ∃ e ∈ s.schema.entities,
        e.tableName = j.table ∧ (T.append js hjs).Houses j.aliasName e.baseTypes.length)
    (hrooted : ∀ j ∈ js, j.kind = .inner → j.parent.aliasName ∈ (T.append js hjs).required) :
    Sound s (T.append js hjs) (d.addBases ty js) := by
  have hext : T.Extends (T.append js hjs) := JoinTree.extends_append
  rw [addBases_eq]
  exact
    { tables := by rw [JoinTree.tables_append, h.tables]
      names := fun a ha => by
        rw [JoinTree.aliases_append] at ha
        rcases List.mem_append.1 ha with ha | ha
        · exact h.names a ha
        · obtain ⟨j, hj, rfl⟩ := List.mem_map.1 ha
          exact hnames j hj
      stemmed := h.stemmed
      selects := fun x hx => ⟨(h.selects x hx).1, fun a ha =>
        hext.isPartOf ((h.selects x hx).2 a ha)⟩
      conditions := fun c hc => (h.conditions c hc).extends hext
      groups := fun g hg c hc => (h.groups g hg c hc).extends hext
      collections := fun j hj => ⟨hext.joins (h.collections j hj).1, (h.collections j hj).2⟩
      outer := h.outer
      bindings := fun b hb => (h.bindings b hb).imp_right hext.houses
      complete := fun j hj hown hparent => by
        rcases List.mem_append.1 hj with hj | hj
        · obtain ⟨e, he, htable, hhouses⟩ := h.complete j hj hown hparent
          exact ⟨e, he, htable, hext.houses hhouses⟩
        · exact hcomplete j hj hown hparent
      rooted := fun j hj hkind => by
        rcases List.mem_append.1 hj with hj | hj
        · exact hext.required (h.rooted j hj hkind)
        · exact hrooted j hj hkind }

/-- The conditions that come with the table of an entity. -/
theorem addImplied (h : Sound s T d) (ha : T.Houses a e.baseTypes.length)
    {deletion : Option DeletionColumn} (hdeletion : s.deletion? e = .ok deletion) :
    Sound s T ((d.addDeletion a deletion).addDiscriminator a e) := by
  have hdeleted : Sound s T (d.addDeletion a deletion) := by
    unfold Draft.addDeletion
    split
    · exact h
    · exact h.addColumn ha.mem
    · next i name =>
      have hi := Setting.baseIndex_lt_of_deletion? hdeletion _ rfl i rfl
      exact h.addColumn (ha.housed.bases i hi)
  unfold Draft.addDiscriminator
  split
  · exact hdeleted.addColumn ha.mem
  · exact hdeleted

/-- The table of an entity, joined under a new name. -/
theorem addEntity (h : Sound s T d) (he : e ∈ s.schema.entities) (htable : j.table = e.tableName)
    (hown : j.own.aliasName = j.aliasName) (hparent : j.parent.aliasName ∈ T.aliases)
    (hnew : ∀ a ∈ T.aliases, trunk a ≠ trunk j.aliasName)
    (hname : d.supply.Gave (trunk j.aliasName))
    (hrooted : j.kind = .inner → j.parent.aliasName ∈ T.required)
    (hd : d.addEntity s e (.join j) = .ok d') :
    ∃ T', T.Extends T' ∧ j ∈ T'.joins ∧
      T'.Hosts (j.kind = .outer) j.aliasName e.baseTypes.length ∧ Sound s T' d' := by
  obtain ⟨joins, hjoins, hd⟩ := exists_of_bind_eq_ok hd
  obtain ⟨deletion, hdeletion, hd⟩ := exists_of_bind_eq_ok hd
  obtain rfl := Except.ok.inj hd
  have hbases := Setting.of_mem_baseJoins hjoins
  have hordered : Join.Ordered T.aliases (j :: joins) := by
    refine ⟨hparent, fun hm => hnew _ hm rfl, hown, Setting.ordered_baseJoins hjoins
      (List.mem_append_right _ (List.mem_singleton_self _)) fun k _ hm => ?_⟩
    rcases List.mem_append.1 hm with hm | hm
    · exact hnew _ hm (trunk_baseAlias _ _)
    · exact baseAlias_ne _ _ (List.mem_singleton.1 hm)
  have hmem : ∀ j' ∈ j :: joins, j' ∈ (T.append (j :: joins) hordered).joins := fun j' hj' =>
    List.mem_append_right _ hj'
  have hhosts : (T.append (j :: joins) hordered).Hosts (j.kind = .outer) j.aliasName
      e.baseTypes.length := by
    refine Setting.hosts_baseJoins hjoins (JoinTree.aliasName_mem (hmem j List.mem_cons_self))
      (fun j' hj' => hmem j' (List.mem_cons_of_mem _ hj')) fun ho => ?_
    have hkind : j.kind = .inner := by
      cases hk : j.kind with
      | inner => rfl
      | outer => simp [hk] at ho
    exact ⟨hkind, JoinTree.mem_required_of_inner (hmem j List.mem_cons_self) hkind⟩
  refine ⟨T.append (j :: joins) hordered, JoinTree.extends_append, hmem j List.mem_cons_self,
    hhosts, addImplied (h.addBases _ hordered ?_ ?_ ?_) hhosts.houses hdeletion⟩
  · intro j' hj'
    rcases List.mem_cons.1 hj' with rfl | hj'
    · exact hname
    · obtain ⟨k, -, hk, -⟩ := hbases j' hj'
      rw [hk, trunk_baseAlias]
      exact hname
  · intro j' hj' hid hne
    rcases List.mem_cons.1 hj' with rfl | hj'
    · exact ⟨e, he, htable.symm, hhosts.houses⟩
    · obtain ⟨k, -, -, hk, -⟩ := hbases j' hj'
      rw [hk] at hne
      exact absurd rfl hne
  · intro j' hj' hkind
    rcases List.mem_cons.1 hj' with rfl | hj'
    · exact JoinTree.extends_append.required (hrooted hkind)
    · obtain ⟨k, -, -, hk, -, hkind'⟩ := hbases j' hj'
      rw [hk]
      exact JoinTree.mem_required_of_inner (hmem j List.mem_cons_self) (hkind'.symm.trans hkind)

/-! ### The entity that is asked for -/

/-- The table of the entity that is asked for. -/
theorem of_primary (hw : Worded e.tableName)
    (hd : (Draft.empty.nextAlias e.tableName).2.addEntity s e
      (.primary (Draft.empty.nextAlias e.tableName).1 e.tableName) = .ok d) :
    ∃ T, T.aliasName = (Draft.empty.nextAlias e.tableName).1 ∧
      T.Hosts false T.aliasName e.baseTypes.length ∧
      (∀ a ∈ T.aliases, ∀ i, a ≠ subAlias T.aliasName i) ∧ Sound s T d := by
  obtain ⟨joins, hjoins, hd⟩ := exists_of_bind_eq_ok hd
  obtain ⟨deletion, hdeletion, hd⟩ := exists_of_bind_eq_ok hd
  obtain rfl := Except.ok.inj hd
  have hbases := Setting.of_mem_baseJoins hjoins
  let T : JoinTree := ⟨(Draft.empty.nextAlias e.tableName).1, e.tableName, [], trivial⟩
  have hgave : (Draft.empty.nextAlias e.tableName).2.supply.Gave (trunk T.aliasName) := by
    have htrunk : trunk T.aliasName = T.aliasName.toList := AliasSupply.trunk_next
    rw [htrunk]
    exact AliasSupply.gave_next hw
  have hstart : Sound s T ((Draft.empty.nextAlias e.tableName).2.addTable
      (.primary T.aliasName e.tableName) e.idDbType) :=
    { tables := rfl
      names := fun a ha => by rwa [List.mem_singleton.1 ha]
      stemmed := AliasSupply.Stemmed.next (fun name hname => absurd rfl hname) hw
      selects := nofun
      conditions := nofun
      groups := nofun
      collections := nofun
      outer := nofun
      bindings := nofun
      complete := nofun
      rooted := nofun }
  have hordered : Join.Ordered T.aliases joins :=
    Setting.ordered_baseJoins hjoins (List.mem_singleton_self _) fun k _ hm =>
      baseAlias_ne _ _ (List.mem_singleton.1 hm)
  have hhosts : (T.append joins hordered).Hosts false T.aliasName e.baseTypes.length :=
    Setting.hosts_baseJoins hjoins List.mem_cons_self (List.subset_append_right _ _)
      fun _ => ⟨rfl, List.mem_cons_self⟩
  refine ⟨T.append joins hordered, rfl, hhosts, fun a ha i he => ?_,
    addImplied (hstart.addBases _ hordered ?_ ?_ ?_) hhosts.houses hdeletion⟩
  · rw [JoinTree.aliases_append] at ha
    rcases List.mem_append.1 ha with ha | ha
    · rw [List.mem_singleton.1 ha] at he
      exact subAlias_ne _ _ he.symm
    · obtain ⟨j, hj, rfl⟩ := List.mem_map.1 ha
      obtain ⟨k, -, hk, -⟩ := hbases j hj
      exact subAlias_ne_baseAlias _ _ _ (he.symm.trans hk)
  · intro j hj
    obtain ⟨k, -, hk, -⟩ := hbases j hj
    rw [hk, trunk_baseAlias]
    exact hgave
  · intro j hj hid hne
    obtain ⟨k, -, -, hk, -⟩ := hbases j hj
    rw [hk] at hne
    exact absurd rfl hne
  · intro j hj _
    obtain ⟨k, -, -, hk, -⟩ := hbases j hj
    rw [hk]
    exact List.mem_cons_self

/-- The tables of subtypes belong to the table of the entity. -/
theorem addSubtypes {subs : List String} {i : Nat} {cases : List DiscriminatorCase}
    (h : Sound s T d) (hnew : ∀ a ∈ T.aliases, ∀ k, i ≤ k → a ≠ subAlias T.aliasName k)
    (hd : addSubtypes s T.aliasName i subs d = .ok (d', cases)) :
    ∃ T', T.Extends T' ∧ Sound s T' d' ∧
      ∀ c ∈ cases, T'.IsPartOf T'.aliasName c.aliasName := by
  induction subs generalizing i T d d' cases with
  | nil =>
    obtain ⟨rfl, rfl⟩ := Prod.mk.inj (Except.ok.inj hd)
    exact ⟨T, .refl, h, nofun⟩
  | cons sub subs ih =>
    obtain ⟨e, -, hd⟩ := exists_of_bind_eq_ok hd
    obtain ⟨⟨d₁, others⟩, hothers, hd⟩ := exists_of_bind_eq_ok hd
    obtain ⟨rfl, rfl⟩ := Prod.mk.inj (Except.ok.inj hd)
    have hprimary : T.aliasName ∈ T.aliases := List.mem_cons_self
    have hordered : Join.Ordered T.aliases [⟨subAlias T.aliasName i, e.tableName, .outer,
        ⟨T.aliasName, "id"⟩, ⟨subAlias T.aliasName i, "id"⟩, some false⟩] :=
      ⟨hprimary, fun hm => hnew _ hm i le_rfl rfl, rfl, trivial⟩
    have hpart : (T.append _ hordered).IsPartOf T.aliasName (subAlias T.aliasName i) :=
      .inr ⟨_, List.mem_append_right _ (List.mem_singleton_self _), rfl, rfl, rfl⟩
    have hadded := (h.addBases e.idDbType hordered (fun j hj => by
      rw [List.mem_singleton.1 hj, trunk_subAlias]
      exact h.names _ hprimary) (fun j hj hid hne => by
      rw [List.mem_singleton.1 hj] at hne
      exact absurd rfl hne) fun j hj hkind => by
      rw [List.mem_singleton.1 hj] at hkind
      cases hkind)
    have hselected := hadded.select [.star (subAlias T.aliasName i)] fun x hx => by
      rw [List.mem_singleton.1 hx]
      exact ⟨rfl, fun a ha => List.mem_singleton.1 ha ▸ hpart⟩
    obtain ⟨T', hext, hsound, hcases⟩ := ih (T := T.append _ hordered) hselected
      (fun a ha k hk he => by
        rw [JoinTree.aliases_append] at ha
        rcases List.mem_append.1 ha with ha | ha
        · exact hnew a ha k (by omega) he
        · rw [List.map_singleton, List.mem_singleton] at ha
          have := subAlias_injective (ha.symm.trans he)
          omega) hothers
    refine ⟨T', JoinTree.extends_append.trans hext, hsound, fun c hc => ?_⟩
    rcases List.mem_cons.1 hc with rfl | hc
    · rw [hext.aliasName]
      exact hext.isPartOf hpart
    · exact hcases c hc

theorem addSelects (h : Sound s T d) (ha : T.Houses T.aliasName e.baseTypes.length)
    (hnew : ∀ a ∈ T.aliases, ∀ i, a ≠ subAlias T.aliasName i)
    (hd : d.addSelects s e T.aliasName = .ok d') : ∃ T', T.Extends T' ∧ Sound s T' d' := by
  obtain ⟨⟨d₁, cases⟩, hcases, hd⟩ := exists_of_bind_eq_ok hd
  obtain rfl := Except.ok.inj hd
  have hbases : ∀ x ∈ (List.range e.baseTypes.length).map fun i =>
      Select.star (baseAlias T.aliasName i), x.plans = [] ∧
        ∀ a ∈ x.aliases, T.IsPartOf T.aliasName a := by
    intro x hx
    obtain ⟨i, hi, rfl⟩ := List.mem_map.1 hx
    exact ⟨rfl, fun a hm => List.mem_singleton.1 hm ▸ ha.isPartOf (List.mem_range.1 hi)⟩
  have hstars := h.select (.star T.aliasName :: (List.range e.baseTypes.length).map fun i =>
      Select.star (baseAlias T.aliasName i)) fun x hx => by
    rcases List.mem_cons.1 hx with rfl | hx
    · exact ⟨rfl, fun a hm => .inl (List.mem_singleton.1 hm)⟩
    · exact hbases x hx
  obtain ⟨T', hext, hsound, hparts⟩ := hstars.addSubtypes (fun a hm k _ => hnew a hm k) hcases
  refine ⟨T', hext, ?_⟩
  show Sound s T' (if _ then _ else _)
  split_ifs
  · exact hsound
  · refine hsound.select _ fun x hx => ?_
    rw [List.mem_singleton.1 hx]
    refine ⟨rfl, fun a hm => ?_⟩
    obtain ⟨c, hc, rfl⟩ := List.mem_map.1 hm
    exact hparts c hc

end Sound

/-! ### The plan of a draft -/

/-- What is true of all conditions and groups that have been gathered, and of the conditions in these
groups, is true of the conditions at the top of the plan. -/
theorem of_conjuncts_group? {cs : Conjuncts} {P : Condition → Prop}
    (hconditions : ∀ c ∈ cs.inlined ++ cs.existences, P c)
    (hmembers : ∀ g ∈ cs.groups, g.op = .and → ∀ c ∈ g.conditions, P c)
    (hgroups : ∀ g ∈ cs.groups, P (.group g)) {p : Plan} (hp : p.condition = cs.group?) : ∀ k ∈ p.topConditions, P k := by
  have hgroup : ∀ g ∈ cs.group?, g ∈ cs.groups ∨ (g.op = .and ∧ ∀ c ∈ g.conditions, P c) := by
    intro g hg
    unfold Conjuncts.group? at hg
    split at hg
    · cases hg
    · next g' _ hsingle =>
      obtain rfl := Option.some.inj hg
      exact .inl (hsingle ▸ List.mem_singleton_self _)
    · next others hsingle _ =>
      obtain rfl := Option.some.inj hg
      refine .inr ⟨rfl, fun c hc => ?_⟩
      rcases List.mem_append.1 hc with hc | hc
      · exact hconditions c hc
      · exact hmembers ⟨.and, others⟩ (hsingle ▸ List.mem_singleton_self _) rfl c hc
    · obtain rfl := Option.some.inj hg
      refine .inr ⟨rfl, fun c hc => ?_⟩
      rcases List.mem_append.1 hc with hc | hc
      · exact hconditions c hc
      · obtain ⟨g', hg', rfl⟩ := List.mem_map.1 hc
        exact hgroups g' hg'
  intro k hk
  unfold Plan.topConditions at hk
  split at hk
  · cases hk
  · next conditions hcondition =>
    rcases hgroup _ (hp.symm.trans hcondition) with hg | ⟨-, hg⟩
    · exact hmembers _ hg rfl k hk
    · exact hg k hk
  · next g hne hcondition =>
    rw [List.mem_singleton.1 hk]
    rcases hgroup _ (hp.symm.trans hcondition) with hg | ⟨hop, -⟩
    · exact hgroups g hg
    · obtain ⟨op, conditions⟩ := g
      obtain rfl : op = .and := hop
      exact absurd rfl (hne conditions)

theorem mem_topConditions_of_inlined {k : Condition} (h : k ∈ d.conjuncts.inlined) :
    k ∈ d.toPlan.topConditions := by
  have hmem : k ∈ d.conjuncts.inlined ++ d.conjuncts.existences := List.mem_append_left _ h
  have hgroup : ∃ cs, d.conjuncts.group? = some (.all cs) ∧ k ∈ cs := by
    unfold Conjuncts.group?
    split
    · next hnone _ =>
      rw [hnone] at hmem
      cases hmem
    · next hnone _ =>
      rw [hnone] at hmem
      cases hmem
    · exact ⟨_, rfl, List.mem_append_left _ hmem⟩
    · exact ⟨_, rfl, List.mem_append_left _ hmem⟩
  obtain ⟨cs, hcs, hk⟩ := hgroup
  show k ∈ Plan.topConditions { d.toPlan with condition := d.conjuncts.group? }
  rwa [hcs]

theorem within_of_mem_topConditions (h : Sound s T d) : ∀ k ∈ d.toPlan.topConditions, k.Within T :=
  of_conjuncts_group? h.conditions (fun g hg _ => h.groups g hg)
    (fun ⟨_, _⟩ hg => Condition.within_group (h.groups _ hg)) rfl

theorem gathered_toPlan (h : Sound s T d) : d.toPlan.Gathered T d.collections where
  tables := h.tables
  collections := h.collections
  flat k hk := (within_of_mem_topConditions h k hk).flat
  reads k hk := (within_of_mem_topConditions h k hk).reads
  single k hk := (within_of_mem_topConditions h k hk).single
  selects := h.selects
  sortKeys := rfl
  groupBys := rfl

end Draft

end EntityQuery
