import EntityQuery.Proofs.Blank.Find
import EntityQuery.Proofs.Draft.Lookup

/-!
# Rows of an entity

A row of an entity is one of its table together with the rows of its bases that have the same id, if
it meets the conditions that come with the table.  A query without filter selects these rows, whatever
tables of subtypes it joins.

* `Setting.Binds`: a table and those of its bases are bound to a row of the entity;
* `Entity.tableNames`: the names of these tables;
* `Setting.mem_baseJoins_iff`: the joins of the tables of bases;
* `Setting.binds_iff`: a row of the entity as rows that fit its tables;
* `Setting.Binds.exists_row`: the table that a field is in;
* `Draft.selects_empty_iff`: what a query without filter selects.
-/

namespace EntityQuery

/-- The name and those of its bases are bound to a row of the entity: one of its table with those of
its bases of the same id, which meets the conditions that come with the table. -/
structure Setting.Binds (s : Setting) (e : Entity) (a : String) (db : Database) (σ : Assignment) :
    Prop where
  own : ∃ row ∈ db.table e.tableName, σ a = some row
  bases : ∀ i base b, e.baseTypes[i]? = some base → s.entity base = .ok b →
    ∃ row ∈ db.table b.tableName, (σ.value ⟨a, "id"⟩).Equals (row "id") ∧
      σ (baseAlias a i) = some row
  implied : ∀ deletion, s.deletion? e = .ok deletion → ∀ c ∈ e.implied a deletion, c.Holds db σ

/-- The table of the name and those of its bases. -/
def Entity.tableNames (e : Entity) (a : String) : List String :=
  a :: (List.range e.baseTypes.length).map (baseAlias a)

/-- The plan selects some rows that agree with the assignment on the named tables. -/
def Plan.Selects (db : Database) (p : Plan) (names : List String) (σ : Assignment) : Prop :=
  ∃ τ ∈ p.rows db .empty, τ.Agree names σ

/-! ### Tables of bases -/

/-- The join of the table of a base. -/
def Entity.baseJoin (b : Entity) (a : String) (kind : JoinKind) (i : Nat) : Join :=
  ⟨baseAlias a i, b.tableName, kind, ⟨a, "id"⟩, ⟨baseAlias a i, "id"⟩, some false⟩

namespace Setting

variable {s : Setting} {e : Entity} {a : String} {kind : JoinKind} {bases : List String}
  {joins : List Join}

theorem mem_baseJoins_iff {i : Nat} (h : s.baseJoins a kind i bases = .ok joins) {j : Join} :
    j ∈ joins ↔ ∃ k base b, bases[k]? = some base ∧ s.entity base = .ok b ∧
      j = b.baseJoin a kind (i + k) := by
  induction bases generalizing i joins with
  | nil =>
    obtain rfl := Except.ok.inj h
    simp
  | cons base bases ih =>
    obtain ⟨b, hb, h⟩ := exists_of_bind_eq_ok h
    obtain ⟨others, hothers, h⟩ := exists_of_bind_eq_ok h
    obtain rfl := Except.ok.inj h
    rw [List.mem_cons, ih hothers]
    constructor
    · rintro (rfl | ⟨k, base', b', hbase', hb', rfl⟩)
      · exact ⟨0, base, b, rfl, hb, rfl⟩
      · exact ⟨k + 1, base', b', hbase', hb', by rw [Nat.add_right_comm, Nat.add_assoc]⟩
    · rintro ⟨k, base', b', hbase', hb', rfl⟩
      cases k with
      | zero =>
        obtain rfl := Option.some.inj hbase'
        obtain rfl := Except.ok.inj (hb.symm.trans hb')
        exact .inl rfl
      | succ k => exact .inr ⟨k, base', b', hbase', hb', by rw [Nat.add_right_comm, Nat.add_assoc]⟩

theorem mem_tableNames_iff (h : s.baseJoins a kind 0 e.baseTypes = .ok joins) {b : String} :
    b ∈ e.tableNames a ↔ b = a ∨ ∃ j ∈ joins, j.aliasName = b := by
  rw [Entity.tableNames, List.mem_cons]
  refine or_congr_right ⟨fun hb => ?_, ?_⟩
  · obtain ⟨i, hi, rfl⟩ := List.mem_map.1 hb
    obtain ⟨j, hj, hname, -⟩ := exists_of_baseJoins h (Nat.zero_le i)
      (by rw [Nat.zero_add]; exact List.mem_range.1 hi)
    exact ⟨j, hj, hname⟩
  · rintro ⟨j, hj, rfl⟩
    obtain ⟨k, ⟨-, hk⟩, hname, -⟩ := of_mem_baseJoins h j hj
    rw [Nat.zero_add] at hk
    exact List.mem_map.2 ⟨k, List.mem_range.2 hk, hname.symm⟩

variable {db : Database} {σ τ : Assignment}

/-- Tables of bases that are not left out are bound to the rows of the same id. -/
theorem fits_baseJoins_iff (h : s.baseJoins a .inner 0 e.baseTypes = .ok joins) :
    (∀ j ∈ joins, j.Fits db σ) ↔ ∀ i base b, e.baseTypes[i]? = some base → s.entity base = .ok b →
      ∃ row ∈ db.table b.tableName, (σ.value ⟨a, "id"⟩).Equals (row "id") ∧
        σ (baseAlias a i) = some row := by
  have hfits : ∀ (b : Entity) (i : Nat), (b.baseJoin a .inner i).Fits db σ ↔
      ∃ row ∈ db.table b.tableName, (σ.value ⟨a, "id"⟩).Equals (row "id") ∧
        σ (baseAlias a i) = some row := by
    intro b i
    constructor
    · rintro (⟨row, ⟨hrow, heq⟩, hbound⟩ | ⟨hkind, -⟩)
      · exact ⟨row, hrow, heq, hbound⟩
      · cases hkind
    · rintro ⟨row, hrow, heq, hbound⟩
      exact .inl ⟨row, ⟨hrow, heq⟩, hbound⟩
  constructor
  · intro hall i base b hbase hb
    refine (hfits b i).1 (hall _ ((mem_baseJoins_iff h).2 ⟨i, base, b, hbase, hb, ?_⟩))
    rw [Nat.zero_add]
  · intro hall j hj
    obtain ⟨k, base, b, hbase, hb, rfl⟩ := (mem_baseJoins_iff h).1 hj
    rw [Nat.zero_add]
    exact (hfits b k).2 (hall k base b hbase hb)

/-- A row of the entity is bound where its table and those of its bases are bound as their joins ask
for it, and where the conditions hold that come with them. -/
theorem binds_iff (hjoins : s.baseJoins a .inner 0 e.baseTypes = .ok joins)
    {deletion : Option DeletionColumn} (hdeletion : s.deletion? e = .ok deletion) :
    s.Binds e a db σ ↔ (∀ t ∈ Table.primary a e.tableName :: joins.map .join, t.Fits db σ) ∧
      ∀ c ∈ e.implied a deletion, c.Holds db σ := by
  rw [List.forall_mem_cons, List.forall_mem_map]
  constructor
  · intro h
    exact ⟨⟨h.own, (fits_baseJoins_iff hjoins).2 h.bases⟩, h.implied deletion hdeletion⟩
  · rintro ⟨⟨hown, hbases⟩, himplied⟩
    refine ⟨hown, (fits_baseJoins_iff hjoins).1 hbases, fun deletion' hdeletion' => ?_⟩
    exact Except.ok.inj (hdeletion.symm.trans hdeletion') ▸ himplied

/-- Whether a row of the entity is bound is told by its tables. -/
theorem binds_congr (he : e ∈ s.schema.entities) (h : σ.Agree (e.tableNames a) τ)
    (hbinds : s.Binds e a db σ) : s.Binds e a db τ := by
  obtain ⟨joins, hjoins⟩ : ∃ joins, s.baseJoins a .inner 0 e.baseTypes = .ok joins :=
    exists_baseJoins fun base hbase =>
      exists_entity_of_relative he (mem_relatives_of_baseTypes hbase)
  obtain ⟨deletion, hdeletion⟩ := exists_deletion? he
  have hname : ∀ b, b ∈ a :: joins.map (·.aliasName) → σ b = τ b := fun b hb =>
    h b ((mem_tableNames_iff hjoins).2 ((List.mem_cons.1 hb).imp_right List.mem_map.1))
  obtain ⟨hfits, hholds⟩ := (binds_iff hjoins hdeletion).1 hbinds
  refine (binds_iff hjoins hdeletion).2 ⟨?_, fun c hc => ?_⟩
  · rw [List.forall_mem_cons, List.forall_mem_map] at hfits ⊢
    obtain ⟨⟨row, hrow, hbound⟩, hbases⟩ := hfits
    refine ⟨⟨row, hrow, (hname a List.mem_cons_self).symm.trans hbound⟩, fun j hj => ?_⟩
    obtain ⟨-, -, -, hparent, -⟩ := of_mem_baseJoins hjoins j hj
    refine (Join.fits_congr (hname _ (List.mem_cons_of_mem _ (List.mem_map_of_mem hj))) ?_).1
      (hbases j hj)
    rw [hparent]
    exact hname a List.mem_cons_self
  · obtain ⟨k, rfl, -, hk⟩ := Draft.idle_implied hdeletion (housed_baseJoins hjoins) c hc
    refine (Condition.holds_congr rfl fun b hb => ?_).1 (hholds _ hc)
    rw [List.mem_singleton.1 hb]
    exact hname _ hk

end Setting

/-! ### The tables of fields -/

namespace Schema

variable {schema : Schema} {e : Entity} {name : String} {site : FieldSite}

/-- A field that is found on a base is a field of that base. -/
theorem owner_of_resolveOnBases {i : Nat} {bases : List String}
    (h : schema.resolveOnBases e name i bases = .ok site) : ∃ k base,
      site.baseIndex = some (i + k) ∧ bases[k]? = some base ∧ schema.entity base = .ok site.owner := by
  induction bases generalizing i with
  | nil => cases h
  | cons base bases ih =>
    obtain ⟨b, hb, h⟩ := exists_of_bind_eq_ok h
    split at h
    · obtain rfl := Except.ok.inj h
      exact ⟨0, base, rfl, rfl, hb⟩
    · obtain ⟨k, base', hk, hbase', howner⟩ := ih h
      exact ⟨k + 1, base', by rw [hk, Nat.add_right_comm, Nat.add_assoc], hbase', howner⟩

theorem owner_of_resolveWithin {depth i : Nat} (h : schema.resolveWithin depth e name = .ok site)
    (hi : site.baseIndex = some i) :
    ∃ base, e.baseTypes[i]? = some base ∧ schema.entity base = .ok site.owner := by
  unfold resolveWithin at h
  split_ifs at h
  · obtain rfl := Except.ok.inj h
    cases hi
  split at h
  · obtain rfl := Except.ok.inj h
    cases hi
  split at h
  · next bases subs hinheritance =>
    obtain ⟨k, base, hk, hbase, howner⟩ := owner_of_resolveOnBases h
    rw [Nat.zero_add] at hk
    obtain rfl := Option.some.inj (hi.symm.trans hk)
    exact ⟨base, by rw [Entity.baseTypes, hinheritance]; exact hbase, howner⟩
  · cases depth with
    | zero => cases h
    | succ depth =>
      obtain ⟨b, hb, h⟩ := exists_of_bind_eq_ok h
      obtain ⟨site', -, rfl⟩ := exists_of_inSharedTable h
      cases hi
  · cases h

end Schema

/-- Where a row of the entity is bound, the table of a field is bound to one of its rows. -/
theorem Setting.Binds.exists_row {s : Setting} {e : Entity} {a name : String} {db : Database}
    {σ : Assignment} {site : FieldSite} (h : s.Binds e a db σ) (hsite : s.resolve e name = .ok site) :
    ∃ row ∈ db.table (site.table e), σ (site.columnAlias a) = some row := by
  unfold FieldSite.table FieldSite.columnAlias
  cases hi : site.baseIndex with
  | none => exact h.own
  | some i =>
    obtain ⟨base, hbase, howner⟩ := Schema.owner_of_resolveWithin (of_planning_eq_ok hsite) hi
    obtain ⟨row, hrow, -, hbound⟩ := h.bases i base _ hbase (Setting.entity_eq_ok howner)
    exact ⟨row, hrow, hbound⟩

/-! ### Queries without filter -/

namespace Draft

variable {s : Setting} {e : Entity} {a : String} {d : Draft} {db : Database} {σ : Assignment}

/-- The tables of a query without filter: those of the entity and of its bases, and behind them outer
joins of subtypes. -/
theorem tables_ofQuery_empty (hd : Draft.ofQuery s e .empty none = .ok (a, d)) :
    ∃ (joins : List Join) (deletion : Option DeletionColumn) (subs : List Join),
      s.baseJoins a .inner 0 e.baseTypes = .ok joins ∧ s.deletion? e = .ok deletion ∧
      d.tables = (.primary a e.tableName :: joins.map .join) ++ subs.map .join ∧
      (∀ j ∈ subs, j.kind = .outer) ∧ d.conjuncts = ⟨e.implied a deletion, [], []⟩ := by
  obtain ⟨d₁, d₂, d₃, rfl, hprimary, hselects, hmatch, ⟨-, rfl⟩ | ⟨_, hnone, -⟩⟩ := ofQuery_eq_ok hd
  · obtain rfl : d₂ = d := Except.ok.inj hmatch
    obtain ⟨⟨subs, hsubs, houter⟩, hconjuncts⟩ := exists_joins_of_addSelects hselects
    obtain ⟨joins, deletion, hjoins, hdeletion, rfl⟩ := addEntity_eq_ok hprimary
    exact ⟨joins, deletion, subs, hjoins, hdeletion, hsubs, fun j hj => (houter j hj).2.1, hconjuncts⟩
  · cases hnone

/-- A query without filter selects the rows of the entity. -/
theorem selects_empty_iff (he : e ∈ s.schema.entities)
    (hd : Draft.ofQuery s e .empty none = .ok (a, d)) (hp : d.toPlan.Bare) :
    d.toPlan.Selects db (e.tableNames a) σ ↔ s.Binds e a db σ := by
  obtain ⟨joins, deletion, subs, hjoins, hdeletion, htables, houter, hconjuncts⟩ :=
    tables_ofQuery_empty hd
  set front := Table.primary a e.tableName :: joins.map Table.join with hfront
  have htables : d.toPlan.tables = front ++ subs.map .join := htables
  obtain ⟨T, hT⟩ := hp.tables
  have hstaged : Table.Staged (front ++ subs.map .join) := htables ▸ hT ▸ T.staged
  have hnames : ∀ b, b ∈ e.tableNames a ↔ b ∈ front.map Table.aliasName := fun b => by
    rw [Setting.mem_tableNames_iff hjoins, hfront, List.map_cons, List.map_map, List.mem_cons,
      List.mem_map]
    rfl
  constructor
  · rintro ⟨τ, hτ, hagree⟩
    obtain ⟨-, hfits, hholds⟩ := (Plan.mem_rows_iff_fits (htables ▸ hstaged)).1 hτ
    rw [topConditions_toPlan hconjuncts] at hholds
    rw [htables] at hfits
    refine Setting.binds_congr he hagree ((Setting.binds_iff hjoins hdeletion).2 ⟨?_, hholds⟩)
    exact fun t ht => hfits t (List.mem_append_left _ ht)
  · -- the tables of subtypes can be bound behind those of the entity
    intro hbinds
    have hagree : (σ.restrict (e.tableNames a)).Agree (e.tableNames a) σ := fun b hb => if_pos hb
    have hbinds := Setting.binds_congr he (fun b hb => (hagree b hb).symm) hbinds
    have hstart : σ.restrict (e.tableNames a) ∈ Table.bindAll db front [.empty] := by
      refine (Table.mem_bindAll_iff (hstaged.sublist (List.sublist_append_left _ _))).2
        ⟨_, List.mem_singleton_self _, fun b hb => ?_, ((Setting.binds_iff hjoins hdeletion).1 hbinds).1⟩
      rw [← hnames] at hb
      exact if_neg hb
    have hne : Table.bindAll db (subs.map .join) [σ.restrict (e.tableNames a)] ≠ [] :=
      JoinTree.bindAll_ne_nil houter (List.cons_ne_nil _ _)
    obtain ⟨τ, hτ⟩ := List.exists_mem_of_ne_nil _ hne
    have hkept : τ.Agree (e.tableNames a) (σ.restrict (e.tableNames a)) := fun b hb => by
      refine Table.eq_of_mem_bindAll hτ fun hm => ?_
      have hpair := (List.pairwise_append.1 hstaged.pairwise).2.2
      obtain ⟨t, ht, rfl⟩ := List.mem_map.1 ((hnames b).1 hb)
      obtain ⟨t', ht', hname⟩ := List.mem_map.1 hm
      exact (hpair t ht t' ht').1 hname.symm
    refine ⟨τ, Plan.mem_rows_iff.2 ⟨?_, ?_⟩, fun b hb => (hkept b hb).trans (hagree b hb)⟩
    · rw [htables, Table.bindAll_append]
      exact Table.mem_bindAll_iff_exists.2 ⟨_, hstart, hτ⟩
    · rw [topConditions_toPlan hconjuncts]
      have hbinds := Setting.binds_congr he (fun b hb => (hkept b hb).symm) hbinds
      exact ((Setting.binds_iff hjoins hdeletion).1 hbinds).2

end Draft

end EntityQuery
