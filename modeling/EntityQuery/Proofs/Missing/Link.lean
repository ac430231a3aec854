import EntityQuery.Proofs.Existence.Missing
import EntityQuery.Proofs.Lateral.Column
import EntityQuery.Proofs.Lateral.Tables
import EntityQuery.Proofs.Multiplicity.Rows
import EntityQuery.Schema.Lookup

/-!
# Rows without a related row

A relation links a row to the rows of a table that have its id, or its foreign key, in a column.
There are several ways for a plan to ask that a row is linked to none: the foreign key is null, an
outer-joined table has no row, a subquery has no row, or the count of a lateral query is zero.

* `Link`, `Link.Partner`: what a relation links a row to;
* `Schema.ForeignKey`, `Database.Resolves`: the columns that refer to ids, and what they promise;
* `Plan.Probes`: a subquery that has a row for each linked row, and perhaps more;
* `Tells`: the tables and conditions that ask for no linked row;
* `Tells.exists_iff`: they hold of the assignments that no row is linked to.
-/

namespace EntityQuery

/-- What a relation links a row to: the rows of a table that have the value of the parent's column
in a column of their own. -/
structure Link where
  parent : ColumnRef
  table : String
  column : String

/-- The row is linked to the row that the parent is bound to. -/
def Link.Partner (db : Database) (l : Link) (e : Assignment) (row : Row) : Prop :=
  row ∈ db.table l.table ∧ (e.value l.parent).Equals (row l.column)

/-- The link of a join. -/
def Join.link (j : Join) : Link := ⟨j.parent, j.table, j.own.column⟩

/-- The fragment that stands for the link compares its columns, whatever the linked table is called. -/
def Database.Correlated (db : Database) (l : Link) : Prop :=
  ∀ j : Join, j.link = l → db.Correlates j

/-- The table that the column of a field is in. -/
def FieldSite.table (site : FieldSite) (e : Entity) : String :=
  match site.baseIndex with
  | some _ => site.owner.tableName
  | none => e.tableName

/-- The column of a table refers to the ids of another table; a required one refers to a row
whatever the row that it is in. -/
inductive Schema.ForeignKey (schema : Schema) :
    (table column other : String) → (required : Bool) → Prop
  | field {e target : Entity} {name column other : String} {site : FieldSite} {required : Bool}
      (he : e ∈ schema.entities) (hsite : schema.resolve e name = .ok site)
      (hkind : site.kind = .manyToOne column other required)
      (htarget : schema.entity other = .ok target) :
      schema.ForeignKey (site.table e) column target.tableName required
  | junction {e target : Entity} {name table column otherColumn other ty : String}
      {site : FieldSite} (he : e ∈ schema.entities) (hsite : schema.resolve e name = .ok site)
      (hkind : site.kind = .manyToMany table column otherColumn other ty)
      (htarget : schema.entity other = .ok target) :
      schema.ForeignKey table otherColumn target.tableName true

/-- Every reference leads to a row, and no required one is null. -/
def Database.Resolves (db : Database) (schema : Schema) : Prop :=
  ∀ table column other required, schema.ForeignKey table column other required →
    ∀ row ∈ db.table table, (required = true ∨ row column ≠ .null) →
      ∃ found ∈ db.table other, (row column).Equals (found "id")

/-- A subquery on the table of a link, with outer joins behind it, that asks for nothing but that its
row is linked. -/
structure Plan.Probes (l : Link) (own : String) (query : Plan) : Prop where
  tables : ∃ bs : List Join, query.tables = .primary own l.table :: bs.map .join ∧
    ∀ b ∈ bs, b.kind = .outer ∧ b.parent.aliasName = own
  nodup : (query.tables.map Table.aliasName).Nodup
  outside : l.parent.aliasName ∉ query.tables.map Table.aliasName
  condition : query.topConditions = [.raw (.correlation l.parent ⟨own, l.column⟩)]

/-- The subquery for the linked rows: it asks for nothing but the link. -/
def Link.search (l : Link) (own : String) : Plan :=
  Existence.subquery [.primary own l.table] [.raw (.correlation l.parent ⟨own, l.column⟩)]

/-- The condition that no row of the table is linked. -/
def Link.denial (l : Link) (own : String) : Condition :=
  .existence (l.search own) true [l.parent.aliasName]

/-- Joined tables one of which is asked to have no id: `m` is the linked table `j`, or one that each
linked row refers to.  An inner join leaves nothing, which is right if there always is a linked
row. -/
structure Unmatched (schema : Schema) (holder : String) (l : Link) (j m : Join) (bs : List Join)
    (ks : List Condition) : Prop where
  link : j.link = l
  behind : ∀ b ∈ bs, b.kind = j.kind ∧ b.parent.aliasName ∈ (j :: bs).map (·.aliasName)
  kind : j.kind = .outer ∨ l.column = "id" ∧ schema.ForeignKey holder l.parent.column l.table true
  refers : m = j ∨ m ∈ bs ∧ m.parent.aliasName = j.aliasName ∧ m.own.column = "id" ∧
    schema.ForeignKey l.table m.parent.column m.table true
  missing : ∃ ty, .column (.asked m.aliasName "id" ty .isNull) ∈ ks
  checks : ∀ k ∈ ks, ∃ c, k = .column c ∧ (j.kind = .outer → c.predicate = .isNull) ∧
    (c.pruneable = true ∨ c.column = "id") ∧ c.aliasName ∈ (j :: bs).map (·.aliasName)

/-- Tables and conditions that ask for no linked row, where `holder` is the table of the link's
parent. -/
inductive Tells (schema : Schema) (holder : String) (l : Link) :
    List Table → List Condition → Prop
  /-- The foreign key is null. -/
  | null {c : ColumnCondition} {required : Bool} (hc : l.parent = ⟨c.aliasName, c.column⟩)
      (hp : c.predicate = .isNull) (hid : l.column = "id")
      (hkey : schema.ForeignKey holder l.parent.column l.table required) :
      Tells schema holder l [] [.column c]
  /-- A joined table has no id. -/
  | joined {j m : Join} {bs : List Join} {ks : List Condition}
      (h : Unmatched schema holder l j m bs ks) (hstaged : Table.Staged ((j :: bs).map .join)) :
      Tells schema holder l ((j :: bs).map .join) ks
  /-- A subquery has no row. -/
  | denied {own : String} (hown : own ≠ l.parent.aliasName) : Tells schema holder l [] [l.denial own]
  /-- The count of a lateral query is zero. -/
  | counted {own name fromAlias label : String} {query : Plan} (h : query.Probes l own)
      (hselects : query.selects = [.countIsZero label]) :
      Tells schema holder l [.lateral name fromAlias query]
        [.raw ⟨[name], name ++ "." ++ label, [], false⟩]

section

variable {db : Database} {e e₀ : Assignment} {l : Link} {own : String} {query : Plan}

theorem Link.partner_congr {row : Row} (h : e l.parent.aliasName = e₀ l.parent.aliasName) :
    l.Partner db e row ↔ l.Partner db e₀ row := by
  unfold Partner
  rw [Assignment.value_congr h]

/-- Tables bind no name but their own. -/
theorem Table.eq_of_mem_bindAll {ts : List Table} (h : e ∈ bindAll db ts [e₀]) {a : String}
    (ha : a ∉ ts.map aliasName) : e a = e₀ a := by
  induction ts generalizing e₀ with
  | nil => rw [List.mem_singleton.1 h]
  | cons t ts ih =>
    rw [bindAll, List.flatMap_cons, List.flatMap_nil, List.append_nil] at h
    obtain ⟨e₁, he₁, he⟩ := mem_bindAll_iff_exists.1 h
    rw [List.map_cons, List.mem_cons, not_or] at ha
    rw [ih he ha.2, eq_of_mem_bind (Ne.symm ha.1) he₁]

theorem Link.probes_search (hown : own ≠ l.parent.aliasName) : (l.search own).Probes l own where
  tables := ⟨[], rfl, nofun⟩
  nodup := List.nodup_singleton _
  outside := fun h => hown (List.mem_singleton.1 h).symm
  condition := rfl

/-- The subquery has no row where no row is linked. -/
theorem Plan.Probes.rows_eq_nil_iff (h : query.Probes l own) (hcorr : db.Correlated l) :
    query.rows db e₀ = [] ↔ ∀ row, ¬ l.Partner db e₀ row := by
  obtain ⟨bs, htables, hbs⟩ := h.tables
  have hcorr := hcorr ⟨own, l.table, .outer, l.parent, ⟨own, l.column⟩, none⟩ rfl
  have hout := h.outside
  have hnd := h.nodup
  rw [htables, List.map_cons] at hout hnd
  have hne : l.parent.aliasName ≠ own := fun he => hout (he ▸ List.mem_cons_self)
  have hown : own ∉ (bs.map Table.join).map Table.aliasName := (List.nodup_cons.1 hnd).1
  -- the rows of the subquery are those of its own table that are linked, with any rows behind them
  have rows : ∀ e, e ∈ query.rows db e₀ ↔ ∃ row, l.Partner db e₀ row ∧
      e ∈ Table.bindAll db (bs.map .join) [e₀.bind own (some row)] := by
    intro e
    have hbind : e ∈ Table.bindAll db query.tables [e₀] ↔ ∃ row ∈ db.table l.table,
        e ∈ Table.bindAll db (bs.map .join) [e₀.bind own (some row)] := by
      rw [htables, Table.bindAll, Table.mem_bindAll_iff_exists]
      simp [Table.bind]
    rw [mem_rows_iff, hbind, h.condition, List.forall_mem_singleton,
      Condition.holds_correlation_iff (j := ⟨own, l.table, .outer, l.parent, ⟨own, l.column⟩, none⟩)
        hcorr]
    have bound : ∀ row, e ∈ Table.bindAll db (bs.map .join) [e₀.bind own (some row)] →
        e.value l.parent = e₀.value l.parent ∧ e.value ⟨own, l.column⟩ = row l.column := by
      intro row he
      refine ⟨Assignment.value_congr ?_, Assignment.value_of_some ?_⟩
      · rw [Table.eq_of_mem_bindAll he fun hm => hout (List.mem_cons_of_mem _ hm),
          Assignment.bind_of_ne hne]
      · rw [Table.eq_of_mem_bindAll he hown, Assignment.bind_self]
    constructor
    · rintro ⟨⟨row, hrow, he⟩, heq⟩
      rw [(bound row he).1, (bound row he).2] at heq
      exact ⟨row, ⟨hrow, heq⟩, he⟩
    · rintro ⟨row, ⟨hrow, heq⟩, he⟩
      refine ⟨⟨row, hrow, he⟩, ?_⟩
      rw [(bound row he).1, (bound row he).2]
      exact heq
  rw [List.eq_nil_iff_forall_not_mem]
  constructor
  · intro hnil row hrow
    obtain ⟨e, he⟩ := List.exists_mem_of_ne_nil _ (@JoinTree.bindAll_ne_nil db bs
      (fun b hb => (hbs b hb).1) _ (List.cons_ne_nil (e₀.bind own (some row)) []))
    exact hnil e ((rows e).2 ⟨row, hrow, he⟩)
  · intro hnone e he
    obtain ⟨row, hrow, -⟩ := (rows e).1 he
    exact hnone row hrow

theorem Condition.holds_isNull_iff {c : ColumnCondition} (h : c.predicate = .isNull) :
    (Condition.column c).Holds db e ↔ e.value ⟨c.aliasName, c.column⟩ = .null := by
  unfold Holds
  rw [eval, h]
  cases e.value ⟨c.aliasName, c.column⟩ <;> simp [Predicate.eval, Value.isNull]

/-- The condition that a table has no id, where all of its rows have one. -/
theorem Join.eq_none_of_missing {j : Join} {ty : String} (hids : db.HasIds) (hf : j.Fits db e)
    (h : (Condition.column (.asked j.aliasName "id" ty .isNull)).Holds db e) :
    e j.aliasName = none := by
  rcases hf with ⟨row, hp, hrow⟩ | ⟨-, -, hnone⟩
  · have hid := (Condition.holds_isMissing_iff (a := j.aliasName) (by simp [Condition.isMissing,
      ColumnCondition.asked, Predicate.isNullTest])).1 h
    rw [Assignment.value_of_some hrow] at hid
    exact absurd hid (hids _ row hp.1)
  · exact hnone

/-- A foreign key that is there leads to a linked row. -/
theorem Link.exists_partner {schema : Schema} {holder : String} {required : Bool} {row₀ : Row}
    (hkeys : db.Resolves schema)
    (hkey : schema.ForeignKey holder l.parent.column l.table required) (hid : l.column = "id")
    (hmem : row₀ ∈ db.table holder) (hbound : e₀ l.parent.aliasName = some row₀)
    (hthere : required = true ∨ row₀ l.parent.column ≠ .null) : ∃ row, l.Partner db e₀ row := by
  have hvalue : e₀.value l.parent = row₀ l.parent.column := Assignment.value_of_some hbound
  obtain ⟨row, hr, heq⟩ := hkeys _ _ _ _ hkey row₀ hmem hthere
  exact ⟨row, hr, by rwa [hvalue, hid]⟩

/-- The foreign key is null exactly where no row is linked. -/
theorem Link.holds_isNull_iff {schema : Schema} {holder : String} {required : Bool} {row₀ : Row}
    {c : ColumnCondition} (hc : l.parent = ⟨c.aliasName, c.column⟩) (hp : c.predicate = .isNull)
    (hkeys : db.Resolves schema)
    (hkey : schema.ForeignKey holder l.parent.column l.table required) (hid : l.column = "id")
    (hmem : row₀ ∈ db.table holder) (hbound : e₀ l.parent.aliasName = some row₀) :
    (Condition.column c).Holds db e₀ ↔ ∀ row, ¬ l.Partner db e₀ row := by
  have hvalue : e₀.value l.parent = row₀ l.parent.column := Assignment.value_of_some hbound
  rw [Condition.holds_isNull_iff hp, ← hc, hvalue]
  constructor
  · rintro hnull row ⟨-, heq⟩
    rw [hvalue, hnull] at heq
    exact Value.not_equals_null _ heq
  · intro hnone
    by_contra hthere
    obtain ⟨row, hr⟩ := Link.exists_partner hkeys hkey hid hmem hbound (.inr hthere)
    exact hnone row hr

/-- The count of the linked rows is zero exactly where there are none. -/
theorem Plan.Probes.holds_count_iff {name fromAlias label : String} (h : query.Probes l own)
    (hcorr : db.Correlated l) (hreads : db.ReadsColumns)
    (hselects : query.selects = [.countIsZero label]) :
    (∃ e ∈ Table.bindAll db [Table.lateral name fromAlias query] [e₀],
      (Condition.raw ⟨[name], name ++ "." ++ label, [], false⟩).Holds db e) ↔
        ∀ row, ¬ l.Partner db e₀ row := by
  have hbind : ∀ e, e ∈ Table.bindAll db [Table.lateral name fromAlias query] [e₀] ↔
      e = e₀.bind name (some (query.aggregates db e₀)) := fun e => by
    simp [Table.bindAll, Table.bind]
  have hvalue : (e₀.bind name (some (query.aggregates db e₀))).value ⟨name, label⟩ =
      query.aggregates db e₀ label := Assignment.value_of_some Assignment.bind_self
  simp only [hbind, exists_eq_left]
  rw [← h.rows_eq_nil_iff hcorr, Condition.Holds, Condition.eval, hreads, hvalue, Plan.aggregates_eq,
    hselects]
  cases query.rows db e₀ <;> simp [Select.aggregates, Value.truth?]

end

namespace Unmatched

variable {schema : Schema} {holder : String} {l : Link} {j m : Join} {bs : List Join}
  {ks : List Condition} {db : Database} {e e₀ : Assignment}
  (h : Unmatched schema holder l j m bs ks)

include h

theorem partner_iff {row : Row} : j.Partner db e row ↔ l.Partner db e row := by
  rw [← h.link]
  exact Iff.rfl

/-- Where the joined tables have rows that meet the conditions, no row is linked. -/
theorem not_partner (hids : db.HasIds) (hkeys : db.Resolves schema)
    (hfits : ∀ b ∈ j :: bs, b.Fits db e) (hholds : ∀ k ∈ ks, k.Holds db e) (row : Row) :
    ¬ l.Partner db e row := by
  intro hr
  obtain ⟨ty, hmissing⟩ := h.missing
  have hmnone : e m.aliasName = none := by
    refine Join.eq_none_of_missing hids (hfits m ?_) (hholds _ hmissing)
    rcases h.refers with rfl | ⟨hm, -⟩
    · exact List.mem_cons_self
    · exact List.mem_cons_of_mem _ hm
  rcases hfits j List.mem_cons_self with ⟨row', hp, hjrow⟩ | ⟨-, hnone, -⟩
  · -- the linked row refers to a row of the table that has no id
    rcases h.refers with rfl | ⟨hm, hmparent, hmown, hmkey⟩
    · rw [hmnone] at hjrow
      cases hjrow
    · obtain ⟨row'', hr'', heq⟩ := hkeys _ _ _ _ hmkey row' (h.partner_iff.1 hp).1 (.inl rfl)
      rcases hfits m (List.mem_cons_of_mem _ hm) with ⟨_, _, hrow⟩ | ⟨_, hnone, _⟩
      · rw [hmnone] at hrow
        cases hrow
      · refine hnone row'' ⟨hr'', ?_⟩
        rw [hmown, @Assignment.value_of_some e m.parent row' (hmparent ▸ hjrow)]
        exact heq
  · exact hnone row (h.partner_iff.2 hr)

/-- Where no row is linked, outer joins leave the tables without rows, and that meets the conditions. -/
theorem fits_of_not_partner (houter : j.kind = .outer) (hnone : ∀ row, ¬ l.Partner db e row)
    (hinside : ∀ a ∈ (j :: bs).map (·.aliasName), e a = none) :
    (∀ b ∈ j :: bs, b.Fits db e) ∧ ∀ k ∈ ks, k.Holds db e := by
  refine ⟨fun b hb => ?_, fun k hk => ?_⟩
  · have hbnone : e b.aliasName = none := hinside _ (List.mem_map_of_mem hb)
    rcases List.mem_cons.1 hb with rfl | hb
    · exact .inr ⟨houter, fun row hp => hnone row (h.partner_iff.1 hp), hbnone⟩
    · obtain ⟨hkind, hbparent⟩ := h.behind b hb
      refine .inr ⟨hkind.trans houter, fun row hp => ?_, hbnone⟩
      have hp := hp.2
      rw [Assignment.value_of_none (hinside _ hbparent)] at hp
      exact Value.not_equals_null _ hp
  · obtain ⟨c, rfl, hp, -, hin⟩ := h.checks k hk
    exact Existence.holds_of_isNullCheck (Predicate.isNullTest_iff.2 (hp houter))
      ⟨_, List.mem_singleton_self _, hinside _ hin⟩

end Unmatched

namespace Tells

variable {schema : Schema} {holder : String} {l : Link} {extra : List Table} {ks : List Condition}
  {db : Database} {e₀ : Assignment}

/-- What is asked holds, for some rows of the tables, exactly where no row is linked. -/
theorem exists_iff (h : Tells schema holder l extra ks) (hids : db.HasIds)
    (hkeys : db.Resolves schema) (hcorr : db.Correlated l) (hreads : db.ReadsColumns)
    (hparent : l.parent.aliasName ∉ extra.map Table.aliasName)
    (hrow : ∃ row ∈ db.table holder, e₀ l.parent.aliasName = some row) :
    (∃ e ∈ Table.bindAll db extra [e₀], ∀ k ∈ ks, k.Holds db e) ↔
      ∀ row, ¬ l.Partner db e₀ row := by
  obtain ⟨row₀, hmem, hbound⟩ := hrow
  cases h with
  | null hc hp hid hkey =>
    simp only [Table.bindAll, List.mem_singleton, exists_eq_left, forall_eq]
    exact Link.holds_isNull_iff hc hp hkeys hkey hid hmem hbound
  | @joined j m bs _ h hstaged =>
    have names : ((j :: bs).map Table.join).map Table.aliasName = (j :: bs).map (·.aliasName) := by
      rw [List.map_map]
      rfl
    rw [names] at hparent
    simp only [Table.mem_bindAll_iff hstaged, List.mem_singleton, exists_eq_left, names,
      List.forall_mem_map]
    constructor
    · rintro ⟨e, ⟨hout, hfits⟩, hholds⟩ row hr
      exact h.not_partner hids hkeys hfits hholds row ((Link.partner_congr (hout _ hparent)).2 hr)
    · intro hnone
      have houter : j.kind = .outer := by
        rcases h.kind with hkind | ⟨hid, hkey⟩
        · exact hkind
        · obtain ⟨row, hr⟩ := Link.exists_partner hkeys hkey hid hmem hbound (.inl rfl)
          exact absurd hr (hnone row)
      let e : Assignment := fun a => if a ∈ (j :: bs).map (·.aliasName) then none else e₀ a
      have outside : ∀ a, a ∉ (j :: bs).map (·.aliasName) → e a = e₀ a := fun a ha => if_neg ha
      obtain ⟨hfits, hholds⟩ : (∀ b ∈ j :: bs, b.Fits db e) ∧ ∀ k ∈ ks, k.Holds db e :=
        h.fits_of_not_partner houter
          (fun row hr => hnone row ((Link.partner_congr (outside _ hparent)).1 hr))
          fun a ha => if_pos ha
      exact ⟨e, ⟨outside, hfits⟩, hholds⟩
  | denied hown =>
    simp only [Table.bindAll, List.mem_singleton, exists_eq_left, forall_eq]
    rw [Link.denial, Condition.holds_existence_iff, iff_true_left rfl]
    exact (Link.probes_search hown).rows_eq_nil_iff hcorr
  | counted h hselects =>
    simp only [List.forall_mem_singleton]
    exact h.holds_count_iff hcorr hreads hselects

end Tells

end EntityQuery
