import EntityQuery.Proofs.Multiplicity.Rows
import EntityQuery.Proofs.Pruning.Unread
import EntityQuery.Proofs.Scoping.Find
import EntityQuery.Proofs.Sorting.Request

/-!
# Rows in order

An order joins tables by their ids and drops no row where one has no partner.  So each row of the
plan is joined to one row of these tables, or to none of them, and it stays one row; and as their
names are new, nothing that the plan asks for depends on them.

* `AliasSupply.Fresh`: the names that a supply gives are new to a plan;
* `Join.AddedTo`, `OrderBy.exists_added_resolve`: what an order joins;
* `Plan.map_restrict_rows_of_added`: the rows of the tables that were there before;
* `Plan.OrderedAs`: the plan in some order;
* `Plan.orderedAs_addOrder`: sorting leads to such a plan.
-/

namespace EntityQuery

/-- The supply gives the name to one of the tables, now or after it has named others. -/
inductive AliasSupply.Gives (tables : List String) : AliasSupply → String → Prop
  | next {supply : AliasSupply} {table : String} (h : table ∈ tables) :
      Gives tables supply (supply.next table).1
  | later {supply : AliasSupply} {table name : String} (h : table ∈ tables)
      (hname : Gives tables (supply.next table).2 name) : Gives tables supply name

/-- The plan has no table of the name, and neither it nor a plan inside it reads one. -/
structure Plan.New (p : Plan) (a : String) : Prop where
  names : a ∉ p.tables.map Table.aliasName
  references : a ∉ p.references
  implied : p.Everywhere fun q => a ∉ q.implied

/-- The names that the supply gives to tables of the schema are new to the plan, and so are those of
base tables. -/
def AliasSupply.Fresh (supply : AliasSupply) (schema : Schema) (p : Plan) : Prop :=
  ∀ name, supply.Gives (schema.entities.map (·.tableName)) name →
    p.New name ∧ ∀ i, p.New (baseAlias name i)

/-- The join is one of an entity's table by its ids, under a name that is new to the plan; rows
without a partner are not dropped. -/
structure Join.AddedTo (p : Plan) (schema : Schema) (j : Join) : Prop where
  kind : j.kind = .outer
  column : j.own.column = "id"
  table : ∃ e ∈ schema.entities, j.table = e.tableName
  new : p.New j.aliasName

/-- The second plan is the first one in the order on the entity `e` whose table is `a`. -/
structure Plan.OrderedAs (db : Database) (s : Setting) (e : Entity) (a : String) (order : OrderBy)
    (p q : Plan) : Prop where
  /-- The rows of the tables that were there before are combined as they were. -/
  rows : ∀ e₀, (q.rows db e₀).map (·.restrict (p.tables.map Table.aliasName)) =
    (p.rows db e₀).map (·.restrict (p.tables.map Table.aliasName))
  /-- Behind the sort keys come those that are asked for, then the ids of the tables that are reached
  and the id of the table `a`. -/
  sortKeys : ∃ keys reached, order.Asks s q.tables e a keys reached ∧
    q.sortKeys = p.sortKeys ++ keys ++ missingIds (p.sortKeys ++ keys) (reached ++ [a])
  /-- One of the sort keys tells the rows of the primary table apart. -/
  total : ∀ rest, p.tables = .primary a e.tableName :: rest → (∀ t ∈ rest, t.aliasName ≠ a) →
    ∃ k ∈ q.sortKeys, k.aliasName = a ∧ ∀ e₀, ∀ r ∈ q.rows db e₀, ∀ r' ∈ q.rows db e₀, ∀ v : Value,
      v.Equals (r.value ⟨a, k.column⟩) → v.Equals (r'.value ⟨a, k.column⟩) → r a = r' a
  /-- Tables are joined behind those that are there; no foreign key is joined where it was joined
  before, nor twice. -/
  front : p.tables <+: q.tables
  joined : ∀ c table, c.column ≠ "id" → Table.LinkedOnce p.tables q.tables c table
  /-- Nothing else changes. -/
  rest : q = { p with tables := q.tables, sortKeys := q.sortKeys }

section

variable {db : Database} {s : Setting} {schema : Schema} {supply : AliasSupply} {p q : Plan}
  {e target : Entity} {a b table : String} {o o' : Ordering} {order : OrderBy} {js : List Join}
  {j : Join} {ts rest : List Table} {hidden : List String} {e₀ r : Assignment}
  {es es' : List Assignment}

/-! ### New names -/

theorem AliasSupply.Gives.not_gave {tables : List String} (hw : ∀ table ∈ tables, Worded table)
    {name : String} (h : supply.Gives tables name) :
    '_' ∉ name.toList ∧ ¬ supply.Gave name.toList := by
  induction h with
  | next h => exact ⟨underscore_not_mem_next, not_gave_next (hw _ h)⟩
  | later h _ ih => exact ⟨ih.1, fun hgave => ih.2 hgave.next⟩

/-- A supply that has given all names of a plan gives it new ones. -/
theorem AliasSupply.fresh_of_gave (hw : ∀ e ∈ schema.entities, Worded e.tableName)
    (h : ∀ name, ¬ supply.Gave (trunk name) → p.New name) : supply.Fresh schema p := by
  intro name hname
  obtain ⟨hunderscore, hnot⟩ := hname.not_gave (List.forall_mem_map.2 hw)
  rw [← trunk_eq hunderscore] at hnot
  exact ⟨h name hnot, fun i => h _ (by rwa [trunk_baseAlias])⟩

theorem AliasSupply.Fresh.next (h : supply.Fresh schema p) (he : e ∈ schema.entities) :
    (supply.next e.tableName).2.Fresh schema p :=
  fun name hname => h name (.later (List.mem_map_of_mem he) hname)

theorem Plan.spared_of_new (h : ∀ a ∈ hidden, p.New a) : p.Spared hidden :=
  (everywhere_forall fun a ha => (h a ha).implied).imp fun _ hq a hread hm => hq a hm hread

/-! ### What is joined -/

theorem Ordering.exists_added_reach {parent : ColumnRef} (htarget : target ∈ s.schema.entities)
    (hfresh : o.supply.Fresh s.schema p) (h : o.reach s parent target = .ok (a, o')) :
    o'.supply.Fresh s.schema p ∧ ∃ js : List Join, o'.tables = o.tables ++ js.map .join ∧
      ∀ j ∈ js, j.AddedTo p s.schema := by
  rcases reach_cases h with ⟨rfl, -⟩ | ⟨-, ha, bases, hbases, rfl⟩
  · exact ⟨hfresh, [], (List.append_nil _).symm, nofun⟩
  · obtain ⟨hnew, hnewBase⟩ := hfresh a (ha ▸ .next (List.mem_map_of_mem htarget))
    refine ⟨hfresh.next htarget, _, rfl,
      List.forall_mem_cons.2 ⟨⟨rfl, rfl, ⟨target, htarget, rfl⟩, hnew⟩, fun j hj => ?_⟩⟩
    obtain ⟨k, _, base, -, hbase, rfl⟩ := (Setting.mem_baseJoins_iff hbases).1 hj
    exact ⟨rfl, rfl, ⟨base, Setting.mem_of_entity hbase, rfl⟩, hnewBase _⟩

/-- An order joins tables by their ids, under names that are new. -/
theorem OrderBy.exists_added_resolve (hfresh : o.supply.Fresh s.schema p)
    (ho : OrderBy.resolve s e a order o = .ok o') :
    ∃ js : List Join, o'.tables = o.tables ++ js.map .join ∧ ∀ j ∈ js, j.AddedTo p s.schema := by
  refine (OrderBy.resolve_induct (P := fun ts supply => supply.Fresh s.schema p ∧
    ∃ js : List Join, ts = o.tables ++ js.map .join ∧ ∀ j ∈ js, j.AddedTo p s.schema)
    (fun htarget hr h => ?_) ho ⟨hfresh, [], (List.append_nil _).symm, nofun⟩).2
  obtain ⟨hfresh, js, hjs, hadded⟩ := h
  obtain ⟨hfresh', js', hjs', hadded'⟩ := Ordering.exists_added_reach htarget hfresh hr
  exact ⟨hfresh', js ++ js', by rw [hjs', hjs, List.map_append, List.append_assoc],
    List.forall_mem_append.2 ⟨hadded, hadded'⟩⟩

/-! ### Rows -/

theorem Database.IsKey.eq {column : String} (h : db.IsKey table column) {row row' : Row} {v : Value}
    (hrow : row ∈ db.table table) (hrow' : row' ∈ db.table table) (hv : v.Equals (row column))
    (hv' : v.Equals (row' column)) : row = row' := by
  have hmem : row ∈ (db.table table).filter fun row => v.Equals (row column) :=
    List.mem_filter.2 ⟨hrow, decide_eq_true hv⟩
  have hmem' : row' ∈ (db.table table).filter fun row => v.Equals (row column) :=
    List.mem_filter.2 ⟨hrow', decide_eq_true hv'⟩
  obtain ⟨row₁, hone⟩ := List.length_eq_one_iff.1
    (Nat.le_antisymm (h v) (List.length_pos_of_mem hmem))
  rw [hone, List.mem_singleton] at hmem hmem'
  rw [hmem, hmem']

/-- A join by a key that drops no row repeats none. -/
theorem Join.exists_bind_eq (hkind : j.kind = .outer) (hkey : db.IsKey j.table j.own.column)
    (σ : Assignment) : ∃ row, j.bind db σ = [σ.bind j.aliasName row] := by
  have hle := hkey (σ.value j.parent)
  unfold Join.bind
  cases hrows : (db.table j.table).filter fun row =>
    (σ.value j.parent).Equals (row j.own.column) with
  | nil => exact ⟨none, by simp [hkind]⟩
  | cons row others =>
    rw [hrows, List.length_cons] at hle
    obtain rfl := List.length_eq_zero_iff.1 (Nat.le_zero.1 (Nat.le_of_succ_le_succ hle))
    exact ⟨some row, by simp⟩

/-- Such joins bind each assignment once. -/
theorem Table.forall₂_bindAll_joins
    (h : ∀ j ∈ js, j.kind = .outer ∧ db.IsKey j.table j.own.column ∧ j.aliasName ∈ hidden)
    (hes : List.Forall₂ (Assignment.AgreeOff hidden) es' es) :
    List.Forall₂ (Assignment.AgreeOff hidden) (Table.bindAll db (js.map .join) es') es := by
  induction js generalizing es' with
  | nil => exact hes
  | cons j js ih =>
    obtain ⟨⟨hkind, hkey, hmem⟩, hjs⟩ := List.forall_mem_cons.1 h
    have hone : List.Forall₂ (Assignment.AgreeOff hidden) (es'.flatMap (j.bind db))
        (es.flatMap fun σ => [σ]) := forall₂_flatMap (fun σ σ' hσ => by
      obtain ⟨row, hbind⟩ := Join.exists_bind_eq hkind hkey σ
      exact hbind ▸ .cons (hσ.bind_left hmem) .nil) hes
    rw [List.flatMap_singleton'] at hone
    exact ih hjs hone

/-- Tables that are joined by ids under new names leave the rows of the others as they are. -/
theorem Plan.map_restrict_rows_of_added (hkeys : ∀ e ∈ schema.entities, db.IsKey e.tableName "id")
    (hjs : ∀ j ∈ js, j.AddedTo p schema) (htables : q.tables = p.tables ++ js.map .join)
    (hcondition : q.condition = p.condition) :
    (q.rows db e₀).map (·.restrict (p.tables.map Table.aliasName)) =
      (p.rows db e₀).map (·.restrict (p.tables.map Table.aliasName)) := by
  have hnew : ∀ a ∈ js.map (·.aliasName), p.New a := List.forall_mem_map.2 fun j hj => (hjs j hj).new
  have hbound : List.Forall₂ (Assignment.AgreeOff (js.map (·.aliasName)))
      (Table.bindAll db q.tables [e₀]) (Table.bindAll db p.tables [e₀]) := by
    rw [htables, Table.bindAll_append]
    refine Table.forall₂_bindAll_joins (fun j hj => ⟨(hjs j hj).kind, ?_, List.mem_map_of_mem hj⟩)
      (List.forall₂_same.2 fun _ _ => .refl)
    obtain ⟨e, he, htable⟩ := (hjs j hj).table
    rw [htable, (hjs j hj).column]
    exact hkeys e he
  -- the condition does not read the tables that are joined
  have hread : p.Reducible db (js.map (·.aliasName)) [] id :=
    reducible_of_spared (spared_of_new hnew) fun a ha hm => (hnew a hm).references ha
  have hcond : ∀ σ σ', σ.AgreeOff (js.map (·.aliasName)) σ' →
      Group.evalTop db q.condition σ = Group.evalTop db p.condition σ' := fun σ σ' hσ => by
    rw [hcondition]
    simpa only [reduce_id] using hread.evalTop_eq hσ
  have hrows : List.Forall₂ (Assignment.AgreeOff (js.map (·.aliasName))) (q.rows db e₀)
      (p.rows db e₀) := by
    rw [rows_eq_filter, rows_eq_filter]
    exact forall₂_filter (fun σ σ' hσ => by rw [hcond σ σ' hσ]) hbound
  have hequal : List.Forall₂ Eq ((q.rows db e₀).map (·.restrict (p.tables.map Table.aliasName)))
      ((p.rows db e₀).map (·.restrict (p.tables.map Table.aliasName))) := by
    rw [List.forall₂_map_left_iff, List.forall₂_map_right_iff]
    exact hrows.imp fun σ σ' hσ => hσ.restrict fun a ha hm => (hnew a hm).names ha
  rwa [List.forall₂_eq_eq_eq] at hequal

/-! ### Rows of the primary table -/

theorem Table.exists_of_mem_bindAll (h : ∀ t ∈ ts, t.aliasName ≠ a)
    (hr : r ∈ Table.bindAll db ts es) : ∃ σ ∈ es, r a = σ a := by
  induction ts generalizing es with
  | nil => exact ⟨r, hr, rfl⟩
  | cons t ts ih =>
    obtain ⟨ht, hts⟩ := List.forall_mem_cons.1 h
    obtain ⟨σ, hσ, hra⟩ := ih hts hr
    obtain ⟨σ', hσ', hbind⟩ := List.mem_flatMap.1 hσ
    exact ⟨σ', hσ', hra.trans (Table.eq_of_mem_bind ht hbind)⟩

/-- The primary table is bound to one of its rows. -/
theorem Plan.exists_row_of_mem_rows (htables : p.tables = .primary a table :: rest)
    (hrest : ∀ t ∈ rest, t.aliasName ≠ a) (hr : r ∈ p.rows db e₀) :
    ∃ row ∈ db.table table, r a = some row := by
  rw [rows_eq_filter, htables] at hr
  obtain ⟨σ, hσ, hra⟩ := Table.exists_of_mem_bindAll hrest (List.mem_filter.1 hr).1
  obtain ⟨σ', -, hbind⟩ := List.mem_flatMap.1 hσ
  obtain ⟨row, hrow, rfl⟩ := List.mem_map.1 hbind
  exact ⟨row, hrow, by rw [hra, Assignment.bind_self]⟩

/-- Rows of the plan with the same id have the same row of the primary table. -/
theorem Plan.eq_of_primary_id (htables : p.tables = .primary a table :: rest)
    (hrest : ∀ t ∈ rest, t.aliasName ≠ a) (hkey : db.IsKey table "id") {r' : Assignment}
    (hr : r ∈ p.rows db e₀) (hr' : r' ∈ p.rows db e₀) {v : Value}
    (hv : v.Equals (r.value ⟨a, "id"⟩)) (hv' : v.Equals (r'.value ⟨a, "id"⟩)) : r a = r' a := by
  obtain ⟨row, hrow, hra⟩ := exists_row_of_mem_rows htables hrest hr
  obtain ⟨row', hrow', hra'⟩ := exists_row_of_mem_rows htables hrest hr'
  rw [Assignment.value_of_some hra] at hv
  rw [Assignment.value_of_some hra'] at hv'
  rw [hra, hra', hkey.eq hrow hrow' hv hv']

/-- Where its id is a sort key, the rows of the primary table are told apart behind more joins too. -/
theorem Plan.exists_total_key (hjs : ∀ j ∈ js, j.AddedTo p schema)
    (htables : q.tables = p.tables ++ js.map .join) (hid : identifies q.sortKeys a = true)
    (hkey : db.IsKey table "id") (hprimary : p.tables = .primary a table :: rest)
    (hrest : ∀ t ∈ rest, t.aliasName ≠ a) :
    ∃ k ∈ q.sortKeys, k.aliasName = a ∧ ∀ e₀, ∀ r ∈ q.rows db e₀, ∀ r' ∈ q.rows db e₀, ∀ v : Value,
      v.Equals (r.value ⟨a, k.column⟩) → v.Equals (r'.value ⟨a, k.column⟩) → r a = r' a := by
  obtain ⟨k, hk, hka⟩ := List.any_eq_true.1 hid
  simp only [Bool.and_eq_true, decide_eq_true_iff] at hka
  obtain ⟨rfl, hcolumn⟩ := hka
  rw [hprimary, List.cons_append] at htables
  have hbehind : ∀ t ∈ rest ++ js.map .join, t.aliasName ≠ k.aliasName :=
    List.forall_mem_append.2 ⟨hrest, List.forall_mem_map.2 fun j hj heq =>
      (hjs j hj).new.names (by rw [hprimary]; exact List.mem_cons.2 (.inl heq))⟩
  refine ⟨k, hk, rfl, fun e₀ r hr r' hr' v hv hv' => ?_⟩
  rw [hcolumn] at hv hv'
  exact eq_of_primary_id htables hbehind hkey hr hr' hv hv'

/-! ### Plans in order -/

/-- Sorting neither drops nor repeats a row, adds the sort keys that are asked for and the ids behind
them, and joins no table that is there. -/
theorem Plan.orderedAs_addOrder (he : e ∈ s.schema.entities)
    (hkeys : ∀ e ∈ s.schema.entities, db.IsKey e.tableName "id")
    (hfresh : supply.Fresh s.schema p) {r : Plan × AliasSupply}
    (hr : p.addOrder s e a order supply = .ok r) : p.OrderedAs db s e a order r.1 := by
  obtain ⟨o, ho, hr⟩ := exists_of_bind_eq_ok hr
  obtain ⟨js, hjs, hadded⟩ := OrderBy.exists_added_resolve hfresh ho
  obtain ⟨keys, reached, hasks, hgains⟩ := OrderBy.gains_resolve ho List.prefix_rfl
  have htables : r.1.tables = o.tables := by
    rw [← Except.ok.inj hr]
    exact Ordering.tables_addIds
  have hsortKeys : r.1.sortKeys =
      p.sortKeys ++ keys ++ missingIds (p.sortKeys ++ keys) (reached ++ [a]) := by
    rw [← Except.ok.inj hr, ← missingIds_foldl_insertNew, ← hgains.reached, ← hgains.sortKeys]
    exact Ordering.sortKeys_addIds
  have hid : identifies r.1.sortKeys a = true := by
    rw [hsortKeys]
    exact identifies_of_mem (List.mem_append_right _ (List.mem_singleton_self a))
  exact {
    rows := fun e₀ => map_restrict_rows_of_added hkeys hadded (htables.trans hjs)
      (Except.ok.inj hr ▸ rfl)
    sortKeys := ⟨keys, reached, htables ▸ hasks, hsortKeys⟩
    total := fun rest hprimary hrest =>
      exists_total_key hadded (htables.trans hjs) hid (hkeys e he) hprimary hrest
    front := htables ▸ OrderBy.prefix_resolve ho
    joined := fun c table hc => htables ▸ OrderBy.linkedOnce_resolve hc ho
    rest := Except.ok.inj hr ▸ rfl }

end

/-! ### Books by author -/

namespace Bookshelf

/-- Emma with its author. -/
def credited : Plan :=
  ⟨[.star "b"], [.primary "b" "books",
    .join ⟨"a", "authors", .outer, ⟨"b", "author_id"⟩, ⟨"a", "id"⟩, none⟩],
    some (.all [titled "b"]), [], none, none⟩

/-- By the publishers of the authors, the names of the authors and the titles. -/
def byAuthor : OrderBy :=
  .keys [.through "author" (.keys [.through "publisher" (.keys [.field "name" .asc]),
    .field "last_name" .desc]), .field "title" .asc]

theorem fresh_credited : (AliasSupply.ofPlan credited).Fresh library credited := by
  refine AliasSupply.fresh_of_gave (by decide +kernel) fun name hname => ?_
  have hgave : ∀ stem ∈ ["a", "b"], (AliasSupply.ofPlan credited).Gave (trunk stem) :=
    List.forall_mem_cons.2 ⟨⟨"a", 0, ⟨by simp, by simp [AliasSupply.isSmallLetter]⟩,
      by decide +kernel, by decide⟩, List.forall_mem_singleton.2 ⟨"b", 0,
        ⟨by simp, by simp [AliasSupply.isSmallLetter]⟩, by decide +kernel, by decide⟩⟩
  have hnew : ∀ names : List String, names ⊆ ["a", "b"] → name ∉ names := fun _ hsub hm =>
    hname (hgave name (hsub hm))
  exact ⟨hnew _ (by decide), hnew _ (by decide),
    .intro (hnew _ (by decide)) fun q hq => absurd hq List.not_mem_nil⟩

/-- The publishers are joined to the authors that are there, and Emma is found as before. -/
theorem orderedAs_credited : Sample.Library.book ∈ library.entities ∧
    (∀ e ∈ library.entities, database.IsKey e.tableName "id") ∧
    (AliasSupply.ofPlan credited).Fresh library credited ∧
    ∃ r, credited.addOrder ⟨library, .default, false⟩ Sample.Library.book "b" byAuthor
        (.ofPlan credited) = .ok r ∧
      credited.OrderedAs database ⟨library, .default, false⟩ Sample.Library.book "b" byAuthor r.1 := by
  have hbook : Sample.Library.book ∈ library.entities := by decide +kernel
  have hkeys : ∀ e ∈ library.entities, database.IsKey e.tableName "id" := fun _ _ =>
    isKey_database (.inl rfl)
  have hsorted : (credited.addOrder ⟨library, .default, false⟩ Sample.Library.book "b" byAuthor
      (.ofPlan credited)).isOk = true := by
    decide +kernel
  obtain ⟨r, hr⟩ := exists_of_isOk hsorted
  exact ⟨hbook, hkeys, fresh_credited, r, hr,
    Plan.orderedAs_addOrder hbook hkeys fresh_credited hr⟩

/-- The names of publishers and authors come first, the ids last. -/
example : (credited.addOrder ⟨library, .default, false⟩ Sample.Library.book "b" byAuthor
    (.ofPlan credited)).toOption.map (fun r => (r.1.tables.map Table.aliasName, r.1.sortKeys)) =
      some (["b", "a", "p"], [⟨"p", "name", .asc⟩, ⟨"a", "last_name", .desc⟩, ⟨"b", "title", .asc⟩,
        ⟨"p", "id", .asc⟩, ⟨"a", "id", .asc⟩, ⟨"b", "id", .asc⟩]) := by
  decide +kernel

end Bookshelf

end EntityQuery
