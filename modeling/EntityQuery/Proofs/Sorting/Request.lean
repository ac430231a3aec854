import EntityQuery.Proofs.Missing.Entity
import EntityQuery.Proofs.Multiplicity.Order

/-!
# Sort keys that are asked for

An order asks for sort keys, entry by entry and depth first.  An entry that leads through a relation
asks for those of the table that is joined by its foreign key; whether that table was there before
makes no difference.  The ids that are not among the sort keys follow.

* `Table.links`: the tables that are joined by a foreign key;
* `OrderBy.Asks`: the sort keys that an order asks for and the tables that it reaches;
* `Ordering.reach_cases`: the table of a relation is there, or it is joined;
* `OrderBy.gains_resolve`: an order is resolved to what it asks for;
* `missingIds`, `Ordering.sortKeys_addIds`: the ids behind it;
* `OrderBy.linkedOnce_resolve`: no table is joined where one is there.
-/

namespace EntityQuery

/-- The joins of a table by its ids to a column. -/
def Table.links (ts : List Table) (c : ColumnRef) (table : String) : List Join :=
  (ts.filterMap Table.join?).filter fun j => j.parent = c && j.own.column = "id" && j.table = table

/-- The column that a field is sorted by. -/
def FieldKind.sortColumn? : FieldKind → Option String
  | .primitive column _ => some column
  | .enumeration column _ => some column
  | .manyToOne column _ _ => some column
  | _ => none

mutual

/-- The order on the entity whose table is `a` asks for the sort keys and reaches the tables, as they
are joined among `ts`. -/
inductive OrderBy.Asks (s : Setting) (ts : List Table) :
    Entity → String → OrderBy → List SortKey → List String → Prop
  | keys {e : Entity} {a : String} {entries : List OrderEntry} {keys : List SortKey}
      {reached : List String} (h : OrderEntry.AsksAll s ts e a entries keys reached) :
      OrderBy.Asks s ts e a (.keys entries) keys reached

/-- Entries ask for their sort keys one after the other. -/
inductive OrderEntry.AsksAll (s : Setting) (ts : List Table) :
    Entity → String → List OrderEntry → List SortKey → List String → Prop
  | nil {e : Entity} {a : String} : OrderEntry.AsksAll s ts e a [] [] []
  | cons {e : Entity} {a : String} {entry : OrderEntry} {rest : List OrderEntry}
      {keys keys' : List SortKey} {reached reached' : List String}
      (first : OrderEntry.Asks s ts e a entry keys reached)
      (others : OrderEntry.AsksAll s ts e a rest keys' reached') :
      OrderEntry.AsksAll s ts e a (entry :: rest) (keys ++ keys') (reached ++ reached')

/-- An entry asks for the column of its field, on the table that holds it, or for the sort keys of
the first table that is joined by its foreign key. -/
inductive OrderEntry.Asks (s : Setting) (ts : List Table) :
    Entity → String → OrderEntry → List SortKey → List String → Prop
  | id {e : Entity} {a name : String} {site : FieldSite} {direction : Direction}
      (hsite : s.resolve e name = .ok site) (hkind : site.kind = .primaryKey) :
      OrderEntry.Asks s ts e a (.field name direction) [⟨a, "id", direction⟩] []
  | column {e : Entity} {a name column : String} {site : FieldSite} {direction : Direction}
      (hsite : s.resolve e name = .ok site) (hcolumn : site.kind.sortColumn? = some column) :
      OrderEntry.Asks s ts e a (.field name direction)
        [⟨site.columnAlias a, column, direction⟩] []
  | through {e target : Entity} {a name column other : String} {needed : Bool} {site : FieldSite}
      {nested : OrderBy} {j : Join} {keys : List SortKey} {reached : List String}
      (hsite : s.resolve e name = .ok site) (hkind : site.kind = .manyToOne column other needed)
      (htarget : s.entity other = .ok target)
      (hlink : (Table.links ts ⟨site.columnAlias a, column⟩ target.tableName).head? = some j)
      (h : OrderBy.Asks s ts target j.aliasName nested keys reached) :
      OrderEntry.Asks s ts e a (.through name nested) keys (reached ++ [j.aliasName])

end

/-- The id of the table is a sort key. -/
def identifies (keys : List SortKey) (a : String) : Bool :=
  keys.any fun k => k.aliasName = a && k.column = "id"

/-- The ids of tables as sort keys, each once, but for those that are sort keys already. -/
def missingIds (keys : List SortKey) (names : List String) : List SortKey :=
  ((names.foldl insertNew []).filter fun a => !identifies keys a).map fun a => ⟨a, "id", .asc⟩

/-- One ordering has the sort keys of another one and these behind them, and it has reached these
tables besides. -/
structure Ordering.Gains (o o' : Ordering) (keys : List SortKey) (reached : List String) : Prop where
  sortKeys : o'.sortKeys = o.sortKeys ++ keys
  reached : o'.reached = reached.foldl insertNew o.reached

/-- The table is joined to the column as often as before, or once where it was not. -/
def Table.LinkedOnce (before after : List Table) (c : ColumnRef) (table : String) : Prop :=
  Table.links after c table = Table.links before c table ∨
    Table.links before c table = [] ∧ ∃ j, Table.links after c table = [j]

section

variable {s : Setting} {ts ts' : List Table} {o o₁ o' : Ordering} {e target : Entity}
  {a b table : String} {c parent : ColumnRef} {j : Join} {keys keys' : List SortKey}
  {names reached reached' : List String}

/-! ### Tables joined by a foreign key -/

theorem Table.links_append :
    Table.links (ts ++ ts') c table = Table.links ts c table ++ Table.links ts' c table := by
  rw [links, List.filterMap_append, List.filter_append]
  rfl

theorem Table.links_joins {js : List Join} : Table.links (js.map .join) c table =
    js.filter fun j => j.parent = c && j.own.column = "id" && j.table = table := by
  have hjoins : (js.map Table.join).filterMap Table.join? = js := by
    rw [List.filterMap_map]
    exact List.filterMap_some
  rw [links, hjoins]

/-- The first table joined by a foreign key stays so when tables are joined behind it. -/
theorem Table.head?_links_of_prefix (h : ts <+: ts')
    (hj : (Table.links ts c table).head? = some j) : (Table.links ts' c table).head? = some j := by
  obtain ⟨more, rfl⟩ := h
  rw [links_append, List.head?_append, hj, Option.some_or]

theorem Ordering.existing?_eq : o.existing? parent target =
    (Table.links o.tables parent target.tableName).head?.map (·.aliasName) := by
  rw [Ordering.existing?, Table.links, List.head?_filter]

namespace Ordering

theorem Gains.refl : o.Gains o [] [] := ⟨(List.append_nil _).symm, rfl⟩

theorem Gains.trans (h : o.Gains o₁ keys reached) (h' : o₁.Gains o' keys' reached') :
    o.Gains o' (keys ++ keys') (reached ++ reached') :=
  ⟨by rw [h'.sortKeys, h.sortKeys, List.append_assoc],
    by rw [h'.reached, h.reached, List.foldl_append]⟩

theorem Gains.leave (h : o.Gains o' keys reached) :
    o.Gains (o'.leave a) keys (reached ++ [a]) := by
  refine ⟨h.sortKeys, ?_⟩
  rw [List.foldl_append, ← h.reached]
  rfl

theorem gains_addKey {column : String} {direction : Direction} :
    o.Gains (o.addKey a column direction) [⟨a, column, direction⟩] [] := ⟨rfl, rfl⟩

/-- The table of a relation is joined already, or it is joined with those of its bases. -/
theorem reach_cases (h : o.reach s parent target = .ok (a, o')) :
    (o' = o ∧ ∃ j, (Table.links o.tables parent target.tableName).head? = some j ∧
      j.aliasName = a) ∨
    (Table.links o.tables parent target.tableName = [] ∧ a = (o.supply.next target.tableName).1 ∧
      ∃ bases, s.baseJoins a .outer 0 target.baseTypes = .ok bases ∧
        o' = { o with
          supply := (o.supply.next target.tableName).2
          tables := o.tables ++ (⟨a, target.tableName, .outer, parent, ⟨a, "id"⟩, none⟩ ::
            bases : List Join).map .join }) := by
  unfold Ordering.reach at h
  rw [existing?_eq] at h
  split at h
  · next hexisting =>
    obtain ⟨rfl, rfl⟩ := Prod.mk.inj (Except.ok.inj h)
    exact .inl ⟨rfl, Option.map_eq_some_iff.1 hexisting⟩
  · next hnone =>
    obtain ⟨bases, hbases, h⟩ := exists_of_bind_eq_ok h
    obtain ⟨rfl, rfl⟩ := Prod.mk.inj (Except.ok.inj h)
    exact .inr ⟨List.head?_eq_none_iff.1 (Option.map_eq_none_iff.1 hnone), rfl, bases, hbases, rfl⟩

/-- Reaching a table leaves the sort keys alone, and its join is the first one of that foreign key. -/
theorem link_of_reach (h : o.reach s parent target = .ok (a, o')) :
    (∃ j, (Table.links o'.tables parent target.tableName).head? = some j ∧ j.aliasName = a) ∧
      o.Gains o' [] [] := by
  rcases reach_cases h with ⟨rfl, hlink⟩ | ⟨hnone, -, bases, -, rfl⟩
  · exact ⟨hlink, .refl⟩
  · refine ⟨⟨⟨a, target.tableName, .outer, parent, ⟨a, "id"⟩, none⟩, ?_, rfl⟩,
      (List.append_nil _).symm, rfl⟩
    rw [Table.links_append, hnone, List.nil_append, Table.links_joins,
      List.filter_cons_of_pos (by simp), List.head?_cons]

end Ordering

mutual

/-- The sort keys of an order are those that it asks for. -/
theorem OrderBy.gains_resolve : ∀ {order : OrderBy} {o o' : Ordering} {e : Entity} {a : String},
    OrderBy.resolve s e a order o = .ok o' → o'.tables <+: ts →
    ∃ keys reached, OrderBy.Asks s ts e a order keys reached ∧ o.Gains o' keys reached
  | .keys _, _, _, _, _, ho, hts =>
    have ⟨keys, reached, hasks, hgains⟩ := OrderEntry.gains_resolveAll ho hts
    ⟨keys, reached, .keys hasks, hgains⟩

theorem OrderEntry.gains_resolveAll : ∀ {entries : List OrderEntry} {o o' : Ordering} {e : Entity}
    {a : String}, OrderEntry.resolveAll s e a entries o = .ok o' → o'.tables <+: ts →
    ∃ keys reached, OrderEntry.AsksAll s ts e a entries keys reached ∧ o.Gains o' keys reached
  | [], _, _, _, _, ho, _ => ⟨[], [], .nil, Except.ok.inj ho ▸ .refl⟩
  | _ :: _, _, _, _, _, ho, hts => by
    obtain ⟨o₁, ho₁, ho⟩ := exists_of_bind_eq_ok ho
    obtain ⟨keys, reached, hfirst, hgains⟩ :=
      OrderEntry.gains_resolve ho₁ ((OrderEntry.prefix_resolveAll ho).trans hts)
    obtain ⟨keys', reached', hothers, hgains'⟩ := OrderEntry.gains_resolveAll ho hts
    exact ⟨_, _, .cons hfirst hothers, hgains.trans hgains'⟩

theorem OrderEntry.gains_resolve : ∀ {entry : OrderEntry} {o o' : Ordering} {e : Entity}
    {a : String}, OrderEntry.resolve s e a entry o = .ok o' → o'.tables <+: ts →
    ∃ keys reached, OrderEntry.Asks s ts e a entry keys reached ∧ o.Gains o' keys reached
  | .field _ _, _, _, _, _, ho, _ => by
    obtain ⟨site, hsite, ho⟩ := exists_of_bind_eq_ok ho
    split at ho
    case h_1 hkind => exact ⟨_, _, .id hsite hkind, Except.ok.inj ho ▸ Ordering.gains_addKey⟩
    case h_5 => cases ho
    all_goals
      next hkind =>
        exact ⟨_, _, .column hsite (by rw [hkind]; rfl), Except.ok.inj ho ▸ Ordering.gains_addKey⟩
  | .through _ _, _, _, _, _, ho, hts => by
    obtain ⟨site, hsite, ho⟩ := exists_of_bind_eq_ok ho
    split at ho
    · next hkind =>
      obtain ⟨target, htarget, ho⟩ := exists_of_bind_eq_ok ho
      obtain ⟨⟨own, o₁⟩, ho₁, ho⟩ := exists_of_bind_eq_ok ho
      obtain ⟨o₂, ho₂, ho⟩ := exists_of_bind_eq_ok ho
      obtain rfl := Except.ok.inj ho
      obtain ⟨⟨j, hlink, rfl⟩, hsame⟩ := Ordering.link_of_reach ho₁
      obtain ⟨keys, reached, hasks, hgains⟩ := OrderBy.gains_resolve ho₂ hts
      have hfirst := Table.head?_links_of_prefix ((OrderBy.prefix_resolve ho₂).trans hts) hlink
      exact ⟨_, _, .through hsite hkind htarget hfirst hasks, (hsame.trans hgains).leave⟩
    · cases ho

end

/-! ### Ids -/

theorem identifies_append :
    identifies (keys ++ keys') a = (identifies keys a || identifies keys' a) := List.any_append

theorem identifies_missingIds_iff :
    identifies (missingIds keys names) a = true ↔ a ∈ names ∧ identifies keys a = false := by
  simp [identifies, missingIds, mem_foldl_insertNew]

/-- The tables whose ids are missing have them among the sort keys in the end. -/
theorem identifies_of_mem (ha : a ∈ names) :
    identifies (keys ++ missingIds keys names) a = true := by
  rw [identifies_append, Bool.or_eq_true, identifies_missingIds_iff]
  cases h : identifies keys a with
  | true => exact .inl rfl
  | false => exact .inr ⟨ha, rfl⟩

theorem missingIds_concat (hnew : identifies (keys ++ missingIds keys names) a = false) :
    missingIds keys (names ++ [a]) = missingIds keys names ++ [⟨a, "id", .asc⟩] := by
  have ha : a ∉ names := fun ha => by
    rw [identifies_of_mem ha] at hnew
    cases hnew
  have hfound : a ∉ names.foldl insertNew [] := fun hm =>
    ha ((mem_foldl_insertNew.1 hm).resolve_left List.not_mem_nil)
  rw [identifies_append, Bool.or_eq_false_iff] at hnew
  rw [missingIds, List.foldl_append, List.foldl_cons, List.foldl_nil, insertNew, if_neg hfound,
    List.filter_append, List.map_append, List.filter_cons_of_pos (by rw [hnew.1]; rfl)]
  rfl

theorem missingIds_concat_of_identifies (hthere : identifies (keys ++ missingIds keys names) a = true) :
    missingIds keys (names ++ [a]) = missingIds keys names := by
  rw [identifies_append, Bool.or_eq_true, identifies_missingIds_iff] at hthere
  rw [missingIds, List.foldl_append, List.foldl_cons, List.foldl_nil, insertNew]
  split_ifs with hfound
  · rfl
  · have hkeys : identifies keys a = true := hthere.resolve_right fun h =>
      hfound (mem_foldl_insertNew.2 (.inr h.1))
    rw [List.filter_append, List.filter_cons_of_neg (by rw [hkeys]; decide), List.filter_nil,
      List.append_nil]
    rfl

/-- Behind the sort keys come the ids that are not among them. -/
theorem Ordering.sortKeys_addIds : (names.foldl Ordering.addId o).sortKeys =
    o.sortKeys ++ missingIds o.sortKeys names := by
  induction names using List.reverseRecOn with
  | nil => exact (List.append_nil _).symm
  | append_singleton names a ih =>
    rw [List.foldl_append, List.foldl_cons, List.foldl_nil, Ordering.addId]
    show (if identifies _ a = true then _ else _ : Ordering).sortKeys = _
    rw [ih]
    split_ifs with hthere
    · rw [ih, missingIds_concat_of_identifies hthere]
    · rw [missingIds_concat (Bool.eq_false_of_not_eq_true hthere), ← List.append_assoc, ← ih]
      rfl

/-- It makes no difference how often a table has been reached. -/
theorem missingIds_foldl_insertNew :
    missingIds keys (names.foldl insertNew [] ++ [a]) = missingIds keys (names ++ [a]) := by
  have honce : (names.foldl insertNew []).foldl insertNew [] = names.foldl insertNew [] :=
    foldl_insertNew_of_nodup (nodup_foldl_insertNew List.nodup_nil)
  rw [missingIds, missingIds, List.foldl_append, List.foldl_append, honce]

/-! ### Tables joined once -/

/-- A foreign key is followed to the table that is joined by it, if there is one. -/
theorem Table.LinkedOnce.reach (h : Table.LinkedOnce ts o.tables c table) (hc : c.column ≠ "id")
    (hr : o.reach s parent target = .ok (a, o')) : Table.LinkedOnce ts o'.tables c table := by
  rcases Ordering.reach_cases hr with ⟨rfl, -⟩ | ⟨hnone, -, bases, hbases, rfl⟩
  · exact h
  · have hbase : (bases.filter fun j =>
        j.parent = c && j.own.column = "id" && j.table = table) = [] := by
      refine List.filter_eq_nil_iff.2 fun j hj => ?_
      obtain ⟨-, -, -, hparent, -⟩ := Setting.of_mem_baseJoins hbases j hj
      have hne : j.parent ≠ c := fun heq => hc (by rw [← heq, hparent])
      simp [hne]
    rw [LinkedOnce, links_append, links_joins, List.filter_cons, hbase]
    split_ifs with hjoin
    · -- the new join is one of this foreign key, of which there was none
      simp only [Bool.and_eq_true, decide_eq_true_iff] at hjoin
      obtain ⟨⟨rfl, -⟩, rfl⟩ := hjoin
      rw [LinkedOnce, hnone] at h
      rcases h with h | ⟨-, j, h⟩
      · exact .inr ⟨h.symm, _, by rw [hnone, List.nil_append]⟩
      · cases h
    · rwa [List.append_nil]

/-- Each foreign key is joined at most once, and not where it was joined before. -/
theorem OrderBy.linkedOnce_resolve {order : OrderBy} (hc : c.column ≠ "id")
    (ho : OrderBy.resolve s e a order o = .ok o') :
    Table.LinkedOnce o.tables o'.tables c table :=
  OrderBy.resolve_induct (P := fun ts _ => Table.LinkedOnce o.tables ts c table)
    (fun _ hr h => h.reach hc hr) ho (.inl rfl)

end

end EntityQuery
