import EntityQuery.Proofs.Draft.Regular
import EntityQuery.Proofs.Pruning.Apart
import EntityQuery.Proofs.Scoping.Order

/-!
# Orders and the tables that are apart

An order follows foreign keys from the primary table, and tables that are apart are joined by none of
these.  So the order refers to none of them, and the tables that it joins are joined by their ids.

* `Schema.IdsApart`: no foreign key is stored in the column of the ids;
* `Ordering.Clear`: an order that has referred to no table that is apart;
* `OrderBy.clear_resolve`: following an order leaves it so;
* `Plan.Apart.ordered`, `Plan.Rooted.ordered`: plans in a clear order.
-/

namespace EntityQuery

/-- No foreign key is stored in the column of the ids. -/
def Schema.IdsApart (schema : Schema) : Prop :=
  ∀ e ∈ schema.entities, ∀ f ∈ e.fields, ∀ column ∈ f.kind.foreignKey?, column ≠ "id"

/-- The base tables of a table that is not apart are not apart. -/
def BasesClear (L : String → Prop) : Prop :=
  ∀ a : String, '_' ∉ a.toList → ¬ L a → ∀ i, ¬ L (baseAlias a i)

/-- The order has referred to none of the tables `L`, all of which are joined; `ts` are the tables
that were there before it. -/
structure Ordering.Clear (L : String → Prop) (ts : List Table) (o : Ordering) : Prop where
  joined : ∀ a, L a → a ∈ o.tables.map Table.aliasName
  keys : ∀ k ∈ o.sortKeys, ¬ L k.aliasName
  reached : ∀ a ∈ o.reached, ¬ L a
  references : ∀ j, .join j ∈ o.tables → j.parent.column ≠ "id" → ¬ L j.parent.aliasName →
    ¬ L j.aliasName ∧ '_' ∉ j.aliasName.toList
  added : ∀ t ∈ o.tables, t ∈ ts ∨ ∃ j, t = .join j ∧ j.own.column = "id" ∧ ¬ L j.parent.aliasName

section

variable {L : String → Prop} {ts : List Table} {s : Setting} {o o' : Ordering}
  {e target : Entity} {a : String}

theorem BasesClear.columnAlias (h : BasesClear L) (ha : ¬ L a) (hname : '_' ∉ a.toList)
    (site : FieldSite) : ¬ L (site.columnAlias a) := by
  unfold FieldSite.columnAlias
  split
  · exact h a hname ha _
  · exact ha

namespace Ordering

namespace Clear

theorem addKey (h : o.Clear L ts) {column : String} {direction : Direction} (ha : ¬ L a) :
    (o.addKey a column direction).Clear L ts :=
  { h with keys := List.forall_mem_append.2 ⟨h.keys, List.forall_mem_singleton.2 ha⟩ }

theorem addId (h : o.Clear L ts) (ha : ¬ L a) : (o.addId a).Clear L ts := by
  unfold Ordering.addId
  split_ifs
  · exact h
  · exact h.addKey ha

theorem addIds (h : o.Clear L ts) {names : List String} (hnames : ∀ a ∈ names, ¬ L a) :
    (names.foldl Ordering.addId o).Clear L ts := by
  induction names generalizing o with
  | nil => exact h
  | cons a names ih =>
    obtain ⟨ha, hnames⟩ := List.forall_mem_cons.1 hnames
    exact ih (h.addId ha) hnames

theorem leave (h : o.Clear L ts) (ha : ¬ L a) : (o.leave a).Clear L ts :=
  { h with reached := fun b hb => (mem_insertNew.1 hb).elim (h.reached b) fun he => he ▸ ha }

end Clear

theorem exists_joins_reach {parent : ColumnRef} (hr : o.reach s parent target = .ok (a, o')) :
    ∃ js : List Join, o'.tables = o.tables ++ js.map .join := by
  unfold Ordering.reach at hr
  split at hr
  · obtain ⟨-, rfl⟩ := Prod.mk.inj (Except.ok.inj hr)
    exact ⟨[], by simp⟩
  · obtain ⟨bases, -, hr⟩ := exists_of_bind_eq_ok hr
    obtain ⟨-, rfl⟩ := Prod.mk.inj (Except.ok.inj hr)
    exact ⟨_ :: bases, rfl⟩

theorem prefix_reach {parent : ColumnRef} (hr : o.reach s parent target = .ok (a, o')) :
    o.tables <+: o'.tables := by
  obtain ⟨js, hjs⟩ := exists_joins_reach hr
  exact hjs ▸ List.prefix_append _ _

/-- A table that is reached by a foreign key of a table that is not apart is not apart: it was joined
by that key, or it is new. -/
theorem Clear.reach (h : o.Clear L ts) {parent : ColumnRef} (hparent : ¬ L parent.aliasName)
    (hcolumn : parent.column ≠ "id") (hr : o.reach s parent target = .ok (a, o'))
    (hnd : (o'.tables.map Table.aliasName).Nodup) :
    o'.Clear L ts ∧ ¬ L a ∧ '_' ∉ a.toList := by
  unfold Ordering.reach at hr
  split at hr
  · next a' hexisting =>
    obtain ⟨rfl, rfl⟩ := Prod.mk.inj (Except.ok.inj hr)
    obtain ⟨j, hj, rfl, -, -, rfl⟩ := existing?_eq_some hexisting
    exact ⟨h, h.references j hj hcolumn hparent⟩
  · obtain ⟨bases, hbases, hr⟩ := exists_of_bind_eq_ok hr
    obtain ⟨rfl, rfl⟩ := Prod.mk.inj (Except.ok.inj hr)
    let own := (o.supply.next target.tableName).1
    have hbases : s.baseJoins own .outer 0 target.baseTypes = .ok bases := hbases
    have hofBase := Setting.of_mem_baseJoins hbases
    let join : Join := ⟨own, target.tableName, .outer, parent, ⟨own, "id"⟩, none⟩
    -- the tables that are apart are joined already, and names are not given twice
    have hnew : ∀ j ∈ join :: bases, ¬ L j.aliasName := by
      intro j hj hL
      rw [List.map_append, List.nodup_append] at hnd
      exact hnd.2.2 _ (h.joined _ hL) _
        (List.mem_map.2 ⟨.join j, List.mem_map_of_mem (f := Table.join) hj, rfl⟩) rfl
    have hown : ¬ L own := hnew join List.mem_cons_self
    have hmem : ∀ t ∈ o.tables ++ (join :: bases).map Table.join,
        t ∈ o.tables ∨ ∃ j ∈ join :: bases, t = .join j := by
      intro t ht
      refine (List.mem_append.1 ht).imp_right fun ht => ?_
      obtain ⟨j, hj, rfl⟩ := List.mem_map.1 ht
      exact ⟨j, hj, rfl⟩
    refine ⟨{ h with
      joined := fun a ha => ?_
      references := fun j hj hne hclear => ?_
      added := fun t ht => ?_ }, hown, AliasSupply.underscore_not_mem_next⟩
    · rw [List.map_append]
      exact List.mem_append_left _ (h.joined a ha)
    · rcases hmem _ hj with hj | ⟨j', hj', he⟩
      · exact h.references j hj hne hclear
      · obtain rfl := Table.join.inj he
        rcases List.mem_cons.1 hj' with rfl | hj'
        · exact ⟨hown, AliasSupply.underscore_not_mem_next⟩
        · obtain ⟨i, -, -, hparent', -⟩ := hofBase j hj'
          rw [hparent'] at hne
          exact absurd rfl hne
    · rcases hmem t ht with ht | ⟨j, hj, rfl⟩
      · exact h.added t ht
      · refine .inr ⟨j, rfl, ?_⟩
        rcases List.mem_cons.1 hj with rfl | hj
        · exact ⟨rfl, hparent⟩
        · obtain ⟨i, -, -, hparent', -⟩ := hofBase j hj
          rw [Setting.own_of_mem_baseJoins hbases j hj, hparent']
          exact ⟨rfl, hown⟩

end Ordering

/-! ### Orders -/

/-- Tables are joined behind those that are there. -/
theorem OrderBy.exists_joins_resolve {order : OrderBy}
    (ho : OrderBy.resolve s e a order o = .ok o') :
    ∃ js : List Join, o'.tables = o.tables ++ js.map .join := by
  refine OrderBy.resolve_induct (P := fun ts _ => ∃ js : List Join, ts = o.tables ++ js.map .join)
    (fun _ hr h => ?_) ho ⟨[], by simp⟩
  obtain ⟨js, hjs⟩ := h
  obtain ⟨js', hjs'⟩ := Ordering.exists_joins_reach hr
  exact ⟨js ++ js', by rw [hjs', hjs, List.map_append, List.append_assoc]⟩

theorem OrderBy.prefix_resolve {order : OrderBy}
    (ho : OrderBy.resolve s e a order o = .ok o') : o.tables <+: o'.tables := by
  obtain ⟨js, hjs⟩ := OrderBy.exists_joins_resolve ho
  exact hjs ▸ List.prefix_append _ _

theorem OrderEntry.prefix_resolveAll {entries : List OrderEntry}
    (ho : OrderEntry.resolveAll s e a entries o = .ok o') : o.tables <+: o'.tables :=
  OrderEntry.resolveAll_induct (P := fun ts _ => o.tables <+: ts)
    (fun _ hr h => h.trans (Ordering.prefix_reach hr)) ho List.prefix_rfl

theorem Ordering.nodup_of_prefix (h : o.tables <+: o'.tables)
    (hnd : (o'.tables.map Table.aliasName).Nodup) : (o.tables.map Table.aliasName).Nodup :=
  hnd.sublist (h.map _).sublist

mutual

/-- An order on a table that is not apart refers to no table that is apart. -/
theorem OrderBy.clear_resolve (hids : s.schema.IdsApart) (hbases : BasesClear L) :
    ∀ {order : OrderBy} {o o' : Ordering} {e : Entity} {a : String}, e ∈ s.schema.entities →
    OrderBy.resolve s e a order o = .ok o' → (o'.tables.map Table.aliasName).Nodup →
    ¬ L a → '_' ∉ a.toList → o.Clear L ts → o'.Clear L ts
  | .keys _, _, _, _, _, he, ho, hnd, ha, hname, h =>
    OrderEntry.clear_resolveAll hids hbases he ho hnd ha hname h

theorem OrderEntry.clear_resolveAll (hids : s.schema.IdsApart) (hbases : BasesClear L) :
    ∀ {entries : List OrderEntry} {o o' : Ordering} {e : Entity} {a : String},
    e ∈ s.schema.entities → OrderEntry.resolveAll s e a entries o = .ok o' →
    (o'.tables.map Table.aliasName).Nodup → ¬ L a → '_' ∉ a.toList → o.Clear L ts → o'.Clear L ts
  | [], _, _, _, _, _, ho, _, _, _, h => Except.ok.inj ho ▸ h
  | _ :: _, _, _, _, _, he, ho, hnd, ha, hname, h => by
    obtain ⟨o₁, ho₁, ho⟩ := exists_of_bind_eq_ok ho
    have hnd₁ := Ordering.nodup_of_prefix (OrderEntry.prefix_resolveAll ho) hnd
    exact OrderEntry.clear_resolveAll hids hbases he ho hnd ha hname
      (OrderEntry.clear_resolve hids hbases he ho₁ hnd₁ ha hname h)

theorem OrderEntry.clear_resolve (hids : s.schema.IdsApart) (hbases : BasesClear L) :
    ∀ {entry : OrderEntry} {o o' : Ordering} {e : Entity} {a : String}, e ∈ s.schema.entities →
    OrderEntry.resolve s e a entry o = .ok o' → (o'.tables.map Table.aliasName).Nodup →
    ¬ L a → '_' ∉ a.toList → o.Clear L ts → o'.Clear L ts
  | .field _ _, _, _, _, _, _, ho, _, ha, hname, h => by
    obtain ⟨site, -, ho⟩ := exists_of_bind_eq_ok ho
    have hcolumn := hbases.columnAlias ha hname site
    split at ho
    · exact Except.ok.inj ho ▸ h.addKey ha
    · exact Except.ok.inj ho ▸ h.addKey hcolumn
    · exact Except.ok.inj ho ▸ h.addKey hcolumn
    · exact Except.ok.inj ho ▸ h.addKey hcolumn
    · cases ho
  | .through _ _, _, _, _, _, he, ho, hnd, ha, hname, h => by
    obtain ⟨site, hsite, ho⟩ := exists_of_bind_eq_ok ho
    have hdeclares := Setting.declares_of_resolve he hsite
    split at ho
    · next column other needed hkind =>
      obtain ⟨target, htarget, ho⟩ := exists_of_bind_eq_ok ho
      obtain ⟨⟨own, o₁⟩, ho₁, ho⟩ := exists_of_bind_eq_ok ho
      obtain ⟨o₂, ho₂, ho⟩ := exists_of_bind_eq_ok ho
      obtain rfl := Except.ok.inj ho
      have hid : column ≠ "id" := by
        rw [hkind] at hdeclares
        obtain hprimary | ⟨e', he', f, hf, hkind'⟩ := hdeclares
        · cases hprimary
        · exact hids e' he' f hf column (by rw [hkind']; rfl)
      obtain ⟨h₁, hown, hownName⟩ := h.reach (hbases.columnAlias ha hname site) hid ho₁
        (Ordering.nodup_of_prefix (OrderBy.prefix_resolve ho₂) hnd)
      exact (OrderBy.clear_resolve hids hbases (Setting.mem_of_entity htarget) ho₂ hnd hown hownName
        h₁).leave hown
    · cases ho

end

/-! ### Plans in order -/

variable {p : Plan} {order : OrderBy} {supply : AliasSupply} {r : Plan × AliasSupply}
  {rank : String → Nat} {P : Join → Prop} {table : String}

theorem Ordering.tables_addIds {names : List String} :
    (names.foldl Ordering.addId o).tables = o.tables := by
  induction names generalizing o with
  | nil => rfl
  | cons a names ih => exact ih.trans Ordering.tables_addId

/-- An order adds joins and sort keys, which depend on nothing but the tables and sort keys that are
there. -/
theorem Plan.exists_joins_addOrder (h : p.addOrder s e a order supply = .ok r) :
    ∃ (js : List Join) (keys : List SortKey), ∀ q : Plan, q.tables = p.tables →
      q.sortKeys = p.sortKeys → q.addOrder s e a order supply =
        .ok ({ q with tables := p.tables ++ js.map .join, sortKeys := keys }, r.2) := by
  obtain ⟨o, ho, h⟩ := exists_of_bind_eq_ok h
  obtain rfl := Except.ok.inj h
  obtain ⟨js, hjs⟩ := OrderBy.exists_joins_resolve ho
  refine ⟨js, ((o.reached ++ [a]).foldl Ordering.addId o).sortKeys, fun q htables hkeys => ?_⟩
  have hjs : ((o.reached ++ [a]).foldl Ordering.addId o).tables = p.tables ++ js.map .join :=
    Ordering.tables_addIds.trans hjs
  show (order.resolve s e a ⟨q.tables, q.sortKeys, supply, []⟩ >>= _) = _
  rw [htables, hkeys, ho, ← hjs]
  rfl

/-- In any order a plan has its tables in front, its conditions, and an order that is clear. -/
theorem Plan.exists_clear_of_addOrder (hids : s.schema.IdsApart) (hbases : BasesClear L)
    (he : e ∈ s.schema.entities) (hr : p.addOrder s e a order supply = .ok r)
    (hnd : (r.1.tables.map Table.aliasName).Nodup) (ha : ¬ L a) (hname : '_' ∉ a.toList)
    (h : (⟨p.tables, p.sortKeys, supply, []⟩ : Ordering).Clear L p.tables) :
    ∃ o : Ordering, o.Clear L p.tables ∧ p.tables <+: o.tables ∧
      r.1 = { p with tables := o.tables, sortKeys := o.sortKeys } := by
  obtain ⟨o, ho, hr⟩ := exists_of_bind_eq_ok hr
  obtain rfl := Except.ok.inj hr
  have htables : ((o.reached ++ [a]).foldl Ordering.addId o).tables = o.tables :=
    Ordering.tables_addIds
  have hclear := OrderBy.clear_resolve hids hbases he ho (htables ▸ hnd) ha hname h
  refine ⟨_, hclear.addIds (List.forall_mem_append.2 ⟨hclear.reached,
    List.forall_mem_singleton.2 ha⟩), ?_, rfl⟩
  rw [htables]
  exact OrderBy.prefix_resolve ho

/-- Tables that are apart are so in a clear order. -/
theorem Plan.Apart.ordered (h : p.Apart L rank) (ho : o.Clear L p.tables) :
    Apart L rank { p with tables := o.tables, sortKeys := o.sortKeys } :=
  { h with
    sortKeys := ho.keys
    joins := fun j hj hL => by
      rcases ho.added _ hj with hj | ⟨j', hj', -, hclear⟩
      · exact h.joins j hj hL
      · exact absurd hL (Table.join.inj hj' ▸ hclear)
    laterals := fun x fromAlias query hx => by
      rcases ho.added _ hx with hx | ⟨j, hj, -⟩
      · exact h.laterals x fromAlias query hx
      · cases hj }

/-- The tables that a clear order joins are joined by their ids. -/
theorem Plan.Rooted.ordered (h : p.Rooted P a table) (hid : ∀ j, j.own.column = "id" → P j)
    (ho : o.Clear L p.tables) (hfront : p.tables <+: o.tables)
    (hnd : (o.tables.map Table.aliasName).Nodup) :
    Rooted P a table { p with tables := o.tables, sortKeys := o.sortKeys } := by
  obtain ⟨rest, hp, hrest⟩ := h
  obtain ⟨more, hmore⟩ := hfront
  have htables : o.tables = .primary a table :: (rest ++ more) := by
    rw [← hmore, hp, List.cons_append]
  refine ⟨rest ++ more, htables, fun t ht => ?_⟩
  rw [htables, List.map_cons, List.nodup_cons] at hnd
  have hne : t.aliasName ≠ a := fun hta => hnd.1 (List.mem_map.2 ⟨t, ht, hta⟩)
  rcases ho.added t (htables ▸ List.mem_cons_of_mem _ ht) with hold | ⟨j, rfl, hown, -⟩
  · rw [hp] at hold
    rcases List.mem_cons.1 hold with rfl | hold
    · exact absurd rfl hne
    · exact hrest t hold
  · exact ⟨hne, hid j hown⟩

end

end EntityQuery
