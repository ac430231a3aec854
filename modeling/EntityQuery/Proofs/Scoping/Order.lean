import EntityQuery.Find.Order
import EntityQuery.Proofs.Draft.Match
import EntityQuery.Proofs.Scoping.Leaves

/-!
# Well-scoped orders

Sort keys read tables that are there, or that are joined for them behind all others.  A table that is
joined already by the same foreign key is there with the tables of its bases, so it serves as well.

* `Ordering.Sound`: the tables and sort keys of a well-scoped order;
* `OrderBy.resolve_induct`: what reaching a table keeps is kept by following an order;
* `OrderBy.grown_resolve`: following an order keeps them so;
* `Plan.scoped_addOrder`: a well-scoped plan in some order.
-/

namespace EntityQuery

/-- The tables are well scoped, sort keys read them, and where one is joined by its id to a foreign
key, an entity of that table is there with the tables of its bases. -/
structure Ordering.Sound (schema : Schema) (o : Ordering) : Prop where
  led : Table.Led o.tables
  behind : Table.ScopedAll [] o.tables
  keys : ∀ k ∈ o.sortKeys, k.aliasName ∈ o.tables.map Table.aliasName
  reached : ∀ a ∈ o.reached, a ∈ o.tables.map Table.aliasName
  primary : ∀ t ∈ o.tables, t.isPrimary = true → o.supply.Gave (trunk t.aliasName)
  complete : ∀ j, .join j ∈ o.tables → j.own.column = "id" → j.parent.column ≠ "id" →
    ∃ e ∈ schema.entities, e.tableName = j.table ∧
      Housed (o.tables.map Table.aliasName) j.aliasName e.baseTypes.length

namespace Ordering

variable {s : Setting} {o o' : Ordering} {e target : Entity} {a : String} {n : Nat}

theorem Sound.addKey (h : o.Sound s.schema) {column : String} {direction : Direction}
    (ha : a ∈ o.tables.map Table.aliasName) : (o.addKey a column direction).Sound s.schema := by
  refine { h with keys := fun k hk => ?_ }
  rcases List.mem_append.1 hk with hk | hk
  · exact h.keys k hk
  · rwa [List.mem_singleton.1 hk]

theorem Sound.addId (h : o.Sound s.schema) (ha : a ∈ o.tables.map Table.aliasName) :
    (o.addId a).Sound s.schema := by
  unfold Ordering.addId
  split_ifs
  · exact h
  · exact h.addKey ha

theorem Sound.leave (h : o.Sound s.schema) (ha : a ∈ o.tables.map Table.aliasName) :
    (o.leave a).Sound s.schema := by
  refine { h with reached := fun b hb => ?_ }
  rcases mem_insertNew.1 hb with hb | rfl
  · exact h.reached b hb
  · exact ha

theorem existing?_eq_some {parent : ColumnRef} (h : o.existing? parent target = some a) :
    ∃ j, .join j ∈ o.tables ∧ j.parent = parent ∧ j.own.column = "id" ∧
      j.table = target.tableName ∧ j.aliasName = a := by
  obtain ⟨j, hfind, rfl⟩ := Option.map_eq_some_iff.1 h
  obtain ⟨t, ht, hjoin⟩ := List.mem_filterMap.1 (List.mem_of_find?_eq_some hfind)
  have hj := List.find?_some hfind
  simp only [Bool.and_eq_true, decide_eq_true_iff] at hj
  obtain ⟨⟨hparent, hown⟩, htable⟩ := hj
  cases t with
  | join j' =>
    obtain rfl := Option.some.inj hjoin
    exact ⟨j', ht, hparent, hown, htable, rfl⟩
  | _ => cases hjoin

/-- Joins behind all tables, under names that the primary table does not have. -/
theorem Sound.addJoins (h : o.Sound s.schema) (js : List Join) {supply : AliasSupply}
    (hscoped : Table.ScopedAll (o.tables.map Table.aliasName) (js.map .join))
    (hnew : ∀ t ∈ o.tables, t.isPrimary = true → ∀ j ∈ js, j.aliasName ≠ t.aliasName)
    (hgave : ∀ name, o.supply.Gave name → supply.Gave name)
    (hcomplete : ∀ j ∈ js, j.own.column = "id" → j.parent.column ≠ "id" →
      ∃ e ∈ s.schema.entities, e.tableName = j.table ∧
        Housed ((o.tables ++ js.map Table.join).map Table.aliasName) j.aliasName e.baseTypes.length) :
    ({ o with supply := supply, tables := o.tables ++ js.map .join } : Ordering).Sound s.schema := by
  have hsub : o.tables.map Table.aliasName ⊆ (o.tables ++ js.map Table.join).map Table.aliasName := by
    rw [List.map_append]
    exact List.subset_append_left _ _
  exact
    { led := Table.led_append h.led fun t ht => by
        obtain ⟨j, hj, rfl⟩ := List.mem_map.1 ht
        exact ⟨rfl, fun x hx hprimary => hnew x hx hprimary j hj⟩
      behind := Table.scopedAll_append.2 ⟨h.behind, by rwa [List.nil_append]⟩
      keys := fun k hk => hsub (h.keys k hk)
      reached := fun a ha => hsub (h.reached a ha)
      primary := fun t ht hprimary => by
        rcases List.mem_append.1 ht with ht | ht
        · exact hgave _ (h.primary t ht hprimary)
        · obtain ⟨j, -, rfl⟩ := List.mem_map.1 ht
          cases hprimary
      complete := fun j hj hown hparent => by
        rcases List.mem_append.1 hj with hj | hj
        · obtain ⟨e, he, htable, hhoused⟩ := h.complete j hj hown hparent
          exact ⟨e, he, htable, hhoused.mono hsub⟩
        · obtain ⟨j', hj', hjoin⟩ := List.mem_map.1 hj
          exact hcomplete j (Table.join.inj hjoin ▸ hj') hown hparent }

/-- The table of a related entity is there with those of its bases, joined now or before. -/
theorem Sound.reach (h : o.Sound s.schema) (hnames : s.schema.WellNamed)
    (htarget : target ∈ s.schema.entities) {parent : ColumnRef}
    (hparent : parent.aliasName ∈ o.tables.map Table.aliasName) (hcolumn : parent.column ≠ "id")
    (hr : o.reach s parent target = .ok (a, o')) :
    o'.Sound s.schema ∧ o.tables <+: o'.tables ∧
      Housed (o'.tables.map Table.aliasName) a target.baseTypes.length := by
  unfold Ordering.reach at hr
  split at hr
  · next a' hexisting =>
    obtain ⟨rfl, rfl⟩ := Prod.mk.inj (Except.ok.inj hr)
    obtain ⟨j, hj, rfl, hown, htable, rfl⟩ := existing?_eq_some hexisting
    obtain ⟨e, he, hname, hhoused⟩ := h.complete j hj hown hcolumn
    refine ⟨h, List.prefix_rfl, hhoused.mem, fun i hi => ?_⟩
    -- entities that share a table have no tables for bases
    have hsame : target = e := hnames.shared target htarget e he (htable.symm.trans hname.symm) (by
      cases hinheritance : target.inheritance with
      | classTable bases subs => rw [Entity.isClassTable, hinheritance]
      | _ =>
        rw [Entity.baseTypes, hinheritance] at hi
        exact absurd hi (Nat.not_lt_zero i))
    exact hhoused.bases i (hsame ▸ hi)
  · obtain ⟨bases, hbases, hr⟩ := exists_of_bind_eq_ok hr
    obtain ⟨rfl, rfl⟩ := Prod.mk.inj (Except.ok.inj hr)
    have hw := hnames.tables target htarget
    let own := (o.supply.next target.tableName).1
    have hbases : s.baseJoins own .outer 0 target.baseTypes = .ok bases := hbases
    have hofBase := Setting.of_mem_baseJoins hbases
    let join : Join := ⟨own, target.tableName, .outer, parent, ⟨own, "id"⟩, none⟩
    have hmem : ∀ j ∈ join :: bases,
        j.aliasName ∈ (o.tables ++ (join :: bases).map Table.join).map Table.aliasName := fun j hj =>
      List.mem_map.2 ⟨.join j, List.mem_append_right _ (List.mem_map_of_mem hj), rfl⟩
    have htrunk : ∀ j ∈ join :: bases, trunk j.aliasName = own.toList := by
      intro j hj
      rw [← AliasSupply.trunk_next]
      rcases List.mem_cons.1 hj with rfl | hj
      · rfl
      · obtain ⟨k, -, hk, -⟩ := hofBase j hj
        rw [hk, trunk_baseAlias]
    have hhoused : Housed ((o.tables ++ (join :: bases).map Table.join).map Table.aliasName) own
        target.baseTypes.length := by
      refine ⟨hmem join List.mem_cons_self, fun i hi => ?_⟩
      obtain ⟨j, hj, hk, -⟩ := Setting.exists_of_baseJoins hbases (Nat.zero_le i) (by omega)
      rw [← hk]
      exact hmem j (List.mem_cons_of_mem _ hj)
    refine ⟨h.addJoins (join :: bases) ⟨hparent, Table.scopedAll_joins fun j hj => ?_⟩
      (fun t ht hprimary j hj he => ?_) (fun _ => AliasSupply.Gave.next)
      (fun j hj hown hne => ?_), List.prefix_append _ _, hhoused⟩
    · obtain ⟨k, -, -, hk, -⟩ := hofBase j hj
      rw [hk]
      exact List.mem_append_right _ (List.mem_singleton_self _)
    · have hgave := h.primary t ht hprimary
      rw [← he, htrunk j hj] at hgave
      exact AliasSupply.not_gave_next hw hgave
    · rcases List.mem_cons.1 hj with rfl | hj
      · exact ⟨target, htarget, rfl, hhoused⟩
      · obtain ⟨k, -, -, hk, -⟩ := hofBase j hj
        rw [hk] at hne
        exact absurd rfl hne

end Ordering

/-! ### Orders -/

section

variable {s : Setting} {P : List Table → AliasSupply → Prop}

mutual

/-- What reaching a table keeps of the tables and the names is kept by following an order. -/
theorem OrderBy.resolve_induct (hP : ∀ {o o' : Ordering} {target : Entity} {parent : ColumnRef}
      {b : String}, target ∈ s.schema.entities → o.reach s parent target = .ok (b, o') →
        P o.tables o.supply → P o'.tables o'.supply) :
    ∀ {order : OrderBy} {o o' : Ordering} {e : Entity} {a : String},
    OrderBy.resolve s e a order o = .ok o' → P o.tables o.supply → P o'.tables o'.supply
  | .keys _, _, _, _, _, ho, h => OrderEntry.resolveAll_induct hP ho h

theorem OrderEntry.resolveAll_induct (hP : ∀ {o o' : Ordering} {target : Entity}
      {parent : ColumnRef} {b : String}, target ∈ s.schema.entities →
        o.reach s parent target = .ok (b, o') → P o.tables o.supply → P o'.tables o'.supply) :
    ∀ {entries : List OrderEntry} {o o' : Ordering} {e : Entity} {a : String},
    OrderEntry.resolveAll s e a entries o = .ok o' → P o.tables o.supply → P o'.tables o'.supply
  | [], _, _, _, _, ho, h => Except.ok.inj ho ▸ h
  | _ :: _, _, _, _, _, ho, h => by
    obtain ⟨o₁, ho₁, ho⟩ := exists_of_bind_eq_ok ho
    exact OrderEntry.resolveAll_induct hP ho (OrderEntry.resolve_induct hP ho₁ h)

theorem OrderEntry.resolve_induct (hP : ∀ {o o' : Ordering} {target : Entity}
      {parent : ColumnRef} {b : String}, target ∈ s.schema.entities →
        o.reach s parent target = .ok (b, o') → P o.tables o.supply → P o'.tables o'.supply) :
    ∀ {entry : OrderEntry} {o o' : Ordering} {e : Entity} {a : String},
    OrderEntry.resolve s e a entry o = .ok o' → P o.tables o.supply → P o'.tables o'.supply
  | .field _ _, _, _, _, _, ho, h => by
    obtain ⟨site, -, ho⟩ := exists_of_bind_eq_ok ho
    split at ho
    case h_5 => cases ho
    -- one more sort key leaves tables and names alone
    all_goals exact Except.ok.inj ho ▸ h
  | .through _ _, _, _, _, _, ho, h => by
    obtain ⟨site, -, ho⟩ := exists_of_bind_eq_ok ho
    split at ho
    · obtain ⟨target, htarget, ho⟩ := exists_of_bind_eq_ok ho
      obtain ⟨⟨own, o₁⟩, ho₁, ho⟩ := exists_of_bind_eq_ok ho
      obtain ⟨o₂, ho₂, ho⟩ := exists_of_bind_eq_ok ho
      obtain rfl := Except.ok.inj ho
      have h₂ : P o₂.tables o₂.supply :=
        OrderBy.resolve_induct hP ho₂ (hP (Setting.mem_of_entity htarget) ho₁ h)
      exact h₂
    · cases ho

end

end

/-- What follows an order is behind what was there, and well scoped. -/
def Ordering.Grown (schema : Schema) (o o' : Ordering) : Prop :=
  o'.Sound schema ∧ o.tables <+: o'.tables

section

variable {s : Setting}

theorem Ordering.subset_of_prefix {o o' : Ordering} (h : o.tables <+: o'.tables) :
    o.tables.map Table.aliasName ⊆ o'.tables.map Table.aliasName :=
  (h.map _).subset

mutual

/-- The sort keys of an order on an entity whose tables are there. -/
theorem OrderBy.grown_resolve (hnames : s.schema.WellNamed) : ∀ {order : OrderBy}
    {o o' : Ordering} {e : Entity} {a : String}, e ∈ s.schema.entities → o.Sound s.schema →
    Housed (o.tables.map Table.aliasName) a e.baseTypes.length →
    OrderBy.resolve s e a order o = .ok o' → o.Grown s.schema o'
  | .keys _, _, _, _, _, he, h, ha, ho => OrderEntry.grown_resolveAll hnames he h ha ho

theorem OrderEntry.grown_resolveAll (hnames : s.schema.WellNamed) :
    ∀ {entries : List OrderEntry} {o o' : Ordering} {e : Entity} {a : String},
    e ∈ s.schema.entities → o.Sound s.schema →
    Housed (o.tables.map Table.aliasName) a e.baseTypes.length →
    OrderEntry.resolveAll s e a entries o = .ok o' → o.Grown s.schema o'
  | [], _, _, _, _, _, h, _, ho => Except.ok.inj ho ▸ ⟨h, List.prefix_rfl⟩
  | _ :: _, _, _, _, _, he, h, ha, ho => by
    obtain ⟨o₁, ho₁, ho⟩ := exists_of_bind_eq_ok ho
    obtain ⟨h₁, hbehind₁⟩ := OrderEntry.grown_resolve hnames he h ha ho₁
    obtain ⟨h', hbehind⟩ := OrderEntry.grown_resolveAll hnames he h₁
      (ha.mono (Ordering.subset_of_prefix hbehind₁)) ho
    exact ⟨h', hbehind₁.trans hbehind⟩

theorem OrderEntry.grown_resolve (hnames : s.schema.WellNamed) : ∀ {entry : OrderEntry}
    {o o' : Ordering} {e : Entity} {a : String}, e ∈ s.schema.entities → o.Sound s.schema →
    Housed (o.tables.map Table.aliasName) a e.baseTypes.length →
    OrderEntry.resolve s e a entry o = .ok o' → o.Grown s.schema o'
  | .field _ _, _, _, _, _, he, h, ha, ho => by
    obtain ⟨site, hsite, ho⟩ := exists_of_bind_eq_ok ho
    have hcolumn := Setting.columnAlias_mem he hsite ha
    split at ho
    · exact Except.ok.inj ho ▸ ⟨h.addKey ha.mem, List.prefix_rfl⟩
    · exact Except.ok.inj ho ▸ ⟨h.addKey hcolumn, List.prefix_rfl⟩
    · exact Except.ok.inj ho ▸ ⟨h.addKey hcolumn, List.prefix_rfl⟩
    · exact Except.ok.inj ho ▸ ⟨h.addKey hcolumn, List.prefix_rfl⟩
    · cases ho
  | .through _ _, _, _, _, _, he, h, ha, ho => by
    obtain ⟨site, hsite, ho⟩ := exists_of_bind_eq_ok ho
    have hcolumn := Setting.columnAlias_mem he hsite ha
    have hdeclares := Setting.declares_of_resolve he hsite
    split at ho
    · next column other needed hkind =>
      obtain ⟨target, htarget, ho⟩ := exists_of_bind_eq_ok ho
      obtain ⟨⟨own, o₁⟩, ho₁, ho⟩ := exists_of_bind_eq_ok ho
      obtain ⟨o₂, ho₂, ho⟩ := exists_of_bind_eq_ok ho
      obtain rfl := Except.ok.inj ho
      have hid : column ≠ "id" := by
        rw [hkind] at hdeclares
        obtain hprimary | ⟨e', he', f, hf, hkind'⟩ := hdeclares
        · cases hprimary
        · exact hnames.references e' he' f hf column (by rw [hkind']; rfl)
      have htarget := Setting.mem_of_entity htarget
      obtain ⟨h₁, hbehind₁, hhoused⟩ := h.reach hnames htarget hcolumn hid ho₁
      obtain ⟨h₂, hbehind₂⟩ := OrderBy.grown_resolve hnames htarget h₁ hhoused ho₂
      exact ⟨h₂.leave (Ordering.subset_of_prefix hbehind₂ hhoused.mem), hbehind₁.trans hbehind₂⟩
    · cases ho

end

theorem Ordering.tables_addId {o : Ordering} {a : String} : (o.addId a).tables = o.tables := by
  unfold Ordering.addId
  split_ifs <;> rfl

theorem Ordering.Sound.addIds {o : Ordering} (h : o.Sound s.schema)
    {names : List String} (hnames : ∀ a ∈ names, a ∈ o.tables.map Table.aliasName) :
    (names.foldl Ordering.addId o).Sound s.schema ∧
      (names.foldl Ordering.addId o).tables = o.tables := by
  induction names generalizing o with
  | nil => exact ⟨h, rfl⟩
  | cons a names ih =>
    have ha := hnames a List.mem_cons_self
    have hsame : (o.addId a).tables = o.tables := Ordering.tables_addId
    obtain ⟨hsound, htables⟩ := ih (h.addId ha) fun b hb => by
      rw [hsame]
      exact hnames b (List.mem_cons_of_mem _ hb)
    exact ⟨hsound, htables.trans hsame⟩

/-! ### Plans in order -/

variable {T : JoinTree} {p : Plan} {supply : AliasSupply}

theorem Plan.Keeps.mem_primary (h : p.Keeps T) : T.aliasName ∈ p.tables.map Table.aliasName := by
  obtain ⟨table, rest, htables⟩ := h.primary
  rw [htables]
  exact List.mem_cons_self

theorem Plan.Keeps.housed (h : p.Keeps T) {a : String} {n : Nat} (ha : T.Houses a n)
    (hmem : a ∈ p.tables.map Table.aliasName) : Housed (p.tables.map Table.aliasName) a n :=
  ⟨hmem, fun _ hi => h.parts a hmem _ (ha.isPartOf hi)⟩

theorem Plan.Keeps.sound_ordering (h : p.Keeps T) (hcomplete : T.Complete s.schema)
    (hp : p.Scoped []) (hgave : supply.Gave (trunk T.aliasName)) :
    (⟨p.tables, p.sortKeys, supply, []⟩ : Ordering).Sound s.schema := by
  obtain ⟨hled, htables, -, -, hsort, -⟩ := Plan.scoped_iff.1 hp
  refine ⟨hled, htables, fun k hk => (hsort k hk).resolve_right (List.not_mem_nil), nofun,
    fun t ht hprimary => ?_, fun j hj hown hparent => ?_⟩
  · obtain ⟨table, rest, he⟩ := h.primary
    have ht : t ∈ .primary T.aliasName table :: rest := he ▸ ht
    rcases List.mem_cons.1 ht with rfl | ht
    · exact hgave
    · have hled : Table.Led (.primary T.aliasName table :: rest) := he ▸ hled
      rw [(hled t ht).1] at hprimary
      cases hprimary
  · obtain ⟨e, he, htable, hhouses⟩ := hcomplete j (h.joins j hj) hown hparent
    exact ⟨e, he, htable, h.housed hhouses (List.mem_map.2 ⟨_, hj, rfl⟩)⟩

/-- The plan is well scoped in any order. -/
theorem Plan.scoped_addOrder (hnames : s.schema.WellNamed) {e : Entity}
    (he : e ∈ s.schema.entities) (hcomplete : T.Complete s.schema)
    (hhouses : T.Houses T.aliasName e.baseTypes.length) (hp : p.Scoped []) (hkeeps : p.Keeps T)
    (hgave : supply.Gave (trunk T.aliasName)) {order : OrderBy} {r : Plan × AliasSupply}
    (hr : p.addOrder s e T.aliasName order supply = .ok r) : r.1.Scoped [] := by
  obtain ⟨o, ho, hr⟩ := exists_of_bind_eq_ok hr
  obtain rfl := Except.ok.inj hr
  have hmem := hkeeps.mem_primary
  obtain ⟨hsound, hbehind⟩ := OrderBy.grown_resolve hnames he
    (hkeeps.sound_ordering hcomplete hp hgave) (hkeeps.housed hhouses hmem) ho
  have hsub : p.tables.map Table.aliasName ⊆ o.tables.map Table.aliasName :=
    (hbehind.map _).subset
  have hids : ∀ a ∈ o.reached ++ [T.aliasName], a ∈ o.tables.map Table.aliasName := fun a ha =>
    (List.mem_append.1 ha).elim (hsound.reached a) fun ha =>
      List.mem_singleton.1 ha ▸ hsub hmem
  obtain ⟨hordered, htables⟩ := hsound.addIds hids
  obtain ⟨-, -, hselects, htop, -, hgroup⟩ := Plan.scoped_iff.1 hp
  refine Plan.scoped_iff.2 ⟨hordered.led, hordered.behind, fun x hx => ?_, fun c hc => ?_,
    fun k hk => .inl (hordered.keys k hk), fun c hc => ?_⟩
  all_goals simp only [htables]
  · exact Select.scoped_congr (fun a _ ha => hsub ha) (hselects x hx)
  · exact Condition.scoped_congr (fun a _ ha => hsub ha) (htop c hc)
  · exact (hgroup c hc).imp_left fun ha => hsub ha

end

end EntityQuery
