import EntityQuery.Proofs.Draft.Sound

/-!
# Filters and drafts

Matching a filter adds tables and conditions to a draft and keeps it sound.  A relation is followed
to a table under a new name, joined to a table that is there.

* `Schema.Spelled`, `Schema.WellNamed`: schemas whose tables can be told apart by their names;
* `Draft.Grown`: a draft over an extension of a tree;
* `Draft.grown_matchField`: one entry of a filter;
* `EntityFilter.grown_match`: a filter;
* `Draft.sound_ofQuery`: the draft of a query.
-/

namespace EntityQuery

/-- The junction table of a relation. -/
def FieldKind.junction? : FieldKind → Option String
  | .manyToMany table _ _ _ _ => some table
  | _ => none

/-- The foreign key of a relation. -/
def FieldKind.foreignKey? : FieldKind → Option String
  | .manyToOne column _ _ => some column
  | _ => none

/-- The entity has a table of its own beside those of its bases and subtypes. -/
def Entity.isClassTable (e : Entity) : Bool :=
  match e.inheritance with
  | .classTable _ _ => true
  | _ => false

/-- The words of the names of tables and junctions start with letters. -/
structure Schema.Spelled (schema : Schema) : Prop where
  tables : ∀ e ∈ schema.entities, Worded e.tableName
  junctions : ∀ e ∈ schema.entities, ∀ f ∈ e.fields, ∀ table ∈ f.kind.junction?, Worded table

/-- The words of table names start with letters, foreign keys are no ids, and no two entities share a
table when one of them has tables for its bases. -/
structure Schema.WellNamed (schema : Schema) : Prop where
  tables : ∀ e ∈ schema.entities, Worded e.tableName
  junctions : ∀ e ∈ schema.entities, ∀ f ∈ e.fields, ∀ table ∈ f.kind.junction?, Worded table
  references : ∀ e ∈ schema.entities, ∀ f ∈ e.fields, ∀ column ∈ f.kind.foreignKey?, column ≠ "id"
  shared : ∀ e ∈ schema.entities, ∀ e' ∈ schema.entities, e.tableName = e'.tableName →
    e.isClassTable = true → e = e'

theorem Schema.WellNamed.spelled {schema : Schema} (h : schema.WellNamed) : schema.Spelled :=
  ⟨h.tables, h.junctions⟩

/-- The draft is one over a tree that extends the given one. -/
def Draft.Grown (s : Setting) (T : JoinTree) (d : Draft) : Prop :=
  ∃ T', T.Extends T' ∧ d.Sound s T'

/-- Matching the nested filter on a table of an entity keeps drafts sound. -/
def NestedFilter.Sound (s : Setting) (f : NestedFilter) : Prop :=
  ∀ {T : JoinTree} {d d' : Draft} {e : Entity} {a : String} {outer : Bool},
    e ∈ s.schema.entities → d.Sound s T → T.Hosts outer a e.baseTypes.length →
      f.matchOn e a outer d = .ok d' → d'.Grown s T

/-- What is asked keeps drafts sound. -/
def Asked.Sound (s : Setting) : Asked → Prop
  | .predicates _ => True
  | .nested f => f.Sound s

namespace Draft

variable {s : Setting} {T T' : JoinTree} {d d' : Draft} {e target : Entity} {a table : String}

theorem Grown.of_extends (h : d.Grown s T') (hext : T.Extends T') : d.Grown s T := by
  obtain ⟨T'', hext', hd⟩ := h
  exact ⟨T'', hext.trans hext', hd⟩

/-- Which joins are collections makes no difference to the tables of an entity. -/
theorem addEntity_addCollection {j : Join} {t : Table} :
    (d.addCollection j).addEntity s e t = (d.addEntity s e t).map (·.addCollection j) := by
  have hbases : ∀ joins, ((d.addCollection j).addTable t e.idDbType).addBases e.idDbType joins =
      ((d.addTable t e.idDbType).addBases e.idDbType joins).addCollection j := fun joins => by
    rw [addBases_eq, addBases_eq]
    rfl
  have himplied : ∀ (d₁ : Draft) a deletion, ((d₁.addCollection j).addDeletion a
      deletion).addDiscriminator a e =
        ((d₁.addDeletion a deletion).addDiscriminator a e).addCollection j := by
    intro d₁ a deletion
    have hdeletion : (d₁.addCollection j).addDeletion a deletion =
        (d₁.addDeletion a deletion).addCollection j := by
      unfold addDeletion
      split <;> rfl
    rw [hdeletion]
    unfold addDiscriminator
    split <;> rfl
  simp only [addEntity, hbases, himplied]
  generalize s.baseJoins _ _ _ _ = joins
  cases joins with
  | error err => rfl
  | ok joins =>
    generalize s.deletion? e = deletion
    cases deletion with
    | error err => rfl
    | ok deletion => rfl

namespace Sound

theorem grown (h : d.Sound s T) : d.Grown s T := ⟨T, .refl, h⟩

/-! ### Conditions -/

theorem addColumns {α : Type} {f : α → ColumnCondition} (hf : ∀ x, (f x).aliasName ∈ T.aliases)
    (h : d.Sound s T) (xs : List α) : (xs.foldl (fun d x => d.addColumn (f x)) d).Sound s T := by
  induction xs generalizing d with
  | nil => exact h
  | cons x xs ih => exact ih (h.addColumn (hf x))

theorem addGroups {α : Type} {f : α → Group} (hf : ∀ x, ∀ c ∈ (f x).conditions, c.Within T)
    (h : d.Sound s T) (xs : List α) : (xs.foldl (fun d x => d.addGroup (f x)) d).Sound s T := by
  induction xs generalizing d with
  | nil => exact h
  | cons x xs ih => exact ih (h.addGroup (hf x))

theorem addIds (h : d.Sound s T) {column : String} (ha : a ∈ T.aliases) {ps : List Predicate}
    (hd : addIds s target a column ps d = .ok d') : d'.Sound s T := by
  induction ps generalizing d with
  | nil => exact Except.ok.inj hd ▸ h
  | cons p ps ih =>
    obtain ⟨parsed, -, hd⟩ := exists_of_bind_eq_ok hd
    exact ih (h.addColumn ha) hd

theorem addJunctionIds (h : d.Sound s T) {idDbType column : String} (ha : a ∈ T.aliases)
    {ps : List Predicate} (hd : addJunctionIds s target a idDbType column ps d = .ok d') :
    d'.Sound s T := by
  induction ps generalizing d with
  | nil => exact Except.ok.inj hd ▸ h
  | cons p ps ih =>
    unfold Draft.addJunctionIds at hd
    split at hd
    · exact absurd ‹_ :: _ = []› (List.cons_ne_nil _ _)
    · next hp =>
      obtain ⟨rfl, rfl⟩ := List.cons_eq_cons.1 hp
      exact ih (h.addColumn ha) hd
    · next hp =>
      obtain ⟨rfl, rfl⟩ := List.cons_eq_cons.1 hp
      exact ih (h.addColumn ha) hd
    · next hp =>
      obtain ⟨rfl, rfl⟩ := List.cons_eq_cons.1 hp
      obtain ⟨d₁, hd₁, hd⟩ := exists_of_bind_eq_ok hd
      exact ih (h.addIds ha hd₁) hd

/-- All columns of a polymorphic reference are on one table. -/
theorem addPolymorphic (h : d.Sound s T) {field : String} {components : List Component}
    (ha : a ∈ T.aliases) {p : Predicate} (hd : d.addPolymorphic s a field components p = .ok d') :
    d'.Sound s T := by
  have hcolumn : ∀ (t : Target) (q : Predicate), (Condition.column (t.condition a q)).Within T :=
    fun _ _ => Condition.within_column ha
  have hcolumns : ∀ (targets : List Target) (q : Predicate),
      ∀ c ∈ Target.conditions targets a q, c.Within T := by
    intro targets q c hc
    obtain ⟨t, -, rfl⟩ := List.mem_map.1 hc
    exact hcolumn t q
  have hpair : ∀ (t : Target) (q q' : Predicate),
      ∀ c ∈ [Condition.column (t.condition a q), .column (t.condition a q')], c.Within T := by
    intro t q q' c hc
    rcases List.mem_pair.1 hc with rfl | rfl
    · exact hcolumn t q
    · exact hcolumn t q'
  obtain ⟨targets, -, hd⟩ := exists_of_bind_eq_ok hd
  split at hd
  · exact Except.ok.inj hd ▸ h.addColumns (fun _ => ha) targets
  · exact Except.ok.inj hd ▸ h.addGroup (hcolumns targets _)
  · obtain ⟨⟨_, t, id⟩, -, hd⟩ := exists_of_bind_eq_ok hd
    exact Except.ok.inj hd ▸ h.addColumn ha
  · obtain ⟨⟨_, t, id⟩, -, hd⟩ := exists_of_bind_eq_ok hd
    exact Except.ok.inj hd ▸ h.addGroup (hpair t _ _)
  · obtain ⟨groups, -, hd⟩ := exists_of_bind_eq_ok hd
    refine Except.ok.inj hd ▸ h.addGroup fun c hc => ?_
    rcases List.mem_append.1 hc with hc | hc
    · split_ifs at hc
      · rw [List.mem_singleton.1 hc]
        exact Condition.within_group (hcolumns targets _)
      · cases hc
    · obtain ⟨r, -, rfl⟩ := List.mem_map.1 hc
      exact hcolumn r.1 _
  · obtain ⟨groups, -, hd⟩ := exists_of_bind_eq_ok hd
    obtain rfl := Except.ok.inj hd
    refine addGroups (f := fun r : Target × List Value => .any
      [.column (r.1.condition a .isNull), .column (r.1.condition a (.notIn r.2))])
      (fun r => hpair r.1 _ _) ?_ groups
    split_ifs
    · exact h.addGroup (hcolumns targets _)
    · exact h
  · cases hd

theorem addPolymorphics (h : d.Sound s T) {field : String} {components : List Component}
    (ha : a ∈ T.aliases) {ps : List Predicate}
    (hd : ps.foldlM (fun d p => d.addPolymorphic s a field components p) d = .ok d') :
    d'.Sound s T := by
  induction ps generalizing d with
  | nil => exact Except.ok.inj hd ▸ h
  | cons p ps ih =>
    obtain ⟨d₁, hd₁, hd⟩ := exists_of_bind_eq_ok hd
    exact ih (h.addPolymorphic ha hd₁) hd

/-! ### Relations -/

theorem nextAlias_ne (h : d.Sound s T) (hw : Worded table) :
    ∀ b ∈ T.aliases, trunk b ≠ trunk (d.nextAlias table).1 := by
  intro b hb he
  have hgave := h.names b hb
  have htrunk : trunk (d.nextAlias table).1 = (d.nextAlias table).1.toList :=
    AliasSupply.trunk_next
  rw [he, htrunk] at hgave
  exact AliasSupply.not_gave_next hw hgave

theorem gave_nextAlias (hw : Worded table) :
    (d.nextAlias table).2.supply.Gave (trunk (d.nextAlias table).1) := by
  have htrunk : trunk (d.nextAlias table).1 = (d.nextAlias table).1.toList :=
    AliasSupply.trunk_next
  rw [htrunk]
  exact AliasSupply.gave_next hw

/-- The table of an entity, joined under the next name. -/
theorem joinNext (h : d.Sound s T) (hnames : s.schema.Spelled) (he : e ∈ s.schema.entities)
    {j : Join} (hname : j.aliasName = (d.nextAlias e.tableName).1) (htable : j.table = e.tableName)
    (hown : j.own.aliasName = j.aliasName) (hparent : j.parent.aliasName ∈ T.aliases)
    (hrooted : j.kind = .inner → j.parent.aliasName ∈ T.required)
    (hd : (d.nextAlias e.tableName).2.addEntity s e (.join j) = .ok d') :
    ∃ T', T.Extends T' ∧ j ∈ T'.joins ∧
      T'.Hosts (j.kind = .outer) j.aliasName e.baseTypes.length ∧ d'.Sound s T' := by
  have hw := hnames.tables e he
  refine (h.nextAlias hw).addEntity he htable hown hparent ?_ ?_ hrooted hd
  · rw [hname]
    exact h.nextAlias_ne hw
  · rw [hname]
    exact gave_nextAlias hw

theorem joinTarget (h : d.Sound s T) (hnames : s.schema.Spelled)
    (htarget : target ∈ s.schema.entities) {parent : ColumnRef} {kind : JoinKind}
    {f : NestedFilter} (hf : f.Sound s) (hparent : parent.aliasName ∈ T.aliases)
    (hrooted : kind = .inner → parent.aliasName ∈ T.required)
    (hd : d.joinTarget s target parent kind f = .ok d') : d'.Grown s T := by
  obtain ⟨d₁, hd₁, hd⟩ := exists_of_bind_eq_ok hd
  obtain ⟨T', hext, -, hhosts, hsound⟩ := h.joinNext hnames htarget rfl rfl rfl hparent hrooted hd₁
  exact (hf htarget hsound hhosts hd).of_extends hext

theorem matchManyToOne (h : d.Sound s T) (hnames : s.schema.Spelled)
    (htarget : target ∈ s.schema.entities) {parent : ColumnRef} {needed outer : Bool}
    {asked : Asked} (hasked : asked.Sound s) (hparent : parent.aliasName ∈ T.aliases)
    (hrequired : outer = false → parent.aliasName ∈ T.required)
    (hd : d.matchManyToOne s target parent needed outer asked = .ok d') : d'.Grown s T := by
  cases asked with
  | predicates ps => exact (h.addIds hparent hd).grown
  | nested f =>
    obtain ⟨needsJoin, -, hd⟩ := exists_of_bind_eq_ok hd
    cases needsJoin with
    | true =>
      refine h.joinTarget hnames htarget hasked hparent (fun hkind => hrequired ?_) hd
      split_ifs at hkind with hinner
      rw [Bool.and_eq_true, Bool.not_eq_true'] at hinner
      exact hinner.2
    | false => exact (h.addIds hparent hd).grown

theorem matchReferrer (h : d.Sound s T) (hnames : s.schema.Spelled)
    (htarget : target ∈ s.schema.entities) {otherColumn : String} {collection : Bool}
    {asked : Asked} (hasked : asked.Sound s) (ha : a ∈ T.aliases)
    (hd : d.matchReferrer s target a otherColumn collection asked = .ok d') : d'.Grown s T := by
  obtain ⟨d₁, hd₁, hd⟩ := exists_of_bind_eq_ok hd
  have hjoined : ∃ T', T.Extends T' ∧
      T'.Houses (d.nextAlias target.tableName).1 target.baseTypes.length ∧ d₁.Sound s T' := by
    split_ifs at hd₁
    · rw [addEntity_addCollection] at hd₁
      obtain ⟨d₂, hd₂, rfl⟩ := exists_of_map_eq_ok hd₁
      obtain ⟨T', hext, hmem, hhosts, hsound⟩ := h.joinNext hnames htarget rfl rfl rfl ha
        (by simp) hd₂
      exact ⟨T', hext, hhosts.houses, hsound.addCollection hmem rfl rfl⟩
    · obtain ⟨T', hext, -, hhosts, hsound⟩ := h.joinNext hnames htarget rfl rfl rfl ha
        (by simp) hd₁
      exact ⟨T', hext, hhosts.houses, hsound⟩
  obtain ⟨T', hext, hhouses, hsound⟩ := hjoined
  cases asked with
  | predicates ps => exact ((hsound.addIds hhouses.mem hd).grown).of_extends hext
  | nested f => exact (hasked htarget hsound hhouses.hosts hd).of_extends hext

theorem matchManyToMany (h : d.Sound s T) (hnames : s.schema.Spelled)
    (htarget : target ∈ s.schema.entities) (hw : Worded table)
    {column otherColumn idDbType : String} {asked : Asked} (hasked : asked.Sound s)
    (ha : a ∈ T.aliases)
    (hd : d.matchManyToMany s target a table column otherColumn idDbType asked = .ok d') :
    d'.Grown s T := by
  let j : Join := ⟨(d.nextAlias table).1, table, .outer, ⟨a, "id"⟩,
    ⟨(d.nextAlias table).1, column⟩, none⟩
  have hordered : Join.Ordered T.aliases [j] :=
    ⟨ha, fun hm => h.nextAlias_ne hw _ hm rfl, rfl, trivial⟩
  have hmem : j ∈ (T.append [j] hordered).joins :=
    List.mem_append_right _ (List.mem_singleton_self j)
  have hadded := (h.nextAlias hw).addBases idDbType hordered
    (fun j' hj' => List.mem_singleton.1 hj' ▸ gave_nextAlias hw)
    (fun j' hj' hid hne => absurd rfl (List.mem_singleton.1 hj' ▸ hne))
    fun j' hj' hkind => by
      rw [List.mem_singleton.1 hj'] at hkind
      cases hkind
  have hsound := hadded.addCollection hmem rfl rfl
  have hown := JoinTree.aliasName_mem hmem
  have hext : T.Extends (T.append [j] hordered) := JoinTree.extends_append
  refine Grown.of_extends ?_ hext
  cases asked with
  | predicates ps => exact (hsound.addJunctionIds hown hd).grown
  | nested f =>
    obtain ⟨needsJoin, -, hd⟩ := exists_of_bind_eq_ok hd
    split_ifs at hd
    · exact hsound.joinTarget hnames htarget hasked hown (by simp) hd
    · exact (hsound.addJunctionIds hown hd).grown

end Sound

/-- The conditions of one entry. -/
theorem Sound.matchField (h : d.Sound s T) (hnames : s.schema.Spelled)
    (he : e ∈ s.schema.entities) {outer : Bool} (hhosts : T.Hosts outer a e.baseTypes.length)
    {name : String} {asked : Asked} (hd : d.matchField s e a outer name asked = .ok d')
    (hasked : asked.Sound s) : d'.Grown s T := by
  obtain ⟨site, hsite, hd⟩ := exists_of_bind_eq_ok hd
  have ha := hhosts.houses
  have hcolumn : site.columnAlias a ∈ T.aliases := Setting.columnAlias_mem he hsite ha.housed
  have hdeclares := Setting.declares_of_resolve he hsite
  split at hd
  · obtain ⟨ps, -, hd⟩ := exists_of_bind_eq_ok hd
    exact (h.addIds ha.mem hd).grown
  · obtain ⟨ps, -, hd⟩ := exists_of_bind_eq_ok hd
    exact Except.ok.inj hd ▸ (h.addColumns (fun _ => hcolumn) ps).grown
  · obtain ⟨ps, -, hd⟩ := exists_of_bind_eq_ok hd
    exact Except.ok.inj hd ▸ (h.addColumns (fun _ => hcolumn) ps).grown
  · obtain ⟨target, htarget, hd⟩ := exists_of_bind_eq_ok hd
    exact h.matchManyToOne hnames (Setting.mem_of_entity htarget) hasked hcolumn
      (fun ho => Setting.columnAlias_mem he hsite (hhosts.required ho)) hd
  · obtain ⟨target, htarget, hd⟩ := exists_of_bind_eq_ok hd
    exact h.matchReferrer hnames (Setting.mem_of_entity htarget) hasked ha.mem hd
  · obtain ⟨target, htarget, hd⟩ := exists_of_bind_eq_ok hd
    exact h.matchReferrer hnames (Setting.mem_of_entity htarget) hasked ha.mem hd
  · next table column otherColumn other idDbType hkind =>
    obtain ⟨target, htarget, hd⟩ := exists_of_bind_eq_ok hd
    rw [hkind] at hdeclares
    obtain hprimary | ⟨e', he', f, hf, hkind'⟩ := hdeclares
    · cases hprimary
    · exact h.matchManyToMany hnames (Setting.mem_of_entity htarget)
        (hnames.junctions e' he' f hf table (by rw [hkind']; rfl)) hasked ha.mem hd
  · obtain ⟨ps, -, hd⟩ := exists_of_bind_eq_ok hd
    exact (h.addPolymorphics hcolumn hd).grown

/-! ### Conditions over user aliases -/

theorem Sound.houses_of_binding (h : d.Sound s T) {name : String} {b : Binding}
    (hb : d.binding name = .ok b) :
    b.entity ∈ s.schema.entities ∧ T.Houses b.aliasName b.entity.baseTypes.length := by
  unfold Draft.binding at hb
  split at hb
  · next hfind => exact Except.ok.inj hb ▸ h.bindings _ (List.mem_of_find?_eq_some hfind)
  · cases hb

theorem Sound.resolveColumn_mem (h : d.Sound s T) {name field : String} {p : Predicate}
    {c : ColumnCondition} (hc : d.resolveColumn s name field p = .ok c) :
    c.aliasName ∈ T.aliases := by
  obtain ⟨b, hb, hc⟩ := exists_of_bind_eq_ok hc
  obtain ⟨site, hsite, hc⟩ := exists_of_bind_eq_ok hc
  obtain ⟨he, hhouses⟩ := h.houses_of_binding hb
  have hcolumn := Setting.columnAlias_mem he hsite hhouses.housed
  split at hc
  · obtain ⟨parsed, -, hc⟩ := exists_of_bind_eq_ok hc
    exact Except.ok.inj hc ▸ hhouses.mem
  · exact Except.ok.inj hc ▸ hcolumn
  · exact Except.ok.inj hc ▸ hcolumn
  · obtain ⟨target, -, hc⟩ := exists_of_bind_eq_ok hc
    obtain ⟨parsed, -, hc⟩ := exists_of_bind_eq_ok hc
    exact Except.ok.inj hc ▸ hcolumn
  · cases hc

theorem Sound.replaceNames_mem (h : d.Sound s T) {names : List String} {sql : String}
    {r : String × List String} (hr : d.replaceNames names sql = .ok r) :
    ∀ a ∈ r.2, a ∈ T.aliases := by
  induction names generalizing sql r with
  | nil =>
    obtain rfl := Except.ok.inj hr
    exact nofun
  | cons name names ih =>
    obtain ⟨b, hb, hr⟩ := exists_of_bind_eq_ok hr
    obtain ⟨⟨rest, aliases⟩, haliases, hr⟩ := exists_of_bind_eq_ok hr
    obtain rfl := Except.ok.inj hr
    intro a ha
    rcases List.mem_cons.1 ha with rfl | ha
    · exact (h.houses_of_binding hb).2.mem
    · exact ih haliases a ha

theorem Sound.within_resolveRaw (h : d.Sound s T) {names : List String} {sql : String}
    {bindings : List Value} {r : RawCondition} (hr : d.resolveRaw names sql bindings = .ok r) :
    (Condition.raw r).Within T := by
  obtain ⟨⟨text, aliases⟩, haliases, hr⟩ := exists_of_bind_eq_ok hr
  obtain rfl := Except.ok.inj hr
  exact ⟨rfl, h.replaceNames_mem haliases, nofun⟩

end Draft

/-- What leaves of expressions stand for has the property, and so have groups of such. -/
structure Resolver.Ensures (r : Resolver) (P : Condition → Prop) : Prop where
  column : ∀ {name field p c}, r.column name field p = .ok c → P c.split
  raw : ∀ {names sql bindings c}, r.raw names sql bindings = .ok c → P (.raw c)
  group : ∀ {op cs}, (∀ c ∈ cs, P c) → P (.group ⟨op, cs⟩)

section

variable {P : Condition → Prop} {r : Resolver}

theorem Branches.of_group? {b : Branches} {op : Connective} {mode : UndefinedMode}
    {g : Group} (hb : ∀ c ∈ b.conditions, P c) (hg : b.group? op mode = some g) :
    ∀ c ∈ g.conditions, P c := by
  unfold group? at hg
  split at hg
  · cases hg
  · cases hg
  · exact Option.some.inj hg ▸ hb

mutual

/-- The conditions that an expression stands for have the property. -/
theorem ExpressionLiteral.of_resolve (hr : r.Ensures P) : ∀ {l : ExpressionLiteral}
    {g : Option Group}, l.resolve r = .ok g → ∀ g' ∈ g, ∀ c ∈ g'.conditions, P c
  | ⟨_, _, _⟩, _, h => by
    obtain ⟨b, hb, h⟩ := exists_of_map_eq_ok h
    subst h
    exact fun g' hg' => Branches.of_group? (ConditionLiteral.of_resolveAll hr hb) hg'

theorem ConditionLiteral.of_resolveAll (hr : r.Ensures P) : ∀ {ls : List ConditionLiteral}
    {b : Branches}, ConditionLiteral.resolveAll r ls = .ok b → ∀ c ∈ b.conditions, P c
  | [], _, h => by
    obtain rfl := Except.ok.inj h
    exact nofun
  | _ :: _, _, h => by
    obtain ⟨c, hc, h⟩ := exists_of_bind_eq_ok h
    obtain ⟨bs, hbs, h⟩ := exists_of_bind_eq_ok h
    obtain rfl := Except.ok.inj h
    have hrest := ConditionLiteral.of_resolveAll hr hbs
    cases c with
    | none => exact hrest
    | some c =>
      intro k hk
      rcases List.mem_cons.1 hk with rfl | hk
      · exact ConditionLiteral.of_resolve hr hc _ rfl
      · exact hrest k hk

theorem ConditionLiteral.of_resolve (hr : r.Ensures P) : ∀ {l : ConditionLiteral}
    {c : Option Condition}, ConditionLiteral.resolve r l = .ok c → ∀ k ∈ c, P k
  | .undefined, _, h => by
    obtain rfl := Except.ok.inj h
    exact nofun
  | .column _ _ _, _, h => by
    obtain ⟨c, hc, h⟩ := exists_of_bind_eq_ok h
    obtain rfl := Except.ok.inj h
    exact fun k hk => Option.some.inj hk ▸ hr.column hc
  | .raw _ _ _, _, h => by
    obtain ⟨c, hc, h⟩ := exists_of_bind_eq_ok h
    obtain rfl := Except.ok.inj h
    exact fun k hk => Option.some.inj hk ▸ hr.raw hc
  | .group _, _, h => by
    obtain ⟨g, hg, h⟩ := exists_of_bind_eq_ok h
    obtain rfl := Except.ok.inj h
    intro k hk
    obtain ⟨⟨op, cs⟩, hg', rfl⟩ := Option.map_eq_some_iff.1 hk
    exact hr.group (ExpressionLiteral.of_resolve hr hg _ hg')

end

end

namespace Draft

variable {s : Setting} {T : JoinTree} {d d' : Draft}

theorem Sound.resolver (h : d.Sound s T) : (d.resolver s).Ensures (·.Within T) :=
  ⟨fun hc => Condition.within_split (h.resolveColumn_mem hc), h.within_resolveRaw,
    Condition.within_group⟩

theorem Sound.addConditions (h : d.Sound s T) {literal : ExpressionLiteral}
    (hd : d.addConditions s literal = .ok d') : d'.Sound s T := by
  obtain ⟨g, hg, hd⟩ := exists_of_bind_eq_ok hd
  obtain rfl := Except.ok.inj hd
  have hwithin := ExpressionLiteral.of_resolve h.resolver hg
  cases g with
  | none => exact h
  | some g => exact h.addGroup (hwithin g rfl)

end Draft

/-! ### Filters -/

section

variable {s : Setting}

mutual

/-- The conditions of a filter for the entity whose table is `a`. -/
theorem EntityFilter.grown_match (hnames : s.schema.Spelled) : ∀ {f : EntityFilter}
    {T : JoinTree} {d d' : Draft} {e : Entity} {a : String} {outer : Bool},
    e ∈ s.schema.entities → d.Sound s T → T.Hosts outer a e.baseTypes.length →
    EntityFilter.match s e a outer f d = .ok d' → d'.Grown s T
  | ⟨none, _⟩, _, _, _, _, _, _, he, h, ha, hd => FieldFilter.grown_matchAll hnames he h ha hd
  | ⟨some _, _⟩, _, _, _, _, _, _, he, h, ha, hd =>
    FieldFilter.grown_matchAll hnames he (h.bind he ha.houses) ha hd

theorem FieldFilter.grown_matchAll (hnames : s.schema.Spelled) : ∀ {fs : List FieldFilter}
    {T : JoinTree} {d d' : Draft} {e : Entity} {a : String} {outer : Bool},
    e ∈ s.schema.entities → d.Sound s T → T.Hosts outer a e.baseTypes.length →
    FieldFilter.matchAll s e a outer fs d = .ok d' → d'.Grown s T
  | [], _, _, _, _, _, _, _, h, _, hd => Except.ok.inj hd ▸ h.grown
  | ⟨_, _⟩ :: _, _, _, _, _, _, _, he, h, ha, hd => by
    obtain ⟨d₁, hd₁, hd⟩ := exists_of_bind_eq_ok hd
    obtain ⟨T', hext, hsound⟩ := FilterValue.grown_match hnames he h ha hd₁
    exact (FieldFilter.grown_matchAll hnames he hsound (hext.hosts ha) hd).of_extends hext

theorem FilterValue.grown_match (hnames : s.schema.Spelled) : ∀ {v : FilterValue}
    {T : JoinTree} {d d' : Draft} {e : Entity} {a name : String} {outer : Bool},
    e ∈ s.schema.entities → d.Sound s T → T.Hosts outer a e.baseTypes.length →
    FilterValue.match s e a outer name v d = .ok d' → d'.Grown s T
  | .undefined, _, _, _, _, _, _, _, _, h, _, hd => Except.ok.inj hd ▸ h.grown
  | .scalar _, _, _, _, _, _, _, _, he, h, ha, hd => h.matchField hnames he ha hd trivial
  | .list _, _, _, _, _, _, _, _, he, h, ha, hd => h.matchField hnames he ha hd trivial
  | .operators _, _, _, _, _, _, _, _, he, h, ha, hd => h.matchField hnames he ha hd trivial
  | .nested _, _, _, _, _, _, _, _, he, h, ha, hd =>
    h.matchField hnames he ha hd fun he' h' ha' hd' =>
      EntityFilter.grown_match hnames he' h' ha' hd'
  | .binding _, _, _, _, _, _, _, _, he, h, ha, hd =>
    h.matchField hnames he ha hd fun he' h' ha' hd' =>
      Except.ok.inj hd' ▸ (h'.bind he' ha'.houses).grown

end

end

/-- User conditions are added to the draft of the query without them. -/
theorem Draft.ofQuery_some {s : Setting} {e : Entity} {filter : EntityFilter}
    {literal : ExpressionLiteral} : ofQuery s e filter (some literal) = do
    let r ← ofQuery s e filter none
    return (r.1, ← r.2.addConditions s literal) := by
  simp only [ofQuery, bind_assoc, pure_bind]

/-- How the draft of a query came about. -/
theorem Draft.ofQuery_eq_ok {s : Setting} {e : Entity} {filter : EntityFilter}
    {conditions : Option ExpressionLiteral} {a : String} {d : Draft}
    (h : Draft.ofQuery s e filter conditions = .ok (a, d)) : ∃ d₁ d₂ d₃,
      a = (empty.nextAlias e.tableName).1 ∧
      (empty.nextAlias e.tableName).2.addEntity s e (.primary a e.tableName) = .ok d₁ ∧
      d₁.addSelects s e a = .ok d₂ ∧ EntityFilter.match s e a false filter d₂ = .ok d₃ ∧
      ((conditions = none ∧ d = d₃) ∨
        ∃ literal, conditions = some literal ∧ d₃.addConditions s literal = .ok d) := by
  obtain ⟨d₁, hprimary, h⟩ := exists_of_bind_eq_ok h
  obtain ⟨d₂, hselects, h⟩ := exists_of_bind_eq_ok h
  obtain ⟨d₃, hmatch, h⟩ := exists_of_bind_eq_ok h
  cases conditions with
  | none =>
    obtain ⟨rfl, rfl⟩ := Prod.mk.inj (Except.ok.inj h)
    exact ⟨d₁, d₂, d₃, rfl, hprimary, hselects, hmatch, .inl ⟨rfl, rfl⟩⟩
  | some literal =>
    obtain ⟨d₄, hd₄, h⟩ := exists_of_bind_eq_ok h
    obtain ⟨rfl, rfl⟩ := Prod.mk.inj (Except.ok.inj h)
    exact ⟨d₁, d₂, d₃, rfl, hprimary, hselects, hmatch, .inr ⟨literal, rfl, hd₄⟩⟩

/-- The draft of a query is one over a join tree with the table of the entity in front. -/
theorem Draft.sound_ofQuery {s : Setting} (hnames : s.schema.Spelled) {e : Entity}
    (he : e ∈ s.schema.entities) {filter : EntityFilter} {conditions : Option ExpressionLiteral}
    {a : String} {d : Draft} (h : Draft.ofQuery s e filter conditions = .ok (a, d)) :
    ∃ T : JoinTree, T.aliasName = a ∧ T.Houses a e.baseTypes.length ∧ d.Sound s T := by
  obtain ⟨d₁, d₂, d₃, ha, hprimary, hselects, hmatch, hconditions⟩ := Draft.ofQuery_eq_ok h
  subst ha
  obtain ⟨T, hname, hhosts, hsubs, hsound⟩ := Sound.of_primary (hnames.tables e he) hprimary
  have hselects := (congrArg (d₁.addSelects s e) hname).trans hselects
  have hmatch := (congrArg (EntityFilter.match s e · false filter d₂) hname).trans hmatch
  obtain ⟨T₂, hext₂, hsound₂⟩ := hsound.addSelects hhosts.houses hsubs hselects
  obtain ⟨T₃, hext₃, hsound₃⟩ :=
    EntityFilter.grown_match hnames he hsound₂ (hext₂.hosts hhosts) hmatch
  have hext := hext₂.trans hext₃
  refine ⟨T₃, hext.aliasName.trans hname, ?_, ?_⟩
  · rw [← hname]
    exact hext.houses hhosts.houses
  · rcases hconditions with ⟨-, rfl⟩ | ⟨literal, -, hliteral⟩
    · exact hsound₃
    · exact hsound₃.addConditions hliteral

end EntityQuery
