import EntityQuery.Proofs.Draft.Filter
import EntityQuery.Proofs.Missing.Entity
import EntityQuery.Proofs.Missing.Strategy

/-!
# Filters for missing relations

A filter may ask that a field is null, or that the id of the related row is.  Its match tests a foreign
key, or joins tables one of which is asked to have no id.

* `Missing`, `EntityFilter.missing`: the two ways to ask;
* `FieldSite.link?`: what a relation links the rows of an entity to;
* `FieldKind.tellsMissing`: a missing row is told from one that does not meet the conditions of its
  table;
* `Draft.Seeks`: tables and conditions that ask for no linked row, before any strategy;
* `Draft.seeks_manyToOne` and its siblings: what each kind of relation adds;
* `Draft.exists_seeks`: the match of such a filter.
-/

namespace EntityQuery

/-- How it is asked that a relation leads nowhere. -/
inductive Missing
  /-- The field is null. -/
  | field
  /-- The id of the related row is null. -/
  | id
  deriving DecidableEq

/-- The filter that asks for a relation to lead nowhere. -/
def EntityFilter.missing (field : String) : Missing → EntityFilter
  | .field => .only field (.scalar .null)
  | .id => .only field (.nested (.only "id" (.scalar .null)))

/-- The filter that asks for no id. -/
def NestedFilter.noId (s : Setting) : NestedFilter :=
  ⟨none, true, [.isNull], fun target own outer d =>
    EntityFilter.match s target own outer (.only "id" (.scalar .null)) d⟩

/-- What the filter asks of the field. -/
def Missing.asked (s : Setting) : Missing → Asked
  | .field => .predicates [.isNull]
  | .id => .nested (.noId s)

/-- The rows of the entity are told from others of its table by their type. -/
def Entity.isTyped (e : Entity) : Bool :=
  match e.inheritance with
  | .singleTable _ _ (some _) => true
  | _ => false

/-- What a relation links the rows of an entity to: the rows of the related entity's table, or those of
a junction.  The table of the entity has the name `a`. -/
def FieldSite.link? (site : FieldSite) (a : String) (target : Entity) : Option Link :=
  match site.kind with
  | .manyToOne column _ _ => some ⟨⟨site.columnAlias a, column⟩, target.tableName, "id"⟩
  | .oneToOne _ otherColumn => some ⟨⟨a, "id"⟩, target.tableName, otherColumn⟩
  | .oneToMany _ otherColumn => some ⟨⟨a, "id"⟩, target.tableName, otherColumn⟩
  | .manyToMany table column _ _ _ => some ⟨⟨a, "id"⟩, table, column⟩
  | _ => none

/-- The table that a relation starts from. -/
def FieldSite.holder (site : FieldSite) (e : Entity) : String :=
  match site.kind with
  | .manyToOne .. => site.table e
  | _ => e.tableName

/-- A missing row is told from one that does not meet the conditions of its table.  It is not where the
related table is joined to rows that may have no partner, and rows of another type have to be told; nor
where the related table is behind a junction that becomes a subquery.  The related table is joined for a
test of the id if its rows may be `marked` as deleted. -/
def FieldKind.tellsMissing (m : Missing) (marked typed rewrites : Bool) : FieldKind → Bool
  | .manyToOne _ _ needed => m = .field || !marked || needed || !typed
  | .oneToOne .. => !typed
  | .oneToMany .. => rewrites || !typed
  | .manyToMany .. => m = .field || !marked || (!rewrites && !typed)
  | _ => false

/-- Joins, conditions and collections that ask for no linked row, where `holder` is the table of the
link's parent: a foreign key is null, or a joined table has no id.  A collection that becomes a subquery
is asked for nothing else. -/
inductive Draft.Seeks (schema : Schema) (holder : String) (l : Link) (rewrites : Bool) :
    List Join → List Condition → List Join → Prop
  | null {c : ColumnCondition} {required : Bool} (hc : l.parent = ⟨c.aliasName, c.column⟩)
      (hp : c.predicate = .isNull) (hid : l.column = "id")
      (hkey : schema.ForeignKey holder l.parent.column l.table required) :
      Seeks schema holder l rewrites [] [.column c] []
  | joined {j m : Join} {bs : List Join} {ks : List Condition}
      (h : Unmatched schema holder l j m bs ks) : Seeks schema holder l rewrites (j :: bs) ks []
  | kept {j m : Join} {bs : List Join} {ks : List Condition} (hrewrites : rewrites = false)
      (h : Unmatched schema holder l j m bs ks) : Seeks schema holder l rewrites (j :: bs) ks [j]
  | rewritten {j : Join} {bs : List Join} {ks : List Condition} {ty : String}
      (hrewrites : rewrites = true) (hlink : j.link = l)
      (hbehind : ∀ b ∈ bs, b.kind = .outer ∧ b.parent.aliasName = j.aliasName)
      (hidle : ∀ k ∈ ks, k.Idle ((j :: bs).map (·.aliasName))) :
      Seeks schema holder l rewrites (j :: bs) (ks ++ [j.absent ty]) [j]

/-- A relation refers to an entity of the schema. -/
theorem FieldSite.Refers.mem {s : Setting} {site : FieldSite} {target : Entity}
    (h : site.Refers s target) : target ∈ s.schema.entities := by
  unfold FieldSite.Refers at h
  split at h
  · exact Setting.mem_of_entity h
  · exact Setting.mem_of_entity h
  · exact Setting.mem_of_entity h
  · exact Setting.mem_of_entity h
  · cases h

/-! ### Conditions that come with a table -/

/-- Without a type, only deleted rows are told. -/
theorem Entity.isNull_of_mem_implied {e : Entity} (h : e.isTyped = false) {a : String}
    {deletion : Option DeletionColumn} :
    ∀ c ∈ e.implied a deletion, ∃ k, c = .column k ∧ k.predicate = .isNull := by
  have htype : e.typeCondition? a = none := by
    unfold isTyped at h
    unfold typeCondition?
    split
    · next heq => rw [heq] at h; cases h
    · rfl
  intro c hc
  rw [implied, htype] at hc
  obtain ⟨k, hk, rfl⟩ := List.mem_map.1 hc
  rw [Option.toList_none, List.append_nil] at hk
  obtain ⟨column, -, rfl⟩ := Option.map_eq_some_iff.1 (Option.mem_toList.1 hk)
  exact ⟨_, rfl, rfl⟩

namespace Draft

variable {s : Setting} {e target : Entity} {a own : String} {d : Draft} {m : Missing}
  {deletion : Option DeletionColumn}

/-! ### What is added -/

theorem GrowsBy.addColumn {c : ColumnCondition} (hp : c.predicate = .isNull) :
    d.GrowsBy (d.addColumn c) [] [.column c] [] := by
  have hsplit : c.split = .column c := by
    unfold ColumnCondition.split
    rw [hp]
  exact ⟨by simp [Draft.addColumn], rfl,
    by simp [Draft.addColumn, withInlined, Conjuncts.addColumn, hsplit], by simp [Draft.addColumn]⟩

/-- The test of an id is matched on the table of the entity. -/
theorem matchOn_noId {outer : Bool} : (NestedFilter.noId s).matchOn target own outer d =
    .ok (d.addColumn (.asked own "id" target.idDbType .isNull)) := by
  show (FilterValue.match s target own outer "id" (.scalar .null) d >>= pure) = _
  rw [bind_pure]
  show d.matchField s target own outer "id" (.predicates [.isNull]) = _
  rw [matchField, Setting.resolve_id]
  rfl

/-- The table of an entity comes with those of its bases and with its conditions. -/
theorem exists_growsBy_addEntity (ht : target ∈ s.schema.entities)
    (hdeletion : s.deletion? target = .ok deletion) (d : Draft) (j : Join) : ∃ bs d',
      s.baseJoins j.aliasName j.kind 0 target.baseTypes = .ok bs ∧
      d.addEntity s target (.join j) = .ok d' ∧
      d.GrowsBy d' (j :: bs) (target.implied j.aliasName deletion) [] := by
  obtain ⟨d', hd'⟩ := exists_addEntity ht d (.join j)
  obtain ⟨bs, deletion', hbs, hdeletion', hgrows⟩ := GrowsBy.addEntity hd'
  obtain rfl := Except.ok.inj (hdeletion.symm.trans hdeletion')
  exact ⟨bs, d', hbs, hd', hgrows⟩

/-- A related entity is joined, and its id is tested. -/
theorem exists_joinTarget (ht : target ∈ s.schema.entities)
    (hdeletion : s.deletion? target = .ok deletion) (d : Draft) (parent : ColumnRef) (kind : JoinKind) :
    ∃ (own : String) (bs : List Join) (d' : Draft),
      s.baseJoins own kind 0 target.baseTypes = .ok bs ∧
      d.joinTarget s target parent kind (.noId s) = .ok d' ∧
      d.GrowsBy d' (⟨own, target.tableName, kind, parent, ⟨own, "id"⟩, none⟩ :: bs)
        (target.implied own deletion ++ [.column (.asked own "id" target.idDbType .isNull)]) [] := by
  let own := (d.nextAlias target.tableName).1
  let j : Join := ⟨own, target.tableName, kind, parent, ⟨own, "id"⟩, none⟩
  obtain ⟨bs, d', hbs, hd', hgrows⟩ :=
    exists_growsBy_addEntity ht hdeletion (d.nextAlias target.tableName).2 j
  refine ⟨own, bs, d'.addColumn (.asked own "id" target.idDbType .isNull), hbs, ?_, ?_⟩
  · show ((d.nextAlias target.tableName).2.addEntity s target (.join j) >>= _) = _
    rw [hd']
    exact matchOn_noId
  · have hadded := (GrowsBy.nextAlias target.tableName).trans (hgrows.trans (GrowsBy.addColumn
      (show (ColumnCondition.asked own "id" target.idDbType .isNull).predicate = .isNull from rfl)))
    simpa using hadded

/-- A table with a foreign key is joined, and its id is tested. -/
theorem exists_matchReferrer (ht : target ∈ s.schema.entities)
    (hdeletion : s.deletion? target = .ok deletion) (d : Draft) (otherColumn : String)
    (collection : Bool) (m : Missing) : ∃ (j : Join) (bs : List Join) (d' : Draft),
      j = ⟨j.aliasName, target.tableName, .outer, ⟨a, "id"⟩, ⟨j.aliasName, otherColumn⟩, none⟩ ∧
      s.baseJoins j.aliasName .outer 0 target.baseTypes = .ok bs ∧
      d.matchReferrer s target a otherColumn collection (m.asked s) = .ok d' ∧
      d.GrowsBy d' (j :: bs) (target.implied j.aliasName deletion ++ [j.absent target.idDbType])
        (if collection then [j] else []) := by
  let own := (d.nextAlias target.tableName).1
  let j : Join := ⟨own, target.tableName, .outer, ⟨a, "id"⟩, ⟨own, otherColumn⟩, none⟩
  let d₁ : Draft := if collection then (d.nextAlias target.tableName).2.addCollection j
    else (d.nextAlias target.tableName).2
  have hgrows₁ : d.GrowsBy d₁ [] [] (if collection then [j] else []) := by
    cases collection with
    | true => exact (GrowsBy.nextAlias target.tableName).trans .addCollection
    | false => exact GrowsBy.nextAlias target.tableName
  obtain ⟨bs, d₂, hbs, hd₂, hgrows₂⟩ := exists_growsBy_addEntity ht hdeletion d₁ j
  refine ⟨j, bs, d₂.addColumn (.asked own "id" target.idDbType .isNull), rfl, hbs, ?_, ?_⟩
  · show (d₁.addEntity s target (.join j) >>= _) = _
    rw [hd₂]
    cases m with
    | field => rfl
    | id => exact matchOn_noId
  · have hadded := hgrows₁.trans (hgrows₂.trans (GrowsBy.addColumn
      (show (ColumnCondition.asked own "id" target.idDbType .isNull).predicate = .isNull from rfl)))
    simpa [Join.absent] using hadded

/-- A foreign key is tested, unless the related entity has to be joined. -/
theorem exists_matchManyToOne (ht : target ∈ s.schema.entities)
    (hdeletion : s.deletion? target = .ok deletion) (d : Draft) (parent : ColumnRef) (needed : Bool)
    (m : Missing) : ∃ d', d.matchManyToOne s target parent needed false (m.asked s) = .ok d' ∧
      (d.GrowsBy d' [] [.column (.asked parent.aliasName parent.column target.idDbType .isNull)] [] ∨
      (m = .id ∧ deletion.isSome = true ∧ ∃ (j : Join) (bs : List Join),
        j = ⟨j.aliasName, target.tableName, if needed then .inner else .outer, parent,
          ⟨j.aliasName, "id"⟩, none⟩ ∧
        s.baseJoins j.aliasName j.kind 0 target.baseTypes = .ok bs ∧
        d.GrowsBy d' (j :: bs) (target.implied j.aliasName deletion ++ [j.absent target.idDbType]) [])) := by
  have htested := GrowsBy.addColumn (d := d) (show (ColumnCondition.asked parent.aliasName parent.column
    target.idDbType .isNull).predicate = .isNull from rfl)
  cases m with
  | field => exact ⟨_, rfl, .inl htested⟩
  | id =>
    have hneeds : (NestedFilter.noId s).needsJoin s target = .ok deletion.isSome := by
      show (s.deletion? target >>= _) = _
      rw [hdeletion]
      rfl
    have hmatch : d.matchManyToOne s target parent needed false (Missing.id.asked s) =
        if deletion.isSome then
          d.joinTarget s target parent (if needed then .inner else .outer) (.noId s)
        else .ok (d.addColumn (.asked parent.aliasName parent.column target.idDbType .isNull)) := by
      show ((NestedFilter.noId s).needsJoin s target >>= _) = _
      rw [hneeds]
      cases needed <;> cases deletion <;> rfl
    by_cases hmarked : deletion.isSome = true
    · rw [hmatch, if_pos hmarked]
      obtain ⟨own, bs, d', hbs, hd', hgrows⟩ := exists_joinTarget ht hdeletion d parent
        (if needed then .inner else .outer)
      exact ⟨d', hd', .inr ⟨rfl, hmarked, ⟨own, _, _, parent, ⟨own, "id"⟩, none⟩, bs, rfl, hbs, hgrows⟩⟩
    · rw [hmatch, if_neg hmarked]
      exact ⟨_, rfl, .inl htested⟩

/-- A junction is joined and its id is tested, unless the related entity has to be joined. -/
theorem exists_matchManyToMany (ht : target ∈ s.schema.entities)
    (hdeletion : s.deletion? target = .ok deletion) (d : Draft)
    (table column otherColumn idDbType : String) (m : Missing) :
    ∃ (j : Join) (d' : Draft),
      j = ⟨j.aliasName, table, .outer, ⟨a, "id"⟩, ⟨j.aliasName, column⟩, none⟩ ∧
      d.matchManyToMany s target a table column otherColumn idDbType (m.asked s) = .ok d' ∧
      (d.GrowsBy d' [j] [j.absent idDbType] [j] ∨
      (m = .id ∧ deletion.isSome = true ∧ ∃ (k : Join) (bs : List Join),
        k = ⟨k.aliasName, target.tableName, .outer, ⟨j.aliasName, otherColumn⟩, ⟨k.aliasName, "id"⟩,
          none⟩ ∧
        s.baseJoins k.aliasName .outer 0 target.baseTypes = .ok bs ∧
        d.GrowsBy d' (j :: k :: bs)
          (target.implied k.aliasName deletion ++ [k.absent target.idDbType]) [j])) := by
  let own := (d.nextAlias table).1
  let j : Join := ⟨own, table, .outer, ⟨a, "id"⟩, ⟨own, column⟩, none⟩
  let d₁ := ((d.nextAlias table).2.addCollection j).addTable (.join j) idDbType
  have hgrows₁ : d.GrowsBy d₁ [j] [] [j] :=
    (GrowsBy.nextAlias table).trans (.trans .addCollection (.addTable idDbType))
  have htested : d.GrowsBy (d₁.addColumn (.asked own "id" idDbType .isNull)) [j] [j.absent idDbType]
      [j] := hgrows₁.trans (.addColumn rfl)
  cases m with
  | field => exact ⟨j, _, rfl, rfl, .inl htested⟩
  | id =>
    have hneeds : (NestedFilter.noId s).needsJoin s target = .ok deletion.isSome := by
      show (s.deletion? target >>= _) = _
      rw [hdeletion]
      rfl
    have hmatch : d.matchManyToMany s target a table column otherColumn idDbType (Missing.id.asked s) =
        if deletion.isSome then d₁.joinTarget s target ⟨own, otherColumn⟩ .outer (.noId s)
        else .ok (d₁.addColumn (.asked own "id" idDbType .isNull)) := by
      show ((NestedFilter.noId s).needsJoin s target >>= _) = _
      rw [hneeds]
      cases deletion <;> rfl
    by_cases hmarked : deletion.isSome = true
    · rw [hmatch, if_pos hmarked]
      obtain ⟨other, bs, d', hbs, hd', hgrows⟩ := exists_joinTarget ht hdeletion d₁ ⟨own, otherColumn⟩
        .outer
      exact ⟨j, d', rfl, hd', .inr ⟨rfl, hmarked,
        ⟨other, target.tableName, .outer, ⟨own, otherColumn⟩, ⟨other, "id"⟩, none⟩, bs, rfl, hbs,
        hgrows₁.trans hgrows⟩⟩
    · rw [hmatch, if_neg hmarked]
      exact ⟨j, _, rfl, rfl, .inl htested⟩

/-! ### What is asked for -/

section

variable {holder : String} {l : Link} {j k : Join} {bs : List Join} {ty : String} {rewrites : Bool}
  {field : String} {site : FieldSite}

/-- The conditions that come with a table, and the test of its id. -/
theorem of_mem_checks (hdeletion : s.deletion? target = .ok deletion) {kind : JoinKind}
    (hbs : s.baseJoins own kind 0 target.baseTypes = .ok bs)
    (htyped : kind = .outer → target.isTyped = false) :
    ∀ k ∈ target.implied own deletion ++ [.column (.asked own "id" ty .isNull)], ∃ c, k = .column c ∧
      (kind = .outer → c.predicate = .isNull) ∧ (c.pruneable = true ∨ c.column = "id") ∧
      c.aliasName ∈ own :: bs.map (·.aliasName) := by
  refine List.forall_mem_append.2 ⟨fun k hk => ?_, List.forall_mem_singleton.2
    ⟨_, rfl, fun _ => rfl, .inr rfl, List.mem_cons_self⟩⟩
  obtain ⟨c, rfl, hpruneable, hc⟩ := idle_implied hdeletion (Setting.housed_baseJoins hbs) k hk
  refine ⟨c, rfl, fun houter => ?_, .inl hpruneable, hc⟩
  obtain ⟨c', he, hnull⟩ := Entity.isNull_of_mem_implied (htyped houter) _ hk
  exact Condition.column.inj he ▸ hnull

/-- The linked table is asked to have no id. -/
theorem unmatched_self (hlink : j.link = l) (hdeletion : s.deletion? target = .ok deletion)
    (hbs : s.baseJoins j.aliasName j.kind 0 target.baseTypes = .ok bs)
    (hkind : j.kind = .outer ∨ l.column = "id" ∧
      s.schema.ForeignKey holder l.parent.column l.table true)
    (htyped : j.kind = .outer → target.isTyped = false) :
    Unmatched s.schema holder l j j bs (target.implied j.aliasName deletion ++ [j.absent ty]) where
  link := hlink
  behind b hb := by
    obtain ⟨-, -, -, hparent, -, hbkind⟩ := Setting.of_mem_baseJoins hbs b hb
    rw [hparent]
    exact ⟨hbkind, List.mem_cons_self⟩
  kind := hkind
  refers := .inl rfl
  missing := ⟨ty, List.mem_append_right _ (List.mem_singleton_self _)⟩
  checks := of_mem_checks hdeletion hbs htyped

/-- A junction is asked to have no id. -/
theorem unmatched_junction (hlink : j.link = l) (hkind : j.kind = .outer) :
    Unmatched s.schema holder l j j [] [j.absent ty] where
  link := hlink
  behind := nofun
  kind := .inl hkind
  refers := .inl rfl
  missing := ⟨ty, List.mem_singleton_self _⟩
  checks := List.forall_mem_singleton.2 ⟨_, rfl, fun _ => rfl, .inr rfl, List.mem_cons_self⟩

/-- The table that a junction leads to is asked to have no id. -/
theorem unmatched_behind (hlink : j.link = l) (hkind : j.kind = .outer) (hk : k.kind = .outer)
    (hparent : k.parent.aliasName = j.aliasName) (hid : k.own.column = "id")
    (hkey : s.schema.ForeignKey l.table k.parent.column k.table true)
    (hdeletion : s.deletion? target = .ok deletion)
    (hbs : s.baseJoins k.aliasName .outer 0 target.baseTypes = .ok bs)
    (htyped : target.isTyped = false) :
    Unmatched s.schema holder l j k (k :: bs) (target.implied k.aliasName deletion ++ [k.absent ty]) where
  link := hlink
  behind := by
    refine List.forall_mem_cons.2 ⟨⟨hk.trans hkind.symm, hparent ▸ List.mem_cons_self⟩, fun b hb => ?_⟩
    obtain ⟨-, -, -, hbparent, -, hbkind⟩ := Setting.of_mem_baseJoins hbs b hb
    rw [hbparent]
    exact ⟨hbkind.trans hkind.symm, List.mem_cons_of_mem _ List.mem_cons_self⟩
  kind := .inl hkind
  refers := .inr ⟨List.mem_cons_self, hparent, hid, hkey⟩
  missing := ⟨ty, List.mem_append_right _ (List.mem_singleton_self _)⟩
  checks k' hk' := by
    obtain ⟨c, rfl, hnull, hclear, hc⟩ := of_mem_checks hdeletion hbs (fun _ => htyped) k' hk'
    exact ⟨c, rfl, fun _ => hnull rfl, hclear, List.mem_cons_of_mem _ hc⟩

/-- A relation to one row asks for none by its foreign key, or by the id of the joined entity. -/
theorem seeks_manyToOne {other : String} {needed : Bool} (ht : target ∈ s.schema.entities)
    (hdeletion : s.deletion? target = .ok deletion) (parent : ColumnRef)
    (hkey : s.schema.ForeignKey holder parent.column target.tableName needed)
    (htells : (FieldKind.manyToOne parent.column other needed).tellsMissing m deletion.isSome
      target.isTyped rewrites = true) (d : Draft) :
    ∃ js ks d', d.matchManyToOne s target parent needed false (m.asked s) = .ok d' ∧
      d.GrowsBy d' js ks [] ∧
      Seeks s.schema holder ⟨parent, target.tableName, "id"⟩ rewrites js ks [] := by
  obtain ⟨d', hd', hgrows | ⟨rfl, hmarked, j, bs, hj, hbs, hgrows⟩⟩ :=
    exists_matchManyToOne ht hdeletion d parent needed m
  · exact ⟨[], _, d', hd', hgrows, .null rfl rfl rfl hkey⟩
  · have hkind : j.kind = if needed then .inner else .outer := congrArg Join.kind hj
    refine ⟨_, _, d', hd', hgrows, .joined (unmatched_self ?_ hdeletion hbs ?_ ?_)⟩
    · rw [hj]
      rfl
    · cases needed with
      | true => exact .inr ⟨rfl, hkey⟩
      | false => exact .inl hkind
    · intro houter
      cases needed with
      | true => rw [hkind] at houter; cases houter
      | false => simpa [FieldKind.tellsMissing, hmarked] using htells

/-- A relation from one row asks for none by the id of the entity that has the foreign key. -/
theorem seeks_oneToOne {other otherColumn : String} (ht : target ∈ s.schema.entities)
    (hdeletion : s.deletion? target = .ok deletion)
    (htells : (FieldKind.oneToOne other otherColumn).tellsMissing m deletion.isSome target.isTyped
      rewrites = true) (d : Draft) :
    ∃ js ks d', d.matchReferrer s target a otherColumn false (m.asked s) = .ok d' ∧
      d.GrowsBy d' js ks [] ∧
      Seeks s.schema holder ⟨⟨a, "id"⟩, target.tableName, otherColumn⟩ rewrites js ks [] := by
  obtain ⟨j, bs, d', hj, hbs, hd', hgrows⟩ := exists_matchReferrer (a := a) ht hdeletion d
    otherColumn false m
  have hkind : j.kind = .outer := congrArg Join.kind hj
  have hlink : j.link = ⟨⟨a, "id"⟩, target.tableName, otherColumn⟩ := by
    rw [hj]
    rfl
  have htyped : target.isTyped = false := by simpa [FieldKind.tellsMissing] using htells
  exact ⟨_, _, d', hd', hgrows,
    .joined (unmatched_self hlink hdeletion (hkind ▸ hbs) (.inl hkind) fun _ => htyped)⟩

/-- A relation from many rows asks for none by the id of the entity that has the foreign key, which is
joined as a collection. -/
theorem seeks_oneToMany {other otherColumn : String} (ht : target ∈ s.schema.entities)
    (hdeletion : s.deletion? target = .ok deletion)
    (htells : (FieldKind.oneToMany other otherColumn).tellsMissing m deletion.isSome target.isTyped
      rewrites = true) (d : Draft) :
    ∃ js ks c d', d.matchReferrer s target a otherColumn true (m.asked s) = .ok d' ∧
      d.GrowsBy d' js ks [c] ∧
      Seeks s.schema holder ⟨⟨a, "id"⟩, target.tableName, otherColumn⟩ rewrites js ks [c] := by
  obtain ⟨j, bs, d', hj, hbs, hd', hgrows⟩ := exists_matchReferrer (a := a) ht hdeletion d
    otherColumn true m
  have hkind : j.kind = .outer := congrArg Join.kind hj
  have hlink : j.link = ⟨⟨a, "id"⟩, target.tableName, otherColumn⟩ := by
    rw [hj]
    rfl
  refine ⟨_, _, j, d', hd', hgrows, ?_⟩
  cases rewrites with
  | true =>
    refine .rewritten rfl hlink (fun b hb => ?_) (idle_implied hdeletion (Setting.housed_baseJoins hbs))
    obtain ⟨-, -, -, hparent, -, hbkind⟩ := Setting.of_mem_baseJoins hbs b hb
    exact ⟨hbkind, hparent ▸ rfl⟩
  | false =>
    have htyped : target.isTyped = false := by simpa [FieldKind.tellsMissing] using htells
    exact .kept rfl (unmatched_self hlink hdeletion (hkind ▸ hbs) (.inl hkind) fun _ => htyped)

/-- A relation through a junction asks for no row by the id of the junction, or by that of the entity
behind it. -/
theorem seeks_manyToMany {table column otherColumn other ty : String} (ht : target ∈ s.schema.entities)
    (hdeletion : s.deletion? target = .ok deletion)
    (hkey : s.schema.ForeignKey table otherColumn target.tableName true)
    (htells : (FieldKind.manyToMany table column otherColumn other ty).tellsMissing m deletion.isSome
      target.isTyped rewrites = true) (d : Draft) :
    ∃ js ks c d', d.matchManyToMany s target a table column otherColumn ty (m.asked s) = .ok d' ∧
      d.GrowsBy d' js ks [c] ∧
      Seeks s.schema holder ⟨⟨a, "id"⟩, table, column⟩ rewrites js ks [c] := by
  obtain ⟨j, d', hj, hd', hgrows⟩ := exists_matchManyToMany (a := a) ht hdeletion d table column
    otherColumn ty m
  have hkind : j.kind = .outer := congrArg Join.kind hj
  have hlink : j.link = ⟨⟨a, "id"⟩, table, column⟩ := by
    rw [hj]
    rfl
  rcases hgrows with hgrows | ⟨rfl, hmarked, k, bs, hk, hbs, hgrows⟩
  · refine ⟨_, _, j, d', hd', hgrows, ?_⟩
    cases rewrites with
    | true => exact @Seeks.rewritten _ _ _ _ j [] [] ty rfl hlink nofun nofun
    | false => exact .kept rfl (unmatched_junction hlink hkind)
  · have htold : rewrites = false ∧ target.isTyped = false := by
      simpa [FieldKind.tellsMissing, hmarked] using htells
    refine ⟨_, _, j, d', hd', hgrows, .kept (m := k) htold.1 ?_⟩
    have hown : k.own = ⟨k.aliasName, "id"⟩ := congrArg Join.own hk
    have hparent : k.parent = ⟨j.aliasName, otherColumn⟩ := congrArg Join.parent hk
    have htable : k.table = target.tableName := congrArg Join.table hk
    refine unmatched_behind hlink hkind (congrArg Join.kind hk) (by rw [hparent]) (by rw [hown]) ?_
      hdeletion hbs htold.2
    rw [hparent, htable]
    exact hkey

/-- The joins and conditions of a filter that asks for a relation to lead nowhere ask for no linked
row. -/
theorem exists_seeks (he : e ∈ s.schema.entities) (hsite : s.resolve e field = .ok site)
    (htarget : site.Refers s target) (hlink : site.link? a target = some l)
    (hdeletion : s.deletion? target = .ok deletion)
    (htells : site.kind.tellsMissing m deletion.isSome target.isTyped rewrites = true) (d : Draft) :
    ∃ js ks cs d', d.matchField s e a false field (m.asked s) = .ok d' ∧ d.GrowsBy d' js ks cs ∧
      Seeks s.schema (site.holder e) l rewrites js ks cs ∧ (cs = [] ↔ site.kind.isPlural = false) := by
  have ht := htarget.mem
  have hfield : s.schema.resolve e field = .ok site := of_planning_eq_ok hsite
  obtain ⟨name, kind, owner, base⟩ := site
  cases kind with
  | manyToOne column other needed =>
    obtain rfl := Option.some.inj hlink
    have hother : s.entity other = .ok target := htarget
    have hkey := Schema.ForeignKey.field he hfield rfl (of_planning_eq_ok hother)
    obtain ⟨js, ks, d', hd', hgrows, hseeks⟩ := seeks_manyToOne ht hdeletion
      ⟨FieldSite.columnAlias ⟨name, .manyToOne column other needed, owner, base⟩ a, column⟩ hkey htells d
    refine ⟨js, ks, [], d', ?_, hgrows, hseeks, by simp [FieldKind.isPlural]⟩
    rw [matchField, hsite]
    show (s.entity other >>= _) = _
    rw [hother]
    exact hd'
  | oneToOne other otherColumn =>
    obtain rfl := Option.some.inj hlink
    have hother : s.entity other = .ok target := htarget
    obtain ⟨js, ks, d', hd', hgrows, hseeks⟩ := seeks_oneToOne ht hdeletion htells d
    refine ⟨js, ks, [], d', ?_, hgrows, hseeks, by simp [FieldKind.isPlural]⟩
    rw [matchField, hsite]
    show (s.entity other >>= _) = _
    rw [hother]
    exact hd'
  | oneToMany other otherColumn =>
    obtain rfl := Option.some.inj hlink
    have hother : s.entity other = .ok target := htarget
    obtain ⟨js, ks, c, d', hd', hgrows, hseeks⟩ := seeks_oneToMany ht hdeletion htells d
    refine ⟨js, ks, [c], d', ?_, hgrows, hseeks, by simp [FieldKind.isPlural]⟩
    rw [matchField, hsite]
    show (s.entity other >>= _) = _
    rw [hother]
    exact hd'
  | manyToMany table column otherColumn other ty =>
    obtain rfl := Option.some.inj hlink
    have hother : s.entity other = .ok target := htarget
    have hkey := Schema.ForeignKey.junction he hfield rfl (of_planning_eq_ok hother)
    obtain ⟨js, ks, c, d', hd', hgrows, hseeks⟩ := seeks_manyToMany ht hdeletion hkey htells d
    refine ⟨js, ks, [c], d', ?_, hgrows, hseeks, by simp [FieldKind.isPlural]⟩
    rw [matchField, hsite]
    show (s.entity other >>= _) = _
    rw [hother]
    exact hd'
  | _ => exact htarget.elim

end

end Draft

end EntityQuery
