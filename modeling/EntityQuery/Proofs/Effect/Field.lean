import EntityQuery.Proofs.Draft.Filter
import EntityQuery.Proofs.Draft.Step

/-!
# What an entry asks

A predicate that is asked of a field becomes a condition on the column that holds the field, its
operands in stored form.  What is asked of a related entity is asked of the column that refers to it,
or of the entity's table.

* `Draft.Asks`: the conditions that have been gathered;
* `FieldSite.Says`: a condition that says of a field what a predicate asks;
* `FieldSite.OnColumn`, `FieldSite.Joined`: relations that are followed on a column, and those for
  which the table of the related entity is joined;
* `Draft.hears_matchField`, `Draft.matchField_nested`: one entry of a filter.
-/

namespace EntityQuery

/-! ### Conditions that have been gathered -/

namespace Draft

variable {d d' : Draft} {k : Condition} {c : ColumnCondition} {g : Group}

/-- The condition has been gathered: one on a column, or a disjunction. -/
def Asks (d : Draft) (k : Condition) : Prop :=
  k ∈ d.conjuncts.inlined ∨ ∃ g ∈ d.conjuncts.groups, g.op = .or ∧ k = .group g

theorem Asks.mono (h : d.Asks k) (hd : d.Before d') : d'.Asks k :=
  h.imp (fun h => hd.inlined.subset h) fun ⟨g, hg, h⟩ => ⟨g, hd.groups.subset hg, h⟩

theorem asks_addColumn : (d.addColumn c).Asks c.split :=
  .inl (List.mem_append_right _ (List.mem_singleton_self _))

theorem asks_addGroup (h : g.op = .or) : (d.addGroup g).Asks (.group g) :=
  .inr ⟨g, List.mem_append_right _ (List.mem_singleton_self _), h, rfl⟩

end Draft

/-! ### Conditions for a predicate -/

/-- The condition is the predicate on a column of ids, its operands in stored form. -/
def Condition.SaysId (s : Setting) (target : Entity) (a column : String) (p : Predicate)
    (k : Condition) : Prop :=
  ∃ q, p.forId target s.config.nilIds (a ++ "." ++ column) = .ok q ∧
    k = (ColumnCondition.asked a column target.idDbType q).split

/-- The condition is the predicate on a junction: a test for null on its row, or a predicate on its
column of ids. -/
def Condition.SaysJunction (s : Setting) (target : Entity) (a idDbType column : String)
    (p : Predicate) (k : Condition) : Prop :=
  match p with
  | .isNull => k = .column (.asked a "id" idDbType .isNull)
  | .notNull => k = .column (.asked a "id" idDbType .notNull)
  | p => k.SaysId s target a column p

/-- The condition is the predicate on a polymorphic reference, or a part of it. -/
def Target.Says (targets : List Target) (a field : String) (nil : NilIds) (p : Predicate)
    (k : Condition) : Prop :=
  match p with
  | .isNull => ∃ t ∈ targets, k = .column (t.condition a .isNull)
  | .notNull => k = .any (conditions targets a .notNull)
  | .compare .eq v => ∃ i t id, identify targets field nil v = .ok (i, t, id) ∧
    k = .column (t.condition a (.eq id))
  | .compare .ne v => ∃ i t id, identify targets field nil v = .ok (i, t, id) ∧
    k = .any [.column (t.condition a (.ne id)), .column (t.condition a .isNull)]
  | .isIn vs => ∃ groups, grouped targets field nil vs = .ok groups ∧
    k = .any ((if vs.any Value.isNull then [.all (conditions targets a .isNull)] else []) ++
      groups.map fun r => .column (r.1.condition a (.isIn r.2)))
  | .notIn vs => (vs.any Value.isNull = true ∧ k = .any (conditions targets a .notNull)) ∨
    ∃ groups, grouped targets field nil vs = .ok groups ∧ ∃ r ∈ groups,
      k = .any [.column (r.1.condition a .isNull), .column (r.1.condition a (.notIn r.2))]
  | _ => False

/-- A table of that name is joined where the two columns are equal. -/
def Draft.HasJoin (d : Draft) (table : String) (parent own : ColumnRef) : Prop :=
  ∃ j, .join j ∈ d.tables ∧ j.aliasName = own.aliasName ∧ j.table = table ∧ j.parent = parent ∧
    j.own = own

namespace FieldSite

/-- The condition says of the field at the site, for the entity whose table is `a`, what the predicate
asks. -/
def Says (s : Setting) (d : Draft) (e : Entity) (a name : String) (site : FieldSite) (p : Predicate)
    (k : Condition) : Prop :=
  match site.kind with
  | .primaryKey => k.SaysId s e a "id" p
  | .primitive column dbType => k = (ColumnCondition.asked (site.columnAlias a) column dbType p).split
  | .enumeration column dbType => k = (ColumnCondition.asked (site.columnAlias a) column dbType p).split
  | .manyToOne column other _ => ∃ target, s.entity other = .ok target ∧
    k.SaysId s target (site.columnAlias a) column p
  | .oneToOne other column => ∃ target own, s.entity other = .ok target ∧
    d.HasJoin target.tableName ⟨a, "id"⟩ ⟨own, column⟩ ∧ k.SaysId s target own "id" p
  | .oneToMany other column => ∃ target own, s.entity other = .ok target ∧
    d.HasJoin target.tableName ⟨a, "id"⟩ ⟨own, column⟩ ∧ k.SaysId s target own "id" p
  | .manyToMany table column otherColumn other idDbType => ∃ target own,
    s.entity other = .ok target ∧ d.HasJoin table ⟨a, "id"⟩ ⟨own, column⟩ ∧
      k.SaysJunction s target own idDbType otherColumn p
  | .polymorphic components => ∃ targets, Target.ofComponents s components = .ok targets ∧
    Target.Says targets (site.columnAlias a) name s.config.nilIds p k

/-- The predicate asks nothing of a polymorphic reference: it excludes no id, or it is a test for null
of a reference without columns. -/
def Void (site : FieldSite) (p : Predicate) : Prop :=
  ∃ components, site.kind = .polymorphic components ∧
    (p = .notIn [] ∨ (p = .isNull ∧ components = []))

/-- The table of the related entity is joined along the columns of the relation. -/
def Joined (d : Draft) (site : FieldSite) (a : String) (target : Entity) (own : String) : Prop :=
  match site.kind with
  | .manyToOne column _ _ => d.HasJoin target.tableName ⟨site.columnAlias a, column⟩ ⟨own, "id"⟩
  | .oneToOne _ column => d.HasJoin target.tableName ⟨a, "id"⟩ ⟨own, column⟩
  | .oneToMany _ column => d.HasJoin target.tableName ⟨a, "id"⟩ ⟨own, column⟩
  | .manyToMany table column otherColumn _ _ => ∃ junction,
    d.HasJoin table ⟨a, "id"⟩ ⟨junction, column⟩ ∧
      d.HasJoin target.tableName ⟨junction, otherColumn⟩ ⟨own, "id"⟩
  | _ => False

/-- What is asked of the related entity is asked of the column that refers to it: it is not named,
nothing but its id is asked for, and its rows cannot be marked as deleted. -/
def OnColumn (s : Setting) (site : FieldSite) (aliasName : Option String) (onlyId : Bool) : Prop :=
  aliasName = none ∧ onlyId = true ∧
    match site.kind with
    | .manyToOne _ other _ => ∃ target, s.entity other = .ok target ∧ s.deletion? target = .ok none
    | .manyToMany _ _ _ other _ => ∃ target, s.entity other = .ok target ∧ s.deletion? target = .ok none
    | .polymorphic _ => True
    | _ => False

end FieldSite

/-- Each of the predicates has a condition, unless it asks nothing. -/
def Draft.Hears (s : Setting) (d : Draft) (e : Entity) (a name : String) (site : FieldSite)
    (ps : List Predicate) : Prop :=
  ∀ p ∈ ps, site.Void p ∨ ∃ k, d.Asks k ∧ site.Says s d e a name p k

/-! ### What is said stays said -/

section

variable {s : Setting} {d d' : Draft} {e target : Entity} {a b column name table : String}
  {site : FieldSite} {k : Condition} {parent own : ColumnRef} {p : Predicate} {ps : List Predicate}

theorem Draft.HasJoin.mono (h : d.HasJoin table parent own) (hd : d.Before d') :
    d'.HasJoin table parent own := by
  obtain ⟨j, hj, h⟩ := h
  exact ⟨j, hd.tables.subset hj, h⟩

theorem FieldSite.Says.mono (h : site.Says s d e a name p k) (hd : d.Before d') :
    site.Says s d' e a name p k := by
  unfold Says at h ⊢
  split at h <;> rename_i hkind
  · exact h
  · exact h
  · exact h
  · exact h
  · obtain ⟨target, own, htarget, hjoin, h⟩ := h
    exact ⟨target, own, htarget, hjoin.mono hd, h⟩
  · obtain ⟨target, own, htarget, hjoin, h⟩ := h
    exact ⟨target, own, htarget, hjoin.mono hd, h⟩
  · obtain ⟨target, own, htarget, hjoin, h⟩ := h
    exact ⟨target, own, htarget, hjoin.mono hd, h⟩
  · exact h

theorem FieldSite.Joined.mono {own : String} (h : site.Joined d a target own) (hd : d.Before d') :
    site.Joined d' a target own := by
  unfold Joined at h ⊢
  split at h <;> rename_i hkind
  · exact h.mono hd
  · exact h.mono hd
  · exact h.mono hd
  · obtain ⟨junction, hjunction, h⟩ := h
    exact ⟨junction, hjunction.mono hd, h.mono hd⟩
  · exact h

theorem Draft.Hears.mono (h : d.Hears s e a name site ps) (hd : d.Before d') :
    d'.Hears s e a name site ps := fun p hp =>
  (h p hp).imp_right fun ⟨k, hk, hsays⟩ => ⟨k, hk.mono hd, hsays.mono hd⟩

/-- Nothing is joined for a filter that asks for nothing but the id of rows that cannot be marked as
deleted. -/
theorem NestedFilter.onColumn_of_needsJoin {f : NestedFilter} (h : f.needsJoin s target = .ok false) :
    f.aliasName = none ∧ f.onlyId = true ∧ s.deletion? target = .ok none := by
  unfold needsJoin at h
  split_ifs at h with hfilter
  · cases h
  obtain ⟨deletion, hdeletion, h⟩ := exists_of_bind_eq_ok h
  simp only [Bool.or_eq_true, Bool.not_eq_true', not_or, Bool.not_eq_true, Option.isSome_eq_false_iff,
    Option.isNone_iff_eq_none, Bool.not_eq_false] at hfilter
  have hnone : deletion.isSome = false := Except.ok.inj h
  rw [Option.isSome_eq_false_iff, Option.isNone_iff_eq_none] at hnone
  exact ⟨hfilter.1, hfilter.2, hnone ▸ hdeletion⟩

/-! ### Predicates -/

namespace Draft

/-- What one of the steps asks is asked when all of them have been made. -/
theorem asks_foldl {α : Type} {f : Draft → α → Draft} {x : α} {xs : List α}
    (hf : ∀ (d : Draft) y, d.Before (f d y)) (hx : x ∈ xs)
    (h : ∀ d, (f d x).Asks k) :
    (xs.foldl f d).Asks k := by
  obtain ⟨before, behind, rfl⟩ := List.append_of_mem hx
  rw [List.foldl_append, List.foldl_cons]
  exact List.foldlRecOn behind f (h _) fun d hd y _ => Asks.mono hd (hf d y)

theorem says_addIds (ha : a ∈ d.names) (h : addIds s target a column ps d = .ok d') :
    ∀ p ∈ ps, ∃ k, d'.Asks k ∧ k.SaysId s target a column p := by
  induction ps generalizing d with
  | nil => exact nofun
  | cons p ps ih =>
    obtain ⟨q, hq, h⟩ := exists_of_bind_eq_ok h
    change addIds s target a column ps (d.addColumn (.asked a column target.idDbType q)) = _ at h
    refine List.forall_mem_cons.2 ⟨⟨_, ?_, q, hq, rfl⟩, ih (d := d.addColumn _) ha h⟩
    exact asks_addColumn.mono (steps_addIds (d := d.addColumn _) ha h).before

theorem says_addJunctionIds {idDbType : String} (ha : a ∈ d.names)
    (h : addJunctionIds s target a idDbType column ps d = .ok d') :
    ∀ p ∈ ps, ∃ k, d'.Asks k ∧ k.SaysJunction s target a idDbType column p := by
  induction ps generalizing d with
  | nil => exact nofun
  | cons p ps ih =>
    have hnull : ∀ {d : Draft} {p : Predicate}, a ∈ d.names →
        addJunctionIds s target a idDbType column ps (d.addColumn (.asked a "id" idDbType p)) = .ok d' →
          d'.Asks (ColumnCondition.asked a "id" idDbType p).split := fun {d _} ha h =>
      asks_addColumn.mono (steps_addJunctionIds (d := d.addColumn _) ha h).before
    unfold addJunctionIds at h
    split at h
    · exact absurd ‹_ :: _ = []› (List.cons_ne_nil _ _)
    · next hp =>
      obtain ⟨rfl, rfl⟩ := List.cons_eq_cons.1 hp
      exact List.forall_mem_cons.2 ⟨⟨_, hnull ha h, rfl⟩, ih (d := addColumn _ _) ha h⟩
    · next hp =>
      obtain ⟨rfl, rfl⟩ := List.cons_eq_cons.1 hp
      exact List.forall_mem_cons.2 ⟨⟨_, hnull ha h, rfl⟩, ih (d := addColumn _ _) ha h⟩
    · next hisNull hnotNull hp =>
      obtain ⟨rfl, rfl⟩ := List.cons_eq_cons.1 hp
      obtain ⟨d₁, hd₁, h⟩ := exists_of_bind_eq_ok h
      have hfirst := steps_addIds ha hd₁
      have hrest := steps_addJunctionIds (hfirst.names_subset ha) h
      refine List.forall_mem_cons.2 ⟨?_, ih (hfirst.names_subset ha) h⟩
      obtain ⟨k, hk, hsays⟩ := says_addIds ha hd₁ p (List.mem_singleton_self p)
      refine ⟨k, hk.mono hrest.before, ?_⟩
      unfold Condition.SaysJunction
      split
      · exact (hisNull rfl).elim
      · exact (hnotNull rfl).elim
      · exact hsays

end Draft

/-! ### Polymorphic references -/

/-- The column that a value belongs to is at its position. -/
theorem Target.mem_zipIdx_of_identify {targets : List Target} {field : String} {nil : NilIds}
    {v id : Value} {i : Nat} {t : Target} (h : identify targets field nil v = .ok (i, t, id)) :
    (t, i) ∈ targets.zipIdx := by
  unfold identify at h
  split at h
  · next hposition =>
    obtain ⟨stored, -, h⟩ := exists_of_bind_eq_ok h
    cases h
    obtain ⟨j, -, hj⟩ := Option.bind_eq_some_iff.1 hposition
    obtain ⟨_, ht, heq⟩ := Option.map_eq_some_iff.1 hj
    obtain ⟨rfl, rfl⟩ := Prod.mk.inj heq
    exact List.mk_mem_zipIdx_iff_getElem?.2 ht
  · cases h

theorem Target.eq_nil_of_ofComponents {s : Setting} {components : List Component}
    (h : ofComponents s components = .ok []) : components = [] := by
  cases components with
  | nil => rfl
  | cons c cs =>
    rw [ofComponents, List.mapM_cons] at h
    obtain ⟨_, -, h⟩ := exists_of_bind_eq_ok h
    obtain ⟨_, -, h⟩ := exists_of_bind_eq_ok h
    cases h

/-- Values that are not null belong to a column each. -/
theorem Target.grouped_ne_nil {targets : List Target} {field : String} {nil : NilIds}
    {vs : List Value} {groups : List (Target × List Value)}
    (h : grouped targets field nil vs = .ok groups) (hvs : withoutNulls vs ≠ []) : groups ≠ [] := by
  obtain ⟨ids, hids, h⟩ := exists_of_bind_eq_ok h
  obtain ⟨v, rest, hv⟩ := List.exists_cons_of_ne_nil hvs
  rw [hv, List.mapM_cons] at hids
  obtain ⟨⟨i, t, id⟩, hid, hids⟩ := exists_of_bind_eq_ok hids
  obtain ⟨others, -, hids⟩ := exists_of_bind_eq_ok hids
  obtain rfl := Except.ok.inj hids
  have ht := mem_zipIdx_of_identify hid
  obtain rfl := Except.ok.inj h
  refine List.ne_nil_of_mem (a := (t, _)) (List.mem_filter.2 ⟨List.mem_map.2 ⟨(t, i), ht, rfl⟩, ?_⟩)
  simp

namespace Draft

variable {components : List Component}

theorem says_addPolymorphic (h : d.addPolymorphic s a name components p = .ok d') :
    (p = .notIn [] ∨ (p = .isNull ∧ components = [])) ∨ ∃ targets,
      Target.ofComponents s components = .ok targets ∧
        ∃ k, d'.Asks k ∧ Target.Says targets a name s.config.nilIds p k := by
  obtain ⟨targets, htargets, h⟩ := exists_of_bind_eq_ok h
  split at h
  · cases targets with
    | nil => exact .inl (.inr ⟨rfl, Target.eq_nil_of_ofComponents htargets⟩)
    | cons t ts =>
      refine .inr ⟨_, htargets, _, ?_, t, List.mem_cons_self, rfl⟩
      exact Except.ok.inj h ▸ asks_foldl (fun _ _ => before_addColumn) List.mem_cons_self
        fun _ => asks_addColumn
  · exact .inr ⟨_, htargets, _, Except.ok.inj h ▸ asks_addGroup rfl, rfl⟩
  · obtain ⟨⟨i, t, id⟩, hid, h⟩ := exists_of_bind_eq_ok h
    exact .inr ⟨_, htargets, _, Except.ok.inj h ▸ asks_addColumn, i, t, id, hid, rfl⟩
  · obtain ⟨⟨i, t, id⟩, hid, h⟩ := exists_of_bind_eq_ok h
    exact .inr ⟨_, htargets, _, Except.ok.inj h ▸ asks_addGroup rfl, i, t, id, hid, rfl⟩
  · obtain ⟨groups, hgroups, h⟩ := exists_of_bind_eq_ok h
    exact .inr ⟨_, htargets, _, Except.ok.inj h ▸ asks_addGroup rfl, groups, hgroups, rfl⟩
  · next vs _ =>
    obtain ⟨groups, hgroups, h⟩ := exists_of_bind_eq_ok h
    obtain rfl := Except.ok.inj h
    by_cases hnull : vs.any Value.isNull
    · refine .inr ⟨_, htargets, _, ?_, .inl ⟨hnull, rfl⟩⟩
      rw [if_pos hnull]
      exact List.foldlRecOn (motive := (Asks · _)) groups _ (asks_addGroup rfl)
        fun d hd r _ => Asks.mono hd before_addGroup
    · cases vs with
      | nil => exact .inl (.inl rfl)
      | cons v vs =>
        have hall : withoutNulls (v :: vs) = v :: vs := List.filter_eq_self.2 (by simpa using hnull)
        have hsome : withoutNulls (v :: vs) ≠ [] := by
          rw [hall]
          exact List.cons_ne_nil v vs
        obtain ⟨r, rest, rfl⟩ :=
          List.exists_cons_of_ne_nil (Target.grouped_ne_nil hgroups hsome)
        refine .inr ⟨_, htargets, _, ?_, .inr ⟨_, hgroups, r, List.mem_cons_self, rfl⟩⟩
        exact asks_foldl (fun _ _ => before_addGroup) List.mem_cons_self fun _ => asks_addGroup rfl
  · cases h

theorem hears_addPolymorphics {components : List Component} (hkind : site.kind = .polymorphic components)
    (ha : site.columnAlias a ∈ d.names)
    (h : ps.foldlM (fun d p => d.addPolymorphic s (site.columnAlias a) name components p) d = .ok d') :
    d'.Hears s e a name site ps := by
  induction ps generalizing d with
  | nil => exact nofun
  | cons p ps ih =>
    obtain ⟨d₁, hd₁, h⟩ := exists_of_bind_eq_ok h
    have hnames := (steps_addPolymorphic ha hd₁).names_subset
    refine List.forall_mem_cons.2 ⟨?_, ih (hnames ha) h⟩
    rcases says_addPolymorphic hd₁ with hvoid | ⟨targets, htargets, k, hk, hsays⟩
    · exact .inl ⟨components, hkind, hvoid⟩
    · refine .inr ⟨k, hk.mono (steps_addPolymorphics (hnames ha) h).before, ?_⟩
      unfold FieldSite.Says
      rw [hkind]
      exact ⟨targets, htargets, hsays⟩

/-! ### Tables of related entities -/

theorem hasJoin_addEntity {j : Join} (hj : j.own.aliasName = j.aliasName)
    (h : d.addEntity s e (.join j) = .ok d') : d'.HasJoin j.table j.parent j.own := by
  obtain ⟨joins, deletion, -, -, rfl⟩ := addEntity_eq_ok h
  exact ⟨j, List.mem_append_right _ List.mem_cons_self, hj.symm, rfl, rfl, rfl⟩

theorem joinTarget_eq_ok {kind : JoinKind} {f : NestedFilter}
    (h : d.joinTarget s target parent kind f = .ok d') : ∃ own d₁, d.Before d₁ ∧
      d₁.HasJoin target.tableName parent ⟨own, "id"⟩ ∧
      Housed d₁.names own target.baseTypes.length ∧ f.matchOn target own (kind = .outer) d₁ = .ok d' := by
  obtain ⟨d₁, hd₁, h⟩ := exists_of_bind_eq_ok h
  exact ⟨_, d₁, { before_addEntity hd₁ with }, hasJoin_addEntity (by rfl) hd₁, housed_addEntity hd₁, h⟩

theorem matchReferrer_eq_ok {collection : Bool} {asked : Asked}
    (h : d.matchReferrer s target a column collection asked = .ok d') : ∃ own d₁,
      d₁.HasJoin target.tableName ⟨a, "id"⟩ ⟨own, column⟩ ∧
      Housed d₁.names own target.baseTypes.length ∧
      (match asked with
      | .predicates ps => addIds s target own "id" ps d₁
      | .nested f => f.matchOn target own true d₁) = .ok d' := by
  obtain ⟨d₁, hd₁, h⟩ := exists_of_bind_eq_ok h
  refine ⟨_, d₁, ?_, ?_, h⟩
  · split_ifs at hd₁
    · rw [addEntity_addCollection] at hd₁
      obtain ⟨d₂, hd₂, rfl⟩ := exists_of_map_eq_ok hd₁
      have hjoin : d₂.HasJoin target.tableName ⟨a, "id"⟩ ⟨_, column⟩ := hasJoin_addEntity (by rfl) hd₂
      exact hjoin
    · exact hasJoin_addEntity (by rfl) hd₁
  · exact housed_addEntity hd₁

theorem matchManyToMany_eq_ok {otherColumn idDbType : String} {asked : Asked}
    (h : d.matchManyToMany s target a table column otherColumn idDbType asked = .ok d') : ∃ own d₁,
      d₁.HasJoin table ⟨a, "id"⟩ ⟨own, column⟩ ∧ own ∈ d₁.names ∧
      (match asked with
      | .predicates ps => addJunctionIds s target own idDbType otherColumn ps d₁
      | .nested f => do
        if ← f.needsJoin s target then d₁.joinTarget s target ⟨own, otherColumn⟩ .outer f
        else addJunctionIds s target own idDbType otherColumn f.idPredicates d₁) = .ok d' := by
  refine ⟨(d.nextAlias table).1, _, ?_, ?_, h⟩
  · exact ⟨_, List.mem_append_right _ (List.mem_singleton_self _), rfl, rfl, rfl, rfl⟩
  · exact List.mem_map.2 ⟨_, List.mem_append_right _ (List.mem_singleton_self _), rfl⟩

/-! ### Entries -/

/-- The predicates that are asked of a field are heard there. -/
theorem hears_matchField (he : e ∈ s.schema.entities) (ha : Housed d.names a e.baseTypes.length)
    {outer : Bool} (h : d.matchField s e a outer name (.predicates ps) = .ok d') :
    ∃ site, s.resolve e name = .ok site ∧ d'.Hears s e a name site ps := by
  obtain ⟨site, hsite, h⟩ := exists_of_bind_eq_ok h
  have hcolumn : site.columnAlias a ∈ d.names := Setting.columnAlias_mem he hsite ha
  refine ⟨site, hsite, ?_⟩
  obtain ⟨field, kind, owner, base⟩ := site
  cases kind with
  | primaryKey =>
    intro p hp
    exact .inr (says_addIds ha.mem h p hp)
  | primitive column dbType =>
    intro p hp
    refine .inr ⟨_, ?_, rfl⟩
    exact Except.ok.inj h ▸ asks_foldl (fun _ _ => before_addColumn) hp fun _ => asks_addColumn
  | enumeration column dbType =>
    intro p hp
    refine .inr ⟨_, ?_, rfl⟩
    exact Except.ok.inj h ▸ asks_foldl (fun _ _ => before_addColumn) hp fun _ => asks_addColumn
  | manyToOne column other needed =>
    obtain ⟨target, htarget, h⟩ := exists_of_bind_eq_ok h
    intro p hp
    obtain ⟨k, hk, hsays⟩ := says_addIds hcolumn h p hp
    exact .inr ⟨k, hk, target, htarget, hsays⟩
  | oneToOne other column =>
    obtain ⟨target, htarget, h⟩ := exists_of_bind_eq_ok h
    obtain ⟨own, d₁, hjoin, hown, h⟩ := matchReferrer_eq_ok h
    intro p hp
    obtain ⟨k, hk, hsays⟩ := says_addIds hown.mem h p hp
    exact .inr ⟨k, hk, target, own, htarget, hjoin.mono (steps_addIds hown.mem h).before, hsays⟩
  | oneToMany other column =>
    obtain ⟨target, htarget, h⟩ := exists_of_bind_eq_ok h
    obtain ⟨own, d₁, hjoin, hown, h⟩ := matchReferrer_eq_ok h
    intro p hp
    obtain ⟨k, hk, hsays⟩ := says_addIds hown.mem h p hp
    exact .inr ⟨k, hk, target, own, htarget, hjoin.mono (steps_addIds hown.mem h).before, hsays⟩
  | manyToMany table column otherColumn other idDbType =>
    obtain ⟨target, htarget, h⟩ := exists_of_bind_eq_ok h
    obtain ⟨own, d₁, hjoin, hown, h⟩ := matchManyToMany_eq_ok h
    intro p hp
    obtain ⟨k, hk, hsays⟩ := says_addJunctionIds hown h p hp
    exact .inr ⟨k, hk, target, own, htarget, hjoin.mono (steps_addJunctionIds hown h).before, hsays⟩
  | polymorphic components => exact hears_addPolymorphics rfl hcolumn h

/-- A nested filter is read off for the column that refers to the related entity, or matched on the
entity's table. -/
theorem matchField_nested (he : e ∈ s.schema.entities) (ha : Housed d.names a e.baseTypes.length)
    {outer : Bool} {f : NestedFilter} (h : d.matchField s e a outer name (.nested f) = .ok d') :
    ∃ site, s.resolve e name = .ok site ∧
      ((site.OnColumn s f.aliasName f.onlyId ∧ d'.Hears s e a name site f.idPredicates) ∨
        ∃ target own outer' d₁, site.Refers s target ∧ target ∈ s.schema.entities ∧
          site.Joined d₁ a target own ∧ Housed d₁.names own target.baseTypes.length ∧
          f.matchOn target own outer' d₁ = .ok d') := by
  obtain ⟨site, hsite, h⟩ := exists_of_bind_eq_ok h
  have hcolumn : site.columnAlias a ∈ d.names := Setting.columnAlias_mem he hsite ha
  refine ⟨site, hsite, ?_⟩
  obtain ⟨field, kind, owner, base⟩ := site
  cases kind with
  | primaryKey => cases h
  | primitive => cases h
  | enumeration => cases h
  | manyToOne column other needed =>
    obtain ⟨target, htarget, h⟩ := exists_of_bind_eq_ok h
    obtain ⟨needsJoin, hneeds, h⟩ := exists_of_bind_eq_ok h
    cases needsJoin with
    | true =>
      obtain ⟨own, d₁, -, hjoin, hown, h⟩ := joinTarget_eq_ok h
      exact .inr ⟨target, own, _, d₁, htarget, Setting.mem_of_entity htarget, hjoin, hown, h⟩
    | false =>
      obtain ⟨hname, hid, hdeletion⟩ := NestedFilter.onColumn_of_needsJoin hneeds
      refine .inl ⟨⟨hname, hid, target, htarget, hdeletion⟩, fun p hp => ?_⟩
      obtain ⟨k, hk, hsays⟩ := says_addIds hcolumn h p hp
      exact .inr ⟨k, hk, target, htarget, hsays⟩
  | oneToOne other column =>
    obtain ⟨target, htarget, h⟩ := exists_of_bind_eq_ok h
    obtain ⟨own, d₁, hjoin, hown, h⟩ := matchReferrer_eq_ok h
    exact .inr ⟨target, own, _, d₁, htarget, Setting.mem_of_entity htarget, hjoin, hown, h⟩
  | oneToMany other column =>
    obtain ⟨target, htarget, h⟩ := exists_of_bind_eq_ok h
    obtain ⟨own, d₁, hjoin, hown, h⟩ := matchReferrer_eq_ok h
    exact .inr ⟨target, own, _, d₁, htarget, Setting.mem_of_entity htarget, hjoin, hown, h⟩
  | manyToMany table column otherColumn other idDbType =>
    obtain ⟨target, htarget, h⟩ := exists_of_bind_eq_ok h
    obtain ⟨junction, d₁, hjunction, hmem, h⟩ := matchManyToMany_eq_ok h
    obtain ⟨needsJoin, hneeds, h⟩ := exists_of_bind_eq_ok h
    cases needsJoin with
    | true =>
      obtain ⟨own, d₂, hbefore, hjoin, hown, h⟩ := joinTarget_eq_ok h
      exact .inr ⟨target, own, _, d₂, htarget, Setting.mem_of_entity htarget,
        ⟨junction, hjunction.mono hbefore, hjoin⟩, hown, h⟩
    | false =>
      obtain ⟨hname, hid, hdeletion⟩ := NestedFilter.onColumn_of_needsJoin hneeds
      refine .inl ⟨⟨hname, hid, target, htarget, hdeletion⟩, fun p hp => ?_⟩
      obtain ⟨k, hk, hsays⟩ := says_addJunctionIds hmem h p hp
      exact .inr ⟨k, hk, target, junction, htarget,
        hjunction.mono (steps_addJunctionIds hmem h).before, hsays⟩
  | polymorphic components =>
    obtain ⟨ps, hps, h⟩ := exists_of_bind_eq_ok h
    simp only [polymorphicPredicates] at hps
    split_ifs at hps with hread
    obtain rfl := Except.ok.inj hps
    rw [Bool.and_eq_true, Option.isNone_iff_eq_none] at hread
    exact .inl ⟨⟨hread.1, hread.2, trivial⟩, hears_addPolymorphics rfl hcolumn h⟩

end Draft

end

end EntityQuery
