import EntityQuery.Find.Draft
import EntityQuery.Proofs.Draft.Names
import EntityQuery.Proofs.Failure.Basic
import EntityQuery.Proofs.Scoping.Existence

/-!
# Growing join trees

The tables of a plan under construction are a join tree.  It grows behind: by the table of an entity,
with the tables of its bases joined to it.

* `JoinTree.append`, `JoinTree.Extends`: a join tree with more joins behind;
* `Housed`, `JoinTree.Houses`: an entity's table is there with those of its bases;
* `JoinTree.required`, `JoinTree.Hosts`: the tables that have a row wherever the primary one has;
* `Setting.ordered_baseJoins`, `JoinTree.houses_append`: the joins of bases;
* `FieldSite.columnAlias_mem`: the table that holds a field.
-/

namespace EntityQuery

theorem Join.Ordered.append {names : List String} {js js' : List Join} (h : Join.Ordered names js)
    (h' : Join.Ordered (names ++ js.map (·.aliasName)) js') : Join.Ordered names (js ++ js') := by
  induction js generalizing names with
  | nil => simpa using h'
  | cons j js ih =>
    obtain ⟨hparent, hnew, hown, hrest⟩ := h
    exact ⟨hparent, hnew, hown, ih hrest (by simpa using h')⟩

/-- The table is named, and the tables of bases at the positions below `n` are. -/
structure Housed (names : List String) (a : String) (n : Nat) : Prop where
  mem : a ∈ names
  bases : ∀ i < n, baseAlias a i ∈ names

theorem Housed.mono {names names' : List String} {a : String} {n : Nat} (h : Housed names a n)
    (hsub : names ⊆ names') : Housed names' a n :=
  ⟨hsub h.mem, fun i hi => hsub (h.bases i hi)⟩

namespace JoinTree

/-- The tree with more joins behind. -/
def append (T : JoinTree) (js : List Join) (h : Join.Ordered T.aliases js) : JoinTree :=
  ⟨T.aliasName, T.table, T.joins ++ js, T.ordered.append h⟩

/-- The second tree has the tables of the first one, and perhaps more joins. -/
structure Extends (T T' : JoinTree) : Prop where
  aliasName : T'.aliasName = T.aliasName
  joins : T.joins ⊆ T'.joins

/-- The table is there, and tables of bases at the positions below `n` are joined to it. -/
structure Houses (T : JoinTree) (a : String) (n : Nat) : Prop where
  mem : a ∈ T.aliases
  bases : ∀ i < n, ∃ j ∈ T.joins,
    j.aliasName = baseAlias a i ∧ j.parent.aliasName = a ∧ j.distinct = some false

/-- The primary table and those that are joined to others by inner joins. -/
def required (T : JoinTree) : List String :=
  T.aliasName :: (T.joins.filter (·.kind = .inner)).map (·.aliasName)

/-- The table is there with those of its bases; unless it may have no row, they are required. -/
structure Hosts (T : JoinTree) (outer : Bool) (a : String) (n : Nat) : Prop where
  houses : T.Houses a n
  required : outer = false → Housed T.required a n

variable {T T' T'' : JoinTree} {a b : String} {n : Nat} {js : List Join} {j : Join} {outer : Bool}

theorem mem_required_of_inner (hj : j ∈ T.joins) (hkind : j.kind = .inner) :
    j.aliasName ∈ T.required :=
  List.mem_cons_of_mem _ (List.mem_map_of_mem (List.mem_filter.2 ⟨hj, decide_eq_true hkind⟩))

theorem Extends.refl : T.Extends T := ⟨rfl, List.Subset.refl _⟩

theorem Extends.trans (h : T.Extends T') (h' : T'.Extends T'') : T.Extends T'' :=
  ⟨h'.aliasName.trans h.aliasName, fun _ hj => h'.joins (h.joins hj)⟩

theorem extends_append {h : Join.Ordered T.aliases js} : T.Extends (T.append js h) :=
  ⟨rfl, List.subset_append_left _ _⟩

theorem Extends.mem_aliases (h : T.Extends T') (ha : a ∈ T.aliases) : a ∈ T'.aliases := by
  rcases List.mem_cons.1 ha with rfl | ha
  · rw [← h.aliasName]
    exact List.mem_cons_self
  · obtain ⟨j, hj, rfl⟩ := List.mem_map.1 ha
    exact aliasName_mem (h.joins hj)

theorem Extends.isPartOf (h : T.Extends T') (hpart : T.IsPartOf a b) : T'.IsPartOf a b :=
  hpart.imp_right fun ⟨j, hj, he⟩ => ⟨j, h.joins hj, he⟩

theorem Extends.houses (h : T.Extends T') (ha : T.Houses a n) : T'.Houses a n := by
  refine ⟨h.mem_aliases ha.mem, fun i hi => ?_⟩
  obtain ⟨j, hj, he⟩ := ha.bases i hi
  exact ⟨j, h.joins hj, he⟩

theorem Extends.required (h : T.Extends T') : T.required ⊆ T'.required := by
  intro a ha
  rcases List.mem_cons.1 ha with rfl | ha
  · rw [← h.aliasName]
    exact List.mem_cons_self
  · obtain ⟨j, hj, rfl⟩ := List.mem_map.1 ha
    obtain ⟨hj, hkind⟩ := List.mem_filter.1 hj
    exact mem_required_of_inner (h.joins hj) (of_decide_eq_true hkind)

theorem Extends.hosts (h : T.Extends T') (ha : T.Hosts outer a n) : T'.Hosts outer a n :=
  ⟨h.houses ha.houses, fun ho => (ha.required ho).mono h.required⟩

/-- A table that may have no row has no more to it. -/
theorem Houses.hosts (h : T.Houses a n) : T.Hosts true a n := ⟨h, nofun⟩

theorem Houses.isPartOf (h : T.Houses a n) {i : Nat} (hi : i < n) :
    T.IsPartOf a (baseAlias a i) := by
  obtain ⟨j, hj, he, hparent, hdistinct⟩ := h.bases i hi
  exact .inr ⟨j, hj, he, hparent, hdistinct⟩

theorem Houses.housed (h : T.Houses a n) : Housed T.aliases a n :=
  ⟨h.mem, fun _ hi => (h.isPartOf hi).mem_aliases h.mem⟩

theorem aliases_append {h : Join.Ordered T.aliases js} :
    (T.append js h).aliases = T.aliases ++ js.map (·.aliasName) := by
  simp [aliases, append]

theorem tables_append {h : Join.Ordered T.aliases js} :
    (T.append js h).tables = T.tables ++ js.map .join := by
  simp [tables, append]

end JoinTree

/-! ### Bases -/

namespace Setting

variable {s : Setting} {a : String} {kind : JoinKind} {i : Nat} {bases : List String}
  {joins : List Join}

/-- The joins of bases have the table of their entity as parent and names that follow from its
name. -/
theorem of_mem_baseJoins (h : s.baseJoins a kind i bases = .ok joins) : ∀ j ∈ joins,
    ∃ k, (i ≤ k ∧ k < i + bases.length) ∧ j.aliasName = baseAlias a k ∧ j.parent = ⟨a, "id"⟩ ∧
      j.distinct = some false ∧ j.kind = kind := by
  induction bases generalizing i joins with
  | nil =>
    obtain rfl := Except.ok.inj h
    intro j hj
    cases hj
  | cons base bases ih =>
    obtain ⟨b, -, h⟩ := exists_of_bind_eq_ok h
    obtain ⟨others, hothers, h⟩ := exists_of_bind_eq_ok h
    obtain rfl := Except.ok.inj h
    intro j hj
    rcases List.mem_cons.1 hj with rfl | hj
    · exact ⟨i, ⟨le_rfl, by simp⟩, rfl, rfl, rfl, rfl⟩
    · obtain ⟨k, hk, he⟩ := ih hothers j hj
      exact ⟨k, by rw [List.length_cons]; omega, he⟩

theorem exists_of_baseJoins (h : s.baseJoins a kind i bases = .ok joins) {k : Nat} (hk : i ≤ k)
    (hlt : k < i + bases.length) : ∃ j ∈ joins,
      j.aliasName = baseAlias a k ∧ j.parent.aliasName = a ∧ j.distinct = some false ∧
        j.kind = kind := by
  induction bases generalizing i joins with
  | nil =>
    rw [List.length_nil] at hlt
    omega
  | cons base bases ih =>
    obtain ⟨b, -, h⟩ := exists_of_bind_eq_ok h
    obtain ⟨others, hothers, h⟩ := exists_of_bind_eq_ok h
    obtain rfl := Except.ok.inj h
    rw [List.length_cons] at hlt
    by_cases he : k = i
    · rw [he]
      exact ⟨_, List.mem_cons_self, rfl, rfl, rfl, rfl⟩
    · obtain ⟨j, hj, hj'⟩ := ih hothers (by omega) (by omega)
      exact ⟨j, List.mem_cons_of_mem _ hj, hj'⟩

/-- The tables of bases can be joined behind tables among which theirs are not. -/
theorem ordered_baseJoins (h : s.baseJoins a kind i bases = .ok joins) {names : List String}
    (ha : a ∈ names) (hnew : ∀ k, i ≤ k → baseAlias a k ∉ names) : Join.Ordered names joins := by
  induction bases generalizing i joins names with
  | nil =>
    obtain rfl := Except.ok.inj h
    exact trivial
  | cons base bases ih =>
    obtain ⟨b, -, h⟩ := exists_of_bind_eq_ok h
    obtain ⟨others, hothers, h⟩ := exists_of_bind_eq_ok h
    obtain rfl := Except.ok.inj h
    refine ⟨ha, hnew i le_rfl, rfl, ih hothers (List.mem_append_left _ ha) fun k hk hm => ?_⟩
    rcases List.mem_append.1 hm with hm | hm
    · exact hnew k (by omega) hm
    · have := baseAlias_injective (List.mem_singleton.1 hm)
      omega

/-- The bases of a table are joined to it. -/
theorem houses_baseJoins {T : JoinTree} (h : s.baseJoins a kind 0 bases = .ok joins)
    (ha : a ∈ T.aliases) (hjoins : joins ⊆ T.joins) : T.Houses a bases.length := by
  refine ⟨ha, fun i hi => ?_⟩
  obtain ⟨j, hj, he, hparent, hdistinct, -⟩ := exists_of_baseJoins h (Nat.zero_le i) (by omega)
  exact ⟨j, hjoins hj, he, hparent, hdistinct⟩

/-- The bases of a table are there with it. -/
theorem housed_baseJoins (h : s.baseJoins a kind 0 bases = .ok joins) :
    Housed (a :: joins.map (·.aliasName)) a bases.length := by
  refine ⟨List.mem_cons_self, fun k hk => ?_⟩
  obtain ⟨j, hj, he, -⟩ := exists_of_baseJoins h (Nat.zero_le k) (by omega)
  exact List.mem_cons_of_mem _ (he ▸ List.mem_map_of_mem hj)

/-- The bases of a table are required with it. -/
theorem hosts_baseJoins {T : JoinTree} {outer : Bool} (h : s.baseJoins a kind 0 bases = .ok joins)
    (ha : a ∈ T.aliases) (hjoins : joins ⊆ T.joins)
    (hrequired : outer = false → kind = .inner ∧ a ∈ T.required) :
    T.Hosts outer a bases.length := by
  refine ⟨houses_baseJoins h ha hjoins, fun ho => ⟨(hrequired ho).2, fun i hi => ?_⟩⟩
  obtain ⟨j, hj, he, -, -, hkind⟩ := exists_of_baseJoins h (Nat.zero_le i) (by omega)
  rw [← he]
  exact JoinTree.mem_required_of_inner (hjoins hj) (hkind.trans (hrequired ho).1)

theorem baseIndex_lt_of_deletionOnBases {deletion : Option DeletionColumn}
    (h : s.deletionOnBases i bases = .ok deletion) :
    ∀ c ∈ deletion, ∃ k, c.baseIndex = some k ∧ k < i + bases.length := by
  induction bases generalizing i with
  | nil =>
    obtain rfl := Except.ok.inj h
    intro c hc
    cases hc
  | cons base bases ih =>
    obtain ⟨b, -, h⟩ := exists_of_bind_eq_ok h
    rw [List.length_cons]
    split_ifs at h with hdelete
    · obtain rfl := Except.ok.inj h
      intro c hc
      obtain rfl := Option.some.inj hc
      exact ⟨i, rfl, by omega⟩
    · intro c hc
      obtain ⟨k, hk, hlt⟩ := ih h c hc
      exact ⟨k, hk, by omega⟩

/-- The time of deletion is on the entity's own table or on that of one of its bases. -/
theorem baseIndex_lt_of_deletion? {e : Entity} {deletion : Option DeletionColumn}
    (h : s.deletion? e = .ok deletion) :
    ∀ c ∈ deletion, ∀ i, c.baseIndex = some i → i < e.baseTypes.length := by
  intro c hc i hi
  unfold deletion? at h
  split_ifs at h
  · obtain rfl := Except.ok.inj h
    cases hc
  · obtain rfl := Except.ok.inj h
    obtain rfl := Option.some.inj hc
    cases hi
  · split at h
    · next bases subs hinheritance =>
      obtain ⟨k, hk, hlt⟩ := baseIndex_lt_of_deletionOnBases h c hc
      obtain rfl := Option.some.inj (hi.symm.trans hk)
      rw [Entity.baseTypes, hinheritance]
      simpa using hlt
    · obtain ⟨b, -, h⟩ := exists_of_bind_eq_ok h
      obtain rfl := Except.ok.inj h
      split_ifs at hc
      · obtain rfl := Option.some.inj hc
        cases hi
      · cases hc
    · obtain rfl := Except.ok.inj h
      cases hc

end Setting

/-! ### Fields -/

theorem of_planning_eq_ok {α : Type} {answer : Except SchemaError α} {a : α}
    (h : planning answer = .ok a) : answer = .ok a := by
  cases answer with
  | error err => cases h
  | ok b => exact congrArg _ (Except.ok.inj h)

namespace Schema

variable {schema : Schema} {e : Entity} {name : String} {site : FieldSite}

/-- The kind is that of a field of some entity, or that of ids. -/
def Declares (schema : Schema) (kind : FieldKind) : Prop :=
  kind = .primaryKey ∨ ∃ e ∈ schema.entities, ∃ f ∈ e.fields, f.kind = kind

theorem declares_of_field? {f : Field} (he : e ∈ schema.entities) (h : e.field? name = some f) :
    schema.Declares f.kind := .inr ⟨e, he, f, List.mem_of_find?_eq_some h, rfl⟩

theorem of_resolveOnBases {i : Nat} {bases : List String}
    (h : schema.resolveOnBases e name i bases = .ok site) :
    (∃ k, site.baseIndex = some k ∧ k < i + bases.length) ∧ schema.Declares site.kind := by
  induction bases generalizing i with
  | nil => cases h
  | cons base bases ih =>
    obtain ⟨b, hb, h⟩ := exists_of_bind_eq_ok h
    rw [List.length_cons]
    split at h
    · next f hf =>
      obtain rfl := Except.ok.inj h
      exact ⟨⟨i, rfl, by omega⟩, declares_of_field? (mem_of_entity hb) hf⟩
    · obtain ⟨⟨k, hk, hlt⟩, hkind⟩ := ih h
      exact ⟨⟨k, hk, by omega⟩, hkind⟩

theorem exists_of_inSharedTable {answer : Except SchemaError FieldSite}
    (h : inSharedTable e name answer = .ok site) :
    ∃ site', answer = .ok site' ∧ site = { site' with baseIndex := none } := by
  unfold inSharedTable at h
  split at h
  · next site' => exact ⟨site', rfl, (Except.ok.inj h).symm⟩
  · cases h
  · cases h

/-- A field is on the entity's own table or on that of one of its bases. -/
theorem of_resolveWithin : ∀ {depth : Nat} {e : Entity} {site : FieldSite}, e ∈ schema.entities →
    schema.resolveWithin depth e name = .ok site →
    (∀ i, site.baseIndex = some i → i < e.baseTypes.length) ∧ schema.Declares site.kind := by
  intro depth e site he h
  unfold resolveWithin at h
  split_ifs at h
  · obtain rfl := Except.ok.inj h
    exact ⟨nofun, .inl rfl⟩
  split at h
  · next f hf =>
    obtain rfl := Except.ok.inj h
    exact ⟨nofun, declares_of_field? he hf⟩
  split at h
  · next bases subs hinheritance =>
    obtain ⟨⟨k, hk, hlt⟩, hkind⟩ := of_resolveOnBases h
    refine ⟨fun i hi => ?_, hkind⟩
    obtain rfl := Option.some.inj (hi.symm.trans hk)
    rw [Entity.baseTypes, hinheritance]
    simpa using hlt
  · -- the table is shared with the base, so the field may be further up
    cases depth with
    | zero => cases h
    | succ depth =>
      obtain ⟨b, hb, h⟩ := exists_of_bind_eq_ok h
      obtain ⟨site', hsite', rfl⟩ := exists_of_inSharedTable h
      exact ⟨nofun, (of_resolveWithin (mem_of_entity hb) hsite').2⟩
  · cases h

end Schema

namespace Setting

variable {s : Setting} {e : Entity} {name : String} {site : FieldSite}

theorem mem_of_entity {typeName : String} (h : s.entity typeName = .ok e) :
    e ∈ s.schema.entities := Schema.mem_of_entity (of_planning_eq_ok h)

/-- The table that holds a field of an entity is there where the entity's tables are. -/
theorem columnAlias_mem {names : List String} {a : String} (he : e ∈ s.schema.entities)
    (h : s.resolve e name = .ok site) (ha : Housed names a e.baseTypes.length) :
    site.columnAlias a ∈ names := by
  have hindex := (Schema.of_resolveWithin he (of_planning_eq_ok h)).1
  unfold FieldSite.columnAlias
  split
  · next i hi => exact ha.bases i (hindex i hi)
  · exact ha.mem

theorem declares_of_resolve (he : e ∈ s.schema.entities) (h : s.resolve e name = .ok site) :
    s.schema.Declares site.kind := (Schema.of_resolveWithin he (of_planning_eq_ok h)).2

end Setting

end EntityQuery
