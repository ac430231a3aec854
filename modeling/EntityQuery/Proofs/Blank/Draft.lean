import EntityQuery.Proofs.Missing.Passes

/-!
# Filters that ask for nothing

A filter may name tables and lead through relations without asking for any value.  Its match joins
tables to a draft, and adds no conditions but those that come with these tables.

* `EntityFilter.isBlank`: no value occurs in the filter;
* `Draft.Pads`: a draft with more joins, and with the conditions that came with them;
* `EntityFilter.pads_match`: the match of a filter that asks for nothing;
* `Draft.Bare`, `Draft.bare_ofQuery`: the draft of a query without filter;
* `Draft.pads_ofQuery`: that of a query with a filter that asks for nothing.
-/

namespace EntityQuery

mutual

/-- The filter names tables and leads through relations, and asks for no value. -/
def EntityFilter.isBlank : EntityFilter → Bool
  | ⟨_, fields⟩ => FieldFilter.allBlank fields

/-- The entries ask for no value. -/
def FieldFilter.allBlank : List FieldFilter → Bool
  | [] => true
  | ⟨_, v⟩ :: rest => v.isBlank && FieldFilter.allBlank rest

/-- Nothing is asked of the field but to name its table. -/
def FilterValue.isBlank : FilterValue → Bool
  | .undefined => true
  | .scalar _ => false
  | .list _ => false
  | .operators ps => ps.isEmpty
  | .nested f => f.isBlank
  | .binding _ => true

end

/-! ### What is asked of ids -/

theorem FilterValue.predicates?_of_isBlank {v : FilterValue} (h : v.isBlank = true) :
    v.predicates?.getD [] = [] := by
  cases v with
  | undefined | nested | binding => rfl
  | scalar | list => cases h
  | operators ps =>
    obtain rfl := List.isEmpty_iff.1 h
    rfl

theorem EntityFilter.idPredicates_of_isBlank {f : EntityFilter} (h : f.isBlank = true) :
    f.idPredicates = [] := by
  obtain ⟨name, fields⟩ := f
  have hfields : ∀ {fields : List FieldFilter} {v : FilterValue}, FieldFilter.allBlank fields = true →
      (fields.find? (·.name = "id")).map (·.value) = some v → v.isBlank = true := by
    intro fields v hblank hv
    induction fields with
    | nil => cases hv
    | cons field fields ih =>
      obtain ⟨name, w⟩ := field
      rw [FieldFilter.allBlank, Bool.and_eq_true] at hblank
      by_cases hname : name = "id"
      · rw [List.find?_cons_of_pos (by simpa using hname)] at hv
        exact Option.some.inj hv ▸ hblank.1
      · rw [List.find?_cons_of_neg (by simpa using hname)] at hv
        exact ih hblank.2 hv
  rw [idPredicates, get?]
  cases hv : (fields.find? (·.name = "id")).map (·.value) with
  | none => rfl
  | some v => exact FilterValue.predicates?_of_isBlank (hfields h hv)

/-! ### More joins -/

/-- The draft with these joins behind its tables, and with conditions that came with them. -/
structure Draft.PadsBy (d d' : Draft) (js : List Join) (ks : List Condition) (cs : List Join) : Prop
    extends d.GrowsBy d' js ks cs where
  idle : ∀ k ∈ ks, k.Idle (js.map (·.aliasName))
  recorded : cs ⊆ js

/-- The draft with more joins, of which nothing was asked. -/
def Draft.Pads (d d' : Draft) : Prop := ∃ js ks cs, d.PadsBy d' js ks cs

/-- Nothing but joins comes of what is asked. -/
def Asked.Blank : Asked → Prop
  | .predicates ps => ps = []
  | .nested f => f.idPredicates = [] ∧
    ∀ {e : Entity} {a : String} {outer : Bool} {d d' : Draft}, f.matchOn e a outer d = .ok d' → d.Pads d'

namespace Draft

variable {s : Setting} {d d' d'' : Draft} {e target : Entity} {a column : String} {j : Join}
  {asked : Asked}

namespace Pads

theorem refl : d.Pads d := ⟨[], [], [], ⟨.refl, nofun, List.Subset.refl _⟩⟩

theorem trans (h : d.Pads d') (h' : d'.Pads d'') : d.Pads d'' := by
  obtain ⟨js, ks, cs, h⟩ := h
  obtain ⟨js', ks', cs', h'⟩ := h'
  refine ⟨_, _, _, ⟨h.toGrowsBy.trans h'.toGrowsBy, ?_, append_subset_append h.recorded h'.recorded⟩⟩
  rw [List.map_append]
  exact List.forall_mem_append.2 ⟨fun k hk => (h.idle k hk).mono (List.subset_append_left _ _),
    fun k hk => (h'.idle k hk).mono (List.subset_append_right _ _)⟩

/-- A name that is taken or given adds nothing. -/
theorem nextAlias (table : String) : d.Pads (d.nextAlias table).2 :=
  ⟨_, _, _, ⟨.nextAlias table, nofun, List.Subset.refl _⟩⟩

theorem bind (name : String) : d.Pads (d.bind name a e) :=
  ⟨_, _, _, ⟨.bind name, nofun, List.Subset.refl _⟩⟩

/-- The table of an entity, with those of its bases. -/
theorem addEntity (h : d.addEntity s e (.join j) = .ok d') : d.Pads d' ∧ d.Pads (d'.addCollection j) := by
  obtain ⟨joins, deletion, hjoins, hdeletion, hgrows⟩ := GrowsBy.addEntity h
  have hidle := idle_implied hdeletion (Setting.housed_baseJoins hjoins)
  refine ⟨⟨_, _, _, ⟨hgrows, hidle, List.nil_subset _⟩⟩, ⟨_, _, _, ⟨hgrows.trans .addCollection, ?_, ?_⟩⟩⟩
  · rw [List.append_nil, List.append_nil]
    exact hidle
  · rw [List.append_nil]
    exact List.cons_subset.2 ⟨List.mem_cons_self, List.nil_subset _⟩

/-- The table of a junction. -/
theorem junction (idDbType : String) : d.Pads ((d.addCollection j).addTable (.join j) idDbType) :=
  ⟨_, _, _, ⟨.trans .addCollection (.addTable idDbType), nofun, List.Subset.refl _⟩⟩

end Pads

/-! ### Entries -/

theorem pads_joinTarget {parent : ColumnRef} {kind : JoinKind} {f : NestedFilter}
    (hf : (Asked.nested f).Blank) (h : d.joinTarget s target parent kind f = .ok d') : d.Pads d' := by
  obtain ⟨d₁, hd₁, h⟩ := exists_of_bind_eq_ok h
  exact (Pads.nextAlias target.tableName).trans ((Pads.addEntity hd₁).1.trans (hf.2 h))

theorem pads_matchManyToOne {parent : ColumnRef} {needed outer : Bool} (hasked : asked.Blank)
    (h : d.matchManyToOne s target parent needed outer asked = .ok d') : d.Pads d' := by
  cases asked with
  | predicates ps =>
    obtain rfl : ps = [] := hasked
    exact Except.ok.inj h ▸ .refl
  | nested f =>
    obtain ⟨needsJoin, -, h⟩ := exists_of_bind_eq_ok h
    cases needsJoin with
    | true => exact pads_joinTarget hasked h
    | false =>
      rw [hasked.1] at h
      exact Except.ok.inj h ▸ .refl

theorem pads_matchReferrer {otherColumn : String} {collection : Bool} (hasked : asked.Blank)
    (h : d.matchReferrer s target a otherColumn collection asked = .ok d') : d.Pads d' := by
  obtain ⟨d₁, hd₁, h⟩ := exists_of_bind_eq_ok h
  have hjoined : d.Pads d₁ := by
    refine (Pads.nextAlias target.tableName).trans ?_
    split_ifs at hd₁
    · rw [addEntity_addCollection] at hd₁
      obtain ⟨d₂, hd₂, rfl⟩ := exists_of_map_eq_ok hd₁
      exact (Pads.addEntity hd₂).2
    · exact (Pads.addEntity hd₁).1
  cases asked with
  | predicates ps =>
    obtain rfl : ps = [] := hasked
    exact Except.ok.inj h ▸ hjoined
  | nested f => exact hjoined.trans (hasked.2 h)

theorem pads_matchManyToMany {table otherColumn idDbType : String} (hasked : asked.Blank)
    (h : d.matchManyToMany s target a table column otherColumn idDbType asked = .ok d') :
    d.Pads d' := by
  have hjoined := (Pads.nextAlias (d := d) table).trans (Pads.junction idDbType
    (j := ⟨(d.nextAlias table).1, table, .outer, ⟨a, "id"⟩, ⟨(d.nextAlias table).1, column⟩, none⟩))
  refine hjoined.trans ?_
  cases asked with
  | predicates ps =>
    obtain rfl : ps = [] := hasked
    exact Except.ok.inj h ▸ .refl
  | nested f =>
    obtain ⟨needsJoin, -, h⟩ := exists_of_bind_eq_ok h
    split_ifs at h
    · exact pads_joinTarget hasked h
    · rw [hasked.1] at h
      exact Except.ok.inj h ▸ .refl

/-- Where nothing is asked of a value, it has no predicates. -/
theorem onValue_of_blank {field : String} {ps : List Predicate} (hasked : asked.Blank)
    (h : asked.onValue e field = .ok ps) : ps = [] := by
  cases asked with
  | predicates qs => exact Except.ok.inj h ▸ hasked
  | nested f => cases h

theorem polymorphicPredicates_of_blank {field : String} {ps : List Predicate}
    (hasked : asked.Blank) (h : polymorphicPredicates e field asked = .ok ps) : ps = [] := by
  cases asked with
  | predicates qs => exact Except.ok.inj h ▸ hasked
  | nested f =>
    simp only [polymorphicPredicates] at h
    split_ifs at h
    exact Except.ok.inj h ▸ hasked.1

/-- An entry that asks for nothing. -/
theorem pads_matchField {outer : Bool} {name : String} (hasked : asked.Blank)
    (h : d.matchField s e a outer name asked = .ok d') : d.Pads d' := by
  obtain ⟨site, -, h⟩ := exists_of_bind_eq_ok h
  split at h
  · obtain ⟨ps, hps, h⟩ := exists_of_bind_eq_ok h
    obtain rfl := onValue_of_blank hasked hps
    exact Except.ok.inj h ▸ .refl
  · obtain ⟨ps, hps, h⟩ := exists_of_bind_eq_ok h
    obtain rfl := onValue_of_blank hasked hps
    exact Except.ok.inj h ▸ .refl
  · obtain ⟨ps, hps, h⟩ := exists_of_bind_eq_ok h
    obtain rfl := onValue_of_blank hasked hps
    exact Except.ok.inj h ▸ .refl
  · obtain ⟨target, -, h⟩ := exists_of_bind_eq_ok h
    exact pads_matchManyToOne hasked h
  · obtain ⟨target, -, h⟩ := exists_of_bind_eq_ok h
    exact pads_matchReferrer hasked h
  · obtain ⟨target, -, h⟩ := exists_of_bind_eq_ok h
    exact pads_matchReferrer hasked h
  · obtain ⟨target, -, h⟩ := exists_of_bind_eq_ok h
    exact pads_matchManyToMany hasked h
  · obtain ⟨ps, hps, h⟩ := exists_of_bind_eq_ok h
    obtain rfl := polymorphicPredicates_of_blank hasked hps
    exact Except.ok.inj h ▸ .refl

end Draft

/-! ### Filters -/

section

variable {s : Setting}

mutual

/-- The match of a filter that asks for nothing only joins tables. -/
theorem EntityFilter.pads_match : ∀ {f : EntityFilter}, f.isBlank = true → ∀ {e : Entity} {a : String}
    {outer : Bool} {d d' : Draft}, EntityFilter.match s e a outer f d = .ok d' → d.Pads d'
  | ⟨none, _⟩, hf, _, _, _, _, _, h => FieldFilter.pads_matchAll hf h
  | ⟨some name, _⟩, hf, _, _, _, _, _, h =>
    (Draft.Pads.bind name).trans (FieldFilter.pads_matchAll hf h)

theorem FieldFilter.pads_matchAll : ∀ {fs : List FieldFilter}, FieldFilter.allBlank fs = true →
    ∀ {e : Entity} {a : String} {outer : Bool} {d d' : Draft},
      FieldFilter.matchAll s e a outer fs d = .ok d' → d.Pads d'
  | [], _, _, _, _, _, _, h => Except.ok.inj h ▸ .refl
  | ⟨_, v⟩ :: _, hfs, _, _, _, _, _, h => by
    obtain ⟨hv, hfs⟩ := Bool.and_eq_true_iff.1 hfs
    obtain ⟨d₁, hd₁, h⟩ := exists_of_bind_eq_ok h
    exact (FilterValue.pads_match hv hd₁).trans (FieldFilter.pads_matchAll hfs h)

theorem FilterValue.pads_match : ∀ {v : FilterValue}, v.isBlank = true → ∀ {e : Entity}
    {a name : String} {outer : Bool} {d d' : Draft},
      FilterValue.match s e a outer name v d = .ok d' → d.Pads d'
  | .undefined, _, _, _, _, _, _, _, h => Except.ok.inj h ▸ .refl
  | .operators [], _, _, _, _, _, _, _, h =>
    Draft.pads_matchField (show Asked.Blank (.predicates []) from rfl) h
  | .nested _, hf, _, _, _, _, _, _, h => by
    refine Draft.pads_matchField (show Asked.Blank (.nested _) from
      ⟨EntityFilter.idPredicates_of_isBlank hf, fun hmatch => ?_⟩) h
    exact EntityFilter.pads_match hf hmatch
  | .binding user, _, _, _, _, _, _, _, h => by
    refine Draft.pads_matchField (show Asked.Blank (.nested _) from ⟨rfl, fun hmatch => ?_⟩) h
    exact Except.ok.inj hmatch ▸ Draft.Pads.bind user

end

end

/-! ### Queries -/

/-- A draft of which nothing was asked: all columns of its tables are shown, and its conditions came
with these tables. -/
structure Draft.Bare (d : Draft) : Prop where
  starred : ∀ t ∈ d.tables, .star t.aliasName ∈ d.selects
  plain : ∀ x ∈ d.selects, ∀ g name, x ≠ .boolOr g name
  conjuncts : ∃ ks, d.conjuncts = ⟨ks, [], []⟩ ∧ ∀ k ∈ ks, k.Idle d.names
  collections : d.collections = []

namespace Draft

variable {s : Setting} {d d' : Draft} {e : Entity} {a : String} {js : List Join}
  {ks : List Condition}

/-- The tables of subtypes are shown. -/
theorem Bare.addSubtypes {subs : List String} {i : Nat} {cases : List DiscriminatorCase}
    (h : d.Bare) (hd : Draft.addSubtypes s a i subs d = .ok (d', cases)) : d'.Bare := by
  induction subs generalizing i d cases with
  | nil =>
    obtain ⟨rfl, rfl⟩ := Prod.mk.inj (Except.ok.inj hd)
    exact h
  | cons sub subs ih =>
    obtain ⟨e, -, hd⟩ := exists_of_bind_eq_ok hd
    obtain ⟨⟨d₁, others⟩, hothers, hd⟩ := exists_of_bind_eq_ok hd
    obtain ⟨rfl, rfl⟩ := Prod.mk.inj (Except.ok.inj hd)
    refine ih (d := { d.addTable (.join ⟨subAlias a i, e.tableName, .outer, ⟨a, "id"⟩,
      ⟨subAlias a i, "id"⟩, some false⟩) e.idDbType with selects := d.selects ++ [.star (subAlias a i)] })
      ⟨?_, ?_, ?_, h.collections⟩ hothers
    · refine List.forall_mem_append.2 ⟨fun t ht => List.mem_append_left _ (h.starred t ht), ?_⟩
      exact List.forall_mem_singleton.2 (List.mem_append_right _ (List.mem_singleton_self _))
    · exact List.forall_mem_append.2 ⟨h.plain, List.forall_mem_singleton.2 fun _ _ => nofun⟩
    · obtain ⟨ks, hks, hidle⟩ := h.conjuncts
      refine ⟨ks, hks, fun k hk => (hidle k hk).mono ?_⟩
      rw [names, names]
      exact List.map_subset _ (List.subset_append_left _ _)

/-- The table of the entity that is asked for, with its bases and subtypes. -/
theorem bare_primary {supply : AliasSupply} {table : String} {d₁ : Draft}
    (hprimary : Draft.addEntity ⟨supply, [], [], .empty, [], [], []⟩ s e (.primary a table) = .ok d₁)
    (h : d₁.addSelects s e a = .ok d) : d.Bare := by
  obtain ⟨⟨d₂, cases⟩, hsubtypes, hselects⟩ := exists_of_bind_eq_ok h
  have hhoused := housed_addEntity hprimary
  obtain ⟨joins, deletion, hjoins, hdeletion, rfl⟩ := addEntity_eq_ok hprimary
  have hbare : d₂.Bare := by
    refine Bare.addSubtypes ⟨fun t ht => ?_, fun x hx => ?_, ⟨_, rfl, ?_⟩, rfl⟩ hsubtypes
    · rcases List.mem_cons.1 ht with rfl | ht
      · exact List.mem_cons_self
      · obtain ⟨j, hj, rfl⟩ := List.mem_map.1 ht
        obtain ⟨k, ⟨-, hk⟩, hname, -⟩ := Setting.of_mem_baseJoins hjoins j hj
        rw [Nat.zero_add] at hk
        exact List.mem_cons_of_mem _
          (List.mem_map.2 ⟨k, List.mem_range.2 hk, congrArg Select.star hname.symm⟩)
    · rcases List.mem_cons.1 hx with rfl | hx
      · exact fun _ _ => nofun
      · obtain ⟨i, -, rfl⟩ := List.mem_map.1 hx
        exact fun _ _ => nofun
    · exact idle_implied hdeletion hhoused
  obtain rfl := Except.ok.inj hselects
  split_ifs
  · exact hbare
  · exact
      { starred := fun t ht => List.mem_append_left _ (hbare.starred t ht)
        plain := List.forall_mem_append.2 ⟨hbare.plain, List.forall_mem_singleton.2 fun _ _ => nofun⟩
        conjuncts := hbare.conjuncts
        collections := hbare.collections }

/-- The condition is a predicate that was not asked for, on a table that is shown. -/
def Shows (d : Draft) (c : Condition) : Prop :=
  ∃ k, c = .column k ∧ k.pruneable = true ∧ .star k.aliasName ∈ d.selects

/-- All columns of the entity's table are shown, and those of the tables that its conditions are on; the
conditions are gathered. -/
theorem shows_implied {filter : EntityFilter} {conditions : Option ExpressionLiteral}
    (he : e ∈ s.schema.entities) (h : ofQuery s e filter conditions = .ok (a, d))
    {deletion : Option DeletionColumn} (hdeletion : s.deletion? e = .ok deletion) :
    .star a ∈ d.selects ∧ ∀ c ∈ e.implied a deletion, c ∈ d.conjuncts.inlined ∧ d.Shows c := by
  obtain ⟨d₁, d₂, d₃, ha, hprimary, hselects, hmatch, hconditions⟩ := ofQuery_eq_ok h
  have hhoused : Housed d₂.names a e.baseTypes.length :=
    (housed_addEntity hprimary).mono (names_subset_addSelects hselects)
  have hbefore : d₂.Before d := by
    have hmatched := (EntityFilter.steps_match he hhoused hmatch).before
    rcases hconditions with ⟨-, rfl⟩ | ⟨literal, -, hadded⟩
    · exact hmatched
    · exact hmatched.trans (before_addConditions hadded)
  have hstar : ∀ b ∈ d₂.names, .star b ∈ d.selects := fun b hb => by
    obtain ⟨t, ht, rfl⟩ := List.mem_map.1 hb
    exact hbefore.selects.subset ((bare_primary hprimary hselects).starred t ht)
  refine ⟨hstar a hhoused.1, fun c hc => ?_⟩
  obtain ⟨k, rfl, hpruneable, hname⟩ := idle_implied hdeletion hhoused c hc
  obtain ⟨-, hconjuncts⟩ := exists_joins_of_addSelects hselects
  obtain ⟨joins, deletion', -, hdeletion', rfl⟩ := addEntity_eq_ok hprimary
  obtain rfl := Except.ok.inj (hdeletion'.symm.trans hdeletion)
  exact ⟨hbefore.inlined.subset (hconjuncts ▸ List.mem_append_right _ hc), k, rfl, hpruneable,
    hstar _ hname⟩

/-- The filter is matched on the draft of the query without filter. -/
theorem ofQuery_eq_bind {filter : EntityFilter} : ofQuery s e filter none =
    ofQuery s e .empty none >>= fun r =>
      (EntityFilter.match s e r.1 false filter r.2).map fun d => (r.1, d) := by
  have hempty : ∀ (a : String) (d : Draft), EntityFilter.match s e a false .empty d = pure d :=
    fun _ _ => rfl
  simp only [ofQuery, bind_assoc, pure_bind, hempty]
  rfl

/-- A draft without filter. -/
theorem bare_ofQuery (h : Draft.ofQuery s e .empty none = .ok (a, d)) : d.Bare := by
  obtain ⟨d₁, hprimary, h⟩ := exists_of_bind_eq_ok h
  obtain ⟨d₂, hselects, h⟩ := exists_of_bind_eq_ok h
  obtain rfl : d₂ = d := (Prod.mk.inj (Except.ok.inj h)).2
  exact bare_primary hprimary hselects

/-- A filter that asks for nothing only joins tables to the draft of a query without filter. -/
theorem pads_ofQuery {filter : EntityFilter} (hfilter : filter.isBlank = true)
    (h : Draft.ofQuery s e filter none = .ok (a, d')) :
    ∃ d, Draft.ofQuery s e .empty none = .ok (a, d) ∧ d.Pads d' := by
  rw [ofQuery_eq_bind] at h
  obtain ⟨⟨b, d⟩, hbare, h⟩ := exists_of_bind_eq_ok h
  obtain ⟨d₁, hmatch, h⟩ := exists_of_map_eq_ok h
  obtain ⟨rfl, rfl⟩ := Prod.mk.inj h
  exact ⟨d, hbare, EntityFilter.pads_match hfilter hmatch⟩

end Draft

end EntityQuery
