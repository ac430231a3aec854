import EntityQuery.Find.Basic
import EntityQuery.Proofs.Draft.Step

/-!
# Tables of entities

The tables of a draft are those of entities, of their bases and subtypes, and junctions.  With the
table of an entity come conditions, which stay with the draft.

* `Setting.Marks`: a column that marks the rows of an entity as deleted;
* `Setting.exists_marks_of_deletion?`: such a column is found if there is one;
* `Draft.Introduced`: the table of an entity has been added to the draft;
* `Draft.Introduced.mem_inlined`: the condition that its rows are not deleted has been added with it;
* `Draft.introduced_ofQuery`: all tables of a query but those of bases, subtypes and junctions have
  been added so.
-/

namespace EntityQuery

/-- The column marks rows of the entity as deleted: it is the one of the entity itself, on its own
table; the one of a base that has a table of its own, on that; or the one of the entity whose table it
shares. -/
inductive Setting.Marks (s : Setting) (e : Entity) : DeletionColumn → Prop
  | own (h : e.softDelete = true) : s.Marks e ⟨none, s.deletionColumnName e⟩
  | base {i : Nat} {base : String} {b : Entity} (hbase : e.baseTypes[i]? = some base)
      (hb : s.entity base = .ok b) (h : b.softDelete = true) :
      s.Marks e ⟨some i, s.deletionColumnName b⟩
  | shared {base discriminator : String} {value : Option Int64} {b : Entity}
      (he : e.inheritance = .singleTable (some base) discriminator value)
      (hb : s.entity base = .ok b) (h : b.softDelete = true) :
      s.Marks e ⟨none, s.deletionColumnName b⟩

namespace Setting

variable {s : Setting} {e : Entity}

/-- The first base whose rows are marked is found, if there is one. -/
theorem of_deletionOnBases {i : Nat} {bases : List String} {deletion : Option DeletionColumn}
    (h : s.deletionOnBases i bases = .ok deletion) :
    (∃ k base b, bases[k]? = some base ∧ s.entity base = .ok b ∧ b.softDelete = true ∧
      deletion = some ⟨some (i + k), s.deletionColumnName b⟩) ∨
    (deletion = none ∧ ∀ base ∈ bases, ∀ b, s.entity base = .ok b → b.softDelete = false) := by
  induction bases generalizing i with
  | nil => exact .inr ⟨(Except.ok.inj h).symm, nofun⟩
  | cons base rest ih =>
    obtain ⟨b, hb, h⟩ := exists_of_bind_eq_ok h
    split at h
    · next hmarked => exact .inl ⟨0, base, b, rfl, hb, hmarked, (Except.ok.inj h).symm⟩
    · next hmarked =>
      rcases ih h with ⟨k, base', b', hk, hb', hmarked', rfl⟩ | ⟨rfl, hnone⟩
      · exact .inl ⟨k + 1, base', b', hk, hb', hmarked', by rw [Nat.add_right_comm, Nat.add_assoc]⟩
      · refine .inr ⟨rfl, List.forall_mem_cons.2 ⟨fun b' hb' => ?_, hnone⟩⟩
        rw [← Except.ok.inj (hb.symm.trans hb')]
        exact Bool.not_eq_true _ ▸ hmarked

/-- Only an entity that has a table of its own has bases with theirs. -/
theorem exists_classTable_of_base {i : Nat} {base : String} (h : e.baseTypes[i]? = some base) :
    ∃ bases subTypes, e.inheritance = .classTable bases subTypes ∧ bases[i]? = some base := by
  unfold Entity.baseTypes at h
  split at h
  · next bases subTypes he => exact ⟨bases, subTypes, he, h⟩
  · cases h

/-- Where deleted rows do not count, a column that marks rows as deleted is found if there is one. -/
theorem exists_marks_of_deletion? (hexclude : s.withDeleted = false) (hmarks : ∃ c, s.Marks e c)
    {deletion : Option DeletionColumn} (h : s.deletion? e = .ok deletion) :
    ∃ c, deletion = some c ∧ s.Marks e c := by
  unfold deletion? at h
  rw [hexclude, if_neg Bool.false_ne_true] at h
  split_ifs at h with hown
  · exact ⟨_, (Except.ok.inj h).symm, .own hown⟩
  obtain ⟨c, hc⟩ := hmarks
  cases hc with
  | own hmarked => exact absurd hmarked hown
  | base hbase hb hmarked =>
    obtain ⟨bases, subTypes, he, hbase⟩ := exists_classTable_of_base hbase
    have hbases : e.baseTypes = bases := by rw [Entity.baseTypes, he]
    rw [he] at h
    rcases of_deletionOnBases h with ⟨k, base', b', hk, hb', hmarked', rfl⟩ | ⟨-, hnone⟩
    · rw [Nat.zero_add]
      exact ⟨_, rfl, .base (hbases ▸ hk) hb' hmarked'⟩
    · rw [hnone _ (List.mem_of_getElem? hbase) _ hb] at hmarked
      cases hmarked
  | shared he hb hmarked =>
    rw [he] at h
    obtain ⟨b', hb', h⟩ := exists_of_bind_eq_ok h
    obtain rfl := Except.ok.inj (hb.symm.trans hb')
    rw [if_pos hmarked] at h
    exact ⟨_, (Except.ok.inj h).symm, .shared he hb hmarked⟩

end Setting

/-- The table of the entity has been added to the draft under the name, before what came after. -/
inductive Draft.Introduced (s : Setting) (e : Entity) (a : String) : Draft → Prop
  | table {d d' : Draft} {t : Table} (h : d.addEntity s e t = .ok d') (ha : t.aliasName = a) :
      d'.Introduced s e a
  | collection {d : Draft} (j : Join) (h : d.Introduced s e a) : (d.addCollection j).Introduced s e a
  | selects {d d' : Draft} {e' : Entity} {b : String} (h : d.Introduced s e a)
      (hd : d.addSelects s e' b = .ok d') : d'.Introduced s e a
  | step {d d' : Draft} (h : d.Introduced s e a) (hstep : d.Step s d') : d'.Introduced s e a
  | conditions {d d' : Draft} {literal : ExpressionLiteral} (h : d.Introduced s e a)
      (hd : d.addConditions s literal = .ok d') : d'.Introduced s e a

namespace Draft

section

variable {s : Setting} {d d' : Draft} {e e' : Entity} {a b : String}

/-- What was there when the table was added is there in the end. -/
theorem Introduced.exists_addEntity (h : d.Introduced s e a) : ∃ d₀ d₁ t,
    addEntity d₀ s e t = .ok d₁ ∧ t.aliasName = a ∧ d₁.tables ⊆ d.tables ∧
      d₁.conjuncts.inlined ⊆ d.conjuncts.inlined := by
  have grow : ∀ {d d' : Draft}, d.tables ⊆ d'.tables → d.conjuncts.inlined ⊆ d'.conjuncts.inlined →
      (∃ d₀ d₁ t, addEntity d₀ s e t = .ok d₁ ∧ t.aliasName = a ∧ d₁.tables ⊆ d.tables ∧
        d₁.conjuncts.inlined ⊆ d.conjuncts.inlined) →
      ∃ d₀ d₁ t, addEntity d₀ s e t = .ok d₁ ∧ t.aliasName = a ∧ d₁.tables ⊆ d'.tables ∧
        d₁.conjuncts.inlined ⊆ d'.conjuncts.inlined :=
    fun htables hinlined ⟨d₀, d₁, t, hd, ha, ht, hi⟩ =>
      ⟨d₀, d₁, t, hd, ha, List.Subset.trans ht htables, List.Subset.trans hi hinlined⟩
  induction h with
  | table h ha => exact ⟨_, _, _, h, ha, List.Subset.refl _, List.Subset.refl _⟩
  | collection j _ ih => exact ih
  | selects _ hd ih =>
    obtain ⟨⟨js, hjs, -⟩, hconjuncts⟩ := exists_joins_of_addSelects hd
    exact grow (hjs ▸ List.subset_append_left _ _) (hconjuncts ▸ List.Subset.refl _) ih
  | step _ hstep ih => exact grow hstep.before.tables.subset hstep.before.inlined.subset ih
  | conditions _ hd ih =>
    have hbefore := before_addConditions hd
    exact grow hbefore.tables.subset hbefore.inlined.subset ih

/-- The condition that rows are not deleted has been added with the table of the entity. -/
theorem Introduced.mem_inlined (h : d.Introduced s e a) {c : DeletionColumn}
    (hc : s.deletion? e = .ok (some c)) : .column (c.condition a) ∈ d.conjuncts.inlined := by
  obtain ⟨d₀, d₁, t, hd, rfl, -, hinlined⟩ := h.exists_addEntity
  obtain ⟨joins, deletion, -, hdeletion, rfl⟩ := addEntity_eq_ok hd
  obtain rfl := Except.ok.inj (hdeletion.symm.trans hc)
  exact hinlined (List.mem_append_right _ (List.mem_map_of_mem List.mem_cons_self))

/-- Where deleted rows do not count, a column that marks the rows of the entity has been looked for. -/
theorem Introduced.exists_marks (h : d.Introduced s e a) (hexclude : s.withDeleted = false)
    (hmarks : ∃ c, s.Marks e c) : ∃ c, s.deletion? e = .ok (some c) ∧ s.Marks e c := by
  obtain ⟨d₀, d₁, t, hd, -⟩ := h.exists_addEntity
  obtain ⟨-, deletion, -, hdeletion, -⟩ := addEntity_eq_ok hd
  obtain ⟨c, rfl, hc⟩ := Setting.exists_marks_of_deletion? hexclude hmarks hdeletion
  exact ⟨c, hdeletion, hc⟩

/-- The table of the entity is there with those of its bases. -/
theorem Introduced.houses (h : d.Introduced s e a) {T : JoinTree} (hT : d.tables = T.tables) :
    T.Houses a e.baseTypes.length := by
  obtain ⟨d₀, d₁, t, hd, rfl, htables, -⟩ := h.exists_addEntity
  obtain ⟨joins, deletion, hjoins, -, rfl⟩ := addEntity_eq_ok hd
  rw [hT] at htables
  have hnew : t :: joins.map .join ⊆ T.tables :=
    List.Subset.trans (List.subset_append_right d₀.tables _) htables
  refine ⟨?_, fun i hi => ?_⟩
  · rw [← T.map_aliasName_tables]
    exact List.mem_map_of_mem (hnew List.mem_cons_self)
  · obtain ⟨j, hj, hname, hparent, hdistinct, -⟩ :=
      Setting.exists_of_baseJoins hjoins (Nat.zero_le i) (by omega)
    have hmem : Table.join j ∈ .primary T.aliasName T.table :: T.joins.map .join :=
      hnew (List.mem_cons_of_mem _ (List.mem_map_of_mem hj))
    refine ⟨j, ?_, hname, hparent, hdistinct⟩
    simpa using hmem

/-- The table has been added as that of an entity or with one, or it is a junction. -/
def Accounted (s : Setting) (d : Draft) (t : Table) : Prop :=
  (∃ e ∈ s.schema.entities, d.Introduced s e t.aliasName) ∨
    ∃ j, t = .join j ∧ (j.distinct = some false ∨ s.schema.IsJunction j.table)

theorem Accounted.mono {t : Table} (h : d.Accounted s t)
    (hd : ∀ e a, d.Introduced s e a → d'.Introduced s e a) : d'.Accounted s t :=
  h.imp_left fun ⟨e, he, ht⟩ => ⟨e, he, hd e _ ht⟩

theorem accounted_addEntity (he : e ∈ s.schema.entities) {t : Table}
    (hd : d.addEntity s e t = .ok d') : ∀ x ∈ d'.tables, x ∈ d.tables ∨ d'.Accounted s x := by
  obtain ⟨joins, deletion, hjoins, -, rfl⟩ := addEntity_eq_ok (id hd)
  intro x hx
  refine (List.mem_append.1 hx).imp_right fun hx => ?_
  rcases List.mem_cons.1 hx with rfl | hx
  · exact .inl ⟨e, he, .table hd rfl⟩
  · obtain ⟨j, hj, rfl⟩ := List.mem_map.1 hx
    obtain ⟨i, -, -, -, hdistinct, -⟩ := Setting.of_mem_baseJoins hjoins j hj
    exact .inr ⟨j, rfl, .inl hdistinct⟩

theorem Step.accounted (hstep : d.Step s d') (h : ∀ t ∈ d.tables, d.Accounted s t) :
    ∀ t ∈ d'.tables, d'.Accounted s t := by
  have hold : ∀ t ∈ d.tables, d'.Accounted s t := fun t ht =>
    (h t ht).mono fun e a hd => hd.step hstep
  intro t ht
  cases hstep with
  | name | bind | group | column => exact hold t ht
  | entity he _ _ _ hd => exact (accounted_addEntity he hd t ht).elim (hold t) id
  | collection he _ _ _ hd =>
    exact (accounted_addEntity he hd t ht).elim (hold t) (.mono · fun e a h => h.collection _)
  | junction _ htable =>
    rcases List.mem_append.1 ht with ht | ht
    · exact hold t ht
    · exact .inr ⟨_, List.mem_singleton.1 ht, .inr htable⟩

/-- All tables of a query but those of bases and subtypes and junctions have been added as those of
entities, the primary table for one. -/
theorem introduced_ofQuery {filter : EntityFilter} {conditions : Option ExpressionLiteral}
    (he : e ∈ s.schema.entities) (hd : ofQuery s e filter conditions = .ok (a, d)) :
    d.Introduced s e a ∧ ∀ t ∈ d.tables, d.Accounted s t := by
  obtain ⟨d₁, d₂, d₃, rfl, hd₁, hd₂, hd₃, hd⟩ := ofQuery_eq_ok hd
  have h₁ : ∀ t ∈ d₁.tables, d₁.Accounted s t := fun t ht =>
    (accounted_addEntity he hd₁ t ht).elim (fun ht => absurd ht List.not_mem_nil) id
  have h₂ : ∀ t ∈ d₂.tables, d₂.Accounted s t := by
    obtain ⟨⟨js, hjs, hsubtypes⟩, -⟩ := exists_joins_of_addSelects hd₂
    intro t ht
    rw [hjs] at ht
    rcases List.mem_append.1 ht with ht | ht
    · exact (h₁ t ht).mono fun _ _ h => h.selects hd₂
    · obtain ⟨j, hj, rfl⟩ := List.mem_map.1 ht
      exact .inr ⟨j, rfl, .inl (hsubtypes j hj).1⟩
  have hhoused := (housed_addEntity hd₁).mono (names_subset_addSelects hd₂)
  have hsteps := EntityFilter.steps_match he hhoused hd₃
  have h₃ : d₃.Introduced s e _ ∧ ∀ t ∈ d₃.tables, d₃.Accounted s t :=
    hsteps.induct (P := fun x => x.Introduced s e _ ∧ ∀ t ∈ x.tables, x.Accounted s t)
      (fun hstep h => ⟨h.1.step hstep, hstep.accounted h.2⟩) ⟨.selects (.table hd₁ rfl) hd₂, h₂⟩
  rcases hd with ⟨-, rfl⟩ | ⟨literal, -, hd⟩
  · exact h₃
  · refine ⟨h₃.1.conditions hd, fun t ht => ?_⟩
    rw [tables_addConditions hd] at ht
    exact (h₃.2 t ht).mono fun _ _ h => h.conditions hd

end

end Draft

end EntityQuery
