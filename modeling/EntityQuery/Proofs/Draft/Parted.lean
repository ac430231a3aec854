import EntityQuery.Proofs.Draft.Step

/-!
# What a draft asks for

The conditions of a filter and of an expression over user aliases are asked for throughout.  Besides,
a draft has conditions that come with its tables, each a single predicate.

* `Draft.Parted`: a draft of such conditions;
* `Draft.Step.parted`: each step keeps it;
* `Draft.parted_ofQuery`: the draft of a query.
-/

namespace EntityQuery

/-- The conditions are asked for throughout or single predicates, and no column is a condition. -/
structure Draft.Parted (d : Draft) : Prop where
  selects : ∀ x ∈ d.selects, ∀ g name, x ≠ .boolOr g name
  existences : d.conjuncts.existences = []
  inlined : ∀ c ∈ d.conjuncts.inlined, c.Parted
  groups : ∀ g ∈ d.conjuncts.groups, ∀ c ∈ g.conditions, c.Asked

namespace Draft

variable {s : Setting} {d d' : Draft} {e : Entity} {a : String}

theorem asked_resolveColumn {name field : String} {p : Predicate} {c : ColumnCondition}
    (hc : d.resolveColumn s name field p = .ok c) : c.pruneable = false := by
  obtain ⟨b, -, hc⟩ := exists_of_bind_eq_ok hc
  obtain ⟨site, -, hc⟩ := exists_of_bind_eq_ok hc
  split at hc
  · obtain ⟨parsed, -, hc⟩ := exists_of_bind_eq_ok hc
    exact Except.ok.inj hc ▸ rfl
  · exact Except.ok.inj hc ▸ rfl
  · exact Except.ok.inj hc ▸ rfl
  · obtain ⟨target, -, hc⟩ := exists_of_bind_eq_ok hc
    obtain ⟨parsed, -, hc⟩ := exists_of_bind_eq_ok hc
    exact Except.ok.inj hc ▸ rfl
  · cases hc

theorem resolver_asked : (d.resolver s).Ensures Condition.Asked :=
  ⟨fun hc => Condition.asked_split (asked_resolveColumn hc), fun hr => by
    obtain ⟨⟨text, aliases⟩, -, hr⟩ := exists_of_bind_eq_ok hr
    exact Except.ok.inj hr ▸ .raw rfl, .group⟩

namespace Parted

/-- More result columns that are no conditions. -/
theorem select (h : d.Parted) {xs : List Select} (hxs : ∀ x ∈ xs, ∀ g name, x ≠ .boolOr g name) :
    Parted { d with selects := d.selects ++ xs } :=
  { h with selects := List.forall_mem_append.2 ⟨h.selects, hxs⟩ }

/-- The conditions that come with the table of an entity are predicates. -/
theorem withInlined_implied (h : d.Parted) {deletion : Option DeletionColumn} :
    ∀ c ∈ (d.withInlined (e.implied a deletion)).inlined, c.Parted := by
  refine List.forall_mem_append.2 ⟨h.inlined, List.forall_mem_map.2 fun k hk => ?_⟩
  rcases List.mem_append.1 hk with hk | hk
  · obtain ⟨column, -, rfl⟩ := Option.map_eq_some_iff.1 (Option.mem_toList.1 hk)
    exact .inr ⟨_, rfl, rfl⟩
  · have hk := Option.mem_toList.1 hk
    unfold Entity.typeCondition? at hk
    split at hk
    · obtain rfl := Option.some.inj hk
      exact .inr ⟨_, rfl, rfl⟩
    · cases hk

theorem addEntity (h : d.Parted) {t : Table} (hd : d.addEntity s e t = .ok d') : d'.Parted := by
  obtain ⟨joins, deletion, -, -, rfl⟩ := addEntity_eq_ok hd
  exact { h with inlined := h.withInlined_implied }

theorem addSubtypes {subs : List String} {i : Nat} {cases : List DiscriminatorCase} (h : d.Parted)
    (hd : addSubtypes s a i subs d = .ok (d', cases)) : d'.Parted := by
  induction subs generalizing i d cases with
  | nil => exact (Prod.mk.inj (Except.ok.inj hd)).1 ▸ h
  | cons sub subs ih =>
    obtain ⟨e, -, hd⟩ := exists_of_bind_eq_ok hd
    obtain ⟨⟨d₁, others⟩, hothers, hd⟩ := exists_of_bind_eq_ok hd
    obtain ⟨rfl, -⟩ := Prod.mk.inj (Except.ok.inj hd)
    have h₁ : (d.addTable (.join ⟨subAlias a i, e.tableName, .outer, ⟨a, "id"⟩, ⟨subAlias a i, "id"⟩,
      some false⟩) e.idDbType).Parted := { h with }
    exact ih (h₁.select (List.forall_mem_singleton.2 (by simp))) hothers

theorem addSelects (h : d.Parted) (hd : d.addSelects s e a = .ok d') : d'.Parted := by
  obtain ⟨⟨d₁, cases⟩, hcases, hd⟩ := exists_of_bind_eq_ok hd
  have hstars : ∀ x ∈ Select.star a :: (List.range e.baseTypes.length).map fun i =>
      Select.star (baseAlias a i), ∀ g name, x ≠ .boolOr g name :=
    List.forall_mem_cons.2 ⟨by simp, List.forall_mem_map.2 (by simp)⟩
  have h₁ := (h.select hstars).addSubtypes hcases
  obtain rfl := Except.ok.inj hd
  split_ifs
  · exact h₁
  · exact h₁.select (List.forall_mem_singleton.2 (by simp))

/-- What an expression over user aliases asks for. -/
theorem addConditions (h : d.Parted) {literal : ExpressionLiteral}
    (hd : d.addConditions s literal = .ok d') : d'.Parted := by
  obtain ⟨g, hg, hd⟩ := exists_of_bind_eq_ok hd
  obtain rfl := Except.ok.inj hd
  cases g with
  | none => exact h
  | some g => exact { h with groups := List.forall_mem_append.2 ⟨h.groups,
      List.forall_mem_singleton.2 (ExpressionLiteral.of_resolve resolver_asked hg g rfl)⟩ }

end Parted

/-- Each step asks for more, or brings predicates with a table. -/
theorem Step.parted (hstep : d.Step s d') (h : d.Parted) : d'.Parted := by
  cases hstep with
  | name table => exact { h with }
  | bind name he ha => exact { h with }
  | column _ hasked =>
    exact { h with inlined := List.forall_mem_append.2 ⟨h.inlined,
      List.forall_mem_singleton.2 (.inl (Condition.asked_split hasked))⟩ }
  | group _ _ hasked =>
    exact { h with groups := List.forall_mem_append.2 ⟨h.groups, List.forall_mem_singleton.2 hasked⟩ }
  | entity _ _ _ _ hd => exact h.addEntity hd
  | collection _ _ _ _ hd => exact { h.addEntity hd with }
  | junction => exact { h with }

theorem Steps.parted (hsteps : d.Steps s d') (h : d.Parted) : d'.Parted :=
  hsteps.induct (fun hstep => hstep.parted) h

/-- The draft of a query without conditions over user aliases. -/
theorem parted_ofQuery_none (he : e ∈ s.schema.entities) {filter : EntityFilter}
    (h : Draft.ofQuery s e filter none = .ok (a, d)) : d.Parted := by
  obtain ⟨d₁, hprimary, h⟩ := exists_of_bind_eq_ok h
  obtain ⟨d₂, hselects, h⟩ := exists_of_bind_eq_ok h
  obtain ⟨d₃, hmatch, h⟩ := exists_of_bind_eq_ok h
  obtain ⟨-, rfl⟩ := Prod.mk.inj (Except.ok.inj h)
  have hempty : (Draft.empty.nextAlias e.tableName).2.Parted := ⟨nofun, rfl, nofun, nofun⟩
  have hhoused := (housed_addEntity hprimary).mono (names_subset_addSelects hselects)
  exact (EntityFilter.steps_match he hhoused hmatch).parted
    ((hempty.addEntity hprimary).addSelects hselects)

/-- The draft of a query. -/
theorem parted_ofQuery (he : e ∈ s.schema.entities) {filter : EntityFilter}
    {conditions : Option ExpressionLiteral}
    (h : Draft.ofQuery s e filter conditions = .ok (a, d)) : d.Parted := by
  cases conditions with
  | none => exact parted_ofQuery_none he h
  | some literal =>
    rw [ofQuery_some] at h
    obtain ⟨⟨b, d₀⟩, hd₀, h⟩ := exists_of_bind_eq_ok h
    obtain ⟨d₁, hd₁, h⟩ := exists_of_bind_eq_ok h
    obtain ⟨rfl, rfl⟩ := Prod.mk.inj (Except.ok.inj h)
    exact (parted_ofQuery_none he hd₀).addConditions hd₁

/-- The conditions at the top of the plan of a draft. -/
theorem Parted.topConditions (h : d.Parted) : ∀ k ∈ d.toPlan.topConditions, k.Parted := by
  refine of_conjuncts_group? (fun c hc => ?_) (fun g hg _ c hc => .inl (h.groups g hg c hc))
    (fun ⟨_, _⟩ hg => .inl (.group (h.groups _ hg))) rfl
  rw [h.existences, List.append_nil] at hc
  exact h.inlined c hc

end Draft

end EntityQuery
