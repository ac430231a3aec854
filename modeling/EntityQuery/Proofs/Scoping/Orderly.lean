import EntityQuery.Proofs.Pruning.Needed

/-!
# Well-scoped plans are in order

A well-scoped plan refers to tables of its own, of the plans inside it and to the outer one.  So where
no name is bound twice, no table refers to itself or to one behind it.

* `Plan.references_of_scoped`: what a well-scoped plan refers to;
* `Plan.Scoped.everywhere`: the plans inside a well-scoped plan are well scoped;
* `Plan.Scoped.orderly`: a well-scoped plan that binds no name twice is in order.
-/

namespace EntityQuery

/-! ### What is referred to -/

section

variable {a : String}

mutual

/-- A well-scoped plan refers to tables of its own, of plans inside it and to outer ones. -/
theorem Plan.references_of_scoped : ∀ {p : Plan} {outer : List String}, p.Scoped outer →
    a ∈ p.references → a ∈ p.allAliases ∨ a ∈ outer
  | ⟨selects, tables, condition, sortKeys, groupBys, _⟩, outer,
      ⟨_, htables, hselects, htop, hsort, hgroup⟩, ha => by
    have hown : ∀ {b}, b ∈ tables.map Table.aliasName ∨ b ∈ outer →
        b ∈ (Plan.mk selects tables condition sortKeys groupBys none).allAliases ∨ b ∈ outer :=
      fun hb => hb.imp_left fun hb => List.mem_append_left _ (List.mem_append_left _
        (List.mem_append_left _ hb))
    rcases Plan.mem_references_iff.1 ha with ha | ha | ⟨k, hk, rfl⟩ | ⟨c, hc, rfl⟩ | ha
    · rcases Select.references_of_scopedAll hselects ha with hb | ha
      · exact hown hb
      · exact .inl (List.mem_append_right _ ha)
    · rcases Group.references_of_scopedTop htop ha with hb | ha
      · exact hown hb
      · exact .inl (List.mem_append_left _ (List.mem_append_right _ ha))
    · exact hown (hsort k hk)
    · exact hown (hgroup c hc)
    · rcases Table.references_of_scopedAll htables ha with hb | ha
      · exact hown (.inl hb)
      · exact .inl (List.mem_append_left _ (List.mem_append_left _ (List.mem_append_right _ ha)))

theorem Table.references_of_scopedAll : ∀ {ts : List Table} {before : List String},
    Table.ScopedAll before ts → a ∈ Table.referencesOf ts →
      a ∈ before ++ ts.map Table.aliasName ∨ a ∈ Table.allAliasesOf ts
  | [], _, _, ha => absurd ha List.not_mem_nil
  | .primary x _ :: rest, before, h, ha => by
    have hrest : Table.ScopedAll (before ++ [x]) rest := h
    have ha : a ∈ Table.referencesOf rest := ha
    exact (Table.references_of_scopedAll hrest ha).imp_left fun ha => by
      rwa [List.append_assoc] at ha
  | .cross x _ :: rest, before, h, ha => by
    have hrest : Table.ScopedAll (before ++ [x]) rest := h
    have ha : a ∈ Table.referencesOf rest := ha
    exact (Table.references_of_scopedAll hrest ha).imp_left fun ha => by
      rwa [List.append_assoc] at ha
  | .join j :: rest, before, ⟨hj, h⟩, ha => by
    rcases List.mem_cons.1 ha with rfl | ha
    · exact .inl (List.mem_append_left _ hj)
    · exact (Table.references_of_scopedAll h ha).imp_left fun ha => by
        rwa [List.append_assoc] at ha
  | .lateral _ _ query :: rest, before, ⟨hfrom, hquery, h⟩, ha => by
    rcases List.mem_append.1 ha with ha | ha
    · rcases List.mem_cons.1 ha with rfl | ha
      · exact .inl (List.mem_append_left _ hfrom)
      · rcases Plan.references_of_scoped hquery ha with ha | ha
        · exact .inr (List.mem_append_left _ ha)
        · exact .inl (List.mem_append_left _ (List.mem_singleton.1 ha ▸ hfrom))
    · exact (Table.references_of_scopedAll h ha).imp
        (fun ha => by rwa [List.append_assoc] at ha) (List.mem_append_right _)

theorem Group.references_of_scopedTop : ∀ {g : Option Group} {own outer : List String},
    Group.ScopedTop own outer g → a ∈ Group.referencesOf g →
      (a ∈ own ∨ a ∈ outer) ∨ a ∈ Group.allAliasesOf g
  | none, _, _, _, ha => absurd ha List.not_mem_nil
  | some _, _, _, h, ha => Group.references_of_scoped h ha

theorem Group.references_of_scoped : ∀ {g : Group} {own outer : List String},
    g.Scoped own outer → a ∈ g.references → (a ∈ own ∨ a ∈ outer) ∨ a ∈ g.allAliases
  | ⟨_, _⟩, _, _, h, ha => Condition.references_of_scopedAll h ha

theorem Condition.references_of_scopedAll : ∀ {cs : List Condition} {own outer : List String},
    Condition.ScopedAll own outer cs → a ∈ Condition.referencesOf cs →
      (a ∈ own ∨ a ∈ outer) ∨ a ∈ Condition.allAliasesOf cs
  | [], _, _, _, ha => absurd ha List.not_mem_nil
  | _ :: _, _, _, ⟨hc, hcs⟩, ha => by
    rcases List.mem_append.1 ha with ha | ha
    · exact (Condition.references_of_scoped hc ha).imp_right (List.mem_append_left _)
    · exact (Condition.references_of_scopedAll hcs ha).imp_right (List.mem_append_right _)

theorem Condition.references_of_scoped : ∀ {c : Condition} {own outer : List String},
    c.Scoped own outer → a ∈ c.references → (a ∈ own ∨ a ∈ outer) ∨ a ∈ c.allAliases
  | .group _, _, _, h, ha => Group.references_of_scoped h ha
  | .column c, _, _, h, ha => by
    rw [Condition.references] at ha
    split_ifs at ha with hp
    · cases ha
    · exact .inl (List.mem_singleton.1 ha ▸ h)
  | .raw r, _, _, h, ha => by
    rw [Condition.references] at ha
    split_ifs at ha with hp
    · cases ha
    · exact .inl (h a ha)
  | .existence _ _ _, own, _, ⟨⟨b, hb, hout⟩, hquery⟩, ha => by
    have hown : a ∈ [b] → a ∈ own := fun ha => List.mem_singleton.1 ha ▸ hb
    rw [hout] at ha hquery
    rcases List.mem_append.1 ha with ha | ha
    · exact .inl (.inl (hown ha))
    · rcases Plan.references_of_scoped hquery ha with ha | ha
      · exact .inr ha
      · exact .inl (.inl (hown ha))

theorem Select.references_of_scopedAll : ∀ {xs : List Select} {own outer : List String},
    Select.ScopedAll own outer xs → a ∈ Select.referencesOf xs →
      (a ∈ own ∨ a ∈ outer) ∨ a ∈ Select.allAliasesOf xs
  | [], _, _, _, ha => absurd ha List.not_mem_nil
  | .boolOr _ _ :: _, _, _, ⟨hx, hxs⟩, ha => by
    rcases List.mem_append.1 ha with ha | ha
    · exact (Group.references_of_scoped hx ha).imp_right (List.mem_append_left _)
    · exact (Select.references_of_scopedAll hxs ha).imp_right (List.mem_append_right _)
  | .star _ :: _, _, _, ⟨hx, hxs⟩, ha => (List.mem_append.1 ha).elim (fun ha => .inl (hx _ ha))
      (Select.references_of_scopedAll hxs)
  | .column _ _ :: _, _, _, ⟨hx, hxs⟩, ha => (List.mem_append.1 ha).elim (fun ha => .inl (hx _ ha))
      (Select.references_of_scopedAll hxs)
  | .discriminator _ _ _ :: _, _, _, ⟨hx, hxs⟩, ha => (List.mem_append.1 ha).elim
      (fun ha => .inl (hx _ ha)) (Select.references_of_scopedAll hxs)
  | .countIsZero _ :: _, _, _, ⟨hx, hxs⟩, ha => (List.mem_append.1 ha).elim
      (fun ha => .inl (hx _ ha)) (Select.references_of_scopedAll hxs)
  | .raw _ _ _ :: _, _, _, ⟨hx, hxs⟩, ha => (List.mem_append.1 ha).elim (fun ha => .inl (hx _ ha))
      (Select.references_of_scopedAll hxs)

end

end

/-! ### Plans inside -/

section

variable {q : Plan}

mutual

theorem Group.scoped_of_plans : ∀ {g : Group} {own outer : List String}, g.Scoped own outer →
    q ∈ g.plans → ∃ names, q.Scoped names
  | ⟨_, _⟩, _, _, h, hq => Condition.scoped_of_plansOf h hq

theorem Condition.scoped_of_plansOf : ∀ {cs : List Condition} {own outer : List String},
    Condition.ScopedAll own outer cs → q ∈ Condition.plansOf cs → ∃ names, q.Scoped names
  | [], _, _, _, hq => absurd hq List.not_mem_nil
  | _ :: _, _, _, ⟨hc, hcs⟩, hq => (List.mem_append.1 hq).elim (Condition.scoped_of_plans hc)
      (Condition.scoped_of_plansOf hcs)

theorem Condition.scoped_of_plans : ∀ {c : Condition} {own outer : List String},
    c.Scoped own outer → q ∈ c.plans → ∃ names, q.Scoped names
  | .group _, _, _, h, hq => Group.scoped_of_plans h hq
  | .existence _ _ outerAliases, _, _, ⟨_, h⟩, hq =>
    ⟨outerAliases, List.mem_singleton.1 hq ▸ h⟩

end

theorem Table.scoped_of_mem {ts : List Table} {before : List String} (h : Table.ScopedAll before ts)
    {t : Table} (ht : t ∈ ts) : ∃ names, t.Scoped names := by
  induction ts generalizing before with
  | nil => cases ht
  | cons t' ts ih =>
    rw [Table.scopedAll_cons_iff] at h
    rcases List.mem_cons.1 ht with rfl | ht
    · exact ⟨before, h.1⟩
    · exact ih h.2 ht

namespace Plan

variable {p : Plan} {outer : List String}

theorem Scoped.nested (h : p.Scoped outer) (hq : q ∈ p.nestedPlans) : ∃ names, q.Scoped names := by
  obtain ⟨-, htables, hselects, htop, -, -⟩ := scoped_iff.1 h
  rw [nestedPlans, List.mem_append, List.mem_append] at hq
  rcases hq with (hq | hq) | hq
  · obtain ⟨t, ht, hq⟩ := List.mem_flatMap.1 hq
    obtain ⟨names, ht⟩ := Table.scoped_of_mem htables ht
    cases t with
    | lateral x b query => exact ⟨[b], List.mem_singleton.1 hq ▸ ht.2⟩
    | _ => cases hq
  · rw [← Group.scopedTop_iff] at htop
    cases hc : p.condition with
    | none => rw [hc] at hq; cases hq
    | some g =>
      rw [hc] at hq htop
      exact Group.scoped_of_plans htop hq
  · obtain ⟨x, hx, hq⟩ := List.mem_flatMap.1 hq
    cases x with
    | boolOr g name => exact Group.scoped_of_plans (hselects _ hx) hq
    | _ => cases hq

end Plan

end

/-- Tables refer to tables in front of them and to what the plans inside bind. -/
theorem Table.sequenced_of_scopedAll {ts : List Table} {before : List String}
    (h : Table.ScopedAll before ts)
    (hnodup : (before ++ ts.map Table.aliasName ++ Table.allAliasesOf ts).Nodup) :
    (∀ t ∈ ts, t.aliasName ∉ t.referents) ∧
      ts.Pairwise fun t t' => t'.aliasName ∉ t.referents := by
  induction ts generalizing before with
  | nil => exact ⟨fun _ ht => absurd ht List.not_mem_nil, .nil⟩
  | cons t ts ih =>
    rw [Table.scopedAll_cons_iff] at h
    rw [Table.allAliasesOf_eq, List.flatMap_cons, List.flatMap_append, List.map_cons] at hnodup
    -- what the table refers to is in front of it or inside it
    have href : ∀ a ∈ t.referents, a ∈ before ∨ a ∈ t.plans.flatMap Plan.allAliases := by
      intro a ha
      cases t with
      | join j => exact .inl (List.mem_singleton.1 ha ▸ h.1)
      | lateral x b query =>
        rcases List.mem_cons.1 ha with rfl | ha
        · exact .inl h.1.1
        · rcases Plan.references_of_scoped h.1.2 ha with ha | ha
          · exact .inr (by simpa [Table.plans] using ha)
          · exact .inl (List.mem_singleton.1 ha ▸ h.1.1)
      | _ => cases ha
    have hapart : ∀ b ∈ t.aliasName :: ts.map Table.aliasName, b ∉ t.referents := by
      intro b hb hm
      obtain ⟨hnames, -, hinside⟩ := List.nodup_append.1 hnodup
      rcases href b hm with hm | hm
      · exact (List.nodup_append.1 hnames).2.2 b hm b hb rfl
      · exact hinside b (List.mem_append_right _ hb) b (List.mem_append_left _ hm) rfl
    obtain ⟨hirreflexive, hpairwise⟩ := ih h.2 (hnodup.sublist (by
      rw [List.append_assoc before, List.singleton_append, ← Table.allAliasesOf_eq]
      exact (List.Sublist.refl _).append (List.sublist_append_right _ _)))
    exact ⟨List.forall_mem_cons.2 ⟨hapart _ List.mem_cons_self, hirreflexive⟩,
      List.pairwise_cons.2 ⟨fun t' ht' => hapart _ (List.mem_cons_of_mem _
        (List.mem_map_of_mem ht')), hpairwise⟩⟩

namespace Plan

variable {p : Plan} {outer : List String}

theorem Scoped.sequenced (h : p.Scoped outer) (hnodup : p.allAliases.Nodup) : p.Sequenced := by
  obtain ⟨hirreflexive, hpairwise⟩ := Table.sequenced_of_scopedAll (scoped_iff.1 h).2.1
    (hnodup.sublist (by
      rw [allAliases_eq, List.nil_append, List.append_assoc]
      exact List.sublist_append_left _ _))
  exact ⟨hirreflexive, hpairwise⟩

/-- What is true of every well-scoped plan that binds no name twice is true everywhere in one. -/
theorem Scoped.everywhere {P : Plan → Prop} (h : p.Scoped outer) (hnodup : p.allAliases.Nodup)
    (hP : ∀ {q : Plan} {names : List String}, q.Scoped names → q.allAliases.Nodup → P q) :
    p.Everywhere P := by
  induction everywhere_of_forall (fun _ => trivial) p generalizing outer with
  | @intro p _ _ ih =>
    refine .intro (hP h hnodup) fun q hq => ?_
    obtain ⟨names, hscoped⟩ := h.nested hq
    exact ih q hq hscoped (hnodup.sublist (sublist_allAliases_of_nested hq))

/-- A well-scoped plan that binds no name twice is in order. -/
theorem Scoped.orderly (h : p.Scoped outer) (hnodup : p.allAliases.Nodup) : p.Orderly :=
  ⟨hnodup, h.everywhere hnodup fun hq hq' => hq.sequenced hq'⟩

end Plan

end EntityQuery
