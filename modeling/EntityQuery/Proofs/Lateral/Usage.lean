import EntityQuery.Proofs.Agreement.Need
import EntityQuery.Proofs.Lateral.Plan

/-!
# What lateral columns refer to

A column of a lateral subquery refers to the tables of its group; the guards beside it refer to
nothing.  One that counts rows refers to nothing at all.

* `Lateral.references_columnOf`, `Lateral.references_guardedAll`: the columns of a collection;
* `Lateral.mem_asOne_iff`, `Lateral.mem_group_regroup_iff`: groups of siblings;
* `Lateral.implied_guardedAll`: what is read without having been asked.
-/

namespace EntityQuery

theorem Select.mem_referencesOf_iff {a : String} {xs : List Select} :
    a ∈ Select.referencesOf xs ↔ ∃ x ∈ xs, a ∈ Select.referencesOf [x] := by
  induction xs with
  | nil => simp [Select.referencesOf]
  | cons x xs ih => cases x <;> simp [Select.referencesOf, ih]

namespace Lateral

variable {unit name a : String} {c : Condition} {guards : List Condition} {x : Select}
  {xs : List Select}

theorem references_columnOf : Select.referencesOf [columnOf unit name c] =
    if c.isMissing unit = true then [] else c.references := by
  unfold columnOf
  split_ifs
  · rfl
  · cases c <;> simp [Select.referencesOf, Condition.references, Group.references, Group.all,
      Condition.referencesOf]

theorem references_columnOf_subset :
    Select.referencesOf [columnOf unit name c] ⊆ c.references := by
  rw [references_columnOf]
  split_ifs
  · exact List.nil_subset _
  · exact List.Subset.refl _

/-- Guards refer to nothing. -/
theorem references_guarded (hguards : ∀ k ∈ guards, k.references = []) :
    Select.referencesOf [guarded guards x] = Select.referencesOf [x] := by
  have hnil : Condition.referencesOf guards = [] := by
    refine List.eq_nil_iff_forall_not_mem.2 fun a ha => ?_
    obtain ⟨k, hk, ha⟩ := Condition.mem_referencesOf_iff.1 ha
    rw [hguards k hk] at ha
    cases ha
  unfold guarded
  split
  · simp [Select.referencesOf, Group.references, Group.all, Condition.referencesOf_append, hnil]
  · simp [Select.referencesOf, Group.references, Group.all, Condition.referencesOf_append, hnil,
      Condition.referencesOf, Condition.references]
  · rfl

theorem mem_references_guardedAll (hguards : ∀ k ∈ guards, k.references = []) :
    a ∈ Select.referencesOf (guardedAll guards xs) ↔ a ∈ Select.referencesOf xs := by
  unfold guardedAll
  split_ifs
  · exact Iff.rfl
  · rw [Select.mem_referencesOf_iff, Select.mem_referencesOf_iff]
    simp only [List.mem_map, exists_exists_and_eq_and, references_guarded hguards]

theorem references_of_mem_guardsOf {s : Scope} {top : List Condition} {u : String} :
    ∀ k ∈ guardsOf s top u, k.references = [] := fun _ hk =>
  Condition.references_of_isPruneable (mem_guardsOf_iff.1 hk).2.1

/-! ### What is read without having been asked -/

theorem implied_columnOf_subset : (columnOf unit name c).implied ⊆ c.implied := by
  unfold columnOf
  split_ifs
  · exact List.nil_subset _
  · cases c <;> simp [Select.implied, Condition.implied, Group.implied, Group.all,
      Condition.impliedOf]

/-- A guarded column reads what its guards read. -/
theorem implied_guarded (ha : a ∈ (guarded guards x).implied) :
    (∃ k ∈ guards, a ∈ k.implied) ∨ a ∈ x.implied := by
  have hsplit : ∀ cs : List Condition, a ∈ Condition.impliedOf (guards ++ cs) →
      (∃ k ∈ guards, a ∈ k.implied) ∨ a ∈ Condition.impliedOf cs := fun cs ha => by
    obtain ⟨k, hk, ha⟩ := Condition.mem_impliedOf_iff.1 ha
    exact (List.mem_append.1 hk).imp (fun hk => ⟨k, hk, ha⟩) fun hk =>
      Condition.mem_impliedOf_iff.2 ⟨k, hk, ha⟩
  unfold guarded at ha
  split at ha
  · exact hsplit _ ha
  · refine (hsplit _ ha).imp_right fun ha => ?_
    obtain ⟨k, hk, ha⟩ := Condition.mem_impliedOf_iff.1 ha
    rwa [List.mem_singleton.1 hk] at ha
  · exact .inr ha

theorem implied_guardedAll (ha : ∃ x ∈ guardedAll guards xs, a ∈ x.implied) :
    (∃ k ∈ guards, a ∈ k.implied) ∨ ∃ x ∈ xs, a ∈ x.implied := by
  obtain ⟨x, hx, ha⟩ := ha
  unfold guardedAll at hx
  split_ifs at hx
  · exact .inr ⟨x, hx, ha⟩
  · obtain ⟨y, hy, rfl⟩ := List.mem_map.1 hx
    exact (implied_guarded ha).imp_right fun ha => ⟨y, hy, ha⟩

/-! ### Groups of siblings -/

section

variable {s : Scope} {op : Connective} {siblings : List Condition} {F : Condition → List String}
  (hF : ∀ op cs a, a ∈ F (.group ⟨op, cs⟩) ↔ ∃ c ∈ cs, a ∈ F c)

include hF

/-- What a group reads, one condition after the other, siblings as one condition read. -/
theorem mem_asOne_iff {members : List Condition} :
    a ∈ F (asOne op members) ↔ ∃ m ∈ members, a ∈ F m := by
  match members with
  | [c] => simp [asOne]
  | [] => exact hF op [] a
  | _ :: _ :: _ => exact hF op _ a

/-- Siblings that are put together read what they read apart. -/
theorem mem_group_regroup_iff :
    a ∈ F (.group ⟨op, regroup s op siblings [] siblings⟩) ↔ a ∈ F (.group ⟨op, siblings⟩) := by
  rw [hF, hF]
  constructor
  · rintro ⟨c, hc, ha⟩
    rcases mem_regroup_iff.1 hc with ⟨hc, -⟩ | ⟨unit, -, -, rfl⟩
    · exact ⟨c, hc, ha⟩
    · obtain ⟨m, hm, ha⟩ := (mem_asOne_iff hF).1 ha
      exact ⟨m, (List.mem_filter.1 hm).1, ha⟩
  · rintro ⟨c, hc, ha⟩
    cases hu : s.only? c with
    | none => exact ⟨c, mem_regroup_iff.2 (.inl ⟨hc, hu⟩), ha⟩
    | some unit =>
      exact ⟨_, mem_regroup_iff.2 (.inr ⟨unit, List.not_mem_nil, ⟨c, hc, hu⟩, rfl⟩),
        (mem_asOne_iff hF).2 ⟨c, List.mem_filter.2 ⟨hc, decide_eq_true hu⟩, ha⟩⟩

/-- What is replaced reads what some of the siblings read. -/
theorem exists_mem_of_lifts (h : Lifts s op siblings unit c) (ha : a ∈ F c) :
    ∃ m ∈ siblings, a ∈ F m := by
  induction h with
  | here =>
    obtain ⟨m, hm, ha⟩ := (mem_asOne_iff hF).1 ha
    exact ⟨m, (List.mem_filter.1 hm).1, ha⟩
  | inside hm _ _ ih => exact ⟨_, hm, (hF _ _ _).2 (ih ha)⟩

end

end Lateral

end EntityQuery
