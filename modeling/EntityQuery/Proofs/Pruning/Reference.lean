import EntityQuery.Plan.Prune
import EntityQuery.Proofs.Scoping.Leaves

/-!
# References

What a plan refers to decides what pruning leaves of it.  Other leaves that refer to no other tables
make no new references, and pruning ends when every table is referred to.

* `Plan.mem_references_iff`, `Table.mem_referencesOf_iff`: references by the part that makes them;
* `Condition.KeepsReferences`, `Plan.references_mapLeaves`: plans with other leaves;
* `Condition.references_subset_aliases`: a condition refers to tables that it reads;
* `Plan.trim_induct`, `Plan.unreferenced_trim`: pruning removes tables that nothing refers to, until
  there are none.
-/

namespace EntityQuery

section

variable {p : Plan} {a : String}

theorem Table.mem_referencesOf_iff {ts : List Table} : a ∈ Table.referencesOf ts ↔
    (∃ j, .join j ∈ ts ∧ a = j.parent.aliasName) ∨
      ∃ x fromAlias query, .lateral x fromAlias query ∈ ts ∧
        (a = fromAlias ∨ a ∈ query.references) := by
  induction ts with
  | nil => simp [Table.referencesOf]
  | cons t ts ih =>
    cases t with
    | join j =>
      rw [Table.referencesOf, List.mem_cons, ih]
      constructor
      · rintro (rfl | ⟨j', hj', he⟩ | ⟨x, b, query, ht, he⟩)
        · exact .inl ⟨j, List.mem_cons_self, rfl⟩
        · exact .inl ⟨j', List.mem_cons_of_mem _ hj', he⟩
        · exact .inr ⟨x, b, query, List.mem_cons_of_mem _ ht, he⟩
      · rintro (⟨j', hj', he⟩ | ⟨x, b, query, ht, he⟩)
        · rcases List.mem_cons.1 hj' with hj' | hj'
          · exact .inl (by rw [he, Table.join.inj hj'])
          · exact .inr (.inl ⟨j', hj', he⟩)
        · rcases List.mem_cons.1 ht with ht | ht
          · cases ht
          · exact .inr (.inr ⟨x, b, query, ht, he⟩)
    | lateral x b query =>
      rw [Table.referencesOf, List.mem_append, List.mem_cons, ih]
      constructor
      · rintro ((rfl | hm) | ⟨j', hj', he⟩ | ⟨x', b', query', ht, he⟩)
        · exact .inr ⟨x, a, query, List.mem_cons_self, .inl rfl⟩
        · exact .inr ⟨x, b, query, List.mem_cons_self, .inr hm⟩
        · exact .inl ⟨j', List.mem_cons_of_mem _ hj', he⟩
        · exact .inr ⟨x', b', query', List.mem_cons_of_mem _ ht, he⟩
      · rintro (⟨j', hj', he⟩ | ⟨x', b', query', ht, he⟩)
        · rcases List.mem_cons.1 hj' with hj' | hj'
          · cases hj'
          · exact .inr (.inl ⟨j', hj', he⟩)
        · rcases List.mem_cons.1 ht with ht | ht
          · obtain ⟨-, rfl, rfl⟩ := Table.lateral.inj ht
            exact .inl he
          · exact .inr (.inr ⟨x', b', query', ht, he⟩)
    | _ =>
      rw [Table.referencesOf, ih]
      · simp
      all_goals simp

theorem Plan.mem_references_iff : a ∈ p.references ↔ a ∈ Select.referencesOf p.selects ∨
    a ∈ Group.referencesOf p.condition ∨ (∃ k ∈ p.sortKeys, k.aliasName = a) ∨
      (∃ c ∈ p.groupBys.getD [], c.aliasName = a) ∨ a ∈ Table.referencesOf p.tables := by
  cases p
  simp only [Plan.references, List.mem_append, List.mem_map, or_assoc]

end

/-! ### Other leaves -/

section

variable {α : Type} {l l' m m' : List α}

theorem append_subset_append (hl : l ⊆ l') (hm : m ⊆ m') : l ++ m ⊆ l' ++ m' :=
  List.append_subset.2 ⟨List.Subset.trans hl (List.subset_append_left _ _),
    List.Subset.trans hm (List.subset_append_right _ _)⟩

end

theorem Condition.referencesOf_append {cs cs' : List Condition} :
    Condition.referencesOf (cs ++ cs') =
      Condition.referencesOf cs ++ Condition.referencesOf cs' := by
  induction cs with
  | nil => rfl
  | cons c cs ih => rw [List.cons_append, referencesOf, referencesOf, ih, List.append_assoc]

theorem Condition.mem_referencesOf_iff {cs : List Condition} {a : String} :
    a ∈ Condition.referencesOf cs ↔ ∃ c ∈ cs, a ∈ c.references := by
  induction cs with
  | nil => simp [referencesOf]
  | cons c cs ih => simp [referencesOf, ih]

theorem Condition.referencesOf_subset {cs : List Condition} {r : List String}
    (h : ∀ c ∈ cs, c.references ⊆ r) : Condition.referencesOf cs ⊆ r := fun _ ha => by
  obtain ⟨c, hc, ha⟩ := mem_referencesOf_iff.1 ha
  exact h c hc ha

/-- What stands in the place of a condition refers to nothing that the condition does not refer to. -/
def Condition.KeepsReferences (f : Condition → List Condition) : Prop :=
  ∀ c, ∀ c' ∈ f c, c'.references ⊆ c.references

section

variable {f : Condition → List Condition}

mutual

/-- Other leaves make no new references. -/
theorem Plan.references_mapLeaves (hf : Condition.KeepsReferences f) :
    ∀ {p : Plan}, (p.mapLeaves f).references ⊆ p.references
  | ⟨_, _, _, _, _, _⟩ => by
    intro a ha
    rw [Plan.mem_references_iff] at ha ⊢
    exact ha.imp (fun h => Select.referencesOf_mapLeavesAll hf h) (Or.imp
      (fun h => Group.referencesOf_mapLeavesTop hf h) (Or.imp_right (Or.imp_right
        fun h => Table.referencesOf_mapLeavesAll hf h)))

theorem Table.referencesOf_mapLeavesAll (hf : Condition.KeepsReferences f) :
    ∀ {ts : List Table}, Table.referencesOf (Table.mapLeavesAll f ts) ⊆ Table.referencesOf ts
  | [] => List.Subset.refl _
  | .primary _ _ :: rest =>
    have h : Table.referencesOf (Table.mapLeavesAll f rest) ⊆ Table.referencesOf rest :=
      Table.referencesOf_mapLeavesAll hf
    h
  | .join _ :: _ => List.cons_subset_cons _ (Table.referencesOf_mapLeavesAll hf)
  | .cross _ _ :: rest =>
    have h : Table.referencesOf (Table.mapLeavesAll f rest) ⊆ Table.referencesOf rest :=
      Table.referencesOf_mapLeavesAll hf
    h
  | .lateral _ _ _ :: _ => append_subset_append
      (List.cons_subset_cons _ (Plan.references_mapLeaves hf)) (Table.referencesOf_mapLeavesAll hf)

theorem Group.referencesOf_mapLeavesTop (hf : Condition.KeepsReferences f) : ∀ {g : Option Group},
    Group.referencesOf (Group.mapLeavesTop f g) ⊆ Group.referencesOf g
  | none => List.Subset.refl _
  | some _ => Group.references_mapLeaves hf

theorem Group.references_mapLeaves (hf : Condition.KeepsReferences f) :
    ∀ {g : Group}, (g.mapLeaves f).references ⊆ g.references
  | ⟨_, _⟩ => Condition.referencesOf_mapLeavesAll hf

theorem Condition.referencesOf_mapLeavesAll (hf : Condition.KeepsReferences f) :
    ∀ {cs : List Condition},
      Condition.referencesOf (Condition.mapLeavesAll f cs) ⊆ Condition.referencesOf cs
  | [] => List.Subset.refl _
  | _ :: _ => by
    rw [Condition.mapLeavesAll, Condition.referencesOf_append]
    exact append_subset_append
      (Condition.referencesOf_mapLeaves hf) (Condition.referencesOf_mapLeavesAll hf)

theorem Condition.referencesOf_mapLeaves (hf : Condition.KeepsReferences f) : ∀ {c : Condition},
    Condition.referencesOf (c.mapLeaves f) ⊆ c.references
  | .column _ => Condition.referencesOf_subset (hf _)
  | .raw _ => Condition.referencesOf_subset (hf _)
  | .group _ => Condition.referencesOf_subset
      (List.forall_mem_singleton.2 (Group.references_mapLeaves hf))
  | .existence _ _ _ => Condition.referencesOf_subset (List.forall_mem_singleton.2
      (append_subset_append (List.Subset.refl _) (Plan.references_mapLeaves hf)))

theorem Select.referencesOf_mapLeavesAll (hf : Condition.KeepsReferences f) : ∀ {ss : List Select},
    Select.referencesOf (Select.mapLeavesAll f ss) ⊆ Select.referencesOf ss
  | [] => List.Subset.refl _
  | .boolOr _ _ :: _ => append_subset_append
      (Group.references_mapLeaves hf) (Select.referencesOf_mapLeavesAll hf)
  | .star _ :: _ => append_subset_append (List.Subset.refl _)
      (Select.referencesOf_mapLeavesAll hf)
  | .column _ _ :: _ => append_subset_append (List.Subset.refl _)
      (Select.referencesOf_mapLeavesAll hf)
  | .discriminator _ _ _ :: _ => append_subset_append (List.Subset.refl _)
      (Select.referencesOf_mapLeavesAll hf)
  | .countIsZero _ :: _ => append_subset_append (List.Subset.refl _)
      (Select.referencesOf_mapLeavesAll hf)
  | .raw _ _ _ :: _ => append_subset_append (List.Subset.refl _)
      (Select.referencesOf_mapLeavesAll hf)

end

end

theorem Condition.keepsReferences_withNullCheck {outer : List String}
    {idDbType : String → String} :
    Condition.KeepsReferences (Condition.withNullCheck outer idDbType) := by
  intro c c' hc'
  cases c with
  | column c =>
    simp only [Condition.withNullCheck] at hc'
    split_ifs at hc' with hambiguous
    · -- what is told from a missing row was asked for
      have hasked : c.pruneable = false := by
        simp only [ColumnCondition.isAmbiguous, Bool.and_eq_true, Bool.not_eq_true'] at hambiguous
        exact hambiguous.1.1.1
      rw [List.mem_singleton.1 hc']
      refine Condition.referencesOf_subset fun k hk => ?_
      rcases List.mem_pair.1 hk with rfl | rfl <;>
        simp [Condition.references, hasked, ColumnCondition.asked]
    · rw [List.mem_singleton.1 hc']
      exact List.Subset.refl _
  | _ =>
    rw [List.mem_singleton.1 hc']
    exact List.Subset.refl _

theorem Condition.keepsReferences_withoutRemoved {removed : List String} :
    Condition.KeepsReferences (Condition.withoutRemoved removed) := fun _ _ hc' => by
  rw [Condition.withoutRemoved_subset hc']
  exact List.Subset.refl _

/-! ### Conditions without subqueries -/

mutual

theorem Group.references_subset_aliases : ∀ {g : Group}, g.plans = [] → g.references ⊆ g.aliases
  | ⟨op, cs⟩, h, a, ha => by
    obtain ⟨c, hc, ha⟩ := @Condition.exists_of_mem_referencesOf a cs h ha
    exact (@Condition.mem_aliases_group op cs a).2 ⟨c, hc, ha⟩

theorem Condition.exists_of_mem_referencesOf {a : String} : ∀ {cs : List Condition},
    Condition.plansOf cs = [] → a ∈ Condition.referencesOf cs → ∃ c ∈ cs, a ∈ c.aliases
  | [], _, ha => absurd ha List.not_mem_nil
  | c :: _, h, ha => by
    obtain ⟨hc, hcs⟩ := List.append_eq_nil_iff.1 h
    rcases List.mem_append.1 ha with ha | ha
    · exact ⟨c, List.mem_cons_self, Condition.references_subset_aliases hc ha⟩
    · obtain ⟨c', hc', ha⟩ := Condition.exists_of_mem_referencesOf hcs ha
      exact ⟨c', List.mem_cons_of_mem _ hc', ha⟩

/-- A condition without subqueries refers to tables that it reads. -/
theorem Condition.references_subset_aliases : ∀ {c : Condition}, c.plans = [] →
    c.references ⊆ c.aliases
  | .group _, h => Group.references_subset_aliases h
  | .column c, _ => by cases hp : c.pruneable <;> simp [Condition.references, Condition.aliases, hp]
  | .raw r, _ => by cases hp : r.pruneable <;> simp [Condition.references, Condition.aliases, hp]
  | .existence _ _ _, h => absurd h (List.cons_ne_nil _ _)

end

/-- The group at the top refers to what its conditions refer to. -/
theorem Group.exists_of_mem_referencesOf_ofTop {disjunctive : Bool} {cs : List Condition}
    {a : String} (h : a ∈ Group.referencesOf (Group.ofTop disjunctive cs)) :
    ∃ c ∈ cs, a ∈ c.references := by
  have hall : ∀ cs : List Condition, a ∈ Group.referencesOf (some (.all cs)) →
      ∃ c ∈ cs, a ∈ c.references := fun _ => Condition.mem_referencesOf_iff.1
  match cs with
  | [] => cases h
  | [.group g] =>
    cases disjunctive with
    | false => exact hall _ h
    | true => exact ⟨_, List.mem_singleton_self _, h⟩
  | [.column _] => exact hall _ h
  | [.raw _] => exact hall _ h
  | [.existence _ _ _] => exact hall _ h
  | c :: _ :: _ => cases c <;> exact hall _ h

/-- What was not asked for refers to nothing. -/
theorem Condition.references_of_isPruneable {c : Condition} (h : c.isPruneable = true) :
    c.references = [] := by
  cases c with
  | column c => exact if_pos h
  | raw r => exact if_pos h
  | _ => cases h

/-! ### Pruned plans -/

namespace Plan

variable {p : Plan} {keep removed : List String}

theorem mem_unreferenced_iff {a : String} : a ∈ p.unreferenced keep ↔
    (∃ t ∈ p.tables, t.isPrimary = false ∧ t.aliasName = a) ∧ a ∉ keep ∧ a ∉ p.references := by
  simp [unreferenced, and_assoc]

theorem tables_remove : (p.remove removed).tables = Table.mapLeavesAll
    (Condition.withoutRemoved removed) (p.tables.filter (·.aliasName ∉ removed)) := by
  cases p
  rfl

theorem length_tables_remove (h : ∃ t ∈ p.tables, t.aliasName ∈ removed) :
    (p.remove removed).tables.length < p.tables.length := by
  have hsame := congrArg List.length (@Table.map_aliasName_mapLeavesAll
    (Condition.withoutRemoved removed) (p.tables.filter (·.aliasName ∉ removed)))
  rw [List.length_map, List.length_map] at hsame
  rw [tables_remove, hsame]
  obtain ⟨t, ht, hm⟩ := h
  exact List.length_filter_lt_length_iff_exists.2 ⟨t, ht, by simpa using hm⟩

theorem unreferenced_trimWithin {n : Nat} (h : p.tables.length ≤ n) :
    (p.trimWithin keep n).unreferenced keep = [] := by
  induction n generalizing p with
  | zero => simp [trimWithin, unreferenced, List.length_eq_zero_iff.1 (Nat.le_zero.1 h)]
  | succ n ih =>
    rw [trimWithin]
    split
    · assumption
    · next hne =>
      obtain ⟨a, ha⟩ := List.exists_mem_of_ne_nil _ hne
      obtain ⟨⟨t, ht, -, rfl⟩, -⟩ := mem_unreferenced_iff.1 ha
      have := length_tables_remove ⟨t, ht, ha⟩
      exact ih (by omega)

/-- A pruned plan refers to all of its tables but the primary one and those that are kept. -/
theorem unreferenced_trim : (p.trim keep).unreferenced keep = [] :=
  unreferenced_trimWithin (Nat.le_refl _)

/-- What removing tables that nothing refers to keeps is kept by pruning. -/
theorem trim_induct {P : Plan → Prop} (hP : ∀ p, P p → P (p.remove (p.unreferenced keep)))
    (h : P p) : P (p.trim keep) := by
  suffices ∀ n, P (p.trimWithin keep n) from this _
  intro n
  induction n generalizing p with
  | zero => exact h
  | succ n ih =>
    rw [trimWithin]
    split
    · exact h
    · exact ih (hP p h)

end Plan

end EntityQuery
