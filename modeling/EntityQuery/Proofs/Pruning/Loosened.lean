import EntityQuery.Proofs.Pruning.Needed

/-!
# Inner joins of tables that go

A table that pruning removes leaves no trace of the kind of its join.  So an inner join can be taken
for an outer one, which keeps every assignment, where it does not stay in the plan.

* `Plan.loosened`: the plan with the joins of some tables as outer joins;
* `Plan.stays_loosened_iff`: the same tables stay;
* `Plan.prune_loosened`: the kind of joins that do not stay makes no difference to pruning.
-/

namespace EntityQuery

/-- The join, which is an outer one if its table is among the names. -/
def Join.loosened (names : List String) (j : Join) : Join :=
  if j.aliasName ∈ names then { j with kind := .outer } else j

/-- The table, with an outer join if it is among the names. -/
def Table.loosened (names : List String) : Table → Table
  | .join j => .join (j.loosened names)
  | t => t

/-- The plan with outer joins of the named tables. -/
def Plan.loosened (names : List String) (p : Plan) : Plan :=
  { p with tables := p.tables.map (Table.loosened names) }

section

variable {names : List String} {j : Join} {t : Table} {ts : List Table}

namespace Join

@[simp] theorem aliasName_loosened : (j.loosened names).aliasName = j.aliasName := by
  unfold loosened; split_ifs <;> rfl

@[simp] theorem parent_loosened : (j.loosened names).parent = j.parent := by
  unfold loosened; split_ifs <;> rfl

@[simp] theorem own_loosened : (j.loosened names).own = j.own := by
  unfold loosened; split_ifs <;> rfl

@[simp] theorem distinct_loosened : (j.loosened names).distinct = j.distinct := by
  unfold loosened; split_ifs <;> rfl

theorem kind_loosened (h : j.aliasName ∈ names) : (j.loosened names).kind = .outer := by
  rw [loosened, if_pos h]

/-- An outer join stays as it is. -/
theorem loosened_of_outer (h : j.kind = .outer) : j.loosened names = j := by
  unfold loosened
  split_ifs
  · rw [← h]
  · rfl

end Join

namespace Table

@[simp] theorem aliasName_loosened : (t.loosened names).aliasName = t.aliasName := by
  cases t <;> simp [loosened, aliasName]

@[simp] theorem isPrimary_loosened : (t.loosened names).isPrimary = t.isPrimary := by
  cases t <;> rfl

@[simp] theorem parentAlias?_loosened : (t.loosened names).parentAlias? = t.parentAlias? := by
  cases t <;> simp [loosened, parentAlias?]

@[simp] theorem referents_loosened : (t.loosened names).referents = t.referents := by
  cases t <;> simp [loosened, referents]

theorem mapPlan_loosened {g : Plan → Plan} :
    (t.loosened names).mapPlan g = (t.mapPlan g).loosened names := by
  cases t <;> rfl

theorem loosened_of_not_mem (h : t.aliasName ∉ names) : t.loosened names = t := by
  cases t with
  | join j => exact congrArg Table.join (if_neg h)
  | _ => rfl

theorem map_aliasName_loosened :
    (ts.map (loosened names)).map aliasName = ts.map aliasName := by
  rw [List.map_map]
  exact List.map_congr_left fun _ _ => aliasName_loosened

end Table

end

namespace Plan

variable {names keep removed : List String} {p : Plan} {a : String} {f : Condition → List Condition}

theorem mapLeaves_loosened : (p.loosened names).mapLeaves f = (p.mapLeaves f).loosened names := by
  obtain ⟨selects, tables, condition, sortKeys, groupBys, ctes⟩ := p
  simp only [loosened, mapLeaves, Table.mapLeavesAll_eq_map, List.map_map]
  congr 1
  exact List.map_congr_left fun _ _ => Table.mapPlan_loosened

/-- The same tables stay. -/
theorem stays_loosened_iff : (p.loosened names).Stays keep a ↔ p.Stays keep a := by
  have hsustains : ∀ S, (p.loosened names).Sustains keep S ↔ p.Sustains keep S := fun S => by
    refine forall_congr' fun b => imp_congr_right fun _ => or_congr_right (or_congr_right ?_)
    simp [loosened]
  refine or_congr (exists_congr fun S => and_congr_left fun _ => hsustains S) ?_
  simp [loosened]

theorem isRemoved_loosened_iff :
    (p.loosened names).IsRemoved keep removed ↔ p.IsRemoved keep removed := by
  refine forall_congr' fun a => iff_congr Iff.rfl (and_congr ?_ (not_congr stays_loosened_iff))
  simp [loosened]

/-- Where the named tables do not stay, it makes no difference how they are joined. -/
theorem prune_loosened
    (h : ∀ j, .join j ∈ p.tables → j.aliasName ∈ names → ¬ p.Stays keep j.aliasName) :
    (p.loosened names).prune keep = p.prune keep := by
  obtain ⟨removed, htrim, hremoved⟩ := exists_trim_eq keep p
  obtain ⟨removed', htrim', hremoved'⟩ := exists_trim_eq keep (p.loosened names)
  rw [isRemoved_loosened_iff] at hremoved'
  rw [prune_eq, htrim', without_congr fun a => (hremoved' a).trans (hremoved a).symm, prune_eq,
    htrim]
  congr 1
  have htables : (p.loosened names).tables.filter (·.aliasName ∉ removed) =
      p.tables.filter (·.aliasName ∉ removed) := by
    rw [loosened, List.filter_map]
    have hsame : ((fun t : Table => decide (t.aliasName ∉ removed)) ∘ Table.loosened names) =
        fun t => decide (t.aliasName ∉ removed) := funext fun t => by simp
    rw [hsame]
    refine (List.map_congr_left fun t ht => ?_).trans (List.map_id _)
    obtain ⟨ht, hleft⟩ := List.mem_filter.1 ht
    rw [decide_eq_true_iff] at hleft
    cases t with
    | join j =>
      by_cases hj : j.aliasName ∈ names
      · exact absurd ((hremoved _).2 ⟨⟨_, ht, rfl, rfl⟩, h j ht hj⟩) hleft
      · exact Table.loosened_of_not_mem hj
    | _ => rfl
  unfold without
  rw [htables]
  rfl

end Plan

end EntityQuery
