import EntityQuery.Proofs.Lateral.Decompose

/-!
# The columns of a lateral subquery

A boolean column is true when its condition holds of some row, together with the guards; a count
column is true when there is no row.  No two columns of a collection have the same name, so that a
reference reads the column it was made for.

* `Select.Told`: the column is true for the given rows;
* `Select.aggregates_eq_true_iff`: the value of a column in the row of all columns;
* `Lateral.told_columnOf_iff`: the column of a group, with its guards;
* `Lateral.Numbered`: the names of the columns of each collection are numbered.
-/

namespace EntityQuery

/-- The name of a boolean column. -/
def Select.label? : Select → Option String
  | .boolOr _ name => some name
  | .countIsZero name => some name
  | _ => none

/-- The boolean column is true for the given rows. -/
def Select.Told (db : Database) (es : List Assignment) : Select → Prop
  | .boolOr g _ => ∃ e ∈ es, g.eval db e = some true
  | .countIsZero _ => es = []
  | _ => False

namespace Select

variable {db : Database} {es : List Assignment} {selects : List Select} {row : Row} {name : String}

theorem aggregates_of_not_mem (h : ∀ s ∈ selects, s.label? ≠ some name) :
    aggregates db es selects row name = row name := by
  induction selects generalizing row with
  | nil => rfl
  | cons s selects ih =>
    obtain ⟨hs, hrest⟩ := List.forall_mem_cons.1 h
    cases s with
    | boolOr g name' =>
      rw [aggregates, ih hrest, Function.update_of_ne]
      exact fun he => hs (by rw [he, label?])
    | countIsZero name' =>
      rw [aggregates, ih hrest, Function.update_of_ne]
      exact fun he => hs (by rw [he, label?])
    | star | column | discriminator | raw =>
      rw [aggregates, ih hrest]
      all_goals simp

/-- The value of a column whose name no other column has. -/
theorem aggregates_eq_true_iff (hn : selects.Pairwise fun s s' => s.label? ≠ s'.label?)
    {s : Select} (hs : s ∈ selects) (hl : s.label? = some name) :
    aggregates db es selects row name = .bool true ↔ s.Told db es := by
  induction selects generalizing row with
  | nil => cases hs
  | cons s' selects ih =>
    obtain ⟨hfirst, hrest⟩ := List.pairwise_cons.1 hn
    rcases List.mem_cons.1 hs with rfl | hs'
    · have hother : ∀ s' ∈ selects, s'.label? ≠ some name := fun s' hs' he =>
        hfirst s' hs' (by rw [hl, he])
      cases s with
      | boolOr g name' =>
        obtain rfl := Option.some.inj hl
        rw [aggregates, aggregates_of_not_mem hother, Function.update_self, Told]
        split_ifs with hnil
        · simp only [false_iff]
          rintro ⟨e, he, hg⟩
          have hm : true ∈ es.filterMap (g.eval db) := List.mem_filterMap.2 ⟨e, he, hg⟩
          rw [List.isEmpty_iff.1 hnil] at hm
          cases hm
        · rw [Value.bool.injEq, decide_eq_true_iff, List.mem_filterMap]
      | countIsZero name' =>
        obtain rfl := Option.some.inj hl
        rw [aggregates, aggregates_of_not_mem hother, Function.update_self, Told,
          Value.bool.injEq, List.isEmpty_iff]
      | star | column | discriminator | raw => cases hl
    · cases s' with
      | boolOr | countIsZero =>
        rw [aggregates]
        exact ih hrest hs'
      | star | column | discriminator | raw =>
        rw [aggregates]
        · exact ih hrest hs'
        all_goals simp

end Select

namespace Lateral

theorem columnName_injective {m n : Nat} (h : columnName m = columnName n) : m = n := by
  have hc := congrArg (fun s : String => Nat.ofDigitChars 10 (s.toList.drop 2) 0) h
  simpa [columnName, Nat.toString_eq_repr] using hc

variable {db : Database} {es : List Assignment} {e : Assignment} {guards : List Condition}
  {unit name : String} {c : Condition} {columns : List Column}

/-! ### The columns of groups -/

theorem label?_columnOf : (columnOf unit name c).label? = some name := by
  unfold columnOf
  split_ifs
  · rfl
  · split <;> rfl

theorem label?_guarded {s : Select} : (guarded guards s).label? = s.label? := by
  unfold guarded
  split <;> rfl

theorem eval_all_iff {cs : List Condition} :
    (Group.all cs).eval db e = some true ↔ ∀ k ∈ cs, k.Holds db e := by
  rw [← Condition.holds_all_iff, Condition.Holds, Condition.eval, Group.all]

theorem told_columnOf_iff : (columnOf unit name c).Told db es ↔
    if c.isMissing unit = true then es = [] else ∃ e ∈ es, c.Holds db e := by
  unfold columnOf
  split_ifs with hm
  · rfl
  · cases c with
    | group g => simp only [Select.Told, Condition.Holds, Condition.eval]
    | column | raw | existence => simp only [Select.Told, eval_all_iff, List.forall_mem_singleton]

theorem told_guarded_boolOr_iff {g : Group} : (guarded guards (.boolOr g name)).Told db es ↔
    ∃ e ∈ es, (∀ k ∈ guards, k.Holds db e) ∧ (Condition.group g).Holds db e := by
  obtain ⟨op, cs⟩ := g
  cases op with
  | and =>
    rw [guarded]
    simp only [Select.Told, eval_all_iff, List.forall_mem_append, Condition.holds_all_iff]
  | or =>
    rw [guarded]
    · simp only [Select.Told, eval_all_iff, List.forall_mem_append, List.forall_mem_singleton]
    · simp

/-- The column of a group is true when some row meets the group and the guards, or when there is
none, if the group asks for that. -/
theorem told_guarded_columnOf_iff : (guarded guards (columnOf unit name c)).Told db es ↔
    if c.isMissing unit = true then es = []
    else ∃ e ∈ es, (∀ k ∈ guards, k.Holds db e) ∧ c.Holds db e := by
  unfold columnOf
  split_ifs with hm
  · rw [guarded, Select.Told]
    all_goals simp
  · split
    · exact told_guarded_boolOr_iff
    · rw [told_guarded_boolOr_iff]
      simp only [Group.all, Condition.holds_all_iff, List.forall_mem_singleton]

/-- What a column is in the row of all columns of a subquery. -/
theorem aggregates_guardedAll_iff {selects : List Select} {row : Row}
    (hn : selects.Pairwise fun s s' => s.label? ≠ s'.label?)
    (hs : columnOf unit name c ∈ selects) :
    Select.aggregates db es (guardedAll guards selects) row name = .bool true ↔
      if c.isMissing unit = true then es = []
      else ∃ e ∈ es, (∀ k ∈ guards, k.Holds db e) ∧ c.Holds db e := by
  unfold guardedAll
  split_ifs with hnil hm
  · rw [Select.aggregates_eq_true_iff hn hs label?_columnOf, told_columnOf_iff, if_pos hm]
  · rw [Select.aggregates_eq_true_iff hn hs label?_columnOf, told_columnOf_iff, if_neg hm,
      List.isEmpty_iff.1 hnil]
    simp
  all_goals
    have hn' : (selects.map (guarded guards)).Pairwise fun s s' => s.label? ≠ s'.label? := by
      rw [List.pairwise_map]
      simpa only [label?_guarded] using hn
    rw [Select.aggregates_eq_true_iff hn' (List.mem_map_of_mem hs)
      (label?_guarded.trans label?_columnOf), told_guarded_columnOf_iff]
    simp_all

/-! ### The names of columns -/

/-- The columns of each collection are numbered in their order. -/
def Numbered (columns : List Column) : Prop := ∀ unit, (selectsOf unit columns).map Select.label? =
  (List.range (selectsOf unit columns).length).map fun n => some (columnName n)

theorem selectsOf_append {others : List Column} :
    selectsOf unit (columns ++ others) = selectsOf unit columns ++ selectsOf unit others := by
  rw [selectsOf, List.filter_append, List.map_append]
  rfl

theorem numbered_addColumn {aliasOf : String → String} (h : Numbered columns) :
    Numbered (addColumn aliasOf unit c columns).2 := by
  intro unit'
  have hadd : (addColumn aliasOf unit c columns).2 = columns ++
      [⟨unit, columnOf unit (columnName (selectsOf unit columns).length) c⟩] := rfl
  rw [hadd, selectsOf_append]
  by_cases hu : unit = unit'
  · subst hu
    have hone : selectsOf unit [⟨unit, columnOf unit (columnName (selectsOf unit columns).length) c⟩]
        = [columnOf unit (columnName (selectsOf unit columns).length) c] := by
      simp [selectsOf]
    rw [hone, List.map_append, h unit, List.length_append, List.length_singleton,
      List.range_succ, List.map_append, List.map_singleton, List.map_singleton, label?_columnOf]
  · have hnone : selectsOf unit'
        [⟨unit, columnOf unit (columnName (selectsOf unit columns).length) c⟩] = [] := by
      simp [selectsOf, hu]
    rw [hnone, List.append_nil]
    exact h unit'

/-- No two columns of a collection have the same name. -/
theorem Numbered.pairwise (h : Numbered columns) :
    (selectsOf unit columns).Pairwise fun s s' => s.label? ≠ s'.label? := by
  have hnodup : ((selectsOf unit columns).map Select.label?).Nodup := by
    rw [h unit]
    refine List.Nodup.map (fun m n hmn => columnName_injective (Option.some.inj hmn))
      List.nodup_range
  exact List.pairwise_map.1 hnodup

end Lateral

end EntityQuery
