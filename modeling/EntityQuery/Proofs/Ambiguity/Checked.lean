import EntityQuery.Proofs.Ambiguity.Place
import EntityQuery.Proofs.Evaluation.Tables
import EntityQuery.Proofs.Pruning.Visit

/-!
# Null columns told from missing rows

A test for null that was asked for means that the row is there and its column is null.  By the value
of the column it holds also where an outer join found no partner; with the test for the id beside it,
it means what it should, on all rows that the tables can be bound to, in the plan and in all plans
inside it.

* `Plan.OuterJoins`: the tables that are outer-joined in a plan or in a plan inside it;
* `Database.nullReading`: ambiguous tests for null, read as they are meant;
* `Condition.CheckedAs`, `Plan.NullChecked`: what stands where, and what it means;
* `Plan.nullChecked_addNullChecks`: the plan with the tests for rows is such a plan.
-/

namespace EntityQuery

/-! ### Outer-joined tables -/

/-- The table is outer-joined in the plan or in a plan inside it. -/
inductive Plan.OuterJoins : Plan → String → Prop
  | here {p : Plan} {j : Join} (hj : .join j ∈ p.tables) (hkind : j.kind = .outer) :
      OuterJoins p j.aliasName
  | nested {p q : Plan} {a : String} (hq : q ∈ p.nestedPlans) (h : OuterJoins q a) : OuterJoins p a

mutual

theorem Group.outerAliases_eq : ∀ g : Group, g.outerAliases = g.plans.flatMap Plan.outerAliases
  | ⟨_, cs⟩ => Condition.outerAliasesOf_eq cs

theorem Condition.outerAliasesOf_eq : ∀ cs : List Condition,
    Condition.outerAliasesOf cs = (Condition.plansOf cs).flatMap Plan.outerAliases
  | [] => rfl
  | c :: cs => by
    rw [Condition.outerAliasesOf, Condition.plansOf, List.flatMap_append,
      Condition.outerAliases_eq c, Condition.outerAliasesOf_eq cs]

theorem Condition.outerAliases_eq : ∀ c : Condition,
    c.outerAliases = c.plans.flatMap Plan.outerAliases
  | .group g => Group.outerAliases_eq g
  | .column _ => rfl
  | .raw _ => rfl
  | .existence _ _ _ => (List.flatMap_singleton _ _).symm

end

theorem mem_outerJoined_iff {ts : List Table} {a : String} :
    a ∈ outerJoined ts ↔ ∃ j, .join j ∈ ts ∧ j.kind = .outer ∧ j.aliasName = a := by
  rw [outerJoined, List.mem_filterMap]
  constructor
  · rintro ⟨t, ht, hsome⟩
    cases t with
    | join j =>
      obtain ⟨hkind, hname⟩ := Option.ite_none_right_eq_some.1 hsome
      exact ⟨j, ht, hkind, Option.some.inj hname⟩
    | _ => cases hsome
  · rintro ⟨j, hj, hkind, rfl⟩
    exact ⟨.join j, hj, if_pos hkind⟩

namespace Plan

variable {p q : Plan} {a : String}

/-- The outer-joined tables of the plan, then those of the plans inside it. -/
theorem outerAliases_eq_nested :
    p.outerAliases = outerJoined p.tables ++ p.nestedPlans.flatMap outerAliases := by
  have htables : ∀ ts : List Table,
      Table.outerAliasesOf ts = (ts.flatMap Table.plans).flatMap outerAliases := by
    intro ts
    induction ts with
    | nil => rfl
    | cons t ts ih => cases t <;> simp [Table.outerAliasesOf, Table.plans, ih]
  have hselects : ∀ ss : List Select,
      Select.outerAliasesOf ss = (ss.flatMap Select.plans).flatMap outerAliases := by
    intro ss
    induction ss with
    | nil => rfl
    | cons s ss ih =>
      cases s <;> simp [Select.outerAliasesOf, Select.plans, ih, Group.outerAliases_eq]
  have hcondition : Group.outerAliasesOf p.condition =
      ((p.condition.map Group.plans).getD []).flatMap outerAliases := by
    cases p.condition with
    | none => rfl
    | some g => exact Group.outerAliases_eq g
  have hall : p.outerAliases = outerJoined p.tables ++ Table.outerAliasesOf p.tables ++
      Group.outerAliasesOf p.condition ++ Select.outerAliasesOf p.selects := by
    cases p
    rfl
  rw [hall, htables, hcondition, hselects, nestedPlans, List.flatMap_append, List.flatMap_append,
    List.append_assoc, List.append_assoc, List.append_assoc]

theorem mem_outerAliases_iff : a ∈ p.outerAliases ↔ p.OuterJoins a := by
  have hall : p.Everywhere fun _ => True := everywhere_of_forall (fun _ => trivial) p
  induction hall with
  | @intro p _ _ ih =>
    rw [outerAliases_eq_nested, List.mem_append, mem_outerJoined_iff, List.mem_flatMap]
    constructor
    · rintro (⟨j, hj, hkind, rfl⟩ | ⟨q, hq, ha⟩)
      · exact .here hj hkind
      · exact .nested hq ((ih q hq).1 ha)
    · intro h
      cases h with
      | here hj hkind => exact .inl ⟨_, hj, hkind, rfl⟩
      | nested hq h => exact .inr ⟨_, hq, (ih _ hq).2 h⟩

theorem OuterJoins.mem_allAliases (h : p.OuterJoins a) : a ∈ p.allAliases := by
  induction h with
  | here hj _ =>
    rw [allAliases_eq_nested]
    exact List.mem_append_left _ (List.mem_map_of_mem hj)
  | nested hq _ ih => exact (sublist_allAliases_of_nested hq).subset ih

/-! ### Lateral queries -/

/-- Where all names are different, the plans inside a plan have different ones. -/
theorem not_mem_allAliases_of_nested {q r : Plan} (h : p.allAliases.Nodup)
    (hq : q ∈ p.nestedPlans) (hr : r ∈ p.nestedPlans) (hne : q ≠ r) {a : String}
    (ha : a ∈ q.allAliases) : a ∉ r.allAliases := by
  rw [allAliases_eq_nested, List.nodup_append', List.nodup_flatMap] at h
  have hsymm : Std.Symm (Function.onFun List.Disjoint allAliases) := ⟨fun _ _ => List.Disjoint.symm⟩
  exact fun hm => h.2.1.2.forall hq hr hne ha hm

/-- A name of a plan inside is that of an outer-joined table only if it is so in that plan. -/
theorem mem_outerAliases_of_nested {q : Plan} (h : p.allAliases.Nodup) (hq : q ∈ p.nestedPlans)
    {a : String} (ha : a ∈ p.outerAliases) (hm : a ∈ q.allAliases) : a ∈ q.outerAliases := by
  refine mem_outerAliases_iff.2 ?_
  cases mem_outerAliases_iff.1 ha with
  | here hj _ => exact absurd (List.mem_map_of_mem hj) (not_mem_names_of_nested h hq hm)
  | @nested _ r _ hr ha =>
    by_cases heq : r = q
    · exact heq ▸ ha
    · exact absurd hm (not_mem_allAliases_of_nested h hr hq heq ha.mem_allAliases)

/-- Where all names are different, no lateral query has the name of an outer-joined table, wherever
the two are. -/
theorem everywhere_lateralsApart (h : p.allAliases.Nodup) :
    p.Everywhere (LateralsApart p.outerAliases) := by
  have hall : p.Everywhere fun _ => True := everywhere_of_forall (fun _ => trivial) p
  -- the names that the tables around the plan have are apart too, so they come along
  suffices hmore : ∀ names : List String, (∀ a ∈ names, a ∉ p.allAliases) →
      p.Everywhere (LateralsApart (names ++ p.outerAliases)) from
    hmore [] fun _ ha => absurd ha List.not_mem_nil
  induction hall with
  | @intro p _ _ ih =>
    intro names hnames
    refine .intro (fun x b query ht hm => ?_) fun q hq => ?_
    · have hx : x ∈ p.tables.map Table.aliasName := List.mem_map_of_mem ht
      rcases List.mem_append.1 hm with hm | hm
      · refine hnames x hm ?_
        rw [allAliases_eq_nested]
        exact List.mem_append_left _ hx
      · cases mem_outerAliases_iff.1 hm with
        | here hj _ => cases List.inj_on_of_nodup_map (nodup_names h) hj ht rfl
        | nested hq hm => exact not_mem_names_of_nested h hq hm.mem_allAliases hx
    · have hq' := h.sublist (sublist_allAliases_of_nested hq)
      -- for the plan inside, the outer-joined tables beside it are around it
      refine (ih q hq hq' (names ++ p.outerAliases.filter (· ∉ q.allAliases)) ?_).imp ?_
      · intro a ha
        rcases List.mem_append.1 ha with ha | ha
        · exact fun hm => hnames a ha ((sublist_allAliases_of_nested hq).subset hm)
        · exact of_decide_eq_true (List.mem_filter.1 ha).2
      · intro r hr x b query ht hm
        refine hr x b query ht ?_
        rcases List.mem_append.1 hm with hm | hm
        · exact List.mem_append_left _ (List.mem_append_left _ hm)
        · by_cases hx : x ∈ q.allAliases
          · exact List.mem_append_right _ (mem_outerAliases_of_nested h hq hm hx)
          · exact List.mem_append_left _ (List.mem_append_right _
              (List.mem_filter.2 ⟨hm, decide_eq_true hx⟩))

end Plan

/-! ### Meaning -/

/-- An ambiguous test for null means that the table has a row and the column of the row is null;
every other column condition means what it says. -/
def Database.nullReading (db : Database) (outer : List String) : Reading := fun c e =>
  if c.isAmbiguous outer then some ((e c.aliasName).any fun row => (row c.column).isNull)
  else db.reading c e

section

variable {db : Database} {outer : List String} {idDbType : String → String} {e : Assignment}

theorem ColumnCondition.isAmbiguous_iff {c : ColumnCondition} : c.isAmbiguous outer = true ↔
    c.pruneable = false ∧ c.column ≠ "id" ∧ c.predicate = .isNull ∧ c.aliasName ∈ outer := by
  simp [isAmbiguous, Predicate.isNullTest_iff, and_assoc]

theorem Condition.replaces_withNullCheck :
    Condition.Replaces (Condition.withNullCheck outer idDbType) :=
  ⟨fun c => by
    rw [Condition.withNullCheck]
    split_ifs
    · exact ⟨_, rfl⟩
    · exact ⟨_, rfl⟩, fun r => ⟨.raw r, rfl⟩⟩

/-- A stored row has an id, so the test for the id tells whether there is a row. -/
theorem ColumnCondition.eval_nullCheck (hids : db.HasIds) {c : ColumnCondition}
    (hc : c.isAmbiguous outer = true) (he : e.Stored db outer) :
    Condition.eval db (.all [.column c, .column (.asked c.aliasName "id" (idDbType c.aliasName)
      .notNull)]) e = db.nullReading outer c e := by
  obtain ⟨-, -, hnull, hm⟩ := isAmbiguous_iff.1 hc
  rw [Database.nullReading, if_pos hc]
  simp only [Condition.all, Group.all, Condition.eval, Group.eval, Condition.evalAll, hnull,
    ColumnCondition.asked, Predicate.eval]
  cases hrow : e c.aliasName with
  | none =>
    rw [Assignment.value_of_none hrow, Assignment.value_of_none hrow]
    rfl
  | some row =>
    obtain ⟨table, hstored⟩ := he c.aliasName hm row hrow
    have hid : (row "id").isNull = false := by
      rw [← Bool.not_eq_true, Value.isNull_iff]
      exact hids table row hstored
    rw [Assignment.value_of_some hrow, Assignment.value_of_some hrow, hid, Option.any_some]
    cases (row c.column).isNull <;> rfl

theorem Condition.realizes_withNullCheck (hids : db.HasIds) :
    Condition.Realizes db (db.nullReading outer) outer (Condition.withNullCheck outer idDbType) := by
  refine ⟨fun c => ?_, fun r => rfl⟩
  rw [Condition.withNullCheck]
  split_ifs with hc
  · exact ⟨_, rfl, fun e he => ColumnCondition.eval_nullCheck hids hc he⟩
  · refine ⟨_, rfl, fun e _ => ?_⟩
    rw [Database.nullReading, if_neg hc]
    rfl

end

/-! ### Shape -/

/-- What stands in the place of a condition: beside an ambiguous test for null the test for the id,
the two of them once; every other leaf stands where it stood, and so do groups and existence tests. -/
def Condition.CheckedAs (outer : List String) (idDbType : String → String) :
    Condition → Condition → Prop
  | .column c, k => k = if c.isAmbiguous outer then
      .all [.column c, .column (.asked c.aliasName "id" (idDbType c.aliasName) .notNull)]
    else .column c
  | .raw r, k => k = .raw r
  | .group g, k => ∃ cs, k = .group ⟨g.op, cs⟩ ∧ cs.length = g.conditions.length
  | .existence _ negate outerAliases, k => ∃ query, k = .existence query negate outerAliases

/-- The result column, with another condition under the same connective if it has one. -/
def Select.SameShape : Select → Select → Prop
  | .boolOr g name, s => ∃ cs, s = .boolOr ⟨g.op, cs⟩ name
  | t, s => s = t

/-- The second plan is the first one with tests for rows: tables, orders and the shape of the result
columns are the same, each condition stands in its place, and for all stored rows it has the truth
value of the old one, its tests for null read as they are meant; so the plan selects what is meant. -/
structure Plan.NullChecked (db : Database) (outer : List String) (idDbType : String → String)
    (p q : Plan) : Prop where
  tables : ∃ g, q.tables = p.tables.map (Table.mapPlan g)
  selects : List.Forall₂ Select.SameShape p.selects q.selects
  root : q.condition.isSome = p.condition.isSome
  sortKeys : q.sortKeys = p.sortKeys
  groupBys : q.groupBys = p.groupBys
  ctes : q.ctes = p.ctes
  nested : q.nestedPlans.length = p.nestedPlans.length
  shape : ∀ k k', p.ConditionPlace q k k' → k.CheckedAs outer idDbType k'
  value : ∀ k k', p.ConditionPlace q k k' → ∀ e : Assignment, e.Stored db outer →
    k'.eval db e = k.evalAs db (db.nullReading outer) e
  rows : ∀ e : Assignment, e.Stored db outer → q.rows db e = p.rowsAs db (db.nullReading outer) e
  aggregates : ∀ e : Assignment, e.Stored db outer →
    q.aggregates db e = p.aggregatesAs db (db.nullReading outer) e

section

variable {db : Database} {outer : List String} {idDbType : String → String} {p q : Plan}

theorem Condition.checkedAs_of_mapLeaves {k k' : Condition}
    (h : k.mapLeaves (Condition.withNullCheck outer idDbType) = [k']) :
    k.CheckedAs outer idDbType k' := by
  cases k with
  | column c =>
    rw [Condition.mapLeaves, Condition.withNullCheck] at h
    split_ifs at h with hc
    · cases h
      exact (if_pos hc).symm
    · cases h
      exact (if_neg hc).symm
  | raw r =>
    cases h
    rfl
  | group g =>
    obtain ⟨op, cs⟩ := g
    rw [Condition.mapLeaves, Group.mapLeaves] at h
    cases h
    exact ⟨_, rfl, Condition.replaces_withNullCheck.forall₂.length_eq.symm⟩
  | existence query negate outerAliases =>
    rw [Condition.mapLeaves] at h
    cases h
    exact ⟨_, rfl⟩

theorem Select.forall₂_sameShape {f : Condition → List Condition} {ss : List Select} :
    List.Forall₂ Select.SameShape ss (Select.mapLeavesAll f ss) := by
  induction ss with
  | nil => exact .nil
  | cons s ss ih =>
    cases s with
    | boolOr g name =>
      obtain ⟨op, cs⟩ := g
      exact .cons ⟨_, rfl⟩ ih
    | _ => exact .cons rfl ih

theorem Select.mapLeaves_of_getElem? {f : Condition → List Condition} {ss : List Select} {i : Nat}
    {g g' : Group} {name name' : String} (hg : ss[i]? = some (.boolOr g name))
    (hg' : (Select.mapLeavesAll f ss)[i]? = some (.boolOr g' name')) : g' = g.mapLeaves f := by
  induction ss generalizing i with
  | nil => cases hg
  | cons s ss ih =>
    cases i with
    | zero =>
      cases hg
      cases hg'
      rfl
    | succ i => cases s <;> exact ih hg hg'

/-- The conditions at one place of the two plans: the new one is what the old one is replaced by. -/
theorem Plan.ConditionPlace.mapLeaves_eq {f : Condition → List Condition}
    (hf : Condition.Replaces f) {k k' : Condition} (h : p.ConditionPlace (p.mapLeaves f) k k') :
    k.mapLeaves f = [k'] ∧ k.plans ⊆ p.nestedPlans := by
  have hroot : ∀ g : Group, (Condition.group g).mapLeaves f = [.group (g.mapLeaves f)] := fun _ => by
    rw [Condition.mapLeaves]
  cases h with
  | @top g g' hg hg' h =>
    have heq : g' = g.mapLeaves f := by
      obtain ⟨selects, tables, condition, sortKeys, groupBys, ctes⟩ := p
      cases hg
      cases hg'
      rfl
    subst heq
    obtain ⟨hk, hplans⟩ := h.mapLeaves_eq hf (hroot g)
    refine ⟨hk, fun q hq => Plan.mem_nestedPlans_of_condition ?_⟩
    rw [hg]
    exact hplans hq
  | @column i g g' name name' hg hg' h =>
    rw [Plan.selects_mapLeaves] at hg'
    cases Select.mapLeaves_of_getElem? hg hg'
    obtain ⟨hk, hplans⟩ := h.mapLeaves_eq hf (hroot g)
    exact ⟨hk, fun q hq =>
      Plan.mem_nestedPlans_of_select (List.mem_of_getElem? hg) (hplans hq)⟩

theorem Plan.nullChecked_mapLeaves (hids : db.HasIds)
    (hlaterals : p.Everywhere (Plan.LateralsApart outer)) :
    p.NullChecked db outer idDbType (p.mapLeaves (Condition.withNullCheck outer idDbType)) where
  tables := ⟨_, Plan.tables_mapLeaves⟩
  selects := by
    rw [Plan.selects_mapLeaves]
    exact Select.forall₂_sameShape
  root := by
    obtain ⟨selects, tables, condition, sortKeys, groupBys, ctes⟩ := p
    cases condition <;> rfl
  sortKeys := Plan.sortKeys_mapLeaves
  groupBys := by cases p; rfl
  ctes := by cases p; rfl
  nested := by rw [Plan.nestedPlans_mapLeaves Condition.flat_withNullCheck, List.length_map]
  shape := fun k k' h =>
    Condition.checkedAs_of_mapLeaves (h.mapLeaves_eq Condition.replaces_withNullCheck).1
  value := fun k k' h e he => by
    obtain ⟨hk, hplans⟩ := h.mapLeaves_eq Condition.replaces_withNullCheck
    have heval : Condition.evalAll db (k.mapLeaves (Condition.withNullCheck outer idDbType)) e =
        [k.evalAs db (db.nullReading outer) e] :=
      Condition.evalAll_mapLeaves_eq (Condition.realizes_withNullCheck hids)
        (fun q hq => hlaterals.nested q (hplans hq)) he
    rw [hk, Condition.evalAll] at heval
    exact (List.cons.inj heval).1
  rows := fun _ he =>
    Plan.rows_mapLeaves_eq (Condition.realizes_withNullCheck hids) hlaterals he
  aggregates := fun _ he =>
    Plan.aggregates_mapLeaves_eq (Condition.realizes_withNullCheck hids) hlaterals he

/-- The fix-up succeeds, it looks at the outer joins of all plans, and in each plan every condition
means what it should. -/
theorem Plan.nullChecked_addNullChecks (hnodup : p.allAliases.Nodup) (hids : db.HasIds)
    (idDbType : String → String) :
    p.addNullChecksByVisit idDbType = .ok (p.addNullChecks idDbType) ∧
      (∀ a, a ∈ p.outerAliases ↔ p.OuterJoins a) ∧
      ∀ q q', Plan.Place p (p.addNullChecks idDbType) q q' →
        q.NullChecked db p.outerAliases idDbType q' := by
  refine ⟨Plan.addNullChecksByVisit_eq_ok idDbType p, fun _ => Plan.mem_outerAliases_iff,
    fun q q' h => ?_⟩
  obtain ⟨rfl, hlaterals⟩ := h.mapLeaves_eq Condition.flat_withNullCheck rfl
    (Plan.everywhere_lateralsApart hnodup)
  exact Plan.nullChecked_mapLeaves hids hlaterals

end

/-! ### Authors with a book without title -/

namespace Bookshelf

/-- The book has no title. -/
def untitled (aliasName : String) : Condition :=
  .column (.asked aliasName "title" "text" .isNull)

/-- The books of an author with another book of the author that has no title. -/
def unfinished : Plan where
  selects := []
  tables := [.primary "w" "books",
    .join ⟨"v", "books", .outer, ⟨"w", "author_id"⟩, ⟨"v", "author_id"⟩, none⟩]
  condition := some (.all [.raw (.correlation ⟨"a", "id"⟩ ⟨"w", "author_id"⟩), untitled "v"])
  sortKeys := []
  groupBys := none
  ctes := none

/-- The authors of an untitled book, or of a book beside such a one. -/
def untold : Plan := authors (.any [untitled "b", .existence unfinished false ["a"]])

theorem nullChecked_untold : untold.allAliases.Nodup ∧ database.HasIds ∧
    untold.outerAliases = ["b", "b1", "_b", "v"] ∧
    (∀ q q', Plan.Place untold (untold.addNullChecks fun _ => "int") q q' →
      q.NullChecked database untold.outerAliases (fun _ => "int") q') :=
  ⟨by decide, hasIds_database, by decide,
    (Plan.nullChecked_addNullChecks (by decide) hasIds_database fun _ => "int").2.2⟩

end Bookshelf

end EntityQuery
