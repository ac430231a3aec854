import EntityQuery.Proofs.Agreement.Binding
import EntityQuery.Proofs.Pruning.Retained

/-!
# Readings of column conditions

What a plan selects when its column conditions are read in another way than by the value of the
column.  Conditions can be rewritten so that they mean what they were read as before.

* `Reading`, `Plan.rowsAs`: evaluation with another reading of column conditions;
* `Plan.rowsAs_reading`: with the usual reading it is the usual evaluation;
* `Assignment.Stored`: tables that are bound to rows of the database;
* `Condition.Realizes`: column conditions that are replaced by what they are read as;
* `Plan.rows_mapLeaves_eq`: then the new plan selects what the old one was read as.
-/

namespace EntityQuery

/-- How a column condition is read for the rows that the tables are bound to. -/
abbrev Reading := ColumnCondition → Assignment → Option Bool

/-- The usual reading, by the value of the column. -/
def Database.reading (db : Database) : Reading := fun c e =>
  c.predicate.eval db (e.value ⟨c.aliasName, c.column⟩)

mutual

/-- The assignments that a plan selects with a reading of its column conditions. -/
def Plan.rowsAs (db : Database) (read : Reading) : Plan → Assignment → List Assignment
  | ⟨_, tables, condition, _, _, _⟩, e =>
    (Table.bindAllAs db read tables [e]).filter fun e =>
      Group.evalTopAs db read condition e = some true

/-- The assignments with rows of all tables. -/
def Table.bindAllAs (db : Database) (read : Reading) : List Table → List Assignment → List Assignment
  | [], es => es
  | t :: rest, es => Table.bindAllAs db read rest (es.flatMap (t.bindAs db read))

/-- The assignments with a row of one more table. -/
def Table.bindAs (db : Database) (read : Reading) : Table → Assignment → List Assignment
  | .lateral aliasName _ query, e => [e.bind aliasName (some (query.aggregatesAs db read e))]
  | t, e => t.bind db e

/-- The row of boolean columns over all that a plan selects. -/
def Plan.aggregatesAs (db : Database) (read : Reading) : Plan → Assignment → Row
  | ⟨selects, tables, condition, _, _, _⟩, e =>
    Select.aggregatesAs db read ((Table.bindAllAs db read tables [e]).filter fun e =>
      Group.evalTopAs db read condition e = some true) selects fun _ => .null

/-- The boolean columns over some assignments, added to a row. -/
def Select.aggregatesAs (db : Database) (read : Reading) (es : List Assignment) :
    List Select → Row → Row
  | [], row => row
  | .boolOr g name :: rest, row =>
    let values := es.filterMap (g.evalAs db read)
    let value := if values.isEmpty then .null else .bool (decide (true ∈ values))
    Select.aggregatesAs db read es rest (Function.update row name value)
  | .countIsZero name :: rest, row =>
    Select.aggregatesAs db read es rest (Function.update row name (.bool es.isEmpty))
  | _ :: rest, row => Select.aggregatesAs db read es rest row

/-- The truth value of the group at the top of a plan; no condition is true. -/
def Group.evalTopAs (db : Database) (read : Reading) : Option Group → Assignment → Option Bool
  | none, _ => some true
  | some g, e => g.evalAs db read e

/-- The truth value of a group. -/
def Group.evalAs (db : Database) (read : Reading) : Group → Assignment → Option Bool
  | ⟨op, conditions⟩, e => op.combine (Condition.evalAllAs db read conditions e)

/-- The truth values of conditions. -/
def Condition.evalAllAs (db : Database) (read : Reading) :
    List Condition → Assignment → List (Option Bool)
  | [], _ => []
  | c :: rest, e => c.evalAs db read e :: Condition.evalAllAs db read rest e

/-- The truth value of a condition. -/
def Condition.evalAs (db : Database) (read : Reading) : Condition → Assignment → Option Bool
  | .group g, e => g.evalAs db read e
  | .column c, e => read c e
  | .raw r, e => db.fragment r e
  | .existence query negate _, e => some ((!(query.rowsAs db read e).isEmpty) != negate)

end

/-! ### Stored rows -/

/-- The tables are bound to rows of the database, or have no row. -/
def Assignment.Stored (db : Database) (names : List String) (e : Assignment) : Prop :=
  ∀ a ∈ names, ∀ row, e a = some row → ∃ table, row ∈ db.table table

/-- No lateral query of the plan has one of the names. -/
def Plan.LateralsApart (names : List String) (p : Plan) : Prop :=
  ∀ x fromAlias query, .lateral x fromAlias query ∈ p.tables → x ∉ names

section

variable {db : Database} {names : List String} {e e' : Assignment} {a : String}

theorem Assignment.Stored.bind (h : e.Stored db names) {row : Option Row}
    (hrow : a ∈ names → ∀ r, row = some r → ∃ table, r ∈ db.table table) :
    (e.bind a row).Stored db names := by
  intro b hb r hr
  by_cases hba : b = a
  · subst hba
    rw [Assignment.bind_self] at hr
    exact hrow hb r hr
  · rw [Assignment.bind_of_ne hba] at hr
    exact h b hb r hr

/-- What is bound next to stored rows is stored, where no lateral query has one of the names. -/
theorem Table.stored_bind {t : Table} (ht : ∀ x b query, t = .lateral x b query → x ∉ names)
    (h : e.Stored db names) (he : e' ∈ t.bind db e) : e'.Stored db names := by
  have hscan : ∀ {x table : String} {rows : List Row}, (∀ row ∈ rows, row ∈ db.table table) →
      e' ∈ rows.map (fun row => e.bind x (some row)) → e'.Stored db names := by
    intro x table rows hrows he
    obtain ⟨row, hrow, rfl⟩ := List.mem_map.1 he
    refine h.bind fun _ r hr => ?_
    cases hr
    exact ⟨table, hrows row hrow⟩
  cases t with
  | primary x table => exact hscan (fun _ hrow => hrow) he
  | cross x table => exact hscan (fun _ hrow => hrow) he
  | lateral x b query =>
    rw [List.mem_singleton.1 he]
    exact h.bind fun hx => absurd hx (ht x b query rfl)
  | join j =>
    change e' ∈ j.bind db e at he
    unfold Join.bind at he
    simp only at he
    split_ifs at he
    · rw [List.mem_singleton.1 he]
      exact h.bind fun _ r hr => by cases hr
    · exact hscan (fun row hrow => (List.mem_filter.1 hrow).1) he

end

/-! ### Conditions that mean what they are read as -/

/-- A column condition is replaced by one condition that means what it is read as, and a fragment
stays. -/
structure Condition.Realizes (db : Database) (read : Reading) (names : List String)
    (f : Condition → List Condition) : Prop where
  column : ∀ c, ∃ k, f (.column c) = [k] ∧
    ∀ e : Assignment, e.Stored db names → k.eval db e = read c e
  raw : ∀ r, f (.raw r) = [.raw r]

section

variable {db : Database} {read : Reading} {names : List String} {f : Condition → List Condition}

mutual

/-- The new plan selects what the old one was read as. -/
theorem Plan.rows_mapLeaves_eq (hf : Condition.Realizes db read names f) :
    ∀ {p : Plan} {e : Assignment}, p.Everywhere (Plan.LateralsApart names) → e.Stored db names →
      (p.mapLeaves f).rows db e = p.rowsAs db read e
  | ⟨selects, tables, condition, sortKeys, groupBys, ctes⟩, e, h, he => by
    obtain ⟨hbound, hstored⟩ := Table.bindAll_mapLeaves_eq hf
      (show ∀ x b query, .lateral x b query ∈ tables → x ∉ names from h.here)
      (fun t ht q hq => h.nested q (Plan.mem_nestedPlans_of_table ht hq))
      (List.forall_mem_singleton.2 he)
    rw [Plan.mapLeaves, Plan.rows, Plan.rowsAs, hbound]
    refine List.filter_congr fun e₁ he₁ => ?_
    rw [Group.evalTop_mapLeaves_eq hf
      (fun q hq => h.nested q (Plan.mem_nestedPlans_of_condition hq)) (hstored e₁ he₁)]

theorem Table.bindAll_mapLeaves_eq (hf : Condition.Realizes db read names f) :
    ∀ {ts : List Table} {es : List Assignment},
      (∀ x fromAlias query, .lateral x fromAlias query ∈ ts → x ∉ names) →
      (∀ t ∈ ts, ∀ q ∈ t.plans, q.Everywhere (Plan.LateralsApart names)) →
      (∀ e ∈ es, e.Stored db names) →
      Table.bindAll db (Table.mapLeavesAll f ts) es = Table.bindAllAs db read ts es ∧
        ∀ e ∈ Table.bindAllAs db read ts es, e.Stored db names
  | [], _, _, _, hes => ⟨by rw [Table.mapLeavesAll, Table.bindAll, Table.bindAllAs],
      by rwa [Table.bindAllAs]⟩
  | t :: ts, es, hnames, hplans, hes => by
    have hone : ∀ e ∈ es, (t.withLeaves f).bind db e = t.bindAs db read e := by
      intro e he
      cases t with
      | lateral x b query =>
        rw [Table.withLeaves, Table.bind, Table.bindAs, Plan.aggregates_mapLeaves_eq hf
          (hplans _ List.mem_cons_self query (List.mem_singleton_self _)) (hes e he)]
      | _ =>
        rw [Table.bindAs]
        · rfl
        all_goals simp
    have hsame : es.flatMap ((t.withLeaves f).bind db) = es.flatMap (t.bindAs db read) :=
      List.flatMap_congr hone
    -- the rows of lateral queries are not stored, but none of them has one of the names
    have hstored : ∀ e' ∈ es.flatMap (t.bindAs db read), e'.Stored db names := by
      intro e' he'
      obtain ⟨e, he, he'⟩ := List.mem_flatMap.1 he'
      rw [← hone e he] at he'
      refine Table.stored_bind (fun x b query ht => ?_) (hes e he) he'
      cases t with
      | lateral x' b' query' =>
        cases ht
        exact hnames _ _ _ List.mem_cons_self
      | _ => cases ht
    rw [Table.mapLeavesAll_cons, Table.bindAll, Table.bindAllAs, hsame]
    exact Table.bindAll_mapLeaves_eq hf
      (fun x b query ht => hnames x b query (List.mem_cons_of_mem _ ht))
      (fun t ht => hplans t (List.mem_cons_of_mem _ ht)) hstored

theorem Plan.aggregates_mapLeaves_eq (hf : Condition.Realizes db read names f) :
    ∀ {p : Plan} {e : Assignment}, p.Everywhere (Plan.LateralsApart names) → e.Stored db names →
      (p.mapLeaves f).aggregates db e = p.aggregatesAs db read e
  | ⟨selects, tables, condition, sortKeys, groupBys, ctes⟩, e, h, he => by
    obtain ⟨hbound, hstored⟩ := Table.bindAll_mapLeaves_eq hf
      (show ∀ x b query, .lateral x b query ∈ tables → x ∉ names from h.here)
      (fun t ht q hq => h.nested q (Plan.mem_nestedPlans_of_table ht hq))
      (List.forall_mem_singleton.2 he)
    have hrows : (Table.bindAllAs db read tables [e]).filter (fun e =>
        Group.evalTop db (Group.mapLeavesTop f condition) e = some true) =
        (Table.bindAllAs db read tables [e]).filter fun e =>
          Group.evalTopAs db read condition e = some true :=
      List.filter_congr fun e₁ he₁ => by
        rw [Group.evalTop_mapLeaves_eq hf
          (fun q hq => h.nested q (Plan.mem_nestedPlans_of_condition hq)) (hstored e₁ he₁)]
    rw [Plan.mapLeaves, Plan.aggregates, Plan.aggregatesAs, hbound, hrows]
    exact Select.aggregates_mapLeaves_eq hf
      (fun s hs q hq => h.nested q (Plan.mem_nestedPlans_of_select hs hq))
      fun e₁ he₁ => hstored e₁ (List.mem_filter.1 he₁).1

theorem Select.aggregates_mapLeaves_eq (hf : Condition.Realizes db read names f) :
    ∀ {ss : List Select} {es : List Assignment} {row : Row},
      (∀ s ∈ ss, ∀ q ∈ s.plans, q.Everywhere (Plan.LateralsApart names)) →
      (∀ e ∈ es, e.Stored db names) →
      Select.aggregates db es (Select.mapLeavesAll f ss) row = Select.aggregatesAs db read es ss row
  | [], _, _, _, _ => rfl
  | .boolOr g name :: ss, es, row, hplans, hes => by
    have hvalues : es.filterMap ((g.mapLeaves f).eval db) = es.filterMap (g.evalAs db read) :=
      List.filterMap_congr fun e he =>
        Group.eval_mapLeaves_eq hf (hplans _ List.mem_cons_self) (hes e he)
    rw [Select.mapLeavesAll, Select.aggregates, Select.aggregatesAs, hvalues]
    exact Select.aggregates_mapLeaves_eq hf (fun s hs => hplans s (List.mem_cons_of_mem _ hs)) hes
  | .countIsZero _ :: ss, es, row, hplans, hes => by
    simp only [Select.mapLeavesAll, Select.aggregates, Select.aggregatesAs]
    exact Select.aggregates_mapLeaves_eq hf (fun s hs => hplans s (List.mem_cons_of_mem _ hs)) hes
  | .star _ :: ss, es, row, hplans, hes => by
    simp only [Select.mapLeavesAll, Select.aggregates, Select.aggregatesAs]
    exact Select.aggregates_mapLeaves_eq hf (fun s hs => hplans s (List.mem_cons_of_mem _ hs)) hes
  | .column _ _ :: ss, es, row, hplans, hes => by
    simp only [Select.mapLeavesAll, Select.aggregates, Select.aggregatesAs]
    exact Select.aggregates_mapLeaves_eq hf (fun s hs => hplans s (List.mem_cons_of_mem _ hs)) hes
  | .discriminator _ _ _ :: ss, es, row, hplans, hes => by
    simp only [Select.mapLeavesAll, Select.aggregates, Select.aggregatesAs]
    exact Select.aggregates_mapLeaves_eq hf (fun s hs => hplans s (List.mem_cons_of_mem _ hs)) hes
  | .raw _ _ _ :: ss, es, row, hplans, hes => by
    simp only [Select.mapLeavesAll, Select.aggregates, Select.aggregatesAs]
    exact Select.aggregates_mapLeaves_eq hf (fun s hs => hplans s (List.mem_cons_of_mem _ hs)) hes

theorem Group.evalTop_mapLeaves_eq (hf : Condition.Realizes db read names f) :
    ∀ {g : Option Group} {e : Assignment},
      (∀ q ∈ (g.map Group.plans).getD [], q.Everywhere (Plan.LateralsApart names)) →
      e.Stored db names →
      Group.evalTop db (Group.mapLeavesTop f g) e = Group.evalTopAs db read g e
  | none, _, _, _ => rfl
  | some _, _, hplans, he => Group.eval_mapLeaves_eq hf hplans he

theorem Group.eval_mapLeaves_eq (hf : Condition.Realizes db read names f) :
    ∀ {g : Group} {e : Assignment},
      (∀ q ∈ g.plans, q.Everywhere (Plan.LateralsApart names)) → e.Stored db names →
      (g.mapLeaves f).eval db e = g.evalAs db read e
  | ⟨op, _⟩, _, hplans, he =>
    congrArg op.combine (Condition.evalAll_mapLeavesAll_eq hf hplans he)

theorem Condition.evalAll_mapLeavesAll_eq (hf : Condition.Realizes db read names f) :
    ∀ {cs : List Condition} {e : Assignment},
      (∀ q ∈ Condition.plansOf cs, q.Everywhere (Plan.LateralsApart names)) → e.Stored db names →
      Condition.evalAll db (Condition.mapLeavesAll f cs) e = Condition.evalAllAs db read cs e
  | [], _, _, _ => rfl
  | c :: cs, e, hplans, he => by
    rw [Condition.mapLeavesAll, Condition.evalAll_append, Condition.evalAllAs,
      Condition.evalAll_mapLeaves_eq hf (fun q hq => hplans q (List.mem_append_left _ hq)) he,
      Condition.evalAll_mapLeavesAll_eq hf (fun q hq => hplans q (List.mem_append_right _ hq)) he]
    rfl

theorem Condition.evalAll_mapLeaves_eq (hf : Condition.Realizes db read names f) :
    ∀ {c : Condition} {e : Assignment},
      (∀ q ∈ c.plans, q.Everywhere (Plan.LateralsApart names)) → e.Stored db names →
      Condition.evalAll db (c.mapLeaves f) e = [c.evalAs db read e]
  | .group g, e, hplans, he => by
    simp only [Condition.mapLeaves, Condition.evalAll, Condition.eval, Condition.evalAs]
    rw [Group.eval_mapLeaves_eq hf hplans he]
  | .column c, e, _, he => by
    obtain ⟨k, hk, heval⟩ := hf.column c
    rw [Condition.mapLeaves, hk, Condition.evalAll, heval e he]
    rfl
  | .raw r, e, _, _ => by
    rw [Condition.mapLeaves, hf.raw]
    rfl
  | .existence query negate _, e, hplans, he => by
    simp only [Condition.mapLeaves, Condition.evalAll, Condition.eval, Condition.evalAs]
    rw [Plan.rows_mapLeaves_eq hf (hplans query (List.mem_singleton_self _)) he]

end

/-- With the usual reading a plan selects what it selects. -/
theorem Plan.rowsAs_reading {p : Plan} {e : Assignment} :
    p.rowsAs db db.reading e = p.rows db e := by
  have hself : Condition.Realizes db db.reading [] fun c => [c] :=
    ⟨fun c => ⟨.column c, rfl, fun _ _ => rfl⟩, fun _ => rfl⟩
  have hrows := Plan.rows_mapLeaves_eq hself (e := e)
    (Plan.everywhere_of_forall (fun _ _ _ _ _ => List.not_mem_nil) p)
    fun _ ha => absurd ha List.not_mem_nil
  rw [← hrows, Plan.mapLeaves_id]

end

end EntityQuery
