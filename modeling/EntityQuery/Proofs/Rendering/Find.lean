import EntityQuery.Proofs.Naming.Find
import EntityQuery.Proofs.Rendering.Draft

/-!
# Plans that can be rendered

The plan of a query can be rendered, unless null was written as the operand of an order.  That holds
where the words of the names of tables start with letters; otherwise two tables can get one name, and
a lateral query can take the primary table out of its plan.

* `Plan.throughout_addOrder`: the tables that an order joins;
* `renders_find`: the plan of a query is rendered, or null was written as the operand of an order;
* `not_renders_find_boxes`: a table name with a number.
-/

namespace EntityQuery

section

variable {P : ColumnCondition → Prop} {s : Setting} {e : Entity} {a : String} {p : Plan}
  {order : OrderBy} {supply : AliasSupply} {r : Plan × AliasSupply}

/-- The tables that an order joins come behind, under new names, and have no conditions. -/
theorem Plan.throughout_addOrder (hr : p.addOrder s e a order supply = .ok r)
    (hnd : r.1.allAliases.Nodup) (h : p.Throughout Table.Led P) : r.1.Throughout Table.Led P := by
  obtain ⟨js, keys, hadd⟩ := exists_joins_addOrder hr
  obtain ⟨ordered, rest⟩ := r
  obtain ⟨rfl, -⟩ := Prod.mk.inj (Except.ok.inj (hr.symm.trans (hadd p rfl rfl)))
  have hled := (throughout_iff.1 h).1
  have hnames : ((p.tables ++ js.map Table.join).map Table.aliasName).Nodup := by
    rw [allAliases_eq, List.append_assoc, List.append_assoc] at hnd
    exact (List.nodup_append.1 hnd).1
  rw [List.map_append] at hnames
  refine throughout_of_addOrder hr (Table.led_append hled ?_) h
  refine List.forall_mem_map.2 fun j hj => ⟨rfl, ?_⟩
  intro x hx _ hname
  exact (List.nodup_append.1 hnames).2.2 _ (List.mem_map_of_mem hx) _
    (List.mem_map_of_mem (List.mem_map_of_mem hj)) hname.symm

end

/-- The primary table is among the tables that it leads. -/
theorem Table.Led.hasPrimary : ∀ {ts : List Table}, Table.Led ts → Table.HasPrimary ts
  | .primary _ _ :: _, _ => ⟨_, List.mem_cons_self, rfl⟩

/-- The predicates that are written in a query. -/
def FindOptions.written (options : FindOptions) (filter : EntityFilter) : List Predicate :=
  filter.written ++ (options.conditions.map ExpressionLiteral.written).getD []

/-- In the plan of a query and in its subqueries, null is neither compared for equality nor in a
list, and there is a primary table.  So the plan can be rendered, unless null was written as the
operand of an order: then it may fail for an order of that kind, and for nothing else. -/
theorem renders_find {schema : Schema} (hnames : schema.Spelled) {config : Config}
    {typeName : String} {filter : EntityFilter} {options : FindOptions} {r : Resolved}
    (h : find schema config typeName filter options = .ok r) :
    r.plan.Throughout Table.HasPrimary (fun c => c.predicate.NullApart) ∧
    ((∃ text, r.plan.render = .ok text) ∨ ∃ p ∈ options.written filter, p.OrdersNull ∧
      p.kind ∈ Predicate.orderings ∧
        ∃ column, r.plan.render = .error (.nullOperand p.kind column)) := by
  obtain ⟨run, rfl⟩ := exists_run_of_find h
  obtain ⟨T, -, -, hsound⟩ := Draft.sound_ofQuery hnames run.entity_mem run.draft_eq
  have hcovers : run.supply.Covers
      (run.resolved.plan.addNullChecks run.draft.idDbType).allAliases := by
    rw [Plan.addNullChecks, Plan.allAliases_mapLeaves Condition.flat_withNullCheck]
    exact hsound.covers_resolveCollections run.resolved_eq
  have hled := (hsound.scoped_resolveCollections run.resolved_eq).1.1.throughout_led
  have hasked : run.resolved.plan.Predicates (ColumnCondition.Answers (options.written filter)) :=
    Plan.predicates_resolveCollections (Draft.answers_ofQuery run.draft_eq).toPlan run.resolved_eq
  have hboth : run.resolved.plan.Throughout Table.Led
      (ColumnCondition.Answers (options.written filter)) :=
    hled.imp ⟨fun _ h _ => h, fun _ _ h => h⟩ hasked
  have hchecked : (run.resolved.plan.addNullChecks run.draft.idDbType).Throughout Table.Led
      (ColumnCondition.Answers (options.written filter)) :=
    Plan.throughout_addNullChecks Table.stable_led (fun _ => ⟨trivial, False.elim⟩) hboth
  have hordered := Plan.throughout_addOrder run.ordered_eq
    (Plan.nodup_allAliases_addOrder hnames.tables hcovers run.ordered_eq) hchecked
  have hplan : run.plan.Throughout Table.Led
      (ColumnCondition.Answers (options.written filter)) := by
    unfold QueryRun.plan
    split_ifs
    · exact Plan.throughout_prune Table.stable_led hordered
    · exact hordered
  refine ⟨hplan.imp ⟨fun _ h _ => h.hasPrimary, fun _ h _ => h.apart⟩ hplan, ?_⟩
  have hrendered : FailsOnly (SqlError.Stems (options.written filter)) run.plan.pieces :=
    Plan.failsOnly_pieces (fun _ h => h.failsOnly_tokens)
      (hplan.imp ⟨fun _ h _ => h.hasPrimary, fun _ h _ => h⟩ hplan)
  show (∃ text, run.plan.pieces.map Rendered.ofPieces = .ok text) ∨ _
  unfold Plan.render
  cases hpieces : run.plan.pieces with
  | ok pieces => exact .inl ⟨_, rfl⟩
  | error err =>
    obtain ⟨p, hp, hnull, column, rfl⟩ := hrendered err hpieces
    exact .inr ⟨p, hp, hnull, hnull.kind_mem, column, rfl⟩

/-- Authors of a book without a title or with this one, who are older than null. -/
def oldAuthorsOf (title : String) : EntityFilter :=
  ⟨none, [⟨"books", .nested ⟨none, [⟨"title", .list [.text title, .null]⟩]⟩⟩,
    ⟨"age", .operators [.compare .gt .null]⟩]⟩

/-- The null in the list is told apart, inside a lateral query; that of the order is left to fail. -/
theorem renders_find_library : library.Spelled ∧ ∃ r,
    find library .default "Author" (oldAuthorsOf "Emma") byPublisher = .ok r ∧
    (r.plan.Throughout Table.HasPrimary (fun c => c.predicate.NullApart) ∧
    ((∃ text, r.plan.render = .ok text) ∨
      ∃ p ∈ byPublisher.written (oldAuthorsOf "Emma"), p.OrdersNull ∧
        p.kind ∈ Predicate.orderings ∧
          ∃ column, r.plan.render = .error (.nullOperand p.kind column))) ∧
    r.plan.render = .error (.nullOperand "gt" "a.age") := by
  have hnames : library.Spelled := by constructor <;> decide +kernel
  have hfound : ((find library .default "Author" (oldAuthorsOf "Emma") byPublisher).toOption.map
      fun r => match r.plan.render with
        | .ok _ => none
        | .error err => some err) = some (some (.nullOperand "gt" "a.age")) := by
    decide +kernel
  obtain ⟨r, hr, hrender⟩ := exists_of_map_toOption hfound
  refine ⟨hnames, r, hr, renders_find hnames hr, ?_⟩
  cases hres : r.plan.render with
  | ok text =>
    rw [hres] at hrender
    cases hrender
  | error err =>
    rw [hres] at hrender
    exact congrArg Except.error (Option.some.inj hrender)

/-- Boxes of a brand that has a box of a brand with the slogan. -/
def boxesBeside (slogan : String) : EntityFilter :=
  ⟨none, [⟨"brand", .nested ⟨none, [⟨"boxes", .nested ⟨none,
    [⟨"brand", .nested ⟨none, [⟨"slogan", .scalar (.text slogan)⟩]⟩⟩]⟩⟩]⟩⟩]⟩

/-- The table `b_1` is abbreviated to `b1`, and so is the second table of brands.  With the latter,
the primary table goes into the lateral query. -/
theorem not_renders_find_boxes : ∃ r,
    find zoo .default "Box" (boxesBeside "x")
      { FindOptions.default with strategy := some (.lateral true) } = .ok r ∧
    r.plan.render = .error .noPrimaryTable := by
  have hfound : ((find zoo .default "Box" (boxesBeside "x")
      { FindOptions.default with strategy := some (.lateral true) }).toOption.map
        fun r => match r.plan.render with
          | .ok _ => none
          | .error err => some err) = some (some .noPrimaryTable) := by
    decide +kernel
  obtain ⟨r, hr, hrender⟩ := exists_of_map_toOption hfound
  refine ⟨r, hr, ?_⟩
  cases hres : r.plan.render with
  | ok text =>
    rw [hres] at hrender
    cases hrender
  | error err =>
    rw [hres] at hrender
    exact congrArg Except.error (Option.some.inj hrender)

end EntityQuery
