import EntityQuery.Proofs.Precedence.Find
import EntityQuery.Proofs.Rendering.Draft

/-!
# Conditions that no pass changes

Without collections, a query keeps the condition of its draft: tests for null on tables that are not
outer-joined are left as they are, and so are conditions that were not asked for if their tables are
shown.

* `Conjuncts.holds_iff`: the group of conditions that are put together holds where all of them do;
* `Plan.Plain.condition_addNullChecks`, `Plan.Plain.condition_trim`: passes that leave the condition;
* `Draft.Fixed`: a draft whose conditions are not changed;
* `QueryRun.plan_of_fixed`: the plan of such a query.
-/

namespace EntityQuery

/-- Conditions that are put together hold where all of them do. -/
theorem Conjuncts.holds_iff {cs : Conjuncts} {p : Plan} (hp : p.condition = cs.group?) {db : Database}
    {σ : Assignment} : (∀ c ∈ p.topConditions, c.Holds db σ) ↔
      ∀ c ∈ cs.inlined ++ cs.existences ++ cs.groups.map .group, c.Holds db σ := by
  have hall : ∀ cs : List Condition, Group.evalTop db (some (.all cs)) σ = some true ↔
      ∀ c ∈ cs, c.Holds db σ := fun _ => Condition.holds_all_iff
  rw [← Plan.evalTop_condition_iff, hp]
  obtain ⟨inlined, existences, groups⟩ := cs
  unfold group?
  dsimp only
  generalize inlined ++ existences = conditions
  split
  · simp [Group.evalTop]
  · next g =>
    rw [List.nil_append, List.map_singleton, List.forall_mem_singleton]
    rfl
  · next others _ =>
    rw [hall, List.map_singleton, List.forall_mem_append, List.forall_mem_append,
      List.forall_mem_singleton, Condition.holds_all_iff]
  · exact hall _

/-- The group of conditions is one of something, unless a group of nothing stands alone. -/
theorem Conjuncts.nonempty?_group? {cs : Conjuncts}
    (h : cs.inlined ≠ [] ∨ ∀ g ∈ cs.groups, g.conditions ≠ []) :
    Group.nonempty? cs.group? = cs.group? := by
  obtain ⟨inlined, existences, groups⟩ := cs
  replace h : inlined ++ existences ≠ [] ∨ ∀ g ∈ groups, g.conditions ≠ [] :=
    h.imp_left fun hne hnil => hne (List.append_eq_nil_iff.1 hnil).1
  unfold group?
  dsimp only
  generalize inlined ++ existences = conditions at h ⊢
  match conditions, groups, h with
  | [], [], _ => rfl
  | [], [⟨_, []⟩], h => exact absurd rfl (h.resolve_left (absurd rfl) _ (List.mem_singleton_self _))
  | [], [⟨_, _ :: _⟩], _ => rfl
  | [], _ :: _ :: _, _ => rfl
  | _ :: _, [], _ => rfl
  | _ :: _, [⟨.and, _⟩], _ => rfl
  | _ :: _, [⟨.or, _⟩], _ => rfl
  | _ :: _, ⟨.and, _⟩ :: _ :: _, _ => rfl
  | _ :: _, ⟨.or, _⟩ :: _ :: _, _ => rfl

theorem Group.ne_of_nonempty? {g : Option Group} (h : Group.nonempty? g = g) {op : Connective} :
    g ≠ some ⟨op, []⟩ := by
  rintro rfl
  cases h

section

variable {p : Plan} {c : Condition} {f : Condition → List Condition} {outer keep : List String}
  {idDbType : String → String}

/-- Where no condition is changed, the group at the top is not. -/
theorem Group.mapLeavesTop_eq_self (h : ∀ c ∈ p.topConditions, c.mapLeaves f = [c]) :
    Group.mapLeavesTop f p.condition = p.condition := by
  have hall : ∀ {cs : List Condition}, (∀ c ∈ cs, c.mapLeaves f = [c]) →
      Condition.mapLeavesAll f cs = cs := by
    intro cs hcs
    induction cs with
    | nil => rfl
    | cons c cs ih =>
      obtain ⟨hc, hcs⟩ := List.forall_mem_cons.1 hcs
      rw [Condition.mapLeavesAll, hc, ih hcs]
      rfl
  unfold Plan.topConditions at h
  match hp : p.condition with
  | none => rfl
  | some ⟨.and, cs⟩ =>
    rw [hp] at h
    exact congrArg (fun cs => some (Group.all cs)) (hall h)
  | some ⟨.or, cs⟩ =>
    rw [hp] at h
    exact congrArg some (Condition.group.inj (List.singleton_inj.1 (h _ (List.mem_singleton_self _))))

mutual

theorem Condition.mapLeavesAll_withNullCheck : ∀ {cs : List Condition},
    (∀ c ∈ cs, c.plans = [] ∧ ∀ b ∈ c.aliases, b ∉ outer) →
      Condition.mapLeavesAll (Condition.withNullCheck outer idDbType) cs = cs
  | [], _ => rfl
  | c :: cs, h => by
    obtain ⟨⟨hflat, hc⟩, hcs⟩ := List.forall_mem_cons.1 h
    rw [Condition.mapLeavesAll, Condition.mapLeaves_withNullCheck hflat hc,
      Condition.mapLeavesAll_withNullCheck hcs]
    rfl

/-- A test for null is not ambiguous on a table that is not outer-joined. -/
theorem Condition.mapLeaves_withNullCheck : ∀ {c : Condition}, c.plans = [] →
    (∀ b ∈ c.aliases, b ∉ outer) → c.mapLeaves (Condition.withNullCheck outer idDbType) = [c]
  | .group ⟨op, cs⟩, hflat, h => by
    have hcs : ∀ c ∈ cs, c.plans = [] ∧ ∀ b ∈ c.aliases, b ∉ outer := fun c hc =>
      ⟨Condition.plansOf_eq_nil_iff.1 hflat c hc,
        fun b hb => h b (Condition.mem_aliases_group.2 ⟨c, hc, hb⟩)⟩
    rw [Condition.mapLeaves, Group.mapLeaves, Condition.mapLeavesAll_withNullCheck hcs]
  | .column c, _, h => by
    have hc : c.aliasName ∉ outer := h _ (List.mem_singleton_self _)
    simp [Condition.mapLeaves, Condition.withNullCheck, ColumnCondition.isAmbiguous, hc]
  | .raw _, _, _ => rfl
  | .existence .., hflat, _ => absurd hflat (List.cons_ne_nil _ _)

end

namespace Plan

/-- The condition is a predicate that was not asked for, on a table that is shown. -/
def Shows (p : Plan) (c : Condition) : Prop :=
  ∃ k, c = .column k ∧ k.pruneable = true ∧ .star k.aliasName ∈ p.selects

namespace Plain

theorem condition_addNullChecks (hp : p.Plain)
    (h : ∀ c ∈ p.topConditions, p.Shows c ∨ ∀ b ∈ c.aliases, b ∉ outerJoined p.tables) :
    (p.addNullChecks idDbType).condition = p.condition := by
  have hleft : (p.addNullChecks idDbType).condition =
      Group.mapLeavesTop (Condition.withNullCheck p.outerAliases idDbType) p.condition := by
    cases p
    rfl
  rw [hleft, hp.outerAliases_eq]
  refine Group.mapLeavesTop_eq_self fun c hc => ?_
  rcases h c hc with ⟨k, rfl, hpruneable, -⟩ | hc'
  · simp [Condition.mapLeaves, Condition.withNullCheck, ColumnCondition.isAmbiguous, hpruneable]
  · exact Condition.mapLeaves_withNullCheck (hp.flat hc) hc'

/-- Removing tables leaves a condition whose parts stay, and a table that is shown. -/
theorem condition_trim (hp : p.Plain) (hne : Group.nonempty? p.condition = p.condition)
    (h : ∀ c ∈ p.topConditions, p.Shows c ∨ c.Firm) : (p.trim keep).condition = p.condition := by
  refine (trim_induct (P := fun x => x.Plain ∧ x.selects = p.selects ∧ x.condition = p.condition)
    (fun x hx => ?_) ⟨hp, rfl, rfl⟩).2.2
  obtain ⟨hplain, hselects, hcondition⟩ := hx
  refine ⟨hplain.remove, hplain.remains_remove.selects.trans hselects, ?_⟩
  have hleft : ∀ removed, (x.remove removed).condition = Group.nonempty?
      (Group.mapLeavesTop (Condition.withoutRemoved removed) x.condition) := by
    cases x
    exact fun _ => rfl
  have htop : x.topConditions = p.topConditions := by
    unfold topConditions
    rw [hcondition]
  rw [hleft, Group.mapLeavesTop_eq_self fun c hc => ?_, hcondition, hne]
  rcases h c (htop ▸ hc) with ⟨k, rfl, -, hstar⟩ | hfirm
  · have hkept : k.aliasName ∉ x.unreferenced keep := fun hm =>
      (mem_unreferenced_iff.1 hm).2.2 (mem_references_iff.2 (.inl (hselects ▸
        Select.mem_referencesOf_star hstar)))
    simp [Condition.mapLeaves, Condition.withoutRemoved, hkept]
  · exact hfirm.mapLeaves_withoutRemoved

/-- The primary table stays where it is shown. -/
theorem hasPrimary_trim (hp : p.Plain) (h : Table.HasPrimary p.tables) :
    Table.HasPrimary (p.trim keep).tables := by
  refine (trim_induct (P := fun x => x.Plain ∧ Table.HasPrimary x.tables) (fun x hx => ?_)
    ⟨hp, h⟩).2
  obtain ⟨hplain, t, ht, hprimary⟩ := hx
  refine ⟨hplain.remove, t, ?_, hprimary⟩
  rw [hplain.tables_remove]
  refine List.mem_filter.2 ⟨ht, decide_eq_true fun hm => (mem_unreferenced_iff.1 hm).2.2 ?_⟩
  exact mem_references_iff.2 (.inl (hplain.primary t ht hprimary))

end Plain

end Plan

end

/-! ### Queries -/

/-- A draft without collections whose conditions no pass changes: those that were not asked for are on
tables that are shown, the others on tables that are not outer-joined. -/
structure Draft.Fixed (d : Draft) : Prop where
  plain : d.Plain
  primary : Table.HasPrimary d.tables
  nonempty : Group.nonempty? d.conjuncts.group? = d.conjuncts.group?
  conditions : ∀ c ∈ d.toPlan.topConditions, d.Shows c ∨
    (c.Firm ∧ ∀ b ∈ c.aliases, b ∉ outerJoined d.tables)

section

variable {schema : Schema} {config : Config} {typeName : String} {filter : EntityFilter}
  {options : FindOptions}

/-- The plan of a query keeps the condition and the result columns of its draft. -/
theorem QueryRun.plan_of_fixed (run : QueryRun schema config typeName filter options)
    (h : run.draft.Fixed) : run.plan.condition = run.draft.conjuncts.group? ∧
      run.plan.selects = run.draft.selects ∧ run.plan.Plain ∧ Table.HasPrimary run.plan.tables := by
  obtain ⟨e, a, d, keep, resolved, supply, ordered, rest, he, hd, hkeep, hresolved, hordered⟩ := run
  obtain ⟨hplain, hprimary, hne, hconditions⟩ := h
  dsimp only at hplain hprimary hne hconditions ⊢
  have hresolve : ∀ {p : Plan} {strategy : Strategy} {threshold : Nat} {supply : AliasSupply},
      p.resolveCollections strategy threshold [] supply = .ok (⟨p, []⟩, supply) := rfl
  rw [hplain.collections] at hresolved
  obtain ⟨rfl, rfl⟩ := Prod.mk.inj (Except.ok.inj (hresolve.symm.trans hresolved))
  dsimp only at hordered
  obtain ⟨js, keys, hadd⟩ := Plan.exists_joins_addOrder hordered
  obtain ⟨rfl, -⟩ := Prod.mk.inj (Except.ok.inj ((hadd _ rfl rfl).symm.trans hordered))
  have hchecked : (d.toPlan.addNullChecks d.idDbType).condition = d.conjuncts.group? :=
    hplain.toPlan.condition_addNullChecks fun c hc => (hconditions c hc).imp_right And.right
  have hselects : (d.toPlan.addNullChecks d.idDbType).selects = d.selects :=
    hplain.toPlan.mapLeaves_selects
  have htables : (d.toPlan.addNullChecks d.idDbType).tables = d.tables :=
    hplain.toPlan.mapLeaves_tables
  have hordered : Plan.Plain { d.toPlan.addNullChecks d.idDbType with
      tables := (d.toPlan.addNullChecks d.idDbType).tables ++ js.map Table.join
      sortKeys := keys } := hplain.toPlan.addNullChecks.ordered
  have hprimary : Table.HasPrimary ((d.toPlan.addNullChecks d.idDbType).tables ++
      js.map Table.join) := by
    obtain ⟨t, ht, hprimary⟩ := hprimary
    exact ⟨t, List.mem_append_left _ (htables ▸ ht), hprimary⟩
  unfold plan
  dsimp only
  split_ifs
  · rw [hordered.prune_eq_trim]
    refine ⟨(hordered.condition_trim ?_ fun c hc => ?_).trans hchecked,
      hordered.trim.2.selects.trans hselects, hordered.trim.1, hordered.hasPrimary_trim hprimary⟩
    · show Group.nonempty? (d.toPlan.addNullChecks d.idDbType).condition = _
      rw [hchecked]
      exact hne
    · have hc' : c ∈ d.toPlan.topConditions := by
        unfold Plan.topConditions at hc ⊢
        rwa [hchecked] at hc
      refine (hconditions c hc').imp (fun ⟨k, hk, hpruneable, hstar⟩ => ⟨k, hk, hpruneable, ?_⟩)
        And.left
      exact hselects ▸ hstar
  · exact ⟨hchecked, hselects, hordered, hprimary⟩

/-- Its WHERE clause can be written and the plan rendered, if null is no operand of an order. -/
theorem QueryRun.rendered_of_fixed (run : QueryRun schema config typeName filter options)
    (h : run.draft.Fixed) (hconditions : options.conditions = none)
    (hwritten : ∀ p ∈ filter.written, ¬ p.OrdersNull) : (∃ text, run.plan.render = .ok text) ∧
      ∃ ts?, Group.whereTokens run.plan.condition = .ok ts? := by
  obtain ⟨hcondition, -, hplain, hprimary⟩ := run.plan_of_fixed h
  have hanswers := Draft.answers_ofQuery run.draft_eq
  rw [hconditions, Option.map_none, Option.getD_none, List.append_nil] at hanswers
  have htop : run.plan.topConditions = run.draft.toPlan.topConditions := by
    unfold Plan.topConditions
    rw [hcondition]
    rfl
  have hthroughout : run.plan.Throughout Table.HasPrimary
      (ColumnCondition.Answers filter.written) := by
    refine Plan.throughout_iff.2 ⟨hprimary, fun t ht q hq => ?_, fun c hc => ?_, fun x hx => ?_⟩
    · rw [hplain.tables t ht] at hq
      cases hq
    · exact ((Plan.predicates_iff.1 hanswers.toPlan).conditions c (htop ▸ hc)).of_flat (hplain.flat hc)
    · cases x with
      | boolOr g name => exact absurd rfl (hplain.selects _ hx g name)
      | _ => trivial
  have hok : ∀ {α : Type} {x : Except SqlError α}, FailsOnly (SqlError.Stems filter.written) x →
      ∃ y, x = .ok y := by
    intro α x hx
    cases x with
    | ok y => exact ⟨y, rfl⟩
    | error err =>
      obtain ⟨p, hp, hnull, -⟩ := hx err rfl
      exact absurd hnull (hwritten p hp)
  have htokens : ∀ c, ColumnCondition.Answers filter.written c →
      FailsOnly (SqlError.Stems filter.written) c.tokens := fun _ hc => hc.failsOnly_tokens
  obtain ⟨pieces, hpieces⟩ := hok (Plan.failsOnly_pieces htokens hthroughout)
  obtain ⟨clause, hclause⟩ := hok (Group.failsOnly_piecesOf htokens
    (Group.throughoutTop_iff.2 (Plan.throughout_iff.1 hthroughout).2.2.1))
  rw [Group.piecesOf_eq] at hclause
  obtain ⟨ts?, hts, -⟩ := exists_of_map_eq_ok hclause
  exact ⟨⟨_, congrArg (Except.map Rendered.ofPieces) hpieces⟩, ts?, hts⟩

end

end EntityQuery
