import EntityQuery.Plan.NullCheck
import EntityQuery.Plan.Prune
import EntityQuery.Proofs.Failure.Basic

/-!
# Visits that succeed

Tests for rows are added by a visit of the plan, and so are conditions dropped that go with removed
tables.  Both visitors keep every group, so no visit comes to a group that it cannot replace, and
each leaf is replaced where it stands.

* `Visitor.Answers`, `Plan.visit_eq_ok`: a visitor that keeps groups;
* `Visitor.nullCheck`, `Visitor.removal`: the visitors of planning;
* `Plan.addNullChecksByVisit_eq_ok`, `Plan.pruneByVisit_eq_ok`: the passes that are made of visits.
-/

namespace EntityQuery

/-- The visitor keeps groups, and puts what `f` says in the place of leaves. -/
structure Visitor.Answers (v : Visitor) (f : Condition → List Condition) : Prop where
  column : ∀ c, (v.column c).apply (.column c) = f (.column c)
  raw : ∀ r, (v.raw r).apply (.raw r) = f (.raw r)
  group : ∀ g, v.group g = .keep

section

variable {v : Visitor} {f : Condition → List Condition}

mutual

/-- A visit that keeps groups succeeds. -/
theorem Plan.visit_eq_ok (hv : v.Answers f) : ∀ p : Plan, ∃ shown, p.visit v = .ok (p.mapLeaves f, shown)
  | ⟨selects, tables, condition, _, _, _⟩ => by
    obtain ⟨shown, hcondition⟩ := Group.visitTop_eq_ok hv condition
    obtain ⟨shown', htables⟩ := Table.visitAll_eq_ok hv tables
    obtain ⟨shown'', hselects⟩ := Select.visitAll_eq_ok hv selects
    exact ⟨_, by rw [Plan.visit, hcondition, htables, hselects]; rfl⟩

theorem Group.visitTop_eq_ok (hv : v.Answers f) : ∀ g : Option Group,
    ∃ shown, Group.visitTop v g = .ok (Group.mapLeavesTop f g, shown)
  | none => ⟨[], rfl⟩
  | some g => by
    obtain ⟨shown, hg⟩ := Group.visitRoot_eq_ok hv g
    exact ⟨_, by rw [Group.visitTop, hg]; rfl⟩

theorem Group.visitRoot_eq_ok (hv : v.Answers f) : ∀ g : Group,
    ∃ shown, g.visitRoot v = .ok (g.mapLeaves f, shown)
  | ⟨_, conditions⟩ => by
    obtain ⟨shown, hconditions⟩ := Condition.visitAll_eq_ok hv conditions
    exact ⟨_, by rw [Group.visitRoot, hv.group, hconditions]; rfl⟩

theorem Condition.visitAll_eq_ok (hv : v.Answers f) : ∀ cs : List Condition,
    ∃ shown, Condition.visitAll v cs = .ok (Condition.mapLeavesAll f cs, shown)
  | [] => ⟨[], rfl⟩
  | c :: cs => by
    obtain ⟨shown, hc⟩ := Condition.visit_eq_ok hv c
    obtain ⟨shown', hcs⟩ := Condition.visitAll_eq_ok hv cs
    exact ⟨_, by rw [Condition.visitAll, hc, hcs]; rfl⟩

theorem Condition.visit_eq_ok (hv : v.Answers f) : ∀ c : Condition,
    ∃ shown, c.visit v = .ok (c.mapLeaves f, shown)
  | .column c => ⟨_, by rw [Condition.visit, hv.column]; rfl⟩
  | .raw r => ⟨_, by rw [Condition.visit, hv.raw]; rfl⟩
  | .group ⟨_, conditions⟩ => by
    obtain ⟨shown, hconditions⟩ := Condition.visitAll_eq_ok hv conditions
    exact ⟨_, by rw [Condition.visit, hv.group, hconditions]; rfl⟩
  | .existence query _ _ => by
    obtain ⟨shown, hquery⟩ := Plan.visit_eq_ok hv query
    exact ⟨_, by rw [Condition.visit, hquery]; rfl⟩

theorem Table.visitAll_eq_ok (hv : v.Answers f) : ∀ ts : List Table,
    ∃ shown, Table.visitAll v ts = .ok (Table.mapLeavesAll f ts, shown)
  | [] => ⟨[], rfl⟩
  | .lateral _ _ query :: ts => by
    obtain ⟨shown, hquery⟩ := Plan.visit_eq_ok hv query
    obtain ⟨shown', hts⟩ := Table.visitAll_eq_ok hv ts
    exact ⟨_, by rw [Table.visitAll, hquery, hts]; rfl⟩
  | .primary _ _ :: ts | .join _ :: ts | .cross _ _ :: ts => by
    obtain ⟨shown, hts⟩ := Table.visitAll_eq_ok hv ts
    exact ⟨shown, by simp only [Table.visitAll, hts]; rfl⟩

theorem Select.visitAll_eq_ok (hv : v.Answers f) : ∀ ss : List Select,
    ∃ shown, Select.visitAll v ss = .ok (Select.mapLeavesAll f ss, shown)
  | [] => ⟨[], rfl⟩
  | .boolOr g _ :: ss => by
    obtain ⟨shown, hg⟩ := Group.visitRoot_eq_ok hv g
    obtain ⟨shown', hss⟩ := Select.visitAll_eq_ok hv ss
    exact ⟨_, by rw [Select.visitAll, hg, hss]; rfl⟩
  | .star _ :: ss | .column _ _ :: ss | .discriminator _ _ _ :: ss | .countIsZero _ :: ss
  | .raw _ _ _ :: ss => by
    obtain ⟨shown, hss⟩ := Select.visitAll_eq_ok hv ss
    exact ⟨shown, by simp only [Select.visitAll, hss]; rfl⟩

end

end

/-! ### The visitors of planning -/

/-- An ambiguous test for null is joined by the test that the row is there. -/
def Visitor.nullCheck (outer : List String) (idDbType : String → String) : Visitor :=
  .ofColumn fun c =>
    if c.isAmbiguous outer then
      .replace (.all [.column c, .column (.asked c.aliasName "id" (idDbType c.aliasName) .notNull)])
    else .keep

/-- What was not asked for and reads a removed table is dropped. -/
def Visitor.removal (removed : List String) : Visitor where
  column c := if c.pruneable && c.aliasName ∈ removed then .delete else .keep
  raw r := if r.pruneable && r.aliases.any (· ∈ removed) then .delete else .keep
  group _ := .keep

theorem Visitor.answers_nullCheck {outer : List String} {idDbType : String → String} :
    (nullCheck outer idDbType).Answers (Condition.withNullCheck outer idDbType) := by
  refine ⟨fun c => ?_, fun _ => rfl, fun _ => rfl⟩
  show (if c.isAmbiguous outer then _ else _ : Action).apply (.column c) = _
  rw [Condition.withNullCheck]
  split_ifs <;> rfl

theorem Visitor.answers_removal {removed : List String} :
    (removal removed).Answers (Condition.withoutRemoved removed) := by
  refine ⟨fun c => ?_, fun r => ?_, fun _ => rfl⟩
  · show (if c.pruneable && c.aliasName ∈ removed then _ else _ : Action).apply (.column c) = _
    rw [Condition.withoutRemoved]
    split_ifs <;> rfl
  · show (if r.pruneable && r.aliases.any (· ∈ removed) then _ else _ : Action).apply (.raw r) = _
    rw [Condition.withoutRemoved]
    split_ifs <;> rfl

namespace Plan

/-- The tests for rows, added by a visit. -/
def addNullChecksByVisit (idDbType : String → String) (p : Plan) : Except PlanError Plan := do
  let (p, _) ← p.visit (.nullCheck p.outerAliases idDbType)
  return p

/-- One round of pruning, in which a visit drops the conditions that go with the tables. -/
def removeByVisit (removed : List String) (p : Plan) : Except PlanError Plan := do
  let (p, _) ← Plan.visit (.removal removed)
    { p with tables := p.tables.filter (·.aliasName ∉ removed) }
  return { p with condition := Group.nonempty? p.condition }

theorem addNullChecksByVisit_eq_ok (idDbType : String → String) (p : Plan) :
    p.addNullChecksByVisit idDbType = .ok (p.addNullChecks idDbType) := by
  obtain ⟨shown, hvisit⟩ := visit_eq_ok Visitor.answers_nullCheck p
  rw [addNullChecksByVisit, hvisit]
  rfl

theorem removeByVisit_eq_ok (removed : List String) (p : Plan) :
    p.removeByVisit removed = .ok (p.remove removed) := by
  obtain ⟨shown, hvisit⟩ := visit_eq_ok Visitor.answers_removal
    { p with tables := p.tables.filter (·.aliasName ∉ removed) }
  rw [removeByVisit, hvisit]
  rfl

end Plan

/-! ### Pruning by visits -/

section

variable {f : Plan → Except PlanError Plan} {g : Plan → Plan}

mutual

/-- The group with its subqueries changed, where that may fail. -/
def Group.mapPlansM (f : Plan → Except PlanError Plan) : Group → Except PlanError Group
  | ⟨op, conditions⟩ => return ⟨op, ← Condition.mapPlansOfM f conditions⟩

def Condition.mapPlansOfM (f : Plan → Except PlanError Plan) :
    List Condition → Except PlanError (List Condition)
  | [] => return []
  | c :: rest => return (← c.mapPlansM f) :: (← Condition.mapPlansOfM f rest)

def Condition.mapPlansM (f : Plan → Except PlanError Plan) : Condition → Except PlanError Condition
  | .group g => return .group (← g.mapPlansM f)
  | .existence query negate outerAliases => return .existence (← f query) negate outerAliases
  | c => return c

end

/-- The table with its subquery changed, where that may fail. -/
def Table.mapPlanM (f : Plan → Except PlanError Plan) : Table → Except PlanError Table
  | .lateral aliasName fromAlias query => return .lateral aliasName fromAlias (← f query)
  | t => return t

mutual

theorem Group.mapPlansM_eq_ok (hf : ∀ p, f p = .ok (g p)) : ∀ group : Group,
    group.mapPlansM f = .ok (group.mapPlans g)
  | ⟨_, conditions⟩ => by
    rw [Group.mapPlansM, Condition.mapPlansOfM_eq_ok hf conditions]
    rfl

theorem Condition.mapPlansOfM_eq_ok (hf : ∀ p, f p = .ok (g p)) : ∀ cs : List Condition,
    Condition.mapPlansOfM f cs = .ok (Condition.mapPlansOf g cs)
  | [] => rfl
  | c :: cs => by
    rw [Condition.mapPlansOfM, Condition.mapPlansM_eq_ok hf c, Condition.mapPlansOfM_eq_ok hf cs]
    rfl

theorem Condition.mapPlansM_eq_ok (hf : ∀ p, f p = .ok (g p)) : ∀ c : Condition,
    c.mapPlansM f = .ok (c.mapPlans g)
  | .group group => by
    rw [Condition.mapPlansM, Group.mapPlansM_eq_ok hf group]
    rfl
  | .existence query _ _ => by
    rw [Condition.mapPlansM, hf query]
    rfl
  | .column _ | .raw _ => rfl

end

theorem Table.mapPlanM_eq_ok (hf : ∀ p, f p = .ok (g p)) (t : Table) :
    t.mapPlanM f = .ok (t.mapPlan g) := by
  cases t with
  | lateral aliasName fromAlias query =>
    rw [mapPlanM, hf query]
    rfl
  | _ => rfl

namespace Plan

/-- The plan with its lateral queries and the subqueries of its condition changed, where that may
fail. -/
def mapPlansM (f : Plan → Except PlanError Plan) (p : Plan) : Except PlanError Plan := do
  let tables ← p.tables.mapM (Table.mapPlanM f)
  let condition ← p.condition.mapM (Group.mapPlansM f)
  return { p with tables, condition }

theorem mapPlansM_eq_ok (hf : ∀ p, f p = .ok (g p)) (p : Plan) :
    p.mapPlansM f = .ok (p.mapPlans g) := by
  have htables : p.tables.mapM (Table.mapPlanM f) = .ok (p.tables.map (Table.mapPlan g)) := by
    rw [funext (Table.mapPlanM_eq_ok hf)]
    exact List.mapM_pure
  have hcondition : p.condition.mapM (Group.mapPlansM f) =
      .ok (p.condition.map (Group.mapPlans g)) := by
    rw [funext (Group.mapPlansM_eq_ok hf)]
    cases p.condition <;> rfl
  rw [mapPlansM, htables]
  show (p.condition.mapM (Group.mapPlansM f) >>= _) = _
  rw [hcondition]
  rfl

/-- Removal in rounds, each of which visits the plan. -/
def trimByVisit (keep : List String) : Nat → Plan → Except PlanError Plan
  | 0, p => return p
  | n + 1, p =>
    match p.unreferenced keep with
    | [] => return p
    | removed => do trimByVisit keep n (← p.removeByVisit removed)

theorem trimByVisit_eq_ok {keep : List String} {n : Nat} {p : Plan} :
    p.trimByVisit keep n = .ok (p.trimWithin keep n) := by
  induction n generalizing p with
  | zero => rfl
  | succ n ih =>
    rw [trimByVisit, trimWithin]
    cases p.unreferenced keep with
    | nil => rfl
    | cons a removed =>
      simp only [removeByVisit_eq_ok]
      exact ih

/-- Pruning of the plans down to a depth, by visits. -/
def pruneWithinByVisit : Nat → List String → Plan → Except PlanError Plan
  | 0, keep, p => p.trimByVisit keep p.tables.length
  | n + 1, keep, p => do
    let p ← p.trimByVisit keep p.tables.length
    p.mapPlansM (pruneWithinByVisit n [])

theorem pruneWithinByVisit_eq_ok {n : Nat} {keep : List String} {p : Plan} :
    p.pruneWithinByVisit n keep = .ok (p.pruneWithin n keep) := by
  induction n generalizing keep p with
  | zero => exact trimByVisit_eq_ok
  | succ n ih =>
    rw [pruneWithinByVisit, trimByVisit_eq_ok]
    exact mapPlansM_eq_ok (fun _ => ih) _

/-- Pruning, by visits. -/
def pruneByVisit (keep : List String) (p : Plan) : Except PlanError Plan :=
  p.pruneWithinByVisit p.depth keep

theorem pruneByVisit_eq_ok (keep : List String) (p : Plan) :
    p.pruneByVisit keep = .ok (p.prune keep) := pruneWithinByVisit_eq_ok

end Plan

end

end EntityQuery
