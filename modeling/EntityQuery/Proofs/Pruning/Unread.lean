import EntityQuery.Proofs.Agreement.Need
import EntityQuery.Proofs.Pruning.Round

/-!
# Tables that are not read

What a plan selects does not depend on tables that it does not read.  Nor does it matter whether such
a table is joined, as long as this keeps every assignment: how often an assignment stands there is
seen neither by an existence test nor by the columns of a lateral query.

* `Assignment.AgreeOff`: the same rows, but for some tables;
* `Assignment.SameOff`: lists of assignments that have the same members, but for some tables;
* `Table.Keeps`: a table that keeps every assignment;
* `Plan.reduce`: a plan without some tables, and with other subqueries;
* `Plan.Reducible`: nothing that is left reads what goes, and the other subqueries have the same
  results;
* `Plan.Reducible.sameOff_rows`, `Plan.Reducible.aggregates_eq`: then the plan has the same results.
-/

namespace EntityQuery

/-! ### Assignments -/

namespace Assignment

/-- The two assignments bind all tables but those to the same rows. -/
def AgreeOff (hidden : List String) (e e' : Assignment) : Prop := ∀ a, a ∉ hidden → e a = e' a

/-- Each assignment of either list has one in the other list that agrees with it on all tables but
those. -/
structure SameOff (hidden : List String) (es es' : List Assignment) : Prop where
  left : ∀ e ∈ es, ∃ e' ∈ es', e.AgreeOff hidden e'
  right : ∀ e' ∈ es', ∃ e ∈ es, e.AgreeOff hidden e'

section

variable {hidden names : List String} {e e' : Assignment} {es es' : List Assignment} {a : String}

theorem AgreeOff.refl : e.AgreeOff hidden e := fun _ _ => rfl

theorem AgreeOff.mono {hidden' : List String} (h : e.AgreeOff hidden e') (hsub : hidden ⊆ hidden') :
    e.AgreeOff hidden' e' := fun a ha => h a fun hm => ha (hsub hm)

theorem AgreeOff.bind (h : e.AgreeOff hidden e') {row : Option Row} :
    (e.bind a row).AgreeOff hidden (e'.bind a row) := fun b hb => by
  by_cases hba : b = a
  · rw [hba, bind_self, bind_self]
  · rw [bind_of_ne hba, bind_of_ne hba, h b hb]

theorem AgreeOff.bind_left (h : e.AgreeOff hidden e') {row : Option Row} (ha : a ∈ hidden) :
    (e.bind a row).AgreeOff hidden e' := fun b hb => by
  have hba : b ≠ a := fun heq => hb (heq ▸ ha)
  rw [bind_of_ne hba, h b hb]

theorem AgreeOff.value (h : e.AgreeOff hidden e') {c : ColumnRef} (hc : c.aliasName ∉ hidden) :
    e.value c = e'.value c := value_congr (h _ hc)

theorem AgreeOff.agree (h : e.AgreeOff hidden e') (hnames : ∀ a ∈ names, a ∉ hidden) :
    e.Agree names e' := fun a ha => h a (hnames a ha)

theorem AgreeOff.restrict (h : e.AgreeOff hidden e') (hnames : ∀ a ∈ names, a ∉ hidden) :
    e.restrict names = e'.restrict names := by
  funext a
  unfold Assignment.restrict
  split_ifs with ha
  · exact h a (hnames a ha)
  · rfl

theorem SameOff.singleton (h : e.AgreeOff hidden e') : SameOff hidden [e] [e'] :=
  ⟨List.forall_mem_singleton.2 ⟨e', List.mem_singleton_self _, h⟩,
    List.forall_mem_singleton.2 ⟨e, List.mem_singleton_self _, h⟩⟩

/-- One row after the other is bound on both sides. -/
theorem SameOff.map_bind (h : e.AgreeOff hidden e') {rows : List Row} :
    SameOff hidden (rows.map fun row => e.bind a (some row))
      (rows.map fun row => e'.bind a (some row)) :=
  ⟨List.forall_mem_map.2 fun row hrow => ⟨_, List.mem_map.2 ⟨row, hrow, rfl⟩, h.bind⟩,
    List.forall_mem_map.2 fun row hrow => ⟨_, List.mem_map.2 ⟨row, hrow, rfl⟩, h.bind⟩⟩

theorem SameOff.flatMap (h : SameOff hidden es es') {k k' : Assignment → List Assignment}
    (hk : ∀ e e', e.AgreeOff hidden e' → SameOff hidden (k e) (k' e')) :
    SameOff hidden (es.flatMap k) (es'.flatMap k') := by
  constructor
  · intro f hf
    obtain ⟨e, he, hf⟩ := List.mem_flatMap.1 hf
    obtain ⟨e', he', hagree⟩ := h.left e he
    obtain ⟨f', hf', hagree'⟩ := (hk e e' hagree).left f hf
    exact ⟨f', List.mem_flatMap.2 ⟨e', he', hf'⟩, hagree'⟩
  · intro f' hf'
    obtain ⟨e', he', hf'⟩ := List.mem_flatMap.1 hf'
    obtain ⟨e, he, hagree⟩ := h.right e' he'
    obtain ⟨f, hf, hagree'⟩ := (hk e e' hagree).right f' hf'
    exact ⟨f, List.mem_flatMap.2 ⟨e, he, hf⟩, hagree'⟩

theorem SameOff.filter (h : SameOff hidden es es') {v v' : Assignment → Option Bool}
    (hv : ∀ e e', e.AgreeOff hidden e' → v e = v' e') :
    SameOff hidden (es.filter fun e => v e = some true) (es'.filter fun e => v' e = some true) := by
  constructor
  · intro e he
    obtain ⟨he, htrue⟩ := List.mem_filter.1 he
    obtain ⟨e', he', hagree⟩ := h.left e he
    exact ⟨e', List.mem_filter.2 ⟨he', by rwa [← hv e e' hagree]⟩, hagree⟩
  · intro e' he'
    obtain ⟨he', htrue⟩ := List.mem_filter.1 he'
    obtain ⟨e, he, hagree⟩ := h.right e' he'
    exact ⟨e, List.mem_filter.2 ⟨he, by rwa [hv e e' hagree]⟩, hagree⟩

theorem SameOff.isEmpty_eq (h : SameOff hidden es es') : es.isEmpty = es'.isEmpty := by
  rw [Bool.eq_iff_iff, List.isEmpty_iff, List.isEmpty_iff, List.eq_nil_iff_forall_not_mem,
    List.eq_nil_iff_forall_not_mem]
  constructor
  · intro hnone e' he'
    obtain ⟨e, he, -⟩ := h.right e' he'
    exact hnone e he
  · intro hnone e he
    obtain ⟨e', he', -⟩ := h.left e he
    exact hnone e' he'

/-- The same rows of other tables stand on both sides. -/
theorem SameOff.restrict_eq (h : SameOff hidden es es') (hnames : ∀ a ∈ names, a ∉ hidden) :
    {f | ∃ r ∈ es, r.restrict names = f} = {f | ∃ r ∈ es', r.restrict names = f} := by
  ext f
  constructor
  · rintro ⟨r, hr, rfl⟩
    obtain ⟨r', hr', hagree⟩ := h.left r hr
    exact ⟨r', hr', (hagree.restrict hnames).symm⟩
  · rintro ⟨r', hr', rfl⟩
    obtain ⟨r, hr, hagree⟩ := h.right r' hr'
    exact ⟨r, hr, hagree.restrict hnames⟩

/-- The same values stand on both sides. -/
theorem SameOff.mem_filterMap_iff (h : SameOff hidden es es') {v v' : Assignment → Option Bool}
    (hv : ∀ e e', e.AgreeOff hidden e' → v e = v' e') {b : Bool} :
    b ∈ es.filterMap v ↔ b ∈ es'.filterMap v' := by
  rw [List.mem_filterMap, List.mem_filterMap]
  constructor
  · rintro ⟨e, he, hb⟩
    obtain ⟨e', he', hagree⟩ := h.left e he
    exact ⟨e', he', by rwa [← hv e e' hagree]⟩
  · rintro ⟨e', he', hb⟩
    obtain ⟨e, he, hagree⟩ := h.right e' he'
    exact ⟨e, he, by rwa [hv e e' hagree]⟩

end

end Assignment

/-! ### Conditions -/

section

variable {db : Database} {hidden : List String} {g : Plan → Plan} {e e' : Assignment}

/-- The subquery, and what it is changed to, have rows for the same assignments. -/
def Plan.SameEmptiness (db : Database) (hidden : List String) (p q : Plan) : Prop :=
  ∀ e e', e.AgreeOff hidden e' → (p.rows db e).isEmpty = (q.rows db e').isEmpty

mutual

/-- A group does not depend on tables that it does not read, nor on the rows of its subqueries as
long as there are some. -/
theorem Group.eval_mapPlans (he : e.AgreeOff hidden e') : ∀ {h : Group},
    (∀ a ∈ h.references, a ∉ hidden) → (∀ a ∈ h.implied, a ∉ hidden) →
    (∀ q ∈ h.plans, q.SameEmptiness db hidden (g q)) →
    h.eval db e = (h.mapPlans g).eval db e'
  | ⟨op, _⟩, href, himp, hplans => congrArg op.combine
    (Condition.evalAll_mapPlansOf he href himp hplans)

theorem Condition.evalAll_mapPlansOf (he : e.AgreeOff hidden e') : ∀ {cs : List Condition},
    (∀ a ∈ Condition.referencesOf cs, a ∉ hidden) → (∀ a ∈ Condition.impliedOf cs, a ∉ hidden) →
    (∀ q ∈ Condition.plansOf cs, q.SameEmptiness db hidden (g q)) →
    Condition.evalAll db cs e = Condition.evalAll db (Condition.mapPlansOf g cs) e'
  | [], _, _, _ => rfl
  | _ :: _, href, himp, hplans => congrArg₂ List.cons
    (Condition.eval_mapPlans he (fun a ha => href a (List.mem_append_left _ ha))
      (fun a ha => himp a (List.mem_append_left _ ha))
      fun q hq => hplans q (List.mem_append_left _ hq))
    (Condition.evalAll_mapPlansOf he (fun a ha => href a (List.mem_append_right _ ha))
      (fun a ha => himp a (List.mem_append_right _ ha))
      fun q hq => hplans q (List.mem_append_right _ hq))

theorem Condition.eval_mapPlans (he : e.AgreeOff hidden e') : ∀ {c : Condition},
    (∀ a ∈ c.references, a ∉ hidden) → (∀ a ∈ c.implied, a ∉ hidden) →
    (∀ q ∈ c.plans, q.SameEmptiness db hidden (g q)) →
    c.eval db e = (c.mapPlans g).eval db e'
  | .group _, href, himp, hplans => Group.eval_mapPlans he href himp hplans
  | .column c, href, himp, _ => by
    have hc : c.aliasName ∉ hidden := by
      cases hp : c.pruneable with
      | true => exact himp _ (by simp [Condition.implied, hp])
      | false => exact href _ (by simp [Condition.references, hp])
    rw [Condition.mapPlans, Condition.eval, Condition.eval, he.value hc]
    all_goals simp
  | .raw r, href, himp, _ => by
    have hr : ∀ a ∈ r.aliases, a ∉ hidden := by
      cases hp : r.pruneable with
      | true => exact fun a ha => himp a (by simpa [Condition.implied, hp] using ha)
      | false => exact fun a ha => href a (by simpa [Condition.references, hp] using ha)
    exact db.fragment_congr (he.agree hr)
  | .existence query _ _, _, _, hplans => by
    rw [Condition.mapPlans, Condition.eval, Condition.eval,
      hplans query (List.mem_singleton_self _) e e' he]

end

/-- The row of boolean columns does not depend on how often an assignment stands there. -/
theorem Select.aggregates_sameOff {es es' : List Assignment} (h : Assignment.SameOff hidden es es')
    {ss : List Select} {row : Row} (href : ∀ a ∈ Select.referencesOf ss, a ∉ hidden)
    (himp : ∀ a ∈ ss.flatMap Select.implied, a ∉ hidden)
    (hplans : ∀ q ∈ ss.flatMap Select.plans, q.SameEmptiness db hidden q) :
    Select.aggregates db es ss row = Select.aggregates db es' ss row := by
  induction ss generalizing row with
  | nil => rfl
  | cons s ss ih =>
    have himps : ∀ a ∈ ss.flatMap Select.implied, a ∉ hidden := fun a ha =>
      himp a (List.mem_append_right _ ha)
    have hrest : ∀ q ∈ ss.flatMap Select.plans, q.SameEmptiness db hidden q := fun q hq =>
      hplans q (List.mem_append_right _ hq)
    cases s with
    | boolOr group name =>
      have heval : ∀ e e', e.AgreeOff hidden e' → group.eval db e = group.eval db e' :=
        fun e e' he => (Group.eval_mapPlans (g := id) he
          (fun a ha => href a (List.mem_append_left _ ha))
          (fun a ha => himp a (List.mem_append_left _ ha))
          fun q hq => hplans q (List.mem_append_left _ hq)).trans
            (congrArg (fun group => Group.eval db group e') (Group.mapPlans_id group))
      have hmem : ∀ b, b ∈ es.filterMap (group.eval db) ↔ b ∈ es'.filterMap (group.eval db) :=
        fun b => h.mem_filterMap_iff heval
      have hempty : (es.filterMap (group.eval db)).isEmpty =
          (es'.filterMap (group.eval db)).isEmpty := by
        rw [Bool.eq_iff_iff, List.isEmpty_iff, List.isEmpty_iff, List.eq_nil_iff_forall_not_mem,
          List.eq_nil_iff_forall_not_mem]
        exact forall_congr' fun b => not_congr (hmem b)
      simp only [Select.aggregates, hempty, hmem]
      exact ih (fun a ha => href a (List.mem_append_right _ ha)) himps hrest
    | countIsZero name =>
      simp only [Select.aggregates, h.isEmpty_eq]
      exact ih href himps hrest
    | _ =>
      simp only [Select.aggregates]
      exact ih (fun a ha => href a (List.mem_append_right _ ha)) himps hrest

/-! ### Tables -/

/-- The table keeps every assignment: it binds at least one row, or none if there is no partner. -/
def Table.Keeps : Table → Prop
  | .join j => j.kind = .outer
  | .lateral .. => True
  | _ => False

/-- The lateral query, and what it is changed to, have the same row for the same assignments. -/
def Plan.SameAggregates (db : Database) (hidden : List String) (p q : Plan) : Prop :=
  ∀ e e', e.AgreeOff hidden e' → p.aggregates db e = q.aggregates db e'

theorem Join.sameOff_bind (he : e.AgreeOff hidden e') {j : Join}
    (hparent : j.parent.aliasName ∉ hidden) :
    Assignment.SameOff hidden (j.bind db e) (j.bind db e') := by
  unfold Join.bind
  simp only
  rw [he.value hparent]
  split_ifs
  · exact .singleton he.bind
  · exact .map_bind he

theorem Table.sameOff_bind (he : e.AgreeOff hidden e') {t : Table}
    (hparent : ∀ j, t = .join j → j.parent.aliasName ∉ hidden)
    (hquery : ∀ x b query, t = .lateral x b query → query.SameAggregates db hidden (g query)) :
    Assignment.SameOff hidden (t.bind db e) ((t.mapPlan g).bind db e') := by
  cases t with
  | primary x table => exact .map_bind he
  | join j => exact Join.sameOff_bind he (hparent j rfl)
  | cross x table => exact .map_bind he
  | lateral x b query =>
    rw [Table.mapPlan, Table.bind, Table.bind, ← hquery x b query rfl e e' he]
    exact .singleton he.bind

/-- A table that is not read can go if it keeps every assignment. -/
theorem Table.Keeps.sameOff_bind {t : Table} (h : t.Keeps) (ht : t.aliasName ∈ hidden)
    (he : e.AgreeOff hidden e') : Assignment.SameOff hidden (t.bind db e) [e'] := by
  have hsome : ∀ es : List Assignment, es ≠ [] → (∀ f ∈ es, f.AgreeOff hidden e') →
      Assignment.SameOff hidden es [e'] := fun es hne hall =>
    have ⟨f, hf⟩ := List.exists_mem_of_ne_nil es hne
    ⟨fun f hf => ⟨e', List.mem_singleton_self _, hall f hf⟩,
      List.forall_mem_singleton.2 ⟨f, hf, hall f hf⟩⟩
  cases t with
  | primary x table => exact h.elim
  | cross x table => exact h.elim
  | lateral x b query => exact .singleton (he.bind_left ht)
  | join j =>
    have hkind : j.kind = .outer := h
    show Assignment.SameOff hidden (j.bind db e) [e']
    unfold Join.bind
    simp only [hkind, decide_true, Bool.and_true, List.isEmpty_iff]
    split_ifs with hnone
    · exact .singleton (he.bind_left ht)
    · exact hsome _ (fun hnil => hnone (List.map_eq_nil_iff.1 hnil))
        (List.forall_mem_map.2 fun row _ => he.bind_left ht)

/-- What is bound with and without tables that are not read. -/
theorem Table.sameOff_bindAll {removed : List String} (hremoved : removed ⊆ hidden)
    {ts : List Table} (hkeeps : ∀ t ∈ ts, t.aliasName ∈ removed → t.Keeps)
    (hparents : ∀ j, .join j ∈ ts → j.aliasName ∉ removed → j.parent.aliasName ∉ hidden)
    (hlaterals : ∀ x b query, .lateral x b query ∈ ts → x ∉ removed →
      query.SameAggregates db hidden (g query)) {es es' : List Assignment}
    (h : Assignment.SameOff hidden es es') :
    Assignment.SameOff hidden (Table.bindAll db ts es)
      (Table.bindAll db ((ts.filter (·.aliasName ∉ removed)).map (Table.mapPlan g)) es') := by
  induction ts generalizing es es' with
  | nil => exact h
  | cons t ts ih =>
    have hrest : ∀ {es es' : List Assignment}, Assignment.SameOff hidden es es' →
        Assignment.SameOff hidden (Table.bindAll db ts es) (Table.bindAll db
          ((ts.filter (·.aliasName ∉ removed)).map (Table.mapPlan g)) es') := fun h =>
      ih (fun t ht => hkeeps t (List.mem_cons_of_mem _ ht))
        (fun j hj => hparents j (List.mem_cons_of_mem _ hj))
        (fun x b query ht => hlaterals x b query (List.mem_cons_of_mem _ ht)) h
    rw [Table.bindAll]
    by_cases hgone : t.aliasName ∈ removed
    · rw [List.filter_cons_of_neg (by simpa using hgone)]
      refine hrest ?_
      -- the other side does not bind this table
      have hone : Assignment.SameOff hidden (es.flatMap (t.bind db)) (es'.flatMap fun e' => [e']) :=
        h.flatMap fun e e' he =>
          (hkeeps t List.mem_cons_self hgone).sameOff_bind (hremoved hgone) he
      rwa [List.flatMap_singleton'] at hone
    · rw [List.filter_cons_of_pos (by simpa using hgone), List.map_cons, Table.bindAll]
      refine hrest (h.flatMap fun e e' he => Table.sameOff_bind he ?_ ?_)
      · rintro j rfl
        exact hparents j List.mem_cons_self hgone
      · rintro x b query rfl
        exact hlaterals x b query List.mem_cons_self hgone

end

/-! ### Plans -/

namespace Plan

/-- The plan without the named tables, its lateral queries and the subqueries of its condition
changed. -/
def reduce (removed : List String) (g : Plan → Plan) (p : Plan) : Plan :=
  { p with
    tables := (p.tables.filter (·.aliasName ∉ removed)).map (Table.mapPlan g)
    condition := p.condition.map (Group.mapPlans g) }

/-- The tables that go keep every assignment, and what is left does not read them; the other
subqueries have the same results. -/
structure Reducible (db : Database) (hidden removed : List String) (g : Plan → Plan) (p : Plan) :
    Prop where
  subset : removed ⊆ hidden
  keeps : ∀ t ∈ p.tables, t.aliasName ∈ removed → t.Keeps
  references : ∀ a ∈ p.ownReferences, a ∉ hidden
  implied : ∀ a ∈ p.implied, a ∉ hidden
  parents : ∀ j, .join j ∈ p.tables → j.aliasName ∉ removed → j.parent.aliasName ∉ hidden
  laterals : ∀ x b query, .lateral x b query ∈ p.tables → x ∉ removed →
    query.SameAggregates db hidden (g query)
  subqueries : ∀ q ∈ p.subqueries, q.SameEmptiness db hidden (g q)
  aggregates : ∀ q ∈ p.selects.flatMap Select.plans, q.SameEmptiness db hidden q

section

variable {db : Database} {hidden removed : List String} {g : Plan → Plan} {p : Plan}
  {e e' : Assignment}

theorem Reducible.evalTop_eq (h : p.Reducible db hidden removed g) (he : e.AgreeOff hidden e') :
    Group.evalTop db p.condition e = Group.evalTop db (p.reduce removed g).condition e' := by
  obtain ⟨selects, tables, condition, sortKeys, groupBys, ctes⟩ := p
  cases condition with
  | none => rfl
  | some group =>
    exact Group.eval_mapPlans he
      (fun a ha => h.references a (List.mem_append_left _ (List.mem_append_left _
        (List.mem_append_right _ ha))))
      (fun a ha => h.implied a (List.mem_append_left _ ha)) h.subqueries

theorem Reducible.sameOff_rows (h : p.Reducible db hidden removed g) (he : e.AgreeOff hidden e') :
    Assignment.SameOff hidden (p.rows db e) ((p.reduce removed g).rows db e') := by
  have hbound := Table.sameOff_bindAll h.subset h.keeps h.parents h.laterals (.singleton he)
  rw [rows_eq_filter, rows_eq_filter]
  exact hbound.filter fun e e' he => h.evalTop_eq he

theorem Reducible.aggregates_eq (h : p.Reducible db hidden removed g)
    (he : e.AgreeOff hidden e') :
    p.aggregates db e = (p.reduce removed g).aggregates db e' := by
  have hrows := h.sameOff_rows he
  obtain ⟨selects, tables, condition, sortKeys, groupBys, ctes⟩ := p
  rw [Plan.aggregates_eq, Plan.aggregates_eq]
  exact Select.aggregates_sameOff hrows
    (fun a ha => h.references a (List.mem_append_left _ (List.mem_append_left _
      (List.mem_append_left _ ha))))
    (fun a ha => h.implied a (List.mem_append_right _ ha)) h.aggregates

theorem reduce_id : p.reduce [] id = p := by
  refine Eq.trans ?_ mapPlans_id
  simp [reduce, mapPlans]

/-- A plan does not depend on tables that neither it nor a plan inside it reads. -/
theorem reducible_of_spared (h : p.Spared hidden) (href : ∀ a ∈ p.references, a ∉ hidden) :
    p.Reducible db hidden [] id := by
  induction h with
  | @intro p here nested ih =>
    have hnested : ∀ q ∈ p.nestedPlans, q.SameEmptiness db hidden q ∧
        q.SameAggregates db hidden q := fun q hq => by
      have hq := ih q hq fun a ha => href a (references_of_nested hq ha)
      exact ⟨fun e e' he => by simpa only [reduce_id] using (hq.sameOff_rows he).isEmpty_eq,
        fun e e' he => by simpa only [reduce_id] using hq.aggregates_eq he⟩
    exact {
      subset := List.nil_subset _
      keeps := fun t _ ht => absurd ht List.not_mem_nil
      references := fun a ha => href a (mem_references_iff_own.2 (.inl ha))
      implied := here
      parents := fun j hj _ => href _ (mem_references_of_join hj)
      laterals := fun x b query ht _ =>
        (hnested query (mem_nestedPlans_of_table ht (List.mem_singleton_self _))).2
      subqueries := fun q hq => (hnested q (mem_nestedPlans_of_condition hq)).1
      aggregates := fun q hq => by
        obtain ⟨s, hs, hq⟩ := List.mem_flatMap.1 hq
        exact (hnested q (mem_nestedPlans_of_select hs hq)).1 }

end

end Plan

end EntityQuery
