import EntityQuery.Proofs.Agreement.Binding
import EntityQuery.Proofs.Multiplicity.Order
import EntityQuery.Proofs.Scoping.Leaves
import EntityQuery.Proofs.Pruning.Apart
import EntityQuery.Proofs.Pruning.Top

/-!
# Properties of all predicates of a plan

What is true of every predicate on a column, and of the tables of every subquery, is kept by the
passes that look at leaves and subqueries one by one.

* `Plan.Throughout`: a property of the tables and one of the predicates, in a plan and in its
  subqueries;
* `Plan.Throughout.imp`: what follows from two of them;
* `Condition.Throughout.of_flat`: conditions without subqueries;
* `Plan.Throughout.everywhere`: the tables of the plan and of all plans inside it;
* `Plan.throughout_mapLeaves`, `Plan.throughout_of_addOrder`, `Plan.throughout_prune`: other leaves, an
  order, and pruning;
* `Plan.Scoped.throughout_led`: the subqueries of a well-scoped plan start with primary tables.
-/

namespace EntityQuery

/-! ### Every predicate -/

section

variable (L : List Table → Prop) (P : ColumnCondition → Prop)

mutual

/-- The tables of the plan and of each subquery have the first property, all predicates on columns
the second one. -/
def Plan.Throughout : Plan → Prop
  | ⟨selects, tables, condition, _, _, _⟩ =>
    L tables ∧ Table.ThroughoutAll tables ∧ Group.ThroughoutTop condition ∧
      Select.ThroughoutAll selects

/-- The subqueries in tables have the properties. -/
def Table.ThroughoutAll : List Table → Prop
  | [] => True
  | .lateral _ _ query :: rest => query.Throughout ∧ Table.ThroughoutAll rest
  | _ :: rest => Table.ThroughoutAll rest

/-- What is at the top of a plan has the properties. -/
def Group.ThroughoutTop : Option Group → Prop
  | none => True
  | some g => g.Throughout

/-- The conditions of the group have the properties. -/
def Group.Throughout : Group → Prop
  | ⟨_, conditions⟩ => Condition.ThroughoutAll conditions

/-- The conditions have the properties. -/
def Condition.ThroughoutAll : List Condition → Prop
  | [] => True
  | c :: rest => c.Throughout ∧ Condition.ThroughoutAll rest

/-- The predicates and subqueries of the condition have the properties. -/
def Condition.Throughout : Condition → Prop
  | .group g => g.Throughout
  | .column c => P c
  | .raw _ => True
  | .existence query _ _ => query.Throughout

/-- The predicates and subqueries in result columns have the properties. -/
def Select.ThroughoutAll : List Select → Prop
  | [] => True
  | .boolOr condition _ :: rest => condition.Throughout ∧ Select.ThroughoutAll rest
  | _ :: rest => Select.ThroughoutAll rest

end

/-- The predicates and subqueries in the result column have the properties. -/
def Select.Throughout : Select → Prop
  | .boolOr condition _ => condition.Throughout L P
  | _ => True

end

section

variable {L L' L'' : List Table → Prop} {P P' P'' : ColumnCondition → Prop}

/-! ### Parts -/

namespace Condition

theorem throughoutAll_iff {cs : List Condition} :
    ThroughoutAll L P cs ↔ ∀ c ∈ cs, c.Throughout L P := by
  induction cs with
  | nil => simp [ThroughoutAll]
  | cons c cs ih => simp [ThroughoutAll, ih]

theorem throughout_group_iff {op : Connective} {cs : List Condition} :
    (group ⟨op, cs⟩).Throughout L P ↔ ∀ c ∈ cs, c.Throughout L P := throughoutAll_iff

end Condition

theorem Select.throughoutAll_iff {ss : List Select} :
    Select.ThroughoutAll L P ss ↔ ∀ s ∈ ss, s.Throughout L P := by
  induction ss with
  | nil => simp [Select.ThroughoutAll]
  | cons s ss ih => cases s <;> simp [Select.ThroughoutAll, Select.Throughout, ih]

theorem Table.throughoutAll_iff {ts : List Table} :
    Table.ThroughoutAll L P ts ↔ ∀ t ∈ ts, ∀ q ∈ t.plans, q.Throughout L P := by
  induction ts with
  | nil => simp [Table.ThroughoutAll]
  | cons t ts ih => cases t <;> simp [Table.ThroughoutAll, Table.plans, ih]

/-- What is at the top of a plan has the properties when all conditions there have. -/
theorem Group.throughoutTop_iff {p : Plan} :
    Group.ThroughoutTop L P p.condition ↔ ∀ c ∈ p.topConditions, c.Throughout L P := by
  unfold Plan.topConditions
  split
  · next h => simp [h, Group.ThroughoutTop]
  · next conditions h => rw [h, Group.ThroughoutTop, Group.Throughout, Condition.throughoutAll_iff]
  · next g _ h => simp [h, Group.ThroughoutTop, Condition.Throughout]

theorem Group.throughoutTop_ofTop {disjunctive : Bool} {cs : List Condition}
    (h : ∀ c ∈ cs, c.Throughout L P) : Group.ThroughoutTop L P (Group.ofTop disjunctive cs) := by
  unfold Group.ofTop
  split
  · exact trivial
  · next g =>
    have hg : g.Throughout L P := h _ (List.mem_singleton_self _)
    split_ifs
    · exact hg
    · exact Condition.throughoutAll_iff.2 h
  · exact Condition.throughoutAll_iff.2 h

theorem Group.throughoutTop_nonempty? {g : Option Group} (h : Group.ThroughoutTop L P g) :
    Group.ThroughoutTop L P (Group.nonempty? g) := by
  unfold Group.nonempty?
  split
  · exact trivial
  · exact h

namespace Plan

theorem throughout_iff {p : Plan} : p.Throughout L P ↔ L p.tables ∧
    (∀ t ∈ p.tables, ∀ q ∈ t.plans, q.Throughout L P) ∧
    (∀ c ∈ p.topConditions, c.Throughout L P) ∧ ∀ s ∈ p.selects, s.Throughout L P := by
  rw [← Group.throughoutTop_iff, ← Select.throughoutAll_iff, ← Table.throughoutAll_iff]
  cases p
  rfl

end Plan

/-! ### Consequences -/

/-- The third properties follow from the first and the second ones. -/
structure Entails (L L' L'' : List Table → Prop) (P P' P'' : ColumnCondition → Prop) : Prop where
  tables : ∀ ts, L ts → L' ts → L'' ts
  predicate : ∀ c, P c → P' c → P'' c

mutual

/-- What follows from two properties of tables, and from two of predicates. -/
theorem Plan.Throughout.imp (hE : Entails L L' L'' P P' P'') : ∀ {p : Plan},
    p.Throughout L P → p.Throughout L' P' →
    p.Throughout L'' P''
  | ⟨_, _, _, _, _, _⟩, ⟨ht, htables, htop, hselects⟩, ⟨ht', htables', htop', hselects'⟩ =>
    ⟨hE.tables _ ht ht', Table.ThroughoutAll.imp hE htables htables',
      Group.ThroughoutTop.imp hE htop htop', Select.ThroughoutAll.imp hE hselects hselects'⟩

theorem Table.ThroughoutAll.imp (hE : Entails L L' L'' P P' P'') : ∀ {ts : List Table},
    Table.ThroughoutAll L P ts →
      Table.ThroughoutAll L' P' ts → Table.ThroughoutAll L'' P'' ts
  | [], _, _ => trivial
  | t :: ts, h, h' => by
    cases t with
    | lateral a source query =>
      exact ⟨Plan.Throughout.imp hE h.1 h'.1, Table.ThroughoutAll.imp hE h.2 h'.2⟩
    | _ => exact (Table.ThroughoutAll.imp hE h h' : Table.ThroughoutAll L'' P'' ts)

theorem Group.ThroughoutTop.imp (hE : Entails L L' L'' P P' P'') : ∀ {g : Option Group},
    Group.ThroughoutTop L P g →
      Group.ThroughoutTop L' P' g → Group.ThroughoutTop L'' P'' g
  | none, _, _ => trivial
  | some _, h, h' => Group.Throughout.imp hE h h'

theorem Group.Throughout.imp (hE : Entails L L' L'' P P' P'') : ∀ {g : Group},
    g.Throughout L P → g.Throughout L' P' →
    g.Throughout L'' P''
  | ⟨_, _⟩, h, h' => Condition.ThroughoutAll.imp hE h h'

theorem Condition.ThroughoutAll.imp (hE : Entails L L' L'' P P' P'') : ∀ {cs : List Condition},
    Condition.ThroughoutAll L P cs →
      Condition.ThroughoutAll L' P' cs → Condition.ThroughoutAll L'' P'' cs
  | [], _, _ => trivial
  | _ :: _, h, h' => ⟨Condition.Throughout.imp hE h.1 h'.1, Condition.ThroughoutAll.imp hE h.2 h'.2⟩

theorem Condition.Throughout.imp (hE : Entails L L' L'' P P' P'') : ∀ {c : Condition},
    c.Throughout L P → c.Throughout L' P' →
    c.Throughout L'' P''
  | .group _, h, h' => Group.Throughout.imp hE h h'
  | .column _, h, h' => hE.predicate _ h h'
  | .raw _, _, _ => trivial
  | .existence _ _ _, h, h' => Plan.Throughout.imp hE h h'

theorem Select.ThroughoutAll.imp (hE : Entails L L' L'' P P' P'') : ∀ {ss : List Select},
    Select.ThroughoutAll L P ss →
      Select.ThroughoutAll L' P' ss → Select.ThroughoutAll L'' P'' ss
  | [], _, _ => trivial
  | s :: ss, h, h' => by
    cases s with
    | boolOr g name =>
      exact ⟨Group.Throughout.imp hE h.1 h'.1, Select.ThroughoutAll.imp hE h.2 h'.2⟩
    | _ => exact (Select.ThroughoutAll.imp hE h h' : Select.ThroughoutAll L'' P'' ss)

end

/-! ### Conditions without subqueries -/

mutual

theorem Group.throughout_of_flat : ∀ {g : Group}, g.plans = [] → g.Throughout L fun _ => True
  | ⟨_, _⟩, hflat => Condition.throughoutAll_of_flat hflat

theorem Condition.throughoutAll_of_flat : ∀ {cs : List Condition}, Condition.plansOf cs = [] →
    Condition.ThroughoutAll L (fun _ => True) cs
  | [], _ => trivial
  | _ :: _, hflat =>
    have hflat := List.append_eq_nil_iff.1 hflat
    ⟨Condition.throughout_of_flat hflat.1, Condition.throughoutAll_of_flat hflat.2⟩

/-- Without subqueries, nothing is said of tables. -/
theorem Condition.throughout_of_flat : ∀ {c : Condition}, c.plans = [] →
    c.Throughout L fun _ => True
  | .group _, hflat => Group.throughout_of_flat hflat
  | .column _, _ => trivial
  | .raw _, _ => trivial
  | .existence .., hflat => absurd hflat (List.cons_ne_nil _ _)

end

theorem Condition.Throughout.of_flat {c : Condition} (h : c.Throughout L P) (hflat : c.plans = []) :
    c.Throughout L' P :=
  Condition.Throughout.imp ⟨fun _ _ h => h, fun _ h _ => h⟩ h (throughout_of_flat hflat)

theorem Select.throughout_of_flat {s : Select} (hflat : s.plans = []) :
    s.Throughout L fun _ => True := by
  cases s with
  | boolOr g name => exact Group.throughout_of_flat hflat
  | _ => trivial

/-! ### Plans inside a plan -/

mutual

theorem Group.Throughout.of_mem_plans : ∀ {g : Group}, g.Throughout L P → ∀ q ∈ g.plans,
    q.Throughout L P
  | ⟨_, _⟩, h => Condition.ThroughoutAll.of_mem_plansOf h

theorem Condition.ThroughoutAll.of_mem_plansOf : ∀ {cs : List Condition},
    Condition.ThroughoutAll L P cs → ∀ q ∈ Condition.plansOf cs, q.Throughout L P
  | [], _ => nofun
  | _ :: _, h => List.forall_mem_append.2
    ⟨Condition.Throughout.of_mem_plans h.1, Condition.ThroughoutAll.of_mem_plansOf h.2⟩

/-- The subqueries of the condition have the properties. -/
theorem Condition.Throughout.of_mem_plans : ∀ {c : Condition}, c.Throughout L P → ∀ q ∈ c.plans,
    q.Throughout L P
  | .group _, h => Group.Throughout.of_mem_plans h
  | .column _, _ => nofun
  | .raw _, _ => nofun
  | .existence _ _ _, h => List.forall_mem_singleton.2 h

end

theorem Plan.Throughout.nested {p : Plan} (h : p.Throughout L P) :
    ∀ q ∈ p.nestedPlans, q.Throughout L P := by
  obtain ⟨selects, tables, condition, sortKeys, groupBys, ctes⟩ := p
  obtain ⟨-, htables, htop, hselects⟩ := h
  refine List.forall_mem_append.2 ⟨List.forall_mem_append.2 ⟨fun q hq => ?_, ?_⟩, fun q hq => ?_⟩
  · obtain ⟨t, ht, hq⟩ := List.mem_flatMap.1 hq
    exact Table.throughoutAll_iff.1 htables t ht q hq
  · cases condition with
    | none => exact nofun
    | some g => exact Group.Throughout.of_mem_plans htop
  · obtain ⟨s, hs, hq⟩ := List.mem_flatMap.1 hq
    have hs := Select.throughoutAll_iff.1 hselects s hs
    cases s with
    | boolOr g name => exact Group.Throughout.of_mem_plans hs q hq
    | _ => cases hq

/-- The tables of the plan and of each plan inside it have the property. -/
theorem Plan.Throughout.everywhere {p : Plan} (h : p.Throughout L P) :
    p.Everywhere fun q => L q.tables := by
  have hall : p.Everywhere fun _ => True := everywhere_of_forall (fun _ => trivial) p
  induction hall with
  | intro _ _ ih => exact .intro (throughout_iff.1 h).1 fun q hq => ih q hq (h.nested q hq)

/-! ### Other leaves -/

/-- The first property is one of the names and kinds of tables, and is kept when tables go to which
nothing refers. -/
structure Table.Stable (L : List Table → Prop) : Prop where
  mapPlan : ∀ {f : Plan → Plan} {ts : List Table}, L ts → L (ts.map (Table.mapPlan f))
  unreferenced : ∀ {p : Plan} {keep : List String}, L p.tables →
    L (p.tables.filter (·.aliasName ∉ p.unreferenced keep))

/-- What stands in the place of a leaf has the properties. -/
def Condition.KeepsThroughout (L : List Table → Prop) (P : ColumnCondition → Prop)
    (f : Condition → List Condition) : Prop :=
  ∀ c : Condition, c.Throughout L P → ∀ c' ∈ f c, c'.Throughout L P

section

variable {f : Condition → List Condition}

mutual

/-- Other leaves with the properties leave a plan with them. -/
theorem Plan.throughout_mapLeaves (hL : Table.Stable L) (hf : Condition.KeepsThroughout L P f) :
    ∀ {p : Plan}, p.Throughout L P → (p.mapLeaves f).Throughout L P
  | ⟨_, tables, _, _, _, _⟩, ⟨ht, htables, htop, hselects⟩ => by
    refine ⟨?_, Table.throughoutAll_mapLeavesAll hL hf htables,
      Group.throughoutTop_mapLeavesTop hL hf htop, Select.throughoutAll_mapLeavesAll hL hf hselects⟩
    rw [Table.mapLeavesAll_eq_map]
    exact hL.mapPlan ht

theorem Table.throughoutAll_mapLeavesAll (hL : Table.Stable L)
    (hf : Condition.KeepsThroughout L P f) : ∀ {ts : List Table}, Table.ThroughoutAll L P ts →
      Table.ThroughoutAll L P (Table.mapLeavesAll f ts)
  | [], _ => trivial
  | t :: ts, h => by
    cases t with
    | lateral a source query =>
      exact ⟨Plan.throughout_mapLeaves hL hf h.1, Table.throughoutAll_mapLeavesAll hL hf h.2⟩
    | _ => exact (Table.throughoutAll_mapLeavesAll hL hf h :
        Table.ThroughoutAll L P (Table.mapLeavesAll f ts))

theorem Group.throughoutTop_mapLeavesTop (hL : Table.Stable L)
    (hf : Condition.KeepsThroughout L P f) : ∀ {g : Option Group}, Group.ThroughoutTop L P g →
      Group.ThroughoutTop L P (Group.mapLeavesTop f g)
  | none, _ => trivial
  | some _, h => Group.throughout_mapLeaves hL hf h

theorem Group.throughout_mapLeaves (hL : Table.Stable L) (hf : Condition.KeepsThroughout L P f) :
    ∀ {g : Group}, g.Throughout L P → (g.mapLeaves f).Throughout L P
  | ⟨_, _⟩, h => Condition.throughoutAll_mapLeavesAll hL hf h

theorem Condition.throughoutAll_mapLeavesAll (hL : Table.Stable L)
    (hf : Condition.KeepsThroughout L P f) : ∀ {cs : List Condition},
      Condition.ThroughoutAll L P cs → Condition.ThroughoutAll L P (Condition.mapLeavesAll f cs)
  | [], _ => trivial
  | _ :: _, h => Condition.throughoutAll_iff.2 (List.forall_mem_append.2
      ⟨Condition.throughout_mapLeaves hL hf h.1,
        Condition.throughoutAll_iff.1 (Condition.throughoutAll_mapLeavesAll hL hf h.2)⟩)

theorem Condition.throughout_mapLeaves (hL : Table.Stable L)
    (hf : Condition.KeepsThroughout L P f) : ∀ {c : Condition}, c.Throughout L P →
      ∀ c' ∈ c.mapLeaves f, c'.Throughout L P
  | .column _, h => hf _ h
  | .raw _, h => hf _ h
  | .group _, h => List.forall_mem_singleton.2 (Group.throughout_mapLeaves hL hf h)
  | .existence _ _ _, h => List.forall_mem_singleton.2 (Plan.throughout_mapLeaves hL hf h)

theorem Select.throughoutAll_mapLeavesAll (hL : Table.Stable L)
    (hf : Condition.KeepsThroughout L P f) : ∀ {ss : List Select}, Select.ThroughoutAll L P ss →
      Select.ThroughoutAll L P (Select.mapLeavesAll f ss)
  | [], _ => trivial
  | s :: ss, h => by
    cases s with
    | boolOr g name =>
      exact ⟨Group.throughout_mapLeaves hL hf h.1, Select.throughoutAll_mapLeavesAll hL hf h.2⟩
    | _ => exact (Select.throughoutAll_mapLeavesAll hL hf h :
        Select.ThroughoutAll L P (Select.mapLeavesAll f ss))

end

end

/-- Tests for rows have the second property when those do that were there and the tests that are
added. -/
theorem Plan.throughout_addNullChecks (hL : Table.Stable L) {idDbType : String → String}
    (hP : ∀ a, P (.asked a "id" (idDbType a) .notNull)) {p : Plan} (h : p.Throughout L P) :
    (p.addNullChecks idDbType).Throughout L P := by
  refine Plan.throughout_mapLeaves hL (fun c hc c' hc' => ?_) h
  cases c with
  | column c =>
    simp only [Condition.withNullCheck] at hc'
    split_ifs at hc'
    · rw [List.mem_singleton.1 hc']
      exact Condition.throughout_group_iff.2
        (List.forall_mem_cons.2 ⟨hc, List.forall_mem_singleton.2 (hP _)⟩)
    · rw [List.mem_singleton.1 hc']
      exact hc
  | _ =>
    rw [List.mem_singleton.1 hc']
    exact hc

/-! ### Orders -/

/-- What an order adds has no conditions. -/
theorem Plan.throughout_of_addOrder {s : Setting} {e : Entity} {a : String} {order : OrderBy}
    {supply : AliasSupply} {p : Plan} {r : Plan × AliasSupply}
    (hr : p.addOrder s e a order supply = .ok r) (hlast : L r.1.tables) (h : p.Throughout L P) :
    r.1.Throughout L P := by
  obtain ⟨js, keys, hadd⟩ := exists_joins_addOrder hr
  obtain ⟨ordered, rest⟩ := r
  obtain ⟨rfl, -⟩ := Prod.mk.inj (Except.ok.inj (hr.symm.trans (hadd p rfl rfl)))
  obtain ⟨-, htables, htop, hselects⟩ := throughout_iff.1 h
  refine throughout_iff.2 ⟨hlast, List.forall_mem_append.2 ⟨htables, ?_⟩, htop, hselects⟩
  exact List.forall_mem_map.2 fun _ _ _ hq => absurd hq List.not_mem_nil

/-! ### Pruning -/

section

variable {f : Plan → Plan} {keep : List String} {p : Plan}

theorem Plan.throughout_remove (hL : Table.Stable L) (h : p.Throughout L P) :
    (p.remove (p.unreferenced keep)).Throughout L P := by
  obtain ⟨ht, htables, htop, hselects⟩ := Plan.throughout_iff.1 h
  have hfiltered : Plan.Throughout L P { p with
      tables := p.tables.filter (·.aliasName ∉ p.unreferenced keep) } :=
    Plan.throughout_iff.2 ⟨hL.unreferenced ht, fun t ht => htables t (List.mem_filter.1 ht).1, htop,
      hselects⟩
  have hkeeps : Condition.KeepsThroughout L P (Condition.withoutRemoved (p.unreferenced keep)) :=
    fun c hc c' hc' => Condition.withoutRemoved_subset hc' ▸ hc
  have hmapped := Plan.throughout_mapLeaves hL hkeeps hfiltered
  obtain ⟨selects, tables, condition, sortKeys, groupBys, ctes⟩ := p
  obtain ⟨ht, htables, htop, hselects⟩ := hmapped
  exact ⟨ht, htables, Group.throughoutTop_nonempty? htop, hselects⟩

theorem Plan.throughout_trim (hL : Table.Stable L) (h : p.Throughout L P) :
    (p.trim keep).Throughout L P :=
  trim_induct (fun _ => Plan.throughout_remove hL) h

mutual

theorem Group.throughout_mapPlans (hf : ∀ q : Plan, q.Throughout L P → (f q).Throughout L P) :
    ∀ {g : Group}, g.Throughout L P → (g.mapPlans f).Throughout L P
  | ⟨_, _⟩, h => Condition.throughoutAll_mapPlansOf hf h

theorem Condition.throughoutAll_mapPlansOf
    (hf : ∀ q : Plan, q.Throughout L P → (f q).Throughout L P) : ∀ {cs : List Condition},
      Condition.ThroughoutAll L P cs → Condition.ThroughoutAll L P (Condition.mapPlansOf f cs)
  | [], _ => trivial
  | _ :: _, h => ⟨Condition.throughout_mapPlans hf h.1, Condition.throughoutAll_mapPlansOf hf h.2⟩

theorem Condition.throughout_mapPlans (hf : ∀ q : Plan, q.Throughout L P → (f q).Throughout L P) :
    ∀ {c : Condition}, c.Throughout L P → (c.mapPlans f).Throughout L P
  | .group _, h => Group.throughout_mapPlans hf h
  | .existence query _ _, h => hf query h
  | .column _, h => h
  | .raw _, _ => trivial

end

/-- Other subqueries with the properties. -/
theorem Plan.throughout_mapPlans (hL : Table.Stable L)
    (hf : ∀ q : Plan, q.Throughout L P → (f q).Throughout L P) (h : p.Throughout L P) :
    (p.mapPlans f).Throughout L P := by
  obtain ⟨selects, tables, condition, sortKeys, groupBys, ctes⟩ := p
  obtain ⟨ht, htables, htop, hselects⟩ := h
  refine ⟨hL.mapPlan ht, Table.throughoutAll_iff.2 (List.forall_mem_map.2 fun t ht q hq => ?_), ?_,
    hselects⟩
  · cases t with
    | lateral a source query =>
      rw [List.mem_singleton.1 hq]
      exact hf query (Table.throughoutAll_iff.1 htables _ ht query (List.mem_singleton_self _))
    | _ => cases hq
  · cases condition with
    | none => trivial
    | some g => exact Group.throughout_mapPlans hf htop

theorem Plan.throughout_pruneWithin (hL : Table.Stable L) (n : Nat) (h : p.Throughout L P) :
    (p.pruneWithin n keep).Throughout L P := by
  induction n generalizing p keep with
  | zero => exact Plan.throughout_trim hL h
  | succ n ih =>
    exact Plan.throughout_mapPlans hL (fun _ hq => ih hq) (Plan.throughout_trim hL h)

/-- The plan and its subqueries without tables to which nothing refers. -/
theorem Plan.throughout_prune (hL : Table.Stable L) (h : p.Throughout L P) :
    (p.prune keep).Throughout L P := Plan.throughout_pruneWithin hL _ h

end

/-! ### Primary tables -/

/-- The primary table stays in front. -/
theorem Table.stable_led : Table.Stable Table.Led where
  mapPlan h := Table.led_mapPlan h
  unreferenced h := Table.led_filter h fun t ht hprimary hm => by
    obtain ⟨⟨x, hx, hxp, hname⟩, -⟩ := Plan.mem_unreferenced_iff.1 hm
    exact h.ne_of_isPrimary ht hprimary hx hxp hname

mutual

/-- The subqueries of a well-scoped plan start with their primary tables. -/
theorem Plan.Scoped.throughout_led : ∀ {p : Plan} {outer : List String}, p.Scoped outer →
    p.Throughout Table.Led fun _ => True
  | ⟨_, _, _, _, _, _⟩, _, ⟨hled, htables, hselects, htop, _, _⟩ =>
    ⟨hled, Table.ScopedAll.throughout_led htables, Group.ScopedTop.throughout_led htop,
      Select.ScopedAll.throughout_led hselects⟩

theorem Table.ScopedAll.throughout_led : ∀ {ts : List Table} {before : List String},
    Table.ScopedAll before ts → Table.ThroughoutAll Table.Led (fun _ => True) ts
  | [], _, _ => trivial
  | t :: ts, _, h => by
    cases t with
    | primary a table => exact (Table.ScopedAll.throughout_led h :
        Table.ThroughoutAll Table.Led (fun _ => True) ts)
    | join j => exact (Table.ScopedAll.throughout_led h.2 :
        Table.ThroughoutAll Table.Led (fun _ => True) ts)
    | cross a table => exact (Table.ScopedAll.throughout_led h :
        Table.ThroughoutAll Table.Led (fun _ => True) ts)
    | lateral a source query =>
      exact ⟨Plan.Scoped.throughout_led h.2.1, Table.ScopedAll.throughout_led h.2.2⟩

theorem Group.ScopedTop.throughout_led : ∀ {g : Option Group} {own outer : List String},
    Group.ScopedTop own outer g → Group.ThroughoutTop Table.Led (fun _ => True) g
  | none, _, _, _ => trivial
  | some _, _, _, h => Group.Scoped.throughout_led h

theorem Group.Scoped.throughout_led : ∀ {g : Group} {own outer : List String},
    g.Scoped own outer → g.Throughout Table.Led fun _ => True
  | ⟨_, _⟩, _, _, h => Condition.ScopedAll.throughout_led h

theorem Condition.ScopedAll.throughout_led : ∀ {cs : List Condition} {own outer : List String},
    Condition.ScopedAll own outer cs → Condition.ThroughoutAll Table.Led (fun _ => True) cs
  | [], _, _, _ => trivial
  | _ :: _, _, _, h =>
    ⟨Condition.Scoped.throughout_led h.1, Condition.ScopedAll.throughout_led h.2⟩

theorem Condition.Scoped.throughout_led : ∀ {c : Condition} {own outer : List String},
    c.Scoped own outer → c.Throughout Table.Led fun _ => True
  | .group _, _, _, h => Group.Scoped.throughout_led h
  | .column _, _, _, _ => trivial
  | .raw _, _, _, _ => trivial
  | .existence _ _ _, _, _, h => Plan.Scoped.throughout_led h.2

theorem Select.ScopedAll.throughout_led : ∀ {ss : List Select} {own outer : List String},
    Select.ScopedAll own outer ss → Select.ThroughoutAll Table.Led (fun _ => True) ss
  | [], _, _, _ => trivial
  | s :: ss, _, _, h => by
    cases s with
    | boolOr g name =>
      exact ⟨Group.Scoped.throughout_led h.1, Select.ScopedAll.throughout_led h.2⟩
    | _ => exact (Select.ScopedAll.throughout_led h.2 :
        Select.ThroughoutAll Table.Led (fun _ => True) ss)

end

end

end EntityQuery
