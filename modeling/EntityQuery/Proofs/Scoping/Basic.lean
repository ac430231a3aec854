import EntityQuery.Proofs.Evaluation.Truth

/-!
# Well-scoped plans

A plan is well scoped when it starts with its only primary table, each join and each lateral query
refers to a table in front of it, and everything that is read is bound: in the plan, or it is the one
table that a subquery is correlated with, which the plan around it binds.

* `Plan.Scoped`: the plan and all plans inside it are well scoped;
* `Condition.scoped_congr`: only the tables that a condition reads matter;
* `Condition.scoped_of_flat`: a condition without subqueries is well scoped when its tables are bound.
-/

namespace EntityQuery

/-- The first table is the primary one; no other table is, and none has its name. -/
def Table.Led : List Table → Prop
  | .primary aliasName _ :: rest => ∀ t ∈ rest, t.isPrimary = false ∧ t.aliasName ≠ aliasName
  | _ => False

mutual

/-- The plan is well scoped where it may read the tables `outer` of the plan around it. -/
def Plan.Scoped (outer : List String) : Plan → Prop
  | ⟨selects, tables, condition, sortKeys, groupBys, _⟩ =>
    Table.Led tables ∧ Table.ScopedAll [] tables ∧
      Select.ScopedAll (tables.map Table.aliasName) outer selects ∧
      Group.ScopedTop (tables.map Table.aliasName) outer condition ∧
      (∀ k ∈ sortKeys, k.aliasName ∈ tables.map Table.aliasName ∨ k.aliasName ∈ outer) ∧
      ∀ c ∈ groupBys.getD [], c.aliasName ∈ tables.map Table.aliasName ∨ c.aliasName ∈ outer

/-- Joins and lateral queries refer to tables in front of them; a lateral query reads no other
table of the plan. -/
def Table.ScopedAll (before : List String) : List Table → Prop
  | [] => True
  | .primary aliasName _ :: rest => Table.ScopedAll (before ++ [aliasName]) rest
  | .join j :: rest =>
    j.parent.aliasName ∈ before ∧ Table.ScopedAll (before ++ [j.aliasName]) rest
  | .cross aliasName _ :: rest => Table.ScopedAll (before ++ [aliasName]) rest
  | .lateral aliasName fromAlias query :: rest =>
    fromAlias ∈ before ∧ query.Scoped [fromAlias] ∧ Table.ScopedAll (before ++ [aliasName]) rest

/-- The condition at the top of a plan reads its own tables or the outer ones. -/
def Group.ScopedTop (own outer : List String) : Option Group → Prop
  | none => True
  | some g => g.Scoped own outer

/-- The group reads its own tables or the outer ones. -/
def Group.Scoped (own outer : List String) : Group → Prop
  | ⟨_, conditions⟩ => Condition.ScopedAll own outer conditions

/-- The conditions read tables of the plan or the outer ones. -/
def Condition.ScopedAll (own outer : List String) : List Condition → Prop
  | [] => True
  | c :: rest => c.Scoped own outer ∧ Condition.ScopedAll own outer rest

/-- The condition reads tables of the plan or the outer ones; a subquery reads one table of the plan
besides its own. -/
def Condition.Scoped (own outer : List String) : Condition → Prop
  | .group g => g.Scoped own outer
  | .column c => c.aliasName ∈ own ∨ c.aliasName ∈ outer
  | .raw r => ∀ a ∈ r.aliases, a ∈ own ∨ a ∈ outer
  | .existence query _ outerAliases =>
    (∃ a ∈ own, outerAliases = [a]) ∧ query.Scoped outerAliases

/-- The result columns read tables of the plan or the outer ones. -/
def Select.ScopedAll (own outer : List String) : List Select → Prop
  | [] => True
  | .boolOr condition _ :: rest =>
    condition.Scoped own outer ∧ Select.ScopedAll own outer rest
  | s :: rest => (∀ a ∈ s.aliases, a ∈ own ∨ a ∈ outer) ∧ Select.ScopedAll own outer rest

end

/-- The column reads tables of the plan or the outer ones. -/
def Select.Scoped (own outer : List String) : Select → Prop
  | .boolOr condition _ => condition.Scoped own outer
  | s => ∀ a ∈ s.aliases, a ∈ own ∨ a ∈ outer

/-- The table refers to tables in front of it; a lateral query reads no other table. -/
def Table.Scoped (before : List String) : Table → Prop
  | .join j => j.parent.aliasName ∈ before
  | .lateral _ fromAlias query => fromAlias ∈ before ∧ query.Scoped [fromAlias]
  | _ => True

section

variable {own own' outer : List String}

/-! ### Parts -/

theorem Condition.scopedAll_iff {cs : List Condition} :
    Condition.ScopedAll own outer cs ↔ ∀ c ∈ cs, c.Scoped own outer := by
  induction cs with
  | nil => simp [Condition.ScopedAll]
  | cons c cs ih => simp [Condition.ScopedAll, ih]

theorem Condition.scoped_group_iff {op : Connective} {cs : List Condition} :
    (Condition.group ⟨op, cs⟩).Scoped own outer ↔ ∀ c ∈ cs, c.Scoped own outer := by
  rw [Condition.Scoped, Group.Scoped, Condition.scopedAll_iff]

theorem Select.scopedAll_iff {ss : List Select} :
    Select.ScopedAll own outer ss ↔ ∀ s ∈ ss, s.Scoped own outer := by
  induction ss with
  | nil => simp [Select.ScopedAll]
  | cons s ss ih => cases s <;> simp [Select.ScopedAll, Select.Scoped, ih]

/-- The condition at the top is well scoped when all conditions there are. -/
theorem Group.scopedTop_iff {p : Plan} :
    Group.ScopedTop own outer p.condition ↔ ∀ c ∈ p.topConditions, c.Scoped own outer := by
  unfold Plan.topConditions
  split
  · next h => simp [h, Group.ScopedTop]
  · next conditions h => rw [h, Group.ScopedTop, Group.Scoped, Condition.scopedAll_iff]
  · next g _ h => simp [h, Group.ScopedTop, Condition.Scoped]

theorem Group.scopedTop_ofTop {disjunctive : Bool} {cs : List Condition}
    (h : ∀ c ∈ cs, c.Scoped own outer) :
    Group.ScopedTop own outer (Group.ofTop disjunctive cs) := by
  unfold Group.ofTop
  split
  · exact trivial
  · next g =>
    have hg : g.Scoped own outer := h _ (List.mem_singleton_self _)
    split_ifs
    · exact hg
    · exact Condition.scopedAll_iff.2 h
  · exact Condition.scopedAll_iff.2 h

/-- The parts of a well-scoped plan. -/
theorem Plan.scoped_iff {p : Plan} : p.Scoped outer ↔ Table.Led p.tables ∧
    Table.ScopedAll [] p.tables ∧
    (∀ s ∈ p.selects, s.Scoped (p.tables.map Table.aliasName) outer) ∧
    (∀ c ∈ p.topConditions, c.Scoped (p.tables.map Table.aliasName) outer) ∧
    (∀ k ∈ p.sortKeys, k.aliasName ∈ p.tables.map Table.aliasName ∨ k.aliasName ∈ outer) ∧
    ∀ c ∈ p.groupBys.getD [], c.aliasName ∈ p.tables.map Table.aliasName ∨ c.aliasName ∈ outer := by
  rw [← Group.scopedTop_iff, ← Select.scopedAll_iff]
  cases p
  rfl

/-! ### Tables in their order -/

theorem Table.scopedAll_cons_iff {before : List String} {t : Table} {ts : List Table} :
    Table.ScopedAll before (t :: ts) ↔
      t.Scoped before ∧ Table.ScopedAll (before ++ [t.aliasName]) ts := by
  cases t <;> simp [Table.ScopedAll, Table.Scoped, Table.aliasName, and_assoc]

theorem Table.scopedAll_append {before : List String} {ts ts' : List Table} :
    Table.ScopedAll before (ts ++ ts') ↔
      Table.ScopedAll before ts ∧ Table.ScopedAll (before ++ ts.map Table.aliasName) ts' := by
  induction ts generalizing before with
  | nil => simp [Table.ScopedAll]
  | cons t ts ih => simp [Table.scopedAll_cons_iff, ih, and_assoc]

/-- Joins refer to tables in front of them, more so when they all refer to tables in front of the
first one. -/
theorem Table.scopedAll_joins {before : List String} {js : List Join}
    (h : ∀ j ∈ js, j.parent.aliasName ∈ before) : Table.ScopedAll before (js.map .join) := by
  induction js generalizing before with
  | nil => trivial
  | cons j js ih =>
    exact ⟨h j List.mem_cons_self, ih fun j' hj' =>
      List.mem_append_left _ (h j' (List.mem_cons_of_mem _ hj'))⟩

/-- The primary table stays in front of tables with other names. -/
theorem Table.led_append {ts ts' : List Table} (h : Table.Led ts)
    (h' : ∀ t ∈ ts', t.isPrimary = false ∧
      ∀ x ∈ ts, x.isPrimary = true → t.aliasName ≠ x.aliasName) : Table.Led (ts ++ ts') := by
  cases ts with
  | nil => exact h.elim
  | cons x rest =>
    cases x with
    | primary a table =>
      intro t ht
      rcases List.mem_append.1 ht with ht | ht
      · exact h t ht
      · exact (h' t ht).imp_right fun hne => hne _ List.mem_cons_self rfl
    | _ => exact h.elim

/-! ### Subqueries aside -/

mutual

theorem Group.scoped_congr : ∀ {g : Group}, (∀ a ∈ g.aliases, a ∈ own → a ∈ own') →
    g.Scoped own outer → g.Scoped own' outer
  | ⟨op, cs⟩, h, hg => Condition.scopedAll_congr (fun c hc a ha =>
    have hm : a ∈ (Condition.group ⟨op, cs⟩).aliases := Condition.mem_aliases_group.2 ⟨c, hc, ha⟩
    h a hm) hg

theorem Condition.scopedAll_congr : ∀ {cs : List Condition},
    (∀ c ∈ cs, ∀ a ∈ c.aliases, a ∈ own → a ∈ own') →
    Condition.ScopedAll own outer cs → Condition.ScopedAll own' outer cs
  | [], _, _ => trivial
  | _ :: _, h, hcs =>
    ⟨Condition.scoped_congr (h _ List.mem_cons_self) hcs.1,
      Condition.scopedAll_congr (fun c hc => h c (List.mem_cons_of_mem _ hc)) hcs.2⟩

/-- Only the tables that a condition reads matter; those that its subqueries read are their own, or
the one that it reads itself. -/
theorem Condition.scoped_congr : ∀ {c : Condition}, (∀ a ∈ c.aliases, a ∈ own → a ∈ own') →
    c.Scoped own outer → c.Scoped own' outer
  | .group _, h, hc => Group.scoped_congr h hc
  | .column _, h, hc => hc.imp_left fun ha => h _ (List.mem_singleton_self _) ha
  | .raw _, h, hc => fun a ha => (hc a ha).imp_left fun hown => h a ha hown
  | .existence _ _ _, h, ⟨⟨a, ha, hout⟩, hq⟩ =>
    have hm : a ∈ _ := by rw [hout]; exact List.mem_singleton_self a
    ⟨⟨a, h a hm ha, hout⟩, hq⟩

end

theorem Select.scoped_congr {s : Select} (h : ∀ a ∈ s.aliases, a ∈ own → a ∈ own')
    (hs : s.Scoped own outer) : s.Scoped own' outer := by
  cases s
  case boolOr g name => exact Group.scoped_congr h hs
  all_goals exact fun a ha => (hs a ha).imp_left fun hown => h a ha hown

mutual

theorem Group.scoped_of_flat : ∀ {g : Group}, g.plans = [] →
    (∀ a ∈ g.aliases, a ∈ own ∨ a ∈ outer) → g.Scoped own outer
  | ⟨op, cs⟩, hflat, h => Condition.scopedAll_of_flat hflat fun c hc a ha =>
    have hg : a ∈ (Condition.group ⟨op, cs⟩).aliases := Condition.mem_aliases_group.2 ⟨c, hc, ha⟩
    h a hg

theorem Condition.scopedAll_of_flat : ∀ {cs : List Condition}, Condition.plansOf cs = [] →
    (∀ c ∈ cs, ∀ a ∈ c.aliases, a ∈ own ∨ a ∈ outer) → Condition.ScopedAll own outer cs
  | [], _, _ => trivial
  | _ :: _, hflat, h =>
    have hflat := List.append_eq_nil_iff.1 hflat
    ⟨Condition.scoped_of_flat hflat.1 (h _ List.mem_cons_self),
      Condition.scopedAll_of_flat hflat.2 fun c hc => h c (List.mem_cons_of_mem _ hc)⟩

/-- A condition without subqueries is well scoped when all tables that it reads are bound. -/
theorem Condition.scoped_of_flat : ∀ {c : Condition}, c.plans = [] →
    (∀ a ∈ c.aliases, a ∈ own ∨ a ∈ outer) → c.Scoped own outer
  | .group _, hflat, h => Group.scoped_of_flat hflat h
  | .column _, _, h => h _ (List.mem_singleton_self _)
  | .raw _, _, h => h

end

end

end EntityQuery
