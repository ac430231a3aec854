import EntityQuery.Plan.Visit
import EntityQuery.Proofs.Evaluation.Fit
import EntityQuery.Proofs.Scoping.Basic
import Mathlib.Data.List.Forall2

/-!
# Plans with other leaves

A plan depends on what is around it only through the tables that it reads, and on its leaves only
through their truth values.  So two plans of one shape select the same, row by row, when their leaves
have the same truth values wherever they are evaluated.

* `Plan.Everywhere`: a property of a plan and all plans inside it;
* `Table.Vouches`: a table that is always bound to a row;
* `Assignment.Matches`: assignments with the same rows, which are there for certain tables;
* `Plan.rows_mapLeaves`: the rows of two plans of one shape.
-/

namespace EntityQuery

/-- The property holds of the plan and of all plans inside it. -/
inductive Plan.Everywhere (P : Plan → Prop) : Plan → Prop
  | intro {p : Plan} (here : P p) (nested : ∀ q ∈ p.nestedPlans, q.Everywhere P) : p.Everywhere P

/-- The table is bound to a row of the database wherever it is bound. -/
def Table.Vouches : Table → Prop
  | .join j => j.kind = .inner
  | .lateral _ _ _ => False
  | _ => True

/-- Tables of these names are bound to rows of the database. -/
def Plan.Vouches (names : List String) (p : Plan) : Prop :=
  ∀ t ∈ p.tables, t.aliasName ∈ names → t.Vouches

/-- The table is bound to a row with an id. -/
def Assignment.Present (e : Assignment) (a : String) : Prop := ∃ row, e a = some row ∧ row "id" ≠ .null

/-- The two assignments bind the tables `names` to the same rows, those of them that are among
`present` to rows with ids. -/
structure Assignment.Matches (present names : List String) (e e' : Assignment) : Prop where
  agree : e.Agree names e'
  present : ∀ a ∈ names, a ∈ present → e.Present a

/-- The leaves have the same truth values for assignments that bind their tables to the same rows. -/
def Condition.Matches (db : Database) (present : List String) (f f' : Condition → List Condition) :
    Prop :=
  ∀ c e e', (∀ g, c ≠ .group g) → c.plans = [] → e.Matches present c.aliases e' →
    Condition.evalAll db (f c) e = Condition.evalAll db (f' c) e'

theorem Condition.evalAll_append {db : Database} {cs cs' : List Condition} {e : Assignment} :
    Condition.evalAll db (cs ++ cs') e = Condition.evalAll db cs e ++ Condition.evalAll db cs' e := by
  simp only [Condition.evalAll_eq_map, List.map_append]

section

variable {db : Database} {present names names' : List String} {e e' : Assignment}

theorem Assignment.Matches.mono (h : e.Matches present names e') (hsub : names' ⊆ names) :
    e.Matches present names' e' :=
  ⟨fun a ha => h.agree a (hsub ha), fun a ha => h.present a (hsub ha)⟩

/-- One more table is bound to the same row. -/
theorem Assignment.Matches.bind (h : e.Matches present names e') {a : String} {row : Option Row}
    (hrow : a ∈ present → ∃ r, row = some r ∧ r "id" ≠ .null) :
    (e.bind a row).Matches present (a :: names) (e'.bind a row) := by
  have heq : ∀ b ∈ a :: names, b = a ∨ (b ≠ a ∧ b ∈ names) := fun b hb => by
    by_cases hba : b = a
    · exact .inl hba
    · exact .inr ⟨hba, (List.mem_cons.1 hb).resolve_left hba⟩
  refine ⟨fun b hb => ?_, fun b hb hp => ?_⟩
  · rcases heq b hb with rfl | ⟨hne, hm⟩
    · rw [Assignment.bind_self, Assignment.bind_self]
    · rw [Assignment.bind_of_ne hne, Assignment.bind_of_ne hne]
      exact h.agree b hm
  · rcases heq b hb with rfl | ⟨hne, hm⟩
    · obtain ⟨r, rfl, hid⟩ := hrow hp
      exact ⟨r, Assignment.bind_self, hid⟩
    · obtain ⟨r, hr, hid⟩ := h.present b hm hp
      exact ⟨r, by rwa [Assignment.bind_of_ne hne], hid⟩

theorem Assignment.Matches.value (h : e.Matches present names e') {c : ColumnRef}
    (hc : c.aliasName ∈ names) : e.value c = e'.value c :=
  Assignment.value_congr (h.agree _ hc)

end

/-! ### Parts of a plan -/

theorem Plan.mem_nestedPlans_of_table {p q : Plan} {t : Table} (ht : t ∈ p.tables)
    (hq : q ∈ t.plans) : q ∈ p.nestedPlans :=
  List.mem_append_left _ (List.mem_append_left _ (List.mem_flatMap.2 ⟨t, ht, hq⟩))

theorem Plan.mem_nestedPlans_of_condition {p q : Plan}
    (hq : q ∈ (p.condition.map Group.plans).getD []) : q ∈ p.nestedPlans :=
  List.mem_append_left _ (List.mem_append_right _ hq)

theorem Plan.mem_nestedPlans_of_select {p q : Plan} {s : Select} (hs : s ∈ p.selects)
    (hq : q ∈ s.plans) : q ∈ p.nestedPlans :=
  List.mem_append_right _ (List.mem_flatMap.2 ⟨s, hs, hq⟩)

section

variable {P : Plan → Prop} {p : Plan}

theorem Plan.Everywhere.here (h : p.Everywhere P) : P p := by
  cases h with
  | intro here _ => exact here

theorem Plan.Everywhere.nested (h : p.Everywhere P) : ∀ q ∈ p.nestedPlans, q.Everywhere P := by
  cases h with
  | intro _ nested => exact nested

theorem Plan.Everywhere.imp {Q : Plan → Prop} (h : p.Everywhere P) (hPQ : ∀ q, P q → Q q) :
    p.Everywhere Q := by
  induction h with
  | intro here _ ih => exact .intro (hPQ _ here) ih

end

/-- The table with the leaves of its subquery replaced. -/
def Table.withLeaves (f : Condition → List Condition) : Table → Table
  | .lateral aliasName fromAlias query => .lateral aliasName fromAlias (query.mapLeaves f)
  | t => t

theorem Table.mapLeavesAll_cons {f : Condition → List Condition} {t : Table} {ts : List Table} :
    Table.mapLeavesAll f (t :: ts) = t.withLeaves f :: Table.mapLeavesAll f ts := by
  cases t <;> rfl

/-! ### Tables -/

section

variable {db : Database} {present names : List String} {e e' : Assignment}

/-- The same rows are joined to assignments that bind the parent to the same row. -/
theorem Join.forall₂_bind (hids : db.HasIds) {j : Join} (hparent : j.parent.aliasName ∈ names)
    (hkind : j.aliasName ∈ present → j.kind = .inner) (h : e.Matches present names e') :
    List.Forall₂ (Assignment.Matches present (j.aliasName :: names)) (j.bind db e)
      (j.bind db e') := by
  unfold Join.bind
  simp only
  rw [h.value hparent]
  split_ifs with hmissing
  · refine .cons (h.bind fun hp => ?_) .nil
    rw [Bool.and_eq_true, decide_eq_true_iff, hkind hp] at hmissing
    cases hmissing.2
  · rw [List.forall₂_map_left_iff, List.forall₂_map_right_iff, List.forall₂_same]
    exact fun row hrow => h.bind fun _ => ⟨row, rfl, hids _ row (List.mem_filter.1 hrow).1⟩

theorem Table.forall₂_scan (hids : db.HasIds) {a table : String} (h : e.Matches present names e') :
    List.Forall₂ (Assignment.Matches present (a :: names))
      ((db.table table).map fun row => e.bind a (some row))
      ((db.table table).map fun row => e'.bind a (some row)) := by
  rw [List.forall₂_map_left_iff, List.forall₂_map_right_iff, List.forall₂_same]
  exact fun row hrow => h.bind fun _ => ⟨row, rfl, hids _ row hrow⟩

end

/-! ### Lists in step -/

section

variable {α β : Type} {R : α → α → Prop} {as bs : List α}

theorem filterMap_eq_of_forall₂ {g g' : α → Option β} (hg : ∀ a b, R a b → g a = g' b)
    (h : List.Forall₂ R as bs) : as.filterMap g = bs.filterMap g' := by
  induction h with
  | nil => rfl
  | @cons a b as bs hab _ ih => rw [List.filterMap_cons, List.filterMap_cons, hg a b hab, ih]

theorem isEmpty_eq_of_forall₂ (h : List.Forall₂ R as bs) : as.isEmpty = bs.isEmpty := by
  cases h <;> rfl

theorem forall₂_flatMap {S : β → β → Prop} {g g' : α → List β}
    (hg : ∀ a b, R a b → List.Forall₂ S (g a) (g' b)) (h : List.Forall₂ R as bs) :
    List.Forall₂ S (as.flatMap g) (bs.flatMap g') := by
  induction h with
  | nil => exact .nil
  | @cons a b as bs hab _ ih =>
    rw [List.flatMap_cons, List.flatMap_cons]
    exact List.rel_append (hg a b hab) ih

theorem forall₂_filter {P Q : α → Prop} [DecidablePred P] [DecidablePred Q]
    (hPQ : ∀ a b, R a b → (P a ↔ Q b)) (h : List.Forall₂ R as bs) :
    List.Forall₂ R (as.filter fun a => P a) (bs.filter fun b => Q b) := by
  induction h with
  | nil => exact .nil
  | @cons a b as bs hab _ ih =>
    by_cases hP : P a
    · simpa [hP, (hPQ a b hab).1 hP] using ⟨hab, ih⟩
    · have hQ : ¬ Q b := fun hb => hP ((hPQ a b hab).2 hb)
      simpa [hP, hQ] using ih

end

/-! ### Plans -/

section

variable {db : Database} {present : List String} {f f' : Condition → List Condition}

/-- The tables vouch for those among `present`, and so do all subqueries. -/
def Table.VouchAll (present : List String) (ts : List Table) : Prop :=
  ∀ t ∈ ts, (t.aliasName ∈ present → t.Vouches) ∧
    ∀ q ∈ t.plans, q.Everywhere (Plan.Vouches present)

mutual

/-- Two plans of one shape select the same, row by row, where their leaves match. -/
theorem Plan.rows_mapLeaves (hids : db.HasIds) (hf : Condition.Matches db present f f') :
    ∀ {p : Plan} {outer : List String} {e e' : Assignment}, p.Scoped outer →
      p.Everywhere (Plan.Vouches present) → e.Matches present outer e' →
      List.Forall₂ (Assignment.Matches present (p.tables.map Table.aliasName ++ outer))
        ((p.mapLeaves f).rows db e) ((p.mapLeaves f').rows db e')
  | ⟨selects, tables, condition, sortKeys, groupBys, ctes⟩, outer, e, e', h, hv, he => by
    obtain ⟨-, htables, -, htop, -, -⟩ := h
    cases hv with
    | intro here nested =>
    rw [Plan.mapLeaves, Plan.mapLeaves, Plan.rows, Plan.rows]
    have hbound := Table.bindAll_mapLeaves hids hf htables
      (fun t ht => ⟨here t ht, fun q hq => nested q (Plan.mem_nestedPlans_of_table ht hq)⟩)
      (.cons he .nil)
    refine forall₂_filter (fun e₁ e₁' h₁ => ?_) hbound
    rw [Group.evalTop_mapLeaves hids hf htop
      (fun q hq => nested q (Plan.mem_nestedPlans_of_condition hq)) h₁]

theorem Table.bindAll_mapLeaves (hids : db.HasIds) (hf : Condition.Matches db present f f') :
    ∀ {ts : List Table} {before outer : List String} {es es' : List Assignment},
      Table.ScopedAll before ts → Table.VouchAll present ts →
      List.Forall₂ (Assignment.Matches present (before ++ outer)) es es' →
      List.Forall₂ (Assignment.Matches present (before ++ ts.map Table.aliasName ++ outer))
        (Table.bindAll db (Table.mapLeavesAll f ts) es)
        (Table.bindAll db (Table.mapLeavesAll f' ts) es')
  | [], before, outer, es, es', _, _, he => by
    simpa [Table.mapLeavesAll, Table.bindAll] using he
  | t :: ts, before, outer, es, es', h, hv, he => by
    obtain ⟨ht, hts⟩ := Table.scopedAll_cons_iff.1 h
    obtain ⟨⟨hvouch, hplans⟩, hvs⟩ := List.forall_mem_cons.1 hv
    have hone : ∀ e₁ e₁', Assignment.Matches present (before ++ outer) e₁ e₁' →
        List.Forall₂ (Assignment.Matches present (before ++ [t.aliasName] ++ outer))
          ((t.withLeaves f).bind db e₁) ((t.withLeaves f').bind db e₁') := by
      intro e₁ e₁' h₁
      have hsub : before ++ [t.aliasName] ++ outer ⊆ t.aliasName :: (before ++ outer) := by
        intro a ha
        simp only [List.mem_append, List.mem_cons, List.not_mem_nil, or_false] at ha ⊢
        tauto
      refine List.Forall₂.imp (fun _ _ h => Assignment.Matches.mono h hsub) ?_
      cases t with
      | primary a table => exact Table.forall₂_scan hids h₁
      | cross a table => exact Table.forall₂_scan hids h₁
      | join j => exact Join.forall₂_bind hids (List.mem_append_left _ ht) hvouch h₁
      | lateral a fromAlias query =>
        refine .cons ?_ .nil
        have hfrom : e₁.Matches present [fromAlias] e₁' := h₁.mono fun b hb => by
          rw [List.mem_singleton.1 hb]
          exact List.mem_append_left _ ht.1
        have hrow := Plan.aggregates_mapLeaves hids hf ht.2 (hplans query (List.mem_singleton_self _))
          hfrom
        rw [hrow]
        exact h₁.bind fun ha => (hvouch ha).elim
    rw [Table.mapLeavesAll_cons, Table.mapLeavesAll_cons, Table.bindAll, Table.bindAll]
    have hrest := Table.bindAll_mapLeaves hids hf hts hvs (forall₂_flatMap hone he)
    rwa [List.map_cons, List.append_cons before]

theorem Plan.aggregates_mapLeaves (hids : db.HasIds) (hf : Condition.Matches db present f f') :
    ∀ {p : Plan} {outer : List String} {e e' : Assignment}, p.Scoped outer →
      p.Everywhere (Plan.Vouches present) → e.Matches present outer e' →
      (p.mapLeaves f).aggregates db e = (p.mapLeaves f').aggregates db e'
  | ⟨selects, tables, condition, sortKeys, groupBys, ctes⟩, outer, e, e', h, hv, he => by
    have hrows := Plan.rows_mapLeaves hids hf h hv he
    obtain ⟨-, -, hselects, -, -, -⟩ := h
    cases hv with
    | intro here nested =>
    rw [Plan.aggregates_eq, Plan.aggregates_eq]
    exact Select.aggregates_mapLeaves hids hf hselects
      (fun s hs q hq => nested q (Plan.mem_nestedPlans_of_select hs hq)) hrows

theorem Select.aggregates_mapLeaves (hids : db.HasIds) (hf : Condition.Matches db present f f') :
    ∀ {ss : List Select} {own outer : List String} {es es' : List Assignment} {row : Row},
      Select.ScopedAll own outer ss → (∀ s ∈ ss, ∀ q ∈ s.plans, q.Everywhere (Plan.Vouches present)) →
      List.Forall₂ (Assignment.Matches present (own ++ outer)) es es' →
      Select.aggregates db es (Select.mapLeavesAll f ss) row =
        Select.aggregates db es' (Select.mapLeavesAll f' ss) row
  | [], _, _, _, _, _, _, _, _ => rfl
  | .boolOr g name :: ss, own, outer, es, es', row, h, hv, he => by
    obtain ⟨hg, hss⟩ := h
    obtain ⟨hvg, hvs⟩ := List.forall_mem_cons.1 hv
    have hvalues : es.filterMap ((g.mapLeaves f).eval db) =
        es'.filterMap ((g.mapLeaves f').eval db) :=
      filterMap_eq_of_forall₂ (fun _ _ h => Group.eval_mapLeaves hids hf hg hvg h) he
    rw [Select.mapLeavesAll, Select.mapLeavesAll, Select.aggregates, Select.aggregates, hvalues]
    exact Select.aggregates_mapLeaves hids hf hss hvs he
  | .countIsZero name :: ss, own, outer, es, es', row, h, hv, he => by
    rw [Select.mapLeavesAll, Select.mapLeavesAll, Select.aggregates, Select.aggregates,
      isEmpty_eq_of_forall₂ he]
    · exact Select.aggregates_mapLeaves hids hf h.2 (List.forall_mem_cons.1 hv).2 he
    all_goals simp
  | .star _ :: _, _, _, _, _, _, h, hv, he => by
    simp only [Select.mapLeavesAll, Select.aggregates]
    exact Select.aggregates_mapLeaves hids hf h.2 (List.forall_mem_cons.1 hv).2 he
  | .column _ _ :: _, _, _, _, _, _, h, hv, he => by
    simp only [Select.mapLeavesAll, Select.aggregates]
    exact Select.aggregates_mapLeaves hids hf h.2 (List.forall_mem_cons.1 hv).2 he
  | .discriminator _ _ _ :: _, _, _, _, _, _, h, hv, he => by
    simp only [Select.mapLeavesAll, Select.aggregates]
    exact Select.aggregates_mapLeaves hids hf h.2 (List.forall_mem_cons.1 hv).2 he
  | .raw _ _ _ :: _, _, _, _, _, _, h, hv, he => by
    simp only [Select.mapLeavesAll, Select.aggregates]
    exact Select.aggregates_mapLeaves hids hf h.2 (List.forall_mem_cons.1 hv).2 he

theorem Group.evalTop_mapLeaves (hids : db.HasIds) (hf : Condition.Matches db present f f') :
    ∀ {g : Option Group} {own outer : List String} {e e' : Assignment},
      Group.ScopedTop own outer g →
      (∀ q ∈ (g.map Group.plans).getD [], q.Everywhere (Plan.Vouches present)) →
      e.Matches present (own ++ outer) e' →
      Group.evalTop db (Group.mapLeavesTop f g) e = Group.evalTop db (Group.mapLeavesTop f' g) e'
  | none, _, _, _, _, _, _, _ => rfl
  | some _, _, _, _, _, h, hv, he => Group.eval_mapLeaves hids hf h hv he

theorem Group.eval_mapLeaves (hids : db.HasIds) (hf : Condition.Matches db present f f') :
    ∀ {g : Group} {own outer : List String} {e e' : Assignment}, g.Scoped own outer →
      (∀ q ∈ g.plans, q.Everywhere (Plan.Vouches present)) → e.Matches present (own ++ outer) e' →
      (g.mapLeaves f).eval db e = (g.mapLeaves f').eval db e'
  | ⟨op, cs⟩, own, outer, e, e', h, hv, he => by
    rw [Group.mapLeaves, Group.mapLeaves, Group.eval, Group.eval,
      Condition.evalAll_mapLeavesAll hids hf h hv he]

theorem Condition.evalAll_mapLeavesAll (hids : db.HasIds)
    (hf : Condition.Matches db present f f') :
    ∀ {cs : List Condition} {own outer : List String} {e e' : Assignment},
      Condition.ScopedAll own outer cs →
      (∀ q ∈ Condition.plansOf cs, q.Everywhere (Plan.Vouches present)) →
      e.Matches present (own ++ outer) e' →
      Condition.evalAll db (Condition.mapLeavesAll f cs) e =
        Condition.evalAll db (Condition.mapLeavesAll f' cs) e'
  | [], _, _, _, _, _, _, _ => rfl
  | c :: cs, own, outer, e, e', h, hv, he => by
    rw [Condition.mapLeavesAll, Condition.mapLeavesAll, Condition.evalAll_append,
      Condition.evalAll_append, Condition.evalAll_mapLeaves hids hf h.1
        (fun q hq => hv q (List.mem_append_left _ hq)) he,
      Condition.evalAll_mapLeavesAll hids hf h.2 (fun q hq => hv q (List.mem_append_right _ hq)) he]

theorem Condition.evalAll_mapLeaves (hids : db.HasIds) (hf : Condition.Matches db present f f') :
    ∀ {c : Condition} {own outer : List String} {e e' : Assignment}, c.Scoped own outer →
      (∀ q ∈ c.plans, q.Everywhere (Plan.Vouches present)) → e.Matches present (own ++ outer) e' →
      Condition.evalAll db (c.mapLeaves f) e = Condition.evalAll db (c.mapLeaves f') e'
  | .group g, _, _, _, _, h, hv, he => by
    simp only [Condition.mapLeaves, Condition.evalAll, Condition.eval]
    rw [Group.eval_mapLeaves hids hf h hv he]
  | .column c, _, _, _, _, h, _, he => by
    rw [Condition.mapLeaves, Condition.mapLeaves]
    refine hf _ _ _ (by simp) rfl (he.mono fun a ha => ?_)
    rw [List.mem_singleton.1 ha]
    exact List.mem_append.2 h
  | .raw r, _, _, _, _, h, _, he => by
    rw [Condition.mapLeaves, Condition.mapLeaves]
    exact hf _ _ _ (by simp) rfl (he.mono fun a ha => List.mem_append.2 (h a ha))
  | .existence q n o, own, outer, e, e', h, hv, he => by
    obtain ⟨⟨a, ha, rfl⟩, hq⟩ := h
    have hrows := Plan.rows_mapLeaves hids hf hq (hv q (List.mem_singleton_self _))
      (he.mono fun b hb => by
        rw [List.mem_singleton.1 hb]
        exact List.mem_append_left _ ha)
    simp only [Condition.mapLeaves, Condition.evalAll, Condition.eval]
    rw [isEmpty_eq_of_forall₂ hrows]

end

end

/-! ### The same plan -/

section

variable {P : Plan → Prop}

mutual

/-- What is true of all plans is true everywhere. -/
theorem Plan.everywhere_of_forall (h : ∀ p, P p) : ∀ p : Plan, p.Everywhere P
  | ⟨selects, tables, condition, _, _, _⟩ => .intro (h _) fun q hq => by
    rcases List.mem_append.1 hq with hq | hq
    · rcases List.mem_append.1 hq with hq | hq
      · obtain ⟨t, ht, hq⟩ := List.mem_flatMap.1 hq
        exact Table.everywhere_of_forall h tables t ht q hq
      · exact Group.everywhere_of_forall_top h condition q hq
    · obtain ⟨s, hs, hq⟩ := List.mem_flatMap.1 hq
      exact Select.everywhere_of_forall h selects s hs q hq

theorem Table.everywhere_of_forall (h : ∀ p, P p) : ∀ ts : List Table, ∀ t ∈ ts, ∀ q ∈ t.plans,
    q.Everywhere P
  | .lateral _ _ query :: ts => List.forall_mem_cons.2
    ⟨List.forall_mem_singleton.2 (Plan.everywhere_of_forall h query),
      Table.everywhere_of_forall h ts⟩
  | .primary _ _ :: ts => List.forall_mem_cons.2 ⟨nofun, Table.everywhere_of_forall h ts⟩
  | .join _ :: ts => List.forall_mem_cons.2 ⟨nofun, Table.everywhere_of_forall h ts⟩
  | .cross _ _ :: ts => List.forall_mem_cons.2 ⟨nofun, Table.everywhere_of_forall h ts⟩
  | [] => nofun

theorem Group.everywhere_of_forall_top (h : ∀ p, P p) : ∀ g : Option Group,
    ∀ q ∈ (g.map Group.plans).getD [], q.Everywhere P
  | none => nofun
  | some g => Group.everywhere_of_forall h g

theorem Group.everywhere_of_forall (h : ∀ p, P p) : ∀ g : Group, ∀ q ∈ g.plans, q.Everywhere P
  | ⟨_, cs⟩ => Condition.everywhere_of_forall_all h cs

theorem Condition.everywhere_of_forall_all (h : ∀ p, P p) : ∀ cs : List Condition,
    ∀ q ∈ Condition.plansOf cs, q.Everywhere P
  | [] => nofun
  | c :: cs => List.forall_mem_append.2
    ⟨Condition.everywhere_of_forall h c, Condition.everywhere_of_forall_all h cs⟩

theorem Condition.everywhere_of_forall (h : ∀ p, P p) : ∀ c : Condition,
    ∀ q ∈ c.plans, q.Everywhere P
  | .group g => Group.everywhere_of_forall h g
  | .column _ => nofun
  | .raw _ => nofun
  | .existence query _ _ => List.forall_mem_singleton.2 (Plan.everywhere_of_forall h query)

theorem Select.everywhere_of_forall (h : ∀ p, P p) : ∀ ss : List Select, ∀ s ∈ ss, ∀ q ∈ s.plans,
    q.Everywhere P
  | .boolOr g _ :: ss => List.forall_mem_cons.2
    ⟨Group.everywhere_of_forall h g, Select.everywhere_of_forall h ss⟩
  | .star _ :: ss => List.forall_mem_cons.2 ⟨nofun, Select.everywhere_of_forall h ss⟩
  | .column _ _ :: ss => List.forall_mem_cons.2 ⟨nofun, Select.everywhere_of_forall h ss⟩
  | .discriminator _ _ _ :: ss => List.forall_mem_cons.2 ⟨nofun, Select.everywhere_of_forall h ss⟩
  | .countIsZero _ :: ss => List.forall_mem_cons.2 ⟨nofun, Select.everywhere_of_forall h ss⟩
  | .raw _ _ _ :: ss => List.forall_mem_cons.2 ⟨nofun, Select.everywhere_of_forall h ss⟩
  | [] => nofun

end

/-- What is true everywhere of each member of a list is true everywhere of all of them. -/
theorem Plan.everywhere_forall {α : Type} {R : α → Plan → Prop} {xs : List α} {p : Plan}
    (h : ∀ x ∈ xs, p.Everywhere (R x)) : p.Everywhere fun q => ∀ x ∈ xs, R x q := by
  have hall : p.Everywhere fun _ => True := everywhere_of_forall (fun _ => trivial) p
  induction hall with
  | intro _ _ ih =>
    exact .intro (fun x hx => (h x hx).here) fun q hq => ih q hq fun x hx => (h x hx).nested q hq

mutual

/-- A plan whose leaves are replaced by themselves is the same plan. -/
theorem Plan.mapLeaves_id : ∀ p : Plan, p.mapLeaves (fun c => [c]) = p
  | ⟨selects, tables, condition, _, _, _⟩ => by
    rw [Plan.mapLeaves, Select.mapLeavesAll_id selects, Table.mapLeavesAll_id tables,
      Group.mapLeavesTop_id condition]

theorem Table.mapLeavesAll_id : ∀ ts : List Table, Table.mapLeavesAll (fun c => [c]) ts = ts
  | [] => rfl
  | .lateral _ _ query :: ts => by
    rw [Table.mapLeavesAll, Plan.mapLeaves_id query, Table.mapLeavesAll_id ts]
  | .primary _ _ :: ts => congrArg (List.cons _) (Table.mapLeavesAll_id ts)
  | .join _ :: ts => congrArg (List.cons _) (Table.mapLeavesAll_id ts)
  | .cross _ _ :: ts => congrArg (List.cons _) (Table.mapLeavesAll_id ts)

theorem Group.mapLeavesTop_id : ∀ g : Option Group, Group.mapLeavesTop (fun c => [c]) g = g
  | none => rfl
  | some g => congrArg some (Group.mapLeaves_id g)

theorem Group.mapLeaves_id : ∀ g : Group, g.mapLeaves (fun c => [c]) = g
  | ⟨op, cs⟩ => congrArg (Group.mk op) (Condition.mapLeavesAll_id cs)

theorem Condition.mapLeavesAll_id : ∀ cs : List Condition,
    Condition.mapLeavesAll (fun c => [c]) cs = cs
  | [] => rfl
  | c :: cs => by
    rw [Condition.mapLeavesAll, Condition.mapLeaves_id c, Condition.mapLeavesAll_id cs]
    rfl

theorem Condition.mapLeaves_id : ∀ c : Condition, c.mapLeaves (fun c => [c]) = [c]
  | .column _ => rfl
  | .raw _ => rfl
  | .group g => by rw [Condition.mapLeaves, Group.mapLeaves_id g]
  | .existence query _ _ => by rw [Condition.mapLeaves, Plan.mapLeaves_id query]

theorem Select.mapLeavesAll_id : ∀ ss : List Select, Select.mapLeavesAll (fun c => [c]) ss = ss
  | [] => rfl
  | .boolOr g _ :: ss => by
    rw [Select.mapLeavesAll, Group.mapLeaves_id g, Select.mapLeavesAll_id ss]
  | .star _ :: ss => congrArg (List.cons _) (Select.mapLeavesAll_id ss)
  | .column _ _ :: ss => congrArg (List.cons _) (Select.mapLeavesAll_id ss)
  | .discriminator _ _ _ :: ss => congrArg (List.cons _) (Select.mapLeavesAll_id ss)
  | .countIsZero _ :: ss => congrArg (List.cons _) (Select.mapLeavesAll_id ss)
  | .raw _ _ _ :: ss => congrArg (List.cons _) (Select.mapLeavesAll_id ss)

end

end

/-! ### What a part reads -/

section

variable {own own' outer : List String}

mutual

theorem Group.scoped_reads : ∀ {g : Group}, g.Scoped own outer → (∀ a ∈ g.aliases, a ∈ own') →
    g.Scoped own' []
  | ⟨op, cs⟩, hg, h => Condition.scopedAll_reads hg fun c hc a ha =>
    have hm : a ∈ (Condition.group ⟨op, cs⟩).aliases := Condition.mem_aliases_group.2 ⟨c, hc, ha⟩
    h a hm

theorem Condition.scopedAll_reads : ∀ {cs : List Condition}, Condition.ScopedAll own outer cs →
    (∀ c ∈ cs, ∀ a ∈ c.aliases, a ∈ own') → Condition.ScopedAll own' [] cs
  | [], _, _ => trivial
  | _ :: _, hcs, h => ⟨Condition.scoped_reads hcs.1 (h _ List.mem_cons_self),
    Condition.scopedAll_reads hcs.2 fun c hc => h c (List.mem_cons_of_mem _ hc)⟩

/-- What a condition reads is enough for it. -/
theorem Condition.scoped_reads : ∀ {c : Condition}, c.Scoped own outer →
    (∀ a ∈ c.aliases, a ∈ own') → c.Scoped own' []
  | .group _, hc, h => Group.scoped_reads hc h
  | .column _, _, h => .inl (h _ (List.mem_singleton_self _))
  | .raw _, _, h => fun a ha => .inl (h a ha)
  | .existence _ _ _, ⟨⟨a, _, rfl⟩, hq⟩, h => ⟨⟨a, h a (List.mem_singleton_self a), rfl⟩, hq⟩

end

end

end EntityQuery
