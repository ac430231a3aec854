import EntityQuery.Plan.NullCheck
import EntityQuery.Plan.Prune
import EntityQuery.Proofs.Scoping.Basic

/-!
# Well-scoped plans and their leaves

Replacing leaves by conditions on the same tables leaves a plan well scoped.  So does pruning: a
table goes only when nothing but conditions that go with it refer to it.

* `Plan.scoped_mapLeaves`: other leaves on the same tables;
* `Plan.scoped_addNullChecks`, `Plan.scoped_prune`: the two passes.
-/

namespace EntityQuery

/-! ### Other leaves -/

/-- What stands in the place of a condition reads no table that the condition does not read. -/
def Condition.KeepsScope (f : Condition → List Condition) : Prop :=
  ∀ own outer c, c.Scoped own outer → ∀ c' ∈ f c, c'.Scoped own outer

section

variable {f : Condition → List Condition}

theorem Table.map_aliasName_mapLeavesAll {ts : List Table} :
    (Table.mapLeavesAll f ts).map Table.aliasName = ts.map Table.aliasName := by
  induction ts with
  | nil => rfl
  | cons t ts ih => cases t <;> simp [Table.mapLeavesAll, Table.aliasName, ih]

theorem Table.exists_of_mem_mapLeavesAll {ts : List Table} {t : Table}
    (h : t ∈ Table.mapLeavesAll f ts) :
    ∃ t' ∈ ts, t.aliasName = t'.aliasName ∧ t.isPrimary = t'.isPrimary := by
  induction ts with
  | nil => cases h
  | cons x ts ih =>
    cases x <;>
    · rcases List.mem_cons.1 h with rfl | h
      · exact ⟨_, List.mem_cons_self, rfl, rfl⟩
      · obtain ⟨t', ht', he⟩ := ih h
        exact ⟨t', List.mem_cons_of_mem _ ht', he⟩

theorem Table.led_mapLeavesAll {ts : List Table} (h : Table.Led ts) :
    Table.Led (Table.mapLeavesAll f ts) := by
  cases ts with
  | nil => exact h
  | cons t rest =>
    cases t with
    | primary aliasName table =>
      intro x hx
      obtain ⟨t', ht', hname, hprimary⟩ := Table.exists_of_mem_mapLeavesAll hx
      rw [hname, hprimary]
      exact h t' ht'
    | _ => exact h.elim

mutual

/-- Other leaves on the same tables leave a plan well scoped. -/
theorem Plan.scoped_mapLeaves (hf : Condition.KeepsScope f) :
    ∀ {p : Plan} {outer : List String}, p.Scoped outer → (p.mapLeaves f).Scoped outer
  | ⟨_, tables, _, _, _, _⟩, outer, ⟨hled, htables, hselects, htop, hsort, hgroup⟩ => by
    rw [Plan.mapLeaves, Plan.Scoped, Table.map_aliasName_mapLeavesAll]
    exact ⟨Table.led_mapLeavesAll hled, Table.scopedAll_mapLeavesAll hf htables,
      Select.scopedAll_mapLeavesAll hf hselects, Group.scopedTop_mapLeavesTop hf htop, hsort,
      hgroup⟩

theorem Table.scopedAll_mapLeavesAll (hf : Condition.KeepsScope f) :
    ∀ {ts : List Table} {before : List String},
      Table.ScopedAll before ts → Table.ScopedAll before (Table.mapLeavesAll f ts)
  | [], _, _ => trivial
  | .primary _ _ :: rest, _, h =>
    have hrest : Table.ScopedAll _ (Table.mapLeavesAll f rest) := Table.scopedAll_mapLeavesAll hf h
    hrest
  | .join _ :: _, _, h => ⟨h.1, Table.scopedAll_mapLeavesAll hf h.2⟩
  | .cross _ _ :: rest, _, h =>
    have hrest : Table.ScopedAll _ (Table.mapLeavesAll f rest) := Table.scopedAll_mapLeavesAll hf h
    hrest
  | .lateral _ _ _ :: _, _, h =>
    ⟨h.1, Plan.scoped_mapLeaves hf h.2.1, Table.scopedAll_mapLeavesAll hf h.2.2⟩

theorem Group.scopedTop_mapLeavesTop (hf : Condition.KeepsScope f) :
    ∀ {g : Option Group} {own outer : List String},
      Group.ScopedTop own outer g → Group.ScopedTop own outer (Group.mapLeavesTop f g)
  | none, _, _, _ => trivial
  | some _, _, _, h => Group.scoped_mapLeaves hf h

theorem Group.scoped_mapLeaves (hf : Condition.KeepsScope f) :
    ∀ {g : Group} {own outer : List String}, g.Scoped own outer → (g.mapLeaves f).Scoped own outer
  | ⟨_, _⟩, _, _, h => Condition.scopedAll_mapLeavesAll hf h

theorem Condition.scopedAll_mapLeavesAll (hf : Condition.KeepsScope f) :
    ∀ {cs : List Condition} {own outer : List String},
      Condition.ScopedAll own outer cs →
        Condition.ScopedAll own outer (Condition.mapLeavesAll f cs)
  | [], _, _, _ => trivial
  | _ :: _, _, _, h => Condition.scopedAll_iff.2 (List.forall_mem_append.2
      ⟨Condition.scoped_mapLeaves hf h.1,
        Condition.scopedAll_iff.1 (Condition.scopedAll_mapLeavesAll hf h.2)⟩)

theorem Condition.scoped_mapLeaves (hf : Condition.KeepsScope f) :
    ∀ {c : Condition} {own outer : List String},
      c.Scoped own outer → ∀ c' ∈ c.mapLeaves f, c'.Scoped own outer
  | .column _, _, _, h => hf _ _ _ h
  | .raw _, _, _, h => hf _ _ _ h
  | .group _, _, _, h => List.forall_mem_singleton.2 (Group.scoped_mapLeaves hf h)
  | .existence _ _ _, _, _, h =>
    List.forall_mem_singleton.2 ⟨h.1, Plan.scoped_mapLeaves hf h.2⟩

theorem Select.scopedAll_mapLeavesAll (hf : Condition.KeepsScope f) :
    ∀ {ss : List Select} {own outer : List String},
      Select.ScopedAll own outer ss → Select.ScopedAll own outer (Select.mapLeavesAll f ss)
  | [], _, _, _ => trivial
  | .boolOr _ _ :: _, _, _, h =>
    ⟨Group.scoped_mapLeaves hf h.1, Select.scopedAll_mapLeavesAll hf h.2⟩
  | .star _ :: _, _, _, h => ⟨h.1, Select.scopedAll_mapLeavesAll hf h.2⟩
  | .column _ _ :: _, _, _, h => ⟨h.1, Select.scopedAll_mapLeavesAll hf h.2⟩
  | .discriminator _ _ _ :: _, _, _, h => ⟨h.1, Select.scopedAll_mapLeavesAll hf h.2⟩
  | .countIsZero _ :: _, _, _, h => ⟨h.1, Select.scopedAll_mapLeavesAll hf h.2⟩
  | .raw _ _ _ :: _, _, _, h => ⟨h.1, Select.scopedAll_mapLeavesAll hf h.2⟩

end

end

/-! ### Tests for rows -/

theorem Condition.keepsScope_withNullCheck {joined : List String} {idDbType : String → String} :
    Condition.KeepsScope (Condition.withNullCheck joined idDbType) := by
  intro own outer c hc c' hc'
  cases c with
  | column c =>
    simp only [Condition.withNullCheck] at hc'
    split_ifs at hc'
    · rw [List.mem_singleton.1 hc', Condition.all, Group.all, Condition.scoped_group_iff]
      intro x hx
      simp only [List.mem_cons, List.not_mem_nil, or_false] at hx
      rcases hx with rfl | rfl
      · exact hc
      · exact hc
    · rw [List.mem_singleton.1 hc']
      exact hc
  | _ =>
    rw [List.mem_singleton.1 hc']
    exact hc

/-- Tests for rows read tables that were read before. -/
theorem Plan.scoped_addNullChecks {p : Plan} {outer : List String} {idDbType : String → String}
    (h : p.Scoped outer) : (p.addNullChecks idDbType).Scoped outer :=
  Plan.scoped_mapLeaves Condition.keepsScope_withNullCheck h

/-! ### Tables that nothing refers to -/

section

variable {removed own outer : List String}

theorem Condition.withoutRemoved_subset {c c' : Condition}
    (h : c' ∈ c.withoutRemoved removed) : c' = c := by
  cases c <;> simp only [Condition.withoutRemoved] at h <;> try split_ifs at h
  all_goals simp_all

theorem Condition.keepsScope_withoutRemoved :
    Condition.KeepsScope (Condition.withoutRemoved removed) := by
  intro own outer c hc c' hc'
  rw [Condition.withoutRemoved_subset hc']
  exact hc

mutual

theorem Group.not_mem_removed : ∀ {g : Group}, (∀ a ∈ g.references, a ∉ removed) →
    ∀ a ∈ (g.mapLeaves (Condition.withoutRemoved removed)).aliases, a ∉ removed
  | ⟨op, cs⟩, h, a, ha => by
    change a ∈ (Condition.group ⟨op, Condition.mapLeavesAll _ cs⟩).aliases at ha
    obtain ⟨c, hc, ha⟩ := Condition.mem_aliases_group.1 ha
    exact Condition.not_mem_removedAll h c hc a ha

theorem Condition.not_mem_removedAll : ∀ {cs : List Condition},
    (∀ a ∈ Condition.referencesOf cs, a ∉ removed) →
    ∀ c ∈ Condition.mapLeavesAll (Condition.withoutRemoved removed) cs, ∀ a ∈ c.aliases, a ∉ removed
  | [], _ => by simp [Condition.mapLeavesAll]
  | _ :: _, h => List.forall_mem_append.2
    ⟨Condition.not_mem_removed fun a ha => h a (List.mem_append_left _ ha),
      Condition.not_mem_removedAll fun a ha => h a (List.mem_append_right _ ha)⟩

/-- What is left of a condition reads no removed table, if it refers to none. -/
theorem Condition.not_mem_removed : ∀ {c : Condition}, (∀ a ∈ c.references, a ∉ removed) →
    ∀ c' ∈ c.mapLeaves (Condition.withoutRemoved removed), ∀ a ∈ c'.aliases, a ∉ removed
  | .column c, h, c', hc', a, ha => by
    simp only [Condition.mapLeaves, Condition.withoutRemoved] at hc'
    split_ifs at hc' with hdrop
    · cases hc'
    · rw [List.mem_singleton.1 hc', Condition.aliases] at ha
      cases hp : c.pruneable with
      | false => exact h a (by simpa [Condition.references, hp] using ha)
      | true => simpa [List.mem_singleton.1 ha, hp] using hdrop
  | .raw r, h, c', hc', a, ha => by
    simp only [Condition.mapLeaves, Condition.withoutRemoved] at hc'
    split_ifs at hc' with hdrop
    · cases hc'
    · rw [List.mem_singleton.1 hc', Condition.aliases] at ha
      cases hp : r.pruneable with
      | false => exact h a (by simpa [Condition.references, hp] using ha)
      | true =>
        rw [hp, Bool.true_and, List.any_eq_true] at hdrop
        exact fun hm => hdrop ⟨a, ha, decide_eq_true hm⟩
  | .group _, h, c', hc', a, ha => by
    rw [List.mem_singleton.1 hc'] at ha
    exact Group.not_mem_removed h a ha
  | .existence _ _ _, h, c', hc', a, ha => by
    rw [List.mem_singleton.1 hc'] at ha
    exact h a (List.mem_append_left _ ha)

end

theorem Select.not_mem_removedAll {ss : List Select}
    (h : ∀ a ∈ Select.referencesOf ss, a ∉ removed) :
    ∀ s ∈ Select.mapLeavesAll (Condition.withoutRemoved removed) ss, ∀ a ∈ s.aliases,
      a ∉ removed := by
  induction ss with
  | nil => simp [Select.mapLeavesAll]
  | cons s ss ih =>
    have hrest := ih fun a ha => h a (by cases s <;> exact List.mem_append_right _ ha)
    cases s
    case boolOr g name =>
      exact List.forall_mem_cons.2
        ⟨Group.not_mem_removed fun a ha => h a (List.mem_append_left _ ha), hrest⟩
    all_goals exact List.forall_mem_cons.2 ⟨fun a ha => h a (List.mem_append_left _ ha), hrest⟩

/-- The tables that are left refer to tables that are left. -/
theorem Table.scopedAll_filter {ts : List Table} {before : List String}
    (h : Table.ScopedAll before ts) (hr : ∀ a ∈ Table.referencesOf ts, a ∉ removed) :
    Table.ScopedAll (before.filter (· ∉ removed)) (ts.filter (·.aliasName ∉ removed)) := by
  induction ts generalizing before with
  | nil => trivial
  | cons t ts ih =>
    obtain ⟨ht, hts⟩ := Table.scopedAll_cons_iff.1 h
    have hrest := ih hts fun a ha => hr a (by
      cases t
      case lateral => exact List.mem_append_right _ ha
      case join => exact List.mem_cons_of_mem _ ha
      all_goals exact ha)
    have hkept : ∀ a ∈ before, a ∈ Table.referencesOf (t :: ts) →
        a ∈ before.filter (· ∉ removed) := fun a ha hm =>
      List.mem_filter.2 ⟨ha, decide_eq_true (hr a hm)⟩
    by_cases hm : t.aliasName ∈ removed
    · simpa [hm] using hrest
    · have hfilter : (t :: ts).filter (·.aliasName ∉ removed) =
          t :: ts.filter (·.aliasName ∉ removed) := by simp [hm]
      rw [hfilter, Table.scopedAll_cons_iff]
      refine ⟨?_, by simpa [hm] using hrest⟩
      cases t with
      | join j => exact hkept _ ht List.mem_cons_self
      | lateral a fromAlias query => exact ⟨hkept _ ht.1 List.mem_cons_self, ht.2⟩
      | _ => trivial

theorem Table.led_filter {ts : List Table} (h : Table.Led ts)
    (hprimary : ∀ t ∈ ts, t.isPrimary = true → t.aliasName ∉ removed) :
    Table.Led (ts.filter (·.aliasName ∉ removed)) := by
  cases ts with
  | nil => exact h
  | cons t rest =>
    cases t with
    | primary a table =>
      have ha : a ∉ removed := hprimary _ List.mem_cons_self rfl
      have hfilter : (Table.primary a table :: rest).filter (·.aliasName ∉ removed) =
          .primary a table :: rest.filter (·.aliasName ∉ removed) := by simp [Table.aliasName, ha]
      rw [hfilter]
      exact fun t ht => h t (List.mem_filter.1 ht).1
    | _ => exact h.elim

theorem Group.scopedTop_nonempty? {g : Option Group} (h : Group.ScopedTop own outer g) :
    Group.ScopedTop own outer (Group.nonempty? g) := by
  unfold Group.nonempty?
  split
  · exact trivial
  · exact h

/-- The plan without tables that nothing refers to. -/
theorem Plan.scoped_remove {p : Plan} (h : p.Scoped outer)
    (hr : ∀ a ∈ p.references, a ∉ removed)
    (hprimary : ∀ t ∈ p.tables, t.isPrimary = true → t.aliasName ∉ removed) :
    (p.remove removed).Scoped outer := by
  obtain ⟨selects, tables, condition, sortKeys, groupBys, ctes⟩ := p
  obtain ⟨hled, htables, hselects, htop, hsort, hgroup⟩ := h
  simp only [Plan.references, List.mem_append, List.mem_map] at hr
  have hfilter : (tables.filter (·.aliasName ∉ removed)).map Table.aliasName =
      (tables.map Table.aliasName).filter (· ∉ removed) := by
    rw [List.filter_map]
    rfl
  have hkept : ∀ a, a ∉ removed → a ∈ tables.map Table.aliasName →
      a ∈ (tables.map Table.aliasName).filter (· ∉ removed) := fun a ha hm =>
    List.mem_filter.2 ⟨hm, decide_eq_true ha⟩
  rw [Plan.remove, Plan.mapLeaves, Plan.Scoped, Table.map_aliasName_mapLeavesAll, hfilter]
  refine ⟨Table.led_mapLeavesAll (Table.led_filter hled hprimary),
    Table.scopedAll_mapLeavesAll Condition.keepsScope_withoutRemoved
      (Table.scopedAll_filter htables fun a ha => hr a (.inr ha)),
    Select.scopedAll_iff.2 fun s hs => ?_, ?_, fun k hk => ?_, fun c hc => ?_⟩
  · refine Select.scoped_congr (fun a ha => hkept a ?_) (Select.scopedAll_iff.1
      (Select.scopedAll_mapLeavesAll Condition.keepsScope_withoutRemoved hselects) s hs)
    exact Select.not_mem_removedAll (fun b hb => hr b (.inl (.inl (.inl (.inl hb))))) s hs a ha
  · refine Group.scopedTop_nonempty? ?_
    cases condition with
    | none => trivial
    | some g =>
      exact Group.scoped_congr (fun a ha => hkept a (Group.not_mem_removed
        (fun b hb => hr b (.inl (.inl (.inl (.inr hb))))) a ha))
        (Group.scoped_mapLeaves Condition.keepsScope_withoutRemoved htop)
  · exact (hsort k hk).imp_left (hkept _ (hr _ (.inl (.inl (.inr ⟨k, hk, rfl⟩)))))
  · exact (hgroup c hc).imp_left (hkept _ (hr _ (.inl (.inr ⟨c, hc, rfl⟩))))

/-! ### Pruning -/

/-- The primary table shares its name with no other table. -/
theorem Table.Led.ne_of_isPrimary {ts : List Table} (h : Table.Led ts) {t x : Table} (ht : t ∈ ts)
    (htp : t.isPrimary = true) (hx : x ∈ ts) (hxp : x.isPrimary = false) :
    x.aliasName ≠ t.aliasName := by
  cases ts with
  | nil => cases ht
  | cons first rest =>
    cases first with
    | primary a table =>
      rcases List.mem_cons.1 ht with rfl | ht
      · rcases List.mem_cons.1 hx with rfl | hx
        · cases hxp
        · exact (h x hx).2
      · rw [(h t ht).1] at htp
        cases htp
    | _ => exact h.elim

theorem Plan.scoped_trimWithin {keep : List String} (n : Nat) {p : Plan} (h : p.Scoped outer) :
    (p.trimWithin keep n).Scoped outer := by
  induction n generalizing p with
  | zero => exact h
  | succ n ih =>
    rw [Plan.trimWithin]
    split
    · exact h
    · refine ih (Plan.scoped_remove h (fun a ha hm => ?_) fun t ht hp hm => ?_)
      · have := (List.mem_filter.1 hm).2
        simp [ha] at this
      · obtain ⟨x, hx, hname⟩ := List.mem_map.1 (List.mem_filter.1 hm).1
        rw [List.mem_filter, Bool.not_eq_true'] at hx
        exact (Plan.scoped_iff.1 h).1.ne_of_isPrimary ht hp hx.1 hx.2 hname

/-- The subqueries in the place of others are as well scoped. -/
def Plan.KeepsScope (f : Plan → Plan) : Prop := ∀ q outer, q.Scoped outer → (f q).Scoped outer

section

variable {f : Plan → Plan}

theorem Table.aliasName_mapPlan {t : Table} : (t.mapPlan f).aliasName = t.aliasName := by
  cases t <;> rfl

theorem Table.led_mapPlan {ts : List Table} (h : Table.Led ts) :
    Table.Led (ts.map (Table.mapPlan f)) := by
  cases ts with
  | nil => exact h
  | cons t rest =>
    cases t with
    | primary a table =>
      refine List.forall_mem_map.2 fun x hx => ?_
      rw [Table.aliasName_mapPlan]
      exact ⟨by cases x <;> exact (h _ hx).1, (h x hx).2⟩
    | _ => exact h.elim

theorem Table.scopedAll_mapPlan (hf : Plan.KeepsScope f) {ts : List Table} {before : List String}
    (h : Table.ScopedAll before ts) : Table.ScopedAll before (ts.map (Table.mapPlan f)) := by
  induction ts generalizing before with
  | nil => trivial
  | cons t ts ih =>
    obtain ⟨ht, hts⟩ := Table.scopedAll_cons_iff.1 h
    rw [List.map_cons, Table.scopedAll_cons_iff, Table.aliasName_mapPlan]
    refine ⟨?_, ih hts⟩
    cases t with
    | lateral a fromAlias query => exact ⟨ht.1, hf query [fromAlias] ht.2⟩
    | _ => exact ht

mutual

theorem Group.scoped_mapPlans (hf : Plan.KeepsScope f) :
    ∀ {g : Group}, g.Scoped own outer → (g.mapPlans f).Scoped own outer
  | ⟨_, _⟩, h => Condition.scopedAll_mapPlans hf h

theorem Condition.scopedAll_mapPlans (hf : Plan.KeepsScope f) :
    ∀ {cs : List Condition}, Condition.ScopedAll own outer cs →
      Condition.ScopedAll own outer (Condition.mapPlansOf f cs)
  | [], _ => trivial
  | _ :: _, h => ⟨Condition.scoped_mapPlans hf h.1, Condition.scopedAll_mapPlans hf h.2⟩

theorem Condition.scoped_mapPlans (hf : Plan.KeepsScope f) :
    ∀ {c : Condition}, c.Scoped own outer → (c.mapPlans f).Scoped own outer
  | .group _, h => Group.scoped_mapPlans hf h
  | .existence query _ outerAliases, h => ⟨h.1, hf query outerAliases h.2⟩
  | .column _, h => h
  | .raw _, h => h

end

/-- Other subqueries that are as well scoped as those before. -/
theorem Plan.scoped_mapPlans (hf : Plan.KeepsScope f) {p : Plan} (h : p.Scoped outer) :
    (p.mapPlans f).Scoped outer := by
  obtain ⟨selects, tables, condition, sortKeys, groupBys, ctes⟩ := p
  obtain ⟨hled, htables, hselects, htop, hsort, hgroup⟩ := h
  have hnames : (tables.map (Table.mapPlan f)).map Table.aliasName =
      tables.map Table.aliasName := by
    rw [List.map_map]
    exact List.map_congr_left fun t _ => Table.aliasName_mapPlan
  rw [Plan.mapPlans, Plan.Scoped, hnames]
  refine ⟨Table.led_mapPlan hled, Table.scopedAll_mapPlan hf htables, hselects, ?_, hsort, hgroup⟩
  cases condition with
  | none => trivial
  | some g => exact Group.scoped_mapPlans hf htop

end

theorem Plan.scoped_pruneWithin (n : Nat) {keep : List String} {p : Plan} (h : p.Scoped outer) :
    (Plan.pruneWithin n keep p).Scoped outer := by
  induction n generalizing keep p outer with
  | zero => exact Plan.scoped_trimWithin _ h
  | succ n ih => exact Plan.scoped_mapPlans (fun q outer hq => ih hq) (Plan.scoped_trimWithin _ h)

/-- The plan without tables that nothing refers to, and its subqueries without such tables. -/
theorem Plan.scoped_prune {keep : List String} {p : Plan} (h : p.Scoped outer) :
    (p.prune keep).Scoped outer := Plan.scoped_pruneWithin _ h

end

end EntityQuery
