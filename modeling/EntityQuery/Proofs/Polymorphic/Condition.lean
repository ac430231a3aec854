import EntityQuery.Proofs.Polymorphic.Reference
import EntityQuery.Proofs.Precedence.Draft

/-!
# Conditions on polymorphic references

A predicate on a polymorphic reference becomes predicates on the columns of its types.  They hold where
the columns refer to what the predicate is true of.

* `Target.holds_isNull_iff`, `Target.holds_isIn_iff`, …: predicates on one of the columns;
* `Condition.AskedOn`: conditions on one table that were asked for;
* `Target.Means`: conditions that hold where predicates are true of the reference;
* `Draft.exists_addPolymorphic`, `Draft.exists_addPolymorphics`: the conditions that are added are
  such.
-/

namespace EntityQuery

/-! ### One column -/

namespace Target

section

variable {targets : List Target} {a : String} {σ : Assignment} {r : Reference} {i : Nat} {t : Target}
  {id : Value} {ids : List Value} {db : Database} (h : Refers targets a σ r)
  (ht : targets[i]? = some t)

theorem holds_condition_iff {p : Predicate} : (Condition.column (t.condition a p)).Holds db σ ↔
    p.eval db (σ.value ⟨a, t.column⟩) = some true := Iff.rfl

include h ht

theorem holds_isNull_iff : (Condition.column (t.condition a .isNull)).Holds db σ ↔
    ∀ w, r ≠ some (i, w) := by
  rw [holds_condition_iff]
  rcases h.cell ht with ⟨hnull, hr⟩ | ⟨w, hw, rfl, hstored⟩
  · simp [Predicate.eval, hnull, Value.isNull, hr]
  · simp [Predicate.eval, hw, hstored.isNull_eq]

theorem holds_notNull_iff : (Condition.column (t.condition a .notNull)).Holds db σ ↔
    ∃ w, r = some (i, w) := by
  rw [holds_condition_iff]
  rcases h.cell ht with ⟨hnull, hr⟩ | ⟨w, hw, rfl, hstored⟩
  · simp [Predicate.eval, hnull, Value.isNull, hr]
  · simp [Predicate.eval, hw, hstored.isNull_eq]

/-- What a column is compared with is an id, or the comparison is unknown. -/
theorem holds_compare_iff {op : Comparison} (hid : t.entity.idType.Stored id) :
    (Condition.column (t.condition a (.compare op id))).Holds db σ ↔
      ∃ w o, r = some (i, w) ∧ (o = .eq ↔ w = id) ∧ op.accepts o = true ∧
        w.compare? id = some o := by
  rw [holds_condition_iff]
  rcases h.cell ht with ⟨hnull, hr⟩ | ⟨w, hw, rfl, hstored⟩
  · have hunknown : Value.null.compare? id = none := rfl
    simp [Predicate.eval, hnull, hunknown, hr]
  · obtain ⟨o, ho, hiff⟩ := hstored.exists_compare? hid
    simp only [Predicate.eval, hw, ho, Option.map_some, Option.some.injEq, Prod.mk.injEq, true_and]
    constructor
    · exact fun haccepts => ⟨w, o, rfl, hiff, haccepts, ho⟩
    · rintro ⟨_, o', rfl, -, haccepts, ho'⟩
      rwa [Option.some.inj (ho.symm.trans ho')]

theorem holds_eq_iff (hid : t.entity.idType.Stored id) :
    (Condition.column (t.condition a (.eq id))).Holds db σ ↔ r = some (i, id) := by
  rw [holds_compare_iff h ht hid]
  constructor
  · rintro ⟨w, o, rfl, hiff, haccepts, -⟩
    rw [hiff.1 (of_decide_eq_true haccepts)]
  · rintro rfl
    obtain ⟨o, ho, hiff⟩ := hid.exists_compare? hid
    exact ⟨id, o, rfl, hiff, decide_eq_true (hiff.2 rfl), ho⟩

theorem holds_ne_iff (hid : t.entity.idType.Stored id) :
    (Condition.column (t.condition a (.ne id))).Holds db σ ↔ ∃ w, r = some (i, w) ∧ w ≠ id := by
  rw [holds_compare_iff h ht hid]
  constructor
  · rintro ⟨w, o, hr, hiff, haccepts, -⟩
    exact ⟨w, hr, fun hw => of_decide_eq_true haccepts (hiff.2 hw)⟩
  · rintro ⟨w, rfl, hne⟩
    obtain ⟨t', ht', hstored⟩ := h.1
    obtain rfl := Option.some.inj (ht.symm.trans ht')
    obtain ⟨o, ho, hiff⟩ := hstored.1.exists_compare? hid
    exact ⟨w, o, rfl, hiff, decide_eq_true fun heq => hne (hiff.1 heq), ho⟩

/-- Membership of the id in a list of stored ids is decided. -/
theorem among?_eq (hids : ∀ w ∈ ids, t.entity.idType.Stored w) :
    (σ.value ⟨a, t.column⟩).among? ids = none ∧ (∀ w, r ≠ some (i, w)) ∨
      ∃ w, r = some (i, w) ∧ ∃ b, (σ.value ⟨a, t.column⟩).among? ids = some b ∧
        (b = true ↔ w ∈ ids) := by
  rcases h.cell ht with ⟨hnull, hr⟩ | ⟨w, hw, rfl, hstored⟩
  · exact .inl ⟨by rw [hnull]; rfl, hr⟩
  · have hnulls : ids.any Value.isNull = false := by
      rw [List.any_eq_false]
      exact fun v hv hnull => (hids v hv).ne_null (Value.isNull_iff.1 hnull)
    have hany : ids.any (fun v => decide (w.Equals v)) = true ↔ w ∈ ids := by
      rw [List.any_eq_true]
      constructor
      · rintro ⟨v, hv, hequals⟩
        rwa [(hstored.equals_iff (hids v hv)).1 (of_decide_eq_true hequals)]
      · exact fun hm => ⟨w, hm, decide_eq_true ((hstored.equals_iff hstored).2 rfl)⟩
    refine .inr ⟨w, rfl, ids.any fun v => decide (w.Equals v), ?_, hany⟩
    rw [hw, Value.among?, hstored.isNull_eq, hnulls]
    cases ids.any fun v => decide (w.Equals v) <;> rfl

theorem holds_isIn_iff (hids : ∀ w ∈ ids, t.entity.idType.Stored w) :
    (Condition.column (t.condition a (.isIn ids))).Holds db σ ↔
      ∃ w ∈ ids, r = some (i, w) := by
  rw [holds_condition_iff, Predicate.eval]
  rcases among?_eq h ht hids with ⟨hnone, hr⟩ | ⟨w, rfl, b, hb, hiff⟩
  · simp [hnone, hr]
  · simp [hb, hiff]

theorem holds_notIn_iff (hids : ∀ w ∈ ids, t.entity.idType.Stored w) :
    (Condition.column (t.condition a (.notIn ids))).Holds db σ ↔
      ∃ w, r = some (i, w) ∧ w ∉ ids := by
  rw [holds_condition_iff, Predicate.eval]
  rcases among?_eq h ht hids with ⟨hnone, hr⟩ | ⟨w, rfl, b, hb, hiff⟩
  · simp [hnone, hr]
  · simp [hb, ← hiff]

end

section

variable {targets : List Target} {a : String} {σ : Assignment} {r : Reference} {db : Database}
  (h : Refers targets a σ r)

include h

theorem Refers.exists_target {i : Nat} {w : Value} (hr : r = some (i, w)) :
    ∃ t, targets[i]? = some t := by
  subst hr
  obtain ⟨⟨t, ht, -⟩, -⟩ := h
  exact ⟨t, ht⟩

/-- All columns are null where the reference is. -/
theorem holds_nulls_iff : (∀ c ∈ conditions targets a .isNull, c.Holds db σ) ↔ r = none := by
  constructor
  · intro hall
    cases hr : r with
    | none => rfl
    | some x =>
      obtain ⟨t, ht⟩ := h.exists_target hr
      have hnull := hall _ (List.mem_map_of_mem (List.mem_of_getElem? ht))
      exact absurd hr ((holds_isNull_iff h ht).1 hnull x.2)
  · rintro rfl c hc
    obtain ⟨t, ht, rfl⟩ := List.mem_map.1 hc
    obtain ⟨i, ht⟩ := List.mem_iff_getElem?.1 ht
    exact (holds_isNull_iff h ht).2 nofun

/-- Some column is not null where the reference is not. -/
theorem holds_notNulls_iff : (∃ c ∈ conditions targets a .notNull, c.Holds db σ) ↔ r ≠ none := by
  constructor
  · rintro ⟨c, hc, hholds⟩
    obtain ⟨t, ht, rfl⟩ := List.mem_map.1 hc
    obtain ⟨i, ht⟩ := List.mem_iff_getElem?.1 ht
    obtain ⟨w, rfl⟩ := (holds_notNull_iff h ht).1 hholds
    nofun
  · intro hr
    obtain ⟨x, hx⟩ := Option.ne_none_iff_exists'.1 hr
    obtain ⟨t, ht⟩ := h.exists_target hx
    exact ⟨_, List.mem_map_of_mem (List.mem_of_getElem? ht), (holds_notNull_iff h ht).2 ⟨x.2, hx⟩⟩

end

end Target

/-! ### Conditions that are gathered -/

/-- The draft with more predicates and groups. -/
def Draft.withMore (d : Draft) (ks : List Condition) (gs : List Group) : Draft :=
  { d with conjuncts :=
      ⟨d.conjuncts.inlined ++ ks, d.conjuncts.existences, d.conjuncts.groups ++ gs⟩ }

namespace Draft

variable {d : Draft} {ks ks' : List Condition} {gs gs' : List Group}

theorem withMore_nil : d.withMore [] [] = d := by simp [withMore]

theorem withMore_withMore :
    (d.withMore ks gs).withMore ks' gs' = d.withMore (ks ++ ks') (gs ++ gs') := by
  simp [withMore]

theorem addColumn_eq (d : Draft) (c : ColumnCondition) : d.addColumn c = d.withMore [c.split] [] := by
  simp [withMore, addColumn, Conjuncts.addColumn]

theorem addGroup_eq (d : Draft) (g : Group) : d.addGroup g = d.withMore [] [g] := by
  simp [withMore, addGroup, Conjuncts.addGroup]

theorem foldl_addColumn {α : Type} (f : α → ColumnCondition) (d : Draft) (xs : List α) :
    xs.foldl (fun d x => d.addColumn (f x)) d = d.withMore (xs.map fun x => (f x).split) [] := by
  induction xs generalizing d with
  | nil => exact withMore_nil.symm
  | cons x xs ih =>
    rw [List.foldl_cons, ih, addColumn_eq, withMore_withMore]
    rfl

theorem foldl_addGroup {α : Type} (f : α → Group) (d : Draft) (xs : List α) :
    xs.foldl (fun d x => d.addGroup (f x)) d = d.withMore [] (xs.map f) := by
  induction xs generalizing d with
  | nil => exact withMore_nil.symm
  | cons x xs ih =>
    rw [List.foldl_cons, ih, addGroup_eq, withMore_withMore]
    rfl

end Draft

/-- The condition was asked for, and reads one table. -/
def Condition.AskedOn (a : String) (c : Condition) : Prop := c.Firm ∧ ∀ b ∈ c.aliases, b = a

namespace Condition.AskedOn

variable {a : String} {op : Connective} {cs : List Condition}

theorem column {c : ColumnCondition} (h : c.pruneable = false) (ha : c.aliasName = a) :
    (column c).AskedOn a :=
  ⟨firm_column h, fun _ hb => (List.mem_singleton.1 hb).trans ha⟩

theorem group_iff : (group ⟨op, cs⟩).AskedOn a ↔ ∀ c ∈ cs, c.AskedOn a := by
  simp only [AskedOn, Firm.group_iff, mem_aliases_group]
  exact ⟨fun h c hc => ⟨h.1 c hc, fun b hb => h.2 b ⟨c, hc, hb⟩⟩,
    fun h => ⟨fun c hc => (h c hc).1, fun b ⟨c, hc, hb⟩ => (h c hc).2 b hb⟩⟩

end Condition.AskedOn

/-- The predicates and groups hold where the predicates on the reference are true of it. -/
structure Target.Means (targets : List Target) (a : String) (ps : List Predicate)
    (ks : List Condition) (gs : List Group) : Prop where
  asked : ∀ c ∈ ks ++ gs.map .group, c.AskedOn a
  holds {db : Database} {σ : Assignment} {r : Reference} : Refers targets a σ r →
    ((∀ c ∈ ks ++ gs.map .group, c.Holds db σ) ↔ ∀ p ∈ ps, p.Accepts targets r)
  nonempty : (∀ p ∈ ps, p.Possible targets) → ∀ g ∈ gs, g.conditions ≠ []

namespace Target

variable {targets : List Target} {a : String} {p : Predicate} {ps ps' : List Predicate}
  {ks ks' : List Condition} {gs gs' : List Group}

theorem askedOn_condition (t : Target) (q : Predicate) :
    (Condition.column (t.condition a q)).AskedOn a := .column rfl rfl

theorem askedOn_conditions (targets : List Target) (q : Predicate) :
    ∀ c ∈ conditions targets a q, c.AskedOn a :=
  List.forall_mem_map.2 fun t _ => askedOn_condition t q

namespace Means

theorem nil : Means targets a [] [] [] := ⟨nofun, fun _ => by simp, fun _ => nofun⟩

theorem append (h : Means targets a ps ks gs) (h' : Means targets a ps' ks' gs') :
    Means targets a (ps ++ ps') (ks ++ ks') (gs ++ gs') := by
  have hmem : ∀ {P : Condition → Prop}, (∀ c ∈ ks ++ ks' ++ (gs ++ gs').map .group, P c) ↔
      (∀ c ∈ ks ++ gs.map .group, P c) ∧ ∀ c ∈ ks' ++ gs'.map .group, P c := by
    intro P
    simp only [List.map_append, List.forall_mem_append]
    exact and_and_and_comm
  refine ⟨hmem.2 ⟨h.asked, h'.asked⟩, fun hr => ?_, fun hall => ?_⟩
  · exact hmem.trans ((and_congr (h.holds hr) (h'.holds hr)).trans List.forall_mem_append.symm)
  · rw [List.forall_mem_append] at hall ⊢
    exact ⟨h.nonempty hall.1, h'.nonempty hall.2⟩

/-- One group of alternatives. -/
theorem any {cs : List Condition} (hasked : ∀ c ∈ cs, c.AskedOn a)
    (h : ∀ {db : Database} {σ : Assignment} {r : Reference}, Refers targets a σ r →
      ((∃ c ∈ cs, c.Holds db σ) ↔ p.Accepts targets r)) (hne : p.Possible targets → cs ≠ []) :
    Means targets a [p] [] [.any cs] := by
  refine ⟨?_, fun hr => ?_, fun hall => ?_⟩
  · exact List.forall_mem_singleton.2 (Condition.AskedOn.group_iff.2 hasked)
  · exact List.forall_mem_singleton.trans
      (Condition.holds_any_iff.trans ((h hr).trans List.forall_mem_singleton.symm))
  · exact List.forall_mem_singleton.2 (hne (List.forall_mem_singleton.1 hall))

end Means

/-! ### Tests for null, and single ids -/

/-- A list of columns is null where all of them are. -/
theorem means_isNull : Means targets a [.isNull] (conditions targets a .isNull) [] where
  asked := by
    rw [List.map_nil, List.append_nil]
    exact askedOn_conditions targets .isNull
  holds h := by
    rw [List.map_nil, List.append_nil, holds_nulls_iff h, List.forall_mem_singleton]
    rfl
  nonempty _ := nofun

theorem means_notNull : Means targets a [.notNull] [] [.any (conditions targets a .notNull)] := by
  refine .any (askedOn_conditions targets .notNull) (fun h => holds_notNulls_iff h) ?_
  rintro (hnone | ⟨i, hi, -⟩)
  · exact absurd rfl hnone
  · exact List.ne_nil_of_length_pos ((List.length_map _).symm ▸ Nat.zero_lt_of_lt hi)

section

variable {i : Nat} {t : Target} {v w : Value} (htags : Tagged targets) (ht : targets[i]? = some t)
  (hnames : Names targets v (some (i, w)))

include htags ht hnames

omit ht in
theorem names_iff {r : Reference} : Names targets v r ↔ r = some (i, w) :=
  ⟨fun h => h.unique htags hnames, fun h => h ▸ hnames⟩

omit htags in
theorem Names.stored_of_target : t.entity.idType.Stored w := by
  obtain ⟨t', ht', hstored⟩ := hnames.stored
  exact Option.some.inj (ht'.symm.trans ht) ▸ hstored

theorem means_eq : Means targets a [.eq v] [.column (t.condition a (.eq w))] [] := by
  refine ⟨List.forall_mem_singleton.2 (askedOn_condition _ _), fun h => ?_, fun _ => nofun⟩
  rw [List.map_nil, List.append_nil, List.forall_mem_singleton, List.forall_mem_singleton,
    holds_eq_iff h ht (hnames.stored_of_target ht)]
  exact (names_iff htags hnames).symm

/-- A reference differs from an id also where the column of the id is null. -/
theorem means_ne : Means targets a [.ne v] []
    [.any [.column (t.condition a (.ne w)), .column (t.condition a .isNull)]] := by
  refine .any (List.forall_mem_cons.2 ⟨askedOn_condition _ _,
    List.forall_mem_singleton.2 (askedOn_condition _ _)⟩) (fun {db σ r} h => ?_) fun _ => nofun
  have haccepts : (Predicate.ne v).Accepts targets r ↔ r ≠ some (i, w) :=
    not_congr (names_iff htags hnames)
  simp only [List.mem_cons, List.not_mem_nil, or_false, exists_eq_or_imp, exists_eq_left]
  rw [haccepts, holds_ne_iff h ht (hnames.stored_of_target ht), holds_isNull_iff h ht]
  constructor
  · rintro (⟨w', rfl, hne⟩ | hr)
    · exact fun heq => hne (Prod.mk.inj (Option.some.inj heq)).2
    · exact hr w
  · intro hne
    by_cases hr : ∃ w', r = some (i, w')
    · obtain ⟨w', rfl⟩ := hr
      exact .inl ⟨w', rfl, fun heq => hne (heq ▸ rfl)⟩
    · exact .inr fun w' hw' => hr ⟨w', hw'⟩

end

/-! ### Lists of ids -/

theorem any_isNull_iff {vs : List Value} :
    vs.any Value.isNull = true ↔ ∃ v ∈ vs, Names targets v none := by
  rw [List.any_eq_true]
  refine exists_congr fun v => and_congr_right fun _ => Value.isNull_iff.trans ⟨?_, Names.eq_null⟩
  rintro rfl
  exact .null

/-- The reference is not among the ids of a column. -/
theorem holds_others_iff {vs : List Value} {g : Target × List Value} {i : Nat} {db : Database}
    {σ : Assignment} {r : Reference} (h : Refers targets a σ r) (hgathers : Gathers targets vs i g) :
    (Condition.any [.column (g.1.condition a .isNull),
      .column (g.1.condition a (.notIn g.2))]).Holds db σ ↔ ∀ w, r = some (i, w) → w ∉ g.2 := by
  rw [Condition.any, Group.any, Condition.holds_any_iff]
  simp only [List.mem_cons, List.not_mem_nil, or_false, exists_eq_or_imp, exists_eq_left]
  rw [holds_isNull_iff h hgathers.target, holds_notIn_iff h hgathers.target hgathers.stored]
  constructor
  · rintro (hr | ⟨w', rfl, hw'⟩) w hw
    · exact absurd hw (hr w)
    · obtain ⟨-, rfl⟩ := Prod.mk.inj (Option.some.inj hw)
      exact hw'
  · intro hall
    by_cases hr : ∃ w, r = some (i, w)
    · obtain ⟨w, hw⟩ := hr
      exact .inr ⟨w, hw, hall w hw⟩
    · exact .inl fun w hw => hr ⟨w, hw⟩

section

variable {vs : List Value} {groups : List (Target × List Value)}
  (hgroups : ∀ g ∈ groups, ∃ i, Gathers targets vs i g)
  (hfound : ∀ v ∈ vs, ∀ i w, Names targets v (some (i, w)) → ∃ g ∈ groups, Gathers targets vs i g)

include hgroups hfound

/-- The reference is null and null is in the list, or it is among the ids of its column. -/
theorem means_isIn : Means targets a [.isIn vs] [] [.any ((if vs.any Value.isNull then
      [Condition.all (conditions targets a .isNull)] else []) ++
    groups.map fun g => .column (g.1.condition a (.isIn g.2)))] := by
  refine .any (fun c hc => ?_) (fun {db σ r} h => ?_) fun hpossible hnil => ?_
  · rcases List.mem_append.1 hc with hc | hc
    · split_ifs at hc
      · rw [List.mem_singleton.1 hc]
        exact Condition.AskedOn.group_iff.2 (askedOn_conditions targets .isNull)
      · cases hc
    · obtain ⟨g, -, rfl⟩ := List.mem_map.1 hc
      exact askedOn_condition _ _
  · constructor
    · rintro ⟨c, hc, hholds⟩
      rcases List.mem_append.1 hc with hc | hc
      · split_ifs at hc with hnull
        · rw [List.mem_singleton.1 hc] at hholds
          obtain rfl := (holds_nulls_iff h).1 (Condition.holds_all_iff.1 hholds)
          exact any_isNull_iff.1 hnull
        · cases hc
      · obtain ⟨g, hg, rfl⟩ := List.mem_map.1 hc
        obtain ⟨i, hgathers⟩ := hgroups g hg
        obtain ⟨w, hw, rfl⟩ := (holds_isIn_iff h hgathers.target hgathers.stored).1 hholds
        exact (hgathers.ids w).1 hw
    · rintro ⟨v, hv, hnames⟩
      cases r with
      | none =>
        have hnull : vs.any Value.isNull = true := any_isNull_iff.2 ⟨v, hv, hnames⟩
        rw [if_pos hnull]
        exact ⟨_, List.mem_append_left _ (List.mem_singleton_self _),
          Condition.holds_all_iff.2 ((holds_nulls_iff h).2 rfl)⟩
      | some x =>
        obtain ⟨g, hg, hgathers⟩ := hfound v hv x.1 x.2 hnames
        exact ⟨_, List.mem_append_right _ (List.mem_map_of_mem hg),
          (holds_isIn_iff h hgathers.target hgathers.stored).2
            ⟨x.2, (hgathers.ids x.2).2 ⟨v, hv, hnames⟩, rfl⟩⟩
  · obtain ⟨hnull, hempty⟩ := List.append_eq_nil_iff.1 hnil
    rw [List.map_eq_nil_iff] at hempty
    rcases hpossible with hnone | ⟨i, -, w, v, hv, hnames⟩
    · rw [if_pos (any_isNull_iff.2 hnone)] at hnull
      cases hnull
    · obtain ⟨g, hg, -⟩ := hfound v hv i w hnames
      rw [hempty] at hg
      cases hg

/-- If null is in the list the reference is not null, and it is not among the ids of its column. -/
theorem means_notIn : Means targets a [.notIn vs] [] ((if vs.any Value.isNull then
      [Group.any (conditions targets a .notNull)] else []) ++
    groups.map fun g => .any [.column (g.1.condition a .isNull),
      .column (g.1.condition a (.notIn g.2))]) := by
  refine ⟨List.forall_mem_map.2 (List.forall_mem_append.2 ⟨fun g hg => ?_, ?_⟩), fun {db σ r} h => ?_,
    fun hpossible g hg => ?_⟩
  · split_ifs at hg
    · rw [List.mem_singleton.1 hg]
      exact Condition.AskedOn.group_iff.2 (askedOn_conditions targets .notNull)
    · cases hg
  · refine List.forall_mem_map.2 fun g _ => Condition.AskedOn.group_iff.2 (List.forall_mem_cons.2
      ⟨askedOn_condition _ _, List.forall_mem_singleton.2 (askedOn_condition _ _)⟩)
  · rw [List.nil_append, List.forall_mem_map, List.forall_mem_append, List.forall_mem_map,
      List.forall_mem_singleton]
    constructor
    · rintro ⟨hnull, hall⟩ ⟨v, hv, hnames⟩
      cases r with
      | none =>
        rw [if_pos (any_isNull_iff.2 ⟨v, hv, hnames⟩)] at hnull
        have hholds := hnull _ (List.mem_singleton_self _)
        exact (holds_notNulls_iff h).1 (Condition.holds_any_iff.1 hholds) rfl
      | some x =>
        obtain ⟨g, hg, hgathers⟩ := hfound v hv x.1 x.2 hnames
        exact (holds_others_iff h hgathers).1 (hall g hg) x.2 rfl ((hgathers.ids x.2).2 ⟨v, hv, hnames⟩)
    · refine fun haccepts => ⟨fun g hg => ?_, fun g hg => ?_⟩
      · split_ifs at hg with hnull
        · rw [List.mem_singleton.1 hg]
          refine Condition.holds_any_iff.2 ((holds_notNulls_iff h).2 ?_)
          rintro rfl
          exact haccepts (any_isNull_iff.1 hnull)
        · cases hg
      · obtain ⟨i, hgathers⟩ := hgroups g hg
        refine (holds_others_iff h hgathers).2 fun w hw hids => haccepts ?_
        rw [hw]
        exact (hgathers.ids w).1 hids
  · rcases List.mem_append.1 hg with hg | hg
    · split_ifs at hg with hnull
      · rw [List.mem_singleton.1 hg]
        rcases List.forall_mem_singleton.1 hpossible with hnone | ⟨i, hi, -⟩
        · exact absurd (any_isNull_iff.1 hnull) hnone
        · exact List.ne_nil_of_length_pos ((List.length_map _).symm ▸ Nat.zero_lt_of_lt hi)
      · cases hg
    · obtain ⟨g, -, rfl⟩ := List.mem_map.1 hg
      exact List.cons_ne_nil _ _

end

end Target

/-! ### What is added to a draft -/

namespace Draft

variable {s : Setting} {a field : String} {components : List Component} {targets : List Target}

/-- A predicate on a reference adds conditions on its columns, which hold where the reference is
accepted. -/
theorem exists_addPolymorphic (htargets : Target.ofComponents s components = .ok targets)
    (htags : Target.Tagged targets) {p : Predicate} (hnormal : p.normalize = p)
    (hasks : p.AsksReference targets) : ∃ ks gs, Target.Means targets a [p] ks gs ∧
      ∀ d : Draft, d.addPolymorphic s a field components p = .ok (d.withMore ks gs) := by
  have hnamed : ∀ {v : Value}, (∃ r, Target.Names targets v r) → v ≠ .null →
      ∃ i t w, targets[i]? = some t ∧ Target.Names targets v (some (i, w)) ∧
        Target.identify targets field s.config.nilIds v = .ok (i, t, w) := by
    rintro v ⟨r, hr⟩ hv
    cases r with
    | none => exact absurd hr.eq_null hv
    | some x =>
      obtain ⟨t, ht, hid⟩ := Target.identify_of_names htags hr field s.config.nilIds
      exact ⟨x.1, t, x.2, ht, hr, hid⟩
  have hbind : ∀ {α β : Type} (x : α) (f : α → Except PlanError β), (Except.ok x >>= f) = f x :=
    fun _ _ => rfl
  unfold addPolymorphic
  simp only [htargets, hbind]
  match p with
  | .isNull =>
    refine ⟨_, _, Target.means_isNull, fun d => congrArg Except.ok ?_⟩
    exact foldl_addColumn _ d targets
  | .notNull => exact ⟨_, _, Target.means_notNull, fun d => congrArg Except.ok (addGroup_eq d _)⟩
  | .compare .eq v =>
    obtain ⟨i, t, w, ht, hnames, hid⟩ := hnamed hasks (by rintro rfl; cases hnormal)
    refine ⟨_, _, Target.means_eq htags ht hnames, fun d => ?_⟩
    simp only [hid, hbind]
    exact congrArg Except.ok (addColumn_eq d _)
  | .compare .ne v =>
    obtain ⟨i, t, w, ht, hnames, hid⟩ := hnamed hasks (by rintro rfl; cases hnormal)
    refine ⟨_, _, Target.means_ne htags ht hnames, fun d => ?_⟩
    simp only [hid, hbind]
    exact congrArg Except.ok (addGroup_eq d _)
  | .isIn vs =>
    obtain ⟨groups, hok, hgroups, hfound⟩ := Target.exists_grouped htags hasks field s.config.nilIds
    refine ⟨_, _, Target.means_isIn hgroups hfound, fun d => ?_⟩
    simp only [hok, hbind]
    exact congrArg Except.ok (addGroup_eq d _)
  | .notIn vs =>
    obtain ⟨groups, hok, hgroups, hfound⟩ := Target.exists_grouped htags hasks field s.config.nilIds
    refine ⟨_, _, Target.means_notIn hgroups hfound, fun d => ?_⟩
    simp only [hok, hbind]
    refine congrArg Except.ok ((foldl_addGroup _ _ groups).trans ?_)
    split_ifs
    · rw [addGroup_eq, withMore_withMore]
      rfl
    · rfl
  | .compare .gt _ => exact hasks.elim
  | .compare .gte _ => exact hasks.elim
  | .compare .lt _ => exact hasks.elim
  | .compare .lte _ => exact hasks.elim
  | .between _ _ => exact hasks.elim
  | .pattern _ _ => exact hasks.elim
  | .containment _ _ => exact hasks.elim

/-- Several predicates on a reference add conditions which hold where all of them accept it. -/
theorem exists_addPolymorphics (htargets : Target.ofComponents s components = .ok targets)
    (htags : Target.Tagged targets) {ps : List Predicate} (hnormal : ∀ p ∈ ps, p.normalize = p)
    (hasks : ∀ p ∈ ps, p.AsksReference targets) : ∃ ks gs, Target.Means targets a ps ks gs ∧
      ∀ d : Draft, ps.foldlM (fun d p => d.addPolymorphic s a field components p) d =
        .ok (d.withMore ks gs) := by
  induction ps with
  | nil => exact ⟨[], [], .nil, fun d => congrArg Except.ok withMore_nil.symm⟩
  | cons p ps ih =>
    rw [List.forall_mem_cons] at hnormal hasks
    obtain ⟨ks, gs, hmeans, hadd⟩ : ∃ ks gs, Target.Means targets a [p] ks gs ∧
        ∀ d : Draft, d.addPolymorphic s a field components p = .ok (d.withMore ks gs) :=
      exists_addPolymorphic htargets htags hnormal.1 hasks.1
    obtain ⟨ks', gs', hmeans', hadd'⟩ := ih hnormal.2 hasks.2
    refine ⟨_, _, hmeans.append hmeans', fun d => ?_⟩
    rw [List.foldlM_cons, hadd, ← withMore_withMore]
    exact hadd' _

end Draft

end EntityQuery
