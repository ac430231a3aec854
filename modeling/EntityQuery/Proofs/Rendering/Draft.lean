import EntityQuery.Find.Basic
import EntityQuery.Proofs.Draft.Step
import EntityQuery.Proofs.Rendering.Collections
import EntityQuery.Proofs.Rendering.Operands

/-!
# Operands of gathered predicates

Null comes into a query as a value, in a list, as an id or as an operand of a condition over user
aliases.  On each way it is told apart before it becomes an operand of a predicate on a column, but
for the operators that order values.

* `EntityFilter.written`, `ExpressionLiteral.written`: the predicates that are written;
* `Predicate.Ready`: a predicate that can be put on a column;
* `Draft.Answers`: the predicates gathered so far can be rendered;
* `EntityFilter.answers_match`, `Draft.answers_ofQuery`: those of a filter and of a query.
-/

namespace EntityQuery

/-! ### Written predicates -/

mutual

/-- The predicates that are written in a filter. -/
def EntityFilter.written : EntityFilter → List Predicate
  | ⟨_, fields⟩ => FieldFilter.writtenOf fields

/-- The predicates that are written in entries. -/
def FieldFilter.writtenOf : List FieldFilter → List Predicate
  | [] => []
  | ⟨_, v⟩ :: rest => v.written ++ FieldFilter.writtenOf rest

/-- The predicates that are written in one entry. -/
def FilterValue.written : FilterValue → List Predicate
  | .operators ps => ps
  | .nested f => f.written
  | _ => []

end

mutual

/-- The predicates that are written in an expression. -/
def ExpressionLiteral.written : ExpressionLiteral → List Predicate
  | ⟨_, branches, _⟩ => ConditionLiteral.writtenOf branches

/-- The predicates that are written in branches. -/
def ConditionLiteral.writtenOf : List ConditionLiteral → List Predicate
  | [] => []
  | b :: rest => b.written ++ ConditionLiteral.writtenOf rest

/-- The predicates that are written in one branch. -/
def ConditionLiteral.written : ConditionLiteral → List Predicate
  | .column _ _ p => [p]
  | .group literal => literal.written
  | _ => []

end

theorem FieldFilter.written_subset {fs : List FieldFilter} {f : FieldFilter} (hf : f ∈ fs) :
    f.value.written ⊆ FieldFilter.writtenOf fs := by
  induction fs with
  | nil => cases hf
  | cons f' fs ih =>
    obtain ⟨name, v⟩ := f'
    rw [writtenOf]
    rcases List.mem_cons.1 hf with rfl | hf
    · exact List.subset_append_left _ _
    · exact List.Subset.trans (ih hf) (List.subset_append_right _ _)

/-! ### Predicates that can be put on a column -/

/-- Null is compared by a test, and an order against null is one that was written. -/
structure Predicate.Ready (written : List Predicate) (p : Predicate) : Prop where
  normal : p.normalize = p
  stems : p.Stems written

section

variable {written written' : List Predicate} {p q : Predicate}

namespace Predicate

theorem Ready.mono (h : p.Ready written) (hsub : written ⊆ written') : p.Ready written' :=
  ⟨h.normal, h.stems.mono hsub⟩

theorem Stems.ready (h : p.Stems written) : p.normalize.Ready written :=
  ⟨p.normalize_normalize, h.normalize⟩

theorem Ready.forId {e : Entity} {nil : NilIds} {text : String} (h : p.Ready written)
    (hq : p.forId e nil text = .ok q) : q.Ready written :=
  have hq := h.stems.forId hq
  ⟨hq.2, hq.1⟩

end Predicate

/-- The predicates that a value stands for can be put on a column. -/
theorem FilterValue.ready_predicates? {v : FilterValue} :
    ∀ ps ∈ v.predicates?, ∀ p ∈ ps, p.Ready v.written := by
  intro ps hps p hp
  cases v with
  | undefined =>
    obtain rfl := Option.some.inj hps
    cases hp
  | scalar v =>
    obtain rfl := Option.some.inj hps
    rw [List.mem_singleton.1 hp]
    exact Predicate.Stems.ready False.elim
  | list vs =>
    obtain rfl := Option.some.inj hps
    rw [List.mem_singleton.1 hp]
    exact ⟨rfl, False.elim⟩
  | operators qs =>
    obtain rfl := Option.some.inj hps
    obtain ⟨q, hq, rfl⟩ := List.mem_map.1 hp
    exact (Predicate.Stems.of_mem hq).ready
  | nested f => cases hps
  | binding user => cases hps

theorem EntityFilter.ready_idPredicates {f : EntityFilter} :
    ∀ p ∈ f.idPredicates, p.Ready f.written := by
  intro p hp
  unfold idPredicates at hp
  cases hget : (f.get? "id").bind FilterValue.predicates? with
  | none =>
    rw [hget] at hp
    cases hp
  | some ps =>
    rw [hget] at hp
    obtain ⟨v, hv, hps⟩ := Option.bind_eq_some_iff.1 hget
    obtain ⟨entry, hentry, rfl⟩ := Option.map_eq_some_iff.1 hv
    obtain ⟨name, fields⟩ := f
    exact (FilterValue.ready_predicates? ps hps p hp).mono
      (FieldFilter.written_subset (List.mem_of_find?_eq_some hentry))

end

/-! ### Gathering -/

/-- All predicates that have been gathered can be rendered, but for orders against null that were
written. -/
structure Draft.Answers (written : List Predicate) (d : Draft) : Prop where
  tables : ∀ t ∈ d.tables, t.plans = []
  selects : ∀ x ∈ d.selects, ∀ g name, x ≠ .boolOr g name
  conditions : ∀ c ∈ d.conjuncts.inlined ++ d.conjuncts.existences,
    c.Predicates (ColumnCondition.Answers written)
  groups : ∀ g ∈ d.conjuncts.groups, ∀ c ∈ g.conditions,
    c.Predicates (ColumnCondition.Answers written)

/-- What is asked can be put on columns. -/
def Asked.Ready (written : List Predicate) : Asked → Prop
  | .predicates ps => ∀ p ∈ ps, p.Ready written
  | .nested f => (∀ p ∈ f.idPredicates, p.Ready written) ∧
    ∀ {d d' : Draft} {e : Entity} {a : String} {outer : Bool}, d.Answers written →
      f.matchOn e a outer d = .ok d' → d'.Answers written

namespace Draft

section

variable {s : Setting} {written written' : List Predicate} {d d' : Draft} {e target : Entity}
  {a b column field : String} {asked : Asked}

namespace Answers

theorem nextAlias (h : d.Answers written) (table : String) : (d.nextAlias table).2.Answers written :=
  { h with }

theorem bind (h : d.Answers written) (user : String) : (d.bind user a e).Answers written :=
  { h with }

theorem addCollection (h : d.Answers written) (j : Join) : (d.addCollection j).Answers written :=
  { h with }

theorem addTable (h : d.Answers written) (j : Join) (ty : String) :
    (d.addTable (.join j) ty).Answers written :=
  { h with
    tables := List.forall_mem_append.2 ⟨h.tables, List.forall_mem_singleton.2 rfl⟩ }

theorem addInlined (h : d.Answers written) {c : Condition}
    (hc : c.Predicates (ColumnCondition.Answers written)) :
    Answers written { d with conjuncts := d.withInlined [c] } := by
  refine { h with conditions := ?_ }
  have hconditions := List.forall_mem_append.1 h.conditions
  exact List.forall_mem_append.2 ⟨List.forall_mem_append.2
    ⟨hconditions.1, List.forall_mem_singleton.2 hc⟩, hconditions.2⟩

theorem addColumn (h : d.Answers written) {c : ColumnCondition} (hc : c.predicate.Ready written) :
    (d.addColumn c).Answers written :=
  h.addInlined (ColumnCondition.throughout_split hc.normal hc.stems)

theorem addGroup (h : d.Answers written) {g : Group}
    (hg : ∀ c ∈ g.conditions, c.Predicates (ColumnCondition.Answers written)) :
    (d.addGroup g).Answers written :=
  { h with groups := List.forall_mem_append.2 ⟨h.groups, List.forall_mem_singleton.2 hg⟩ }

theorem foldl {α : Type} {f : Draft → α → Draft} {xs : List α} (h : d.Answers written)
    (hf : ∀ {d : Draft}, ∀ x ∈ xs, d.Answers written → (f d x).Answers written) :
    (xs.foldl f d).Answers written := List.foldlRecOn xs f h fun _ hd x hx => hf x hx hd

/-- What comes with the table of an entity are tests and the number of a type. -/
theorem addEntity (h : d.Answers written) {t : Table} (ht : t.plans = [])
    (hd : d.addEntity s e t = .ok d') : d'.Answers written := by
  obtain ⟨joins, deletion, -, -, rfl⟩ := addEntity_eq_ok hd
  have himplied : ∀ c ∈ e.implied t.aliasName deletion,
      c.Predicates (ColumnCondition.Answers written) := by
    intro c hc
    obtain ⟨k, hk, rfl⟩ := List.mem_map.1 hc
    rcases List.mem_append.1 hk with hk | hk
    · obtain ⟨column, -, rfl⟩ := Option.map_eq_some_iff.1 (Option.mem_toList.1 hk)
      exact ⟨trivial, False.elim⟩
    · have hk := Option.mem_toList.1 hk
      unfold Entity.typeCondition? at hk
      split at hk
      · obtain rfl := Option.some.inj hk
        exact ⟨nofun, False.elim⟩
      · cases hk
  have hconditions := List.forall_mem_append.1 h.conditions
  exact
    { tables := List.forall_mem_append.2 ⟨h.tables, List.forall_mem_cons.2
        ⟨ht, List.forall_mem_map.2 fun _ _ => rfl⟩⟩
      selects := h.selects
      conditions := List.forall_mem_append.2 ⟨List.forall_mem_append.2
        ⟨hconditions.1, himplied⟩, hconditions.2⟩
      groups := h.groups }

theorem addIds {ps : List Predicate} (h : d.Answers written) (hps : ∀ p ∈ ps, p.Ready written)
    (hd : addIds s target a column ps d = .ok d') : d'.Answers written := by
  induction ps generalizing d with
  | nil => exact Except.ok.inj hd ▸ h
  | cons p ps ih =>
    obtain ⟨hp, hps⟩ := List.forall_mem_cons.1 hps
    obtain ⟨q, hq, hd⟩ := exists_of_bind_eq_ok hd
    exact ih (h.addColumn (c := .asked a column target.idDbType q) (hp.forId hq)) hps hd

theorem addJunctionIds {ps : List Predicate} {ty : String} (h : d.Answers written)
    (hps : ∀ p ∈ ps, p.Ready written) (hd : addJunctionIds s target a ty column ps d = .ok d') :
    d'.Answers written := by
  induction ps generalizing d with
  | nil => exact Except.ok.inj hd ▸ h
  | cons p ps ih =>
    obtain ⟨hp, hrest⟩ := List.forall_mem_cons.1 hps
    unfold Draft.addJunctionIds at hd
    split at hd
    · exact absurd ‹_ :: _ = []› (List.cons_ne_nil _ _)
    · next heq =>
      obtain ⟨rfl, rfl⟩ := List.cons_eq_cons.1 heq
      exact ih (h.addColumn (c := .asked a "id" ty .isNull) hp) hrest hd
    · next heq =>
      obtain ⟨rfl, rfl⟩ := List.cons_eq_cons.1 heq
      exact ih (h.addColumn (c := .asked a "id" ty .notNull) hp) hrest hd
    · next heq =>
      obtain ⟨rfl, rfl⟩ := List.cons_eq_cons.1 heq
      obtain ⟨d₁, hd₁, hd⟩ := exists_of_bind_eq_ok hd
      exact ih (h.addIds (List.forall_mem_singleton.2 hp) hd₁) hrest hd

end Answers

/-! ### Polymorphic references -/

/-- A value that belongs to a component is not null, and its stored form is not. -/
theorem ne_null_of_identify {targets : List Target} {nil : NilIds} {v : Value}
    {r : Nat × Target × Value} (h : Target.identify targets field nil v = .ok r) :
    r.2.2 ≠ .null := by
  unfold Target.identify at h
  split at h
  · next i t hposition =>
    obtain ⟨id, hid, h⟩ := exists_of_bind_eq_ok h
    obtain rfl := Except.ok.inj h
    rintro rfl
    obtain rfl := Entity.eq_null_of_parseId hid
    cases hposition
  · cases h

theorem null_not_mem_of_grouped {targets : List Target} {nil : NilIds} {vs : List Value}
    {groups : List (Target × List Value)}
    (h : Target.grouped targets field nil vs = .ok groups) : ∀ r ∈ groups, .null ∉ r.2 := by
  obtain ⟨ids, hids, h⟩ := exists_of_bind_eq_ok h
  obtain rfl := Except.ok.inj h
  intro r hr hnull
  obtain ⟨⟨t, i⟩, -, rfl⟩ := List.mem_map.1 (List.mem_filter.1 hr).1
  obtain ⟨id, hid, hnull⟩ := List.mem_map.1 hnull
  obtain ⟨v, -, hv⟩ := exists_of_forall₂ (forall₂_of_mapM_eq_ok hids) id (List.mem_filter.1 hid).1
  exact ne_null_of_identify hv hnull

namespace Answers

theorem addPolymorphic {components : List Component} {p : Predicate} (h : d.Answers written)
    (hd : d.addPolymorphic s a field components p = .ok d') : d'.Answers written := by
  have hcolumn : ∀ {t : Target} {q : Predicate}, q.NullApart → q.Stems written →
      (Condition.column (t.condition a q)).Predicates (ColumnCondition.Answers written) :=
    fun hapart hstems => ⟨hapart, hstems⟩
  have hcolumns : ∀ {targets : List Target} {q : Predicate}, q.NullApart → q.Stems written →
      ∀ c ∈ Target.conditions targets a q, c.Predicates (ColumnCondition.Answers written) :=
    fun hapart hstems => List.forall_mem_map.2 fun _ _ => hcolumn hapart hstems
  obtain ⟨targets, -, hd⟩ := exists_of_bind_eq_ok hd
  split at hd
  · exact Except.ok.inj hd ▸ h.foldl fun t _ h => h.addColumn (c := t.condition a .isNull)
      ⟨rfl, False.elim⟩
  · exact Except.ok.inj hd ▸ h.addGroup (hcolumns trivial False.elim)
  · obtain ⟨⟨_, t, id⟩, hid, hd⟩ := exists_of_bind_eq_ok hd
    exact Except.ok.inj hd ▸ h.addInlined (hcolumn (ne_null_of_identify hid) False.elim)
  · obtain ⟨⟨_, t, id⟩, hid, hd⟩ := exists_of_bind_eq_ok hd
    exact Except.ok.inj hd ▸ h.addGroup (List.forall_mem_cons.2
      ⟨hcolumn (ne_null_of_identify hid) False.elim,
        List.forall_mem_singleton.2 (hcolumn trivial False.elim)⟩)
  · obtain ⟨groups, hgroups, hd⟩ := exists_of_bind_eq_ok hd
    refine Except.ok.inj hd ▸ h.addGroup (List.forall_mem_append.2 ⟨?_, ?_⟩)
    · split_ifs
      · exact List.forall_mem_singleton.2
          (Condition.throughout_group_iff.2 (hcolumns trivial False.elim))
      · exact nofun
    · exact List.forall_mem_map.2 fun r hr =>
        hcolumn (null_not_mem_of_grouped hgroups r hr) False.elim
  · obtain ⟨groups, hgroups, hd⟩ := exists_of_bind_eq_ok hd
    obtain rfl := Except.ok.inj hd
    refine foldl ?_ fun r hr h => h.addGroup (List.forall_mem_cons.2
      ⟨hcolumn trivial False.elim, List.forall_mem_singleton.2
        (hcolumn (null_not_mem_of_grouped hgroups r hr) False.elim)⟩)
    split_ifs
    · exact h.addGroup (hcolumns trivial False.elim)
    · exact h
  · cases hd

theorem addPolymorphics {components : List Component} {ps : List Predicate} (h : d.Answers written)
    (hd : ps.foldlM (fun d p => d.addPolymorphic s a field components p) d = .ok d') :
    d'.Answers written := by
  induction ps generalizing d with
  | nil => exact Except.ok.inj hd ▸ h
  | cons p ps ih =>
    obtain ⟨d₁, hd₁, hd⟩ := exists_of_bind_eq_ok hd
    exact ih (h.addPolymorphic hd₁) hd

/-! ### Entries -/

theorem joinTarget {parent : ColumnRef} {kind : JoinKind} {f : NestedFilter} (h : d.Answers written)
    (hf : (Asked.nested f).Ready written) (hd : d.joinTarget s target parent kind f = .ok d') :
    d'.Answers written := by
  obtain ⟨d₁, hd₁, hd⟩ := exists_of_bind_eq_ok hd
  exact hf.2 ((h.nextAlias target.tableName).addEntity rfl hd₁) hd

theorem onValue {name : String} {ps : List Predicate} (hasked : asked.Ready written)
    (h : asked.onValue e name = .ok ps) : ∀ p ∈ ps, p.Ready written := by
  cases asked with
  | predicates qs => exact Except.ok.inj h ▸ hasked
  | nested f => cases h

/-- The conditions of one entry. -/
theorem matchField {outer : Bool} {name : String} (h : d.Answers written)
    (hasked : asked.Ready written) (hd : d.matchField s e a outer name asked = .ok d') :
    d'.Answers written := by
  obtain ⟨site, -, hd⟩ := exists_of_bind_eq_ok hd
  split at hd
  · obtain ⟨ps, hps, hd⟩ := exists_of_bind_eq_ok hd
    exact h.addIds (onValue hasked hps) hd
  · next column dbType _ =>
    obtain ⟨ps, hps, hd⟩ := exists_of_bind_eq_ok hd
    exact Except.ok.inj hd ▸ h.foldl fun p hp h =>
      h.addColumn (c := .asked _ column dbType p) (onValue hasked hps p hp)
  · next column dbType _ =>
    obtain ⟨ps, hps, hd⟩ := exists_of_bind_eq_ok hd
    exact Except.ok.inj hd ▸ h.foldl fun p hp h =>
      h.addColumn (c := .asked _ column dbType p) (onValue hasked hps p hp)
  · obtain ⟨target, -, hd⟩ := exists_of_bind_eq_ok hd
    cases asked with
    | predicates ps => exact h.addIds hasked hd
    | nested f =>
      obtain ⟨needsJoin, -, hd⟩ := exists_of_bind_eq_ok hd
      cases needsJoin with
      | true => exact h.joinTarget hasked hd
      | false => exact h.addIds hasked.1 hd
  · obtain ⟨target, -, hd⟩ := exists_of_bind_eq_ok hd
    obtain ⟨d₁, hd₁, hd⟩ := exists_of_bind_eq_ok hd
    have h₁ : d₁.Answers written := (h.nextAlias target.tableName).addEntity rfl hd₁
    cases asked with
    | predicates ps => exact h₁.addIds hasked hd
    | nested f => exact hasked.2 h₁ hd
  · obtain ⟨target, -, hd⟩ := exists_of_bind_eq_ok hd
    obtain ⟨d₁, hd₁, hd⟩ := exists_of_bind_eq_ok hd
    have h₁ : d₁.Answers written :=
      ((h.nextAlias target.tableName).addCollection _).addEntity rfl hd₁
    cases asked with
    | predicates ps => exact h₁.addIds hasked hd
    | nested f => exact hasked.2 h₁ hd
  · next table column otherColumn other ty _ =>
    obtain ⟨target, -, hd⟩ := exists_of_bind_eq_ok hd
    let own := (d.nextAlias table).1
    let join : Join := ⟨own, table, .outer, ⟨a, "id"⟩, ⟨own, column⟩, none⟩
    have h₁ := ((h.nextAlias table).addCollection join).addTable join ty
    cases asked with
    | predicates ps => exact h₁.addJunctionIds hasked hd
    | nested f =>
      obtain ⟨needsJoin, -, hd⟩ := exists_of_bind_eq_ok hd
      split_ifs at hd
      · exact h₁.joinTarget hasked hd
      · exact h₁.addJunctionIds hasked.1 hd
  · obtain ⟨ps, -, hd⟩ := exists_of_bind_eq_ok hd
    exact h.addPolymorphics hd

end Answers

end

end Draft

/-! ### Filters -/

section

variable {s : Setting} {written : List Predicate}

mutual

/-- The match of a filter whose predicates are among those that were written. -/
theorem EntityFilter.answers_match : ∀ {f : EntityFilter} {d d' : Draft} {e : Entity} {a : String}
    {outer : Bool}, f.written ⊆ written → d.Answers written →
    EntityFilter.match s e a outer f d = .ok d' → d'.Answers written
  | ⟨none, _⟩, _, _, _, _, _, hf, h, hd => FieldFilter.answers_matchAll hf h hd
  | ⟨some name, _⟩, _, _, _, _, _, hf, h, hd => FieldFilter.answers_matchAll hf (h.bind name) hd

theorem FieldFilter.answers_matchAll : ∀ {fs : List FieldFilter} {d d' : Draft} {e : Entity}
    {a : String} {outer : Bool}, FieldFilter.writtenOf fs ⊆ written → d.Answers written →
    FieldFilter.matchAll s e a outer fs d = .ok d' → d'.Answers written
  | [], _, _, _, _, _, _, h, hd => Except.ok.inj hd ▸ h
  | ⟨_, _⟩ :: _, _, _, _, _, _, hf, h, hd => by
    obtain ⟨hv, hrest⟩ := List.append_subset.1 hf
    obtain ⟨d₁, hd₁, hd⟩ := exists_of_bind_eq_ok hd
    exact FieldFilter.answers_matchAll hrest (FilterValue.answers_match hv h hd₁) hd

theorem FilterValue.answers_match : ∀ {v : FilterValue} {d d' : Draft} {e : Entity}
    {a name : String} {outer : Bool}, v.written ⊆ written → d.Answers written →
    FilterValue.match s e a outer name v d = .ok d' → d'.Answers written
  | .undefined, _, _, _, _, _, _, _, h, hd => Except.ok.inj hd ▸ h
  | .scalar v, _, _, _, _, _, _, hv, h, hd => h.matchField
    (show Asked.Ready written (.predicates _) from fun p hp =>
      (FilterValue.ready_predicates? (v := .scalar v) _ rfl p hp).mono hv) hd
  | .list vs, _, _, _, _, _, _, hv, h, hd => h.matchField
    (show Asked.Ready written (.predicates _) from fun p hp =>
      (FilterValue.ready_predicates? (v := .list vs) _ rfl p hp).mono hv) hd
  | .operators ps, _, _, _, _, _, _, hv, h, hd => h.matchField
    (show Asked.Ready written (.predicates _) from fun p hp =>
      (FilterValue.ready_predicates? (v := .operators ps) _ rfl p hp).mono hv) hd
  | .nested _, _, _, _, _, _, _, hf, h, hd => h.matchField
    (show Asked.Ready written (.nested _) from
      ⟨fun p hp => (EntityFilter.ready_idPredicates p hp).mono hf,
        fun h hd => EntityFilter.answers_match hf h hd⟩) hd
  | .binding user, _, _, _, _, _, _, _, h, hd => h.matchField
    (show Asked.Ready written (.nested ⟨some user, true, [], fun target own _ d =>
        .ok (d.bind user own target)⟩) from
      ⟨List.forall_mem_nil _, fun h hd => Except.ok.inj hd ▸ h.bind user⟩) hd

end

end

/-! ### Expressions -/

namespace Draft

variable {s : Setting} {written : List Predicate} {d d' : Draft} {e : Entity} {a : String}

theorem ready_resolveColumn {name field : String} {p : Predicate} {c : ColumnCondition}
    (hp : p ∈ written) (hc : d.resolveColumn s name field p = .ok c) :
    c.predicate.Ready written := by
  have hready : p.normalize.Ready written := (Predicate.Stems.of_mem hp).ready
  obtain ⟨b, -, hc⟩ := exists_of_bind_eq_ok hc
  obtain ⟨site, -, hc⟩ := exists_of_bind_eq_ok hc
  split at hc
  · obtain ⟨parsed, hparsed, hc⟩ := exists_of_bind_eq_ok hc
    exact Except.ok.inj hc ▸ hready.forId hparsed
  · exact Except.ok.inj hc ▸ hready
  · exact Except.ok.inj hc ▸ hready
  · obtain ⟨target, -, hc⟩ := exists_of_bind_eq_ok hc
    obtain ⟨parsed, hparsed, hc⟩ := exists_of_bind_eq_ok hc
    exact Except.ok.inj hc ▸ hready.forId hparsed
  · cases hc

end Draft

section

variable {s : Setting} {written : List Predicate} {d d' : Draft}

mutual

/-- The predicates that an expression stands for. -/
theorem ExpressionLiteral.answers_resolve : ∀ {l : ExpressionLiteral} {g : Option Group},
    l.written ⊆ written → l.resolve (d.resolver s) = .ok g →
      ∀ g' ∈ g, ∀ c ∈ g'.conditions, c.Predicates (ColumnCondition.Answers written)
  | ⟨_, _, _⟩, _, hl, h => by
    obtain ⟨b, hb, rfl⟩ := exists_of_map_eq_ok h
    exact fun g' hg' => Branches.of_group? (ConditionLiteral.answers_resolveAll hl hb) hg'

theorem ConditionLiteral.answers_resolveAll : ∀ {ls : List ConditionLiteral} {b : Branches},
    ConditionLiteral.writtenOf ls ⊆ written →
      ConditionLiteral.resolveAll (d.resolver s) ls = .ok b →
        ∀ c ∈ b.conditions, c.Predicates (ColumnCondition.Answers written)
  | [], _, _, h => by
    obtain rfl := Except.ok.inj h
    exact nofun
  | _ :: _, _, hl, h => by
    obtain ⟨hfirst, hrest⟩ := List.append_subset.1 hl
    obtain ⟨c, hc, h⟩ := exists_of_bind_eq_ok h
    obtain ⟨bs, hbs, h⟩ := exists_of_bind_eq_ok h
    obtain rfl := Except.ok.inj h
    have hrest := ConditionLiteral.answers_resolveAll hrest hbs
    cases c with
    | none => exact hrest
    | some c =>
      exact List.forall_mem_cons.2 ⟨ConditionLiteral.answers_resolve hfirst hc c rfl, hrest⟩

theorem ConditionLiteral.answers_resolve : ∀ {l : ConditionLiteral} {c : Option Condition},
    l.written ⊆ written → ConditionLiteral.resolve (d.resolver s) l = .ok c →
      ∀ k ∈ c, k.Predicates (ColumnCondition.Answers written)
  | .undefined, _, _, h => by
    obtain rfl := Except.ok.inj h
    exact nofun
  | .column _ _ p, _, hl, h => by
    obtain ⟨c, hc, h⟩ := exists_of_bind_eq_ok h
    obtain rfl := Except.ok.inj h
    have hready := Draft.ready_resolveColumn (hl (List.mem_singleton_self p)) hc
    exact fun k hk => Option.some.inj hk ▸
      ColumnCondition.throughout_split hready.normal hready.stems
  | .raw _ _ _, _, _, h => by
    obtain ⟨c, -, h⟩ := exists_of_bind_eq_ok h
    obtain rfl := Except.ok.inj h
    exact fun k hk => Option.some.inj hk ▸ trivial
  | .group _, _, hl, h => by
    obtain ⟨g, hg, h⟩ := exists_of_bind_eq_ok h
    obtain rfl := Except.ok.inj h
    intro k hk
    obtain ⟨⟨op, cs⟩, hg', rfl⟩ := Option.map_eq_some_iff.1 hk
    exact Condition.throughout_group_iff.2 (ExpressionLiteral.answers_resolve hl hg _ hg')

end

end

/-! ### Queries -/

namespace Draft

variable {s : Setting} {written : List Predicate} {d d' : Draft} {e : Entity} {a : String}

namespace Answers

theorem addConditions (h : d.Answers written) {literal : ExpressionLiteral}
    (hl : literal.written ⊆ written) (hd : d.addConditions s literal = .ok d') :
    d'.Answers written := by
  obtain ⟨g, hg, hd⟩ := exists_of_bind_eq_ok hd
  obtain rfl := Except.ok.inj hd
  cases g with
  | none => exact h
  | some g => exact h.addGroup (ExpressionLiteral.answers_resolve hl hg g rfl)

theorem select (h : d.Answers written) {xs : List Select}
    (hxs : ∀ x ∈ xs, ∀ g name, x ≠ .boolOr g name) :
    Answers written { d with selects := d.selects ++ xs } :=
  { h with selects := List.forall_mem_append.2 ⟨h.selects, hxs⟩ }

theorem addSubtypes {subs : List String} {i : Nat} {cases : List DiscriminatorCase}
    (h : d.Answers written) (hd : addSubtypes s a i subs d = .ok (d', cases)) :
    d'.Answers written := by
  induction subs generalizing i d cases with
  | nil =>
    obtain ⟨rfl, -⟩ := Prod.mk.inj (Except.ok.inj hd)
    exact h
  | cons sub subs ih =>
    obtain ⟨e, -, hd⟩ := exists_of_bind_eq_ok hd
    obtain ⟨⟨d₁, others⟩, hothers, hd⟩ := exists_of_bind_eq_ok hd
    obtain ⟨rfl, -⟩ := Prod.mk.inj (Except.ok.inj hd)
    have hstar : ∀ x ∈ [Select.star (subAlias a i)], ∀ g name, x ≠ .boolOr g name := by simp
    exact ih ((h.addTable _ e.idDbType).select hstar) hothers

theorem addSelects (h : d.Answers written) (hd : d.addSelects s e a = .ok d') :
    d'.Answers written := by
  obtain ⟨⟨d₁, cases⟩, hcases, hd⟩ := exists_of_bind_eq_ok hd
  have hstars : ∀ x ∈ Select.star a :: (List.range e.baseTypes.length).map
      fun i => .star (baseAlias a i), ∀ g name, x ≠ .boolOr g name :=
    List.forall_mem_cons.2 ⟨by simp, List.forall_mem_map.2 fun _ _ => by simp⟩
  have hadded := (h.select hstars).addSubtypes hcases
  obtain rfl := Except.ok.inj hd
  split_ifs
  · exact hadded
  · exact hadded.select (by simp)

/-- The plan of a draft. -/
theorem toPlan (h : d.Answers written) : d.toPlan.Predicates (ColumnCondition.Answers written) := by
  refine Plan.predicates_iff.2 ⟨fun t ht q hq => ?_, ?_, fun x hx => ?_⟩
  · rw [h.tables t ht] at hq
    cases hq
  · exact of_conjuncts_group? h.conditions (fun g hg _ => h.groups g hg)
      (fun ⟨_, _⟩ hg => Condition.throughout_group_iff.2 (h.groups _ hg)) rfl
  · cases x with
    | boolOr g name => exact absurd rfl (h.selects _ hx g name)
    | _ => trivial

end Answers

/-- The predicates that are written in a query. -/
theorem answers_ofQuery {filter : EntityFilter} {conditions : Option ExpressionLiteral}
    (h : ofQuery s e filter conditions = .ok (a, d)) :
    d.Answers (filter.written ++ (conditions.map ExpressionLiteral.written).getD []) := by
  obtain ⟨d₁, d₂, d₃, -, hprimary, hselects, hmatch, hconditions⟩ := ofQuery_eq_ok h
  have hempty : Answers (filter.written ++ (conditions.map ExpressionLiteral.written).getD [])
      (Draft.empty.nextAlias e.tableName).2 :=
    ⟨List.forall_mem_nil _, List.forall_mem_nil _, List.forall_mem_nil _, List.forall_mem_nil _⟩
  have hmatched := EntityFilter.answers_match (List.subset_append_left _ _)
    ((hempty.addEntity rfl hprimary).addSelects hselects) hmatch
  rcases hconditions with ⟨-, rfl⟩ | ⟨literal, rfl, hliteral⟩
  · exact hmatched
  · exact hmatched.addConditions (List.subset_append_right _ _) hliteral

end Draft

end EntityQuery
