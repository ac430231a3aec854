import EntityQuery.Proofs.Draft.Tree
import EntityQuery.Proofs.Rendering.Throughout
import EntityQuery.Sql.Render

/-!
# What cannot be rendered

A plan cannot be rendered when it has no primary table, or when a predicate has null for an operand.
Null is told apart where values are compared for equality or looked up in a list; an order has
nothing to say about it, and a predicate of that kind is the only one that is left to fail.

* `Predicate.NullApart`, `Predicate.OrdersNull`: predicates by what they do with null;
* `Predicate.Stems`: an order against null that was written is the only one there is;
* `Predicate.Stems.forId`: ids in stored form are null where they were given as null;
* `Plan.failsOnly_pieces`: a plan with primary tables fails for what its predicates fail for.
-/

namespace EntityQuery

/-! ### Null as an operand -/

namespace Predicate

/-- Null is not compared for equality, and is in no list. -/
def NullApart : Predicate → Prop
  | .compare .eq v => v ≠ .null
  | .compare .ne v => v ≠ .null
  | .isIn vs => .null ∉ vs
  | .notIn vs => .null ∉ vs
  | _ => True

/-- Values are ordered against null. -/
def OrdersNull : Predicate → Prop
  | .compare .eq _ => False
  | .compare .ne _ => False
  | .compare _ v => v = .null
  | .between low high => low = .null ∨ high = .null
  | _ => False

/-- The operators that order values. -/
def orderings : List String := ["gt", "gte", "lt", "lte", "between"]

/-- An order against null is one that was written. -/
def Stems (written : List Predicate) (p : Predicate) : Prop :=
  p.OrdersNull → ∃ q ∈ written, q.OrdersNull ∧ q.kind = p.kind

variable {written : List Predicate} {p q : Predicate} {e : Entity} {nil : NilIds} {text : String}

theorem OrdersNull.kind_mem (h : p.OrdersNull) : p.kind ∈ orderings := by
  cases p with
  | compare op v =>
    cases op with
    | eq => cases h
    | ne => cases h
    | _ => simp [kind, Comparison.name, orderings]
  | between low high => simp [kind, orderings]
  | _ => cases h

theorem Stems.of_mem (h : p ∈ written) : p.Stems written := fun hnull => ⟨p, h, hnull, rfl⟩

theorem Stems.mono {written' : List Predicate} (h : p.Stems written) (hsub : written ⊆ written') :
    p.Stems written' := fun hnull => by
  obtain ⟨q, hq, hrest⟩ := h hnull
  exact ⟨q, hsub hq, hrest⟩

/-- A test for null orders nothing. -/
theorem Stems.normalize (h : p.Stems written) : p.normalize.Stems written := by
  unfold Predicate.normalize
  split
  · exact False.elim
  · exact False.elim
  · exact h

/-- An equality is with null, or it has been told apart. -/
theorem nullApart_of_normalize (h : p.normalize = p)
    (hlist : ∀ vs, p = .isIn vs ∨ p = .notIn vs → .null ∉ vs) : p.NullApart := by
  cases p with
  | compare op v =>
    cases op with
    | eq =>
      rintro rfl
      cases h
    | ne =>
      rintro rfl
      cases h
    | _ => trivial
  | isIn vs => exact hlist vs (.inl rfl)
  | notIn vs => exact hlist vs (.inr rfl)
  | _ => trivial

end Predicate

/-! ### Ids -/

section

variable {written : List Predicate} {p q : Predicate} {e : Entity} {nil : NilIds} {text : String}

/-- The stored form of an id is null only for null. -/
theorem Entity.eq_null_of_parseId {v : Value} (h : e.parseId nil v = .ok .null) : v = .null := by
  unfold parseId at h
  split at h
  · rfl
  · cases hnil : e.idType <;> simp [NilIds.forType, hnil] at h
  · cases h
  · cases h
  · cases h
  · obtain ⟨s, -, h⟩ := exists_of_bind_eq_ok h
    unfold parseUntagged at h
    split at h
    · split at h <;> cases h
    · split at h <;> cases h
  · cases h

/-- Ids in stored form are ordered against null where they were before. -/
theorem Predicate.ordersNull_of_mapId (h : p.mapId e nil text = .ok q) (hq : q.OrdersNull) :
    p.OrdersNull ∧ p.kind = q.kind := by
  cases p with
  | compare op v =>
    obtain ⟨w, hw, h⟩ := exists_of_bind_eq_ok h
    obtain rfl := Except.ok.inj h
    cases op with
    | eq => cases hq
    | ne => cases hq
    | _ =>
      obtain rfl : w = .null := hq
      exact ⟨Entity.eq_null_of_parseId hw, rfl⟩
  | between low high =>
    obtain ⟨low', hlow, h⟩ := exists_of_bind_eq_ok h
    obtain ⟨high', hhigh, h⟩ := exists_of_bind_eq_ok h
    obtain rfl := Except.ok.inj h
    refine ⟨hq.imp ?_ ?_, rfl⟩
    · rintro rfl
      exact Entity.eq_null_of_parseId hlow
    · rintro rfl
      exact Entity.eq_null_of_parseId hhigh
  | isIn vs =>
    obtain ⟨ws, -, h⟩ := exists_of_bind_eq_ok h
    obtain rfl := Except.ok.inj h
    cases hq
  | notIn vs =>
    obtain ⟨ws, -, h⟩ := exists_of_bind_eq_ok h
    obtain rfl := Except.ok.inj h
    cases hq
  | isNull =>
    obtain rfl := Except.ok.inj h
    cases hq
  | notNull =>
    obtain rfl := Except.ok.inj h
    cases hq
  | pattern op s => cases h
  | containment op vs => cases h

theorem Predicate.Stems.forId (h : p.Stems written) (hq : p.forId e nil text = .ok q) :
    q.Stems written ∧ q.normalize = q := by
  obtain ⟨q, hmap, rfl⟩ := exists_of_map_eq_ok hq
  have hstems : q.Stems written := fun hnull => by
    obtain ⟨hp, hkind⟩ := ordersNull_of_mapId hmap hnull
    obtain ⟨p', hp', hnull', hkind'⟩ := h hp
    exact ⟨p', hp', hnull', hkind'.trans hkind⟩
  exact ⟨hstems.normalize, q.normalize_normalize⟩

end

/-! ### Membership -/

section

variable {written : List Predicate}

/-- The predicate can be rendered, but for an order against null that was written. -/
structure ColumnCondition.Answers (written : List Predicate) (c : ColumnCondition) : Prop where
  apart : c.predicate.NullApart
  stems : c.predicate.Stems written

theorem null_not_mem_withoutNulls {vs : List Value} : .null ∉ withoutNulls vs := fun h => by
  simpa [Value.isNull] using (List.mem_filter.1 h).2

/-- A list is told apart from the null in it. -/
theorem ColumnCondition.throughout_split {L : List Table → Prop} {c : ColumnCondition}
    (hnormal : c.predicate.normalize = c.predicate) (hstems : c.predicate.Stems written) :
    c.split.Throughout L (Answers written) := by
  have hlist : ∀ vs : List Value, ¬ vs.any Value.isNull = true → .null ∉ vs := fun vs h hnull =>
    h (List.any_eq_true.2 ⟨_, hnull, rfl⟩)
  have hpair : ∀ {op : Connective} {p q : Predicate},
      Answers written { c with predicate := p } → Answers written { c with predicate := q } →
        (Condition.group ⟨op, [.column { c with predicate := p },
          .column { c with predicate := q }]⟩).Throughout L (Answers written) := fun hp hq =>
    Condition.throughout_group_iff.2 (List.forall_mem_cons.2 ⟨hp, List.forall_mem_singleton.2 hq⟩)
  obtain ⟨a, column, ty, p, pruneable⟩ := c
  unfold split
  cases p with
  | isIn vs =>
    dsimp only
    split_ifs with hnull
    · split
      · exact ⟨trivial, False.elim⟩
      · exact hpair ⟨trivial, False.elim⟩ ⟨null_not_mem_withoutNulls, False.elim⟩
    · exact ⟨hlist vs hnull, hstems⟩
  | notIn vs =>
    dsimp only
    split_ifs with hnull
    · split
      · exact ⟨trivial, False.elim⟩
      · exact hpair ⟨trivial, False.elim⟩ ⟨null_not_mem_withoutNulls, False.elim⟩
    · exact ⟨hlist vs hnull, hstems⟩
  | _ => exact ⟨Predicate.nullApart_of_normalize hnormal (by simp), hstems⟩

end

/-! ### Reasons to fail -/

/-- Null is an operand of an order that was written. -/
def SqlError.Stems (written : List Predicate) (err : SqlError) : Prop :=
  ∃ p ∈ written, p.OrdersNull ∧ ∃ column, err = .nullOperand p.kind column

namespace ColumnCondition

variable {written : List Predicate} {c : ColumnCondition}

theorem failsOnly_operand {E : SqlError → Prop} {v : Value}
    (h : v = .null → E (.nullOperand c.predicate.kind c.columnText)) :
    FailsOnly E (c.operand v) := by
  unfold operand
  split_ifs with hv
  · exact fun err herr => Except.error.inj herr ▸ h (Value.isNull_iff.1 hv)
  · exact .ok

/-- A predicate that answers fails for an order against null that was written. -/
theorem Answers.failsOnly_tokens (h : c.Answers written) :
    FailsOnly (SqlError.Stems written) c.tokens := by
  have hordered : c.predicate.OrdersNull →
      SqlError.Stems written (.nullOperand c.predicate.kind c.columnText) := fun hnull => by
    obtain ⟨p, hp, hnull, hkind⟩ := h.stems hnull
    exact ⟨p, hp, hnull, c.columnText, by rw [hkind]⟩
  have hlist : ∀ {op : String} {empty : Bool} {vs : List Value}, .null ∉ vs →
      FailsOnly (SqlError.Stems written) (c.membership op empty vs) := by
    intro op empty vs hvs
    cases vs with
    | nil => exact .ok
    | cons v vs =>
      exact (FailsOnly.mapM fun w hw => failsOnly_operand fun hnull =>
        absurd (hnull ▸ hw) hvs).bind fun _ => .ok
  have hbinary : ∀ {op : String} {v : Value}, (v = .null → c.predicate.OrdersNull) →
      FailsOnly (SqlError.Stems written) (c.binary op v) := fun hv =>
    (failsOnly_operand fun hnull => hordered (hv hnull)).bind fun _ => .ok
  have hapart := h.apart
  unfold tokens
  cases hp : c.predicate with
  | compare op v =>
    rw [hp] at hapart
    refine hbinary fun hnull => ?_
    rw [hp]
    cases op with
    | eq => exact absurd hnull hapart
    | ne => exact absurd hnull hapart
    | _ => exact hnull
  | isIn vs =>
    rw [hp] at hapart
    exact hlist hapart
  | notIn vs =>
    rw [hp] at hapart
    exact hlist hapart
  | between low high =>
    have hlow : low = .null → c.predicate.OrdersNull := fun hnull => by
      rw [hp]
      exact .inl hnull
    have hhigh : high = .null → c.predicate.OrdersNull := fun hnull => by
      rw [hp]
      exact .inr hnull
    refine (failsOnly_operand fun hnull => hordered (hlow hnull)).bind fun _ => ?_
    exact (failsOnly_operand fun hnull => hordered (hhigh hnull)).bind fun _ => .ok
  | isNull => exact .ok
  | notNull => exact .ok
  | pattern op s => exact hbinary nofun
  | containment op vs => exact hbinary nofun

end ColumnCondition

/-! ### Plans -/

section

variable {E : SqlError → Prop} {P : ColumnCondition → Prop}

/-- One of the tables is a primary one. -/
def Table.HasPrimary (ts : List Table) : Prop := ∃ t ∈ ts, t.isPrimary = true

theorem Table.exists_find_isPrimary {ts : List Table} (h : Table.HasPrimary ts) :
    ∃ a table, ts.find? Table.isPrimary = some (.primary a table) := by
  obtain ⟨t, ht, hprimary⟩ := h
  obtain ⟨x, hx⟩ := Option.isSome_iff_exists.1 (List.find?_isSome.2 ⟨t, ht, hprimary⟩)
  have hprimary := List.find?_some hx
  cases x with
  | primary a table => exact ⟨a, table, hx⟩
  | _ => cases hprimary

mutual

/-- A plan whose subqueries have primary tables fails for what its predicates fail for. -/
theorem Plan.failsOnly_pieces (hP : ∀ c, P c → FailsOnly E c.tokens) : ∀ {p : Plan},
    p.Throughout Table.HasPrimary P → FailsOnly E p.pieces
  | ⟨selects, tables, condition, _, _, _⟩, ⟨hprimary, htables, htop, hselects⟩ => by
    obtain ⟨a, table, hfind⟩ := Table.exists_find_isPrimary hprimary
    rw [Plan.pieces]
    refine (Select.failsOnly_piecesOf hP hselects).bind fun columns => ?_
    simp only [hfind]
    refine (Table.failsOnly_piecesOf hP htables).bind fun joins => ?_
    exact (Group.failsOnly_piecesOf hP htop).bind fun filter => .ok

theorem Table.failsOnly_piecesOf (hP : ∀ c, P c → FailsOnly E c.tokens) : ∀ {ts : List Table},
    Table.ThroughoutAll Table.HasPrimary P ts → FailsOnly E (Table.piecesOf ts)
  | [], _ => .ok
  | t :: ts, h => by
    cases t with
    | primary a table => exact (Table.failsOnly_piecesOf hP h : FailsOnly E (Table.piecesOf ts))
    | join j =>
      have hts : FailsOnly E (Table.piecesOf ts) := Table.failsOnly_piecesOf hP h
      exact hts.bind fun _ => .ok
    | cross a table =>
      have hts : FailsOnly E (Table.piecesOf ts) := Table.failsOnly_piecesOf hP h
      exact hts.bind fun _ => .ok
    | lateral a source query =>
      exact (Plan.failsOnly_pieces hP h.1).bind fun _ =>
        (Table.failsOnly_piecesOf hP h.2).bind fun _ => .ok

theorem Select.failsOnly_piecesOf (hP : ∀ c, P c → FailsOnly E c.tokens) : ∀ {ss : List Select},
    Select.ThroughoutAll Table.HasPrimary P ss → FailsOnly E (Select.piecesOf ss)
  | [], _ => .ok
  | s :: ss, h => by
    cases s with
    | boolOr g name =>
      exact ((Group.failsOnly_tokens hP h.1).bind fun _ => .ok).bind fun _ =>
        (Select.failsOnly_piecesOf hP h.2).bind fun _ => .ok
    | _ =>
      have hss : FailsOnly E (Select.piecesOf ss) := Select.failsOnly_piecesOf hP h
      exact FailsOnly.ok.bind fun _ => hss.bind fun _ => .ok

theorem Group.failsOnly_piecesOf (hP : ∀ c, P c → FailsOnly E c.tokens) : ∀ {g : Option Group},
    Group.ThroughoutTop Table.HasPrimary P g → FailsOnly E (Group.piecesOf g)
  | none, _ => .ok
  | some ⟨_, []⟩, _ => .ok
  | some ⟨_, _ :: _⟩, h => (Condition.failsOnly_tokensOf hP h).bind fun _ => .ok

theorem Group.failsOnly_tokens (hP : ∀ c, P c → FailsOnly E c.tokens) : ∀ {g : Group},
    g.Throughout Table.HasPrimary P → FailsOnly E g.tokens
  | ⟨_, []⟩, _ => .ok
  | ⟨_, _ :: _⟩, h => Condition.failsOnly_tokensOf hP h

theorem Condition.failsOnly_tokensOf (hP : ∀ c, P c → FailsOnly E c.tokens) {op : Connective} :
    ∀ {cs : List Condition}, Condition.ThroughoutAll Table.HasPrimary P cs →
      FailsOnly E (Condition.tokensOf op cs)
  | [], _ => .ok
  | [_], h => (Condition.failsOnly_tokens hP h.1).bind fun _ => .ok
  | _ :: _ :: _, h => (Condition.failsOnly_tokens hP h.1).bind fun _ =>
      (Condition.failsOnly_tokensOf hP h.2).bind fun _ => .ok

theorem Condition.failsOnly_tokens (hP : ∀ c, P c → FailsOnly E c.tokens) : ∀ {c : Condition},
    c.Throughout Table.HasPrimary P → FailsOnly E c.tokens
  | .group ⟨_, []⟩, _ => .ok
  | .group ⟨_, [_]⟩, h => Condition.failsOnly_tokensOf hP h
  | .group ⟨_, _ :: _ :: _⟩, h => (Condition.failsOnly_tokensOf hP h).bind fun _ => .ok
  | .column c, h => hP c h
  | .raw _, _ => .ok
  | .existence _ _ _, h => (Plan.failsOnly_pieces hP h).bind fun _ => .ok

end

end

end EntityQuery
