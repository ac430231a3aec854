import EntityQuery.Proofs.Evaluation.Basic
import EntityQuery.Collection.Basic
import Mathlib.Data.Fintype.Option
import Mathlib.Data.List.Nodup

/-!
# Conditions that hold

A plan keeps an assignment where its condition is true, so what matters of a truth value is whether
it is true.  Seen that way a group is a conjunction or a disjunction.

* `Connective.combine_cons`, `Connective.combine_assoc`: connectives of three-valued logic;
* `Condition.Holds`, with its meaning for groups and subqueries;
* `Plan.mem_rows_iff`: an assignment is selected when all conditions at the top hold;
* `Plan.topConditions_ofTop`, `Group.evalTop_ofTop_iff`: the conditions at the top when they are put
  together again, and what they mean;
* `Condition.eval_congr`: a condition without subqueries depends on the tables that it reads.
-/

namespace EntityQuery

/-- The condition is true. -/
def Condition.Holds (db : Database) (c : Condition) (e : Assignment) : Prop :=
  c.eval db e = some true

/-! ### Groups -/

namespace Connective

theorem combine_and_eq_true_iff {vs : List (Option Bool)} :
    combine .and vs = some true ↔ ∀ v ∈ vs, v = some true := by
  unfold combine
  have hd : (decide (Connective.and = .or)) = false := rfl
  rw [hd]
  constructor
  · intro h v hv
    split_ifs at h with h1 h2
    · cases h
    · match v, hv with
      | some true, _ => rfl
      | some false, hv => exact absurd hv h1
      | none, hv => exact absurd hv h2
  · intro h
    have h1 : some false ∉ vs := fun hm => by cases h _ hm
    have h2 : none ∉ vs := fun hm => by cases h _ hm
    rw [if_neg h1, if_neg h2]
    rfl

theorem combine_or_eq_true_iff {vs : List (Option Bool)} :
    combine .or vs = some true ↔ some true ∈ vs := by
  unfold combine
  have hd : (decide (Connective.or = .or)) = true := rfl
  rw [hd]
  constructor
  · intro h
    split_ifs at h with h1 h2
    · exact h1
    · cases h
  · intro h
    rw [if_pos h]

theorem combine_singleton (op : Connective) (v : Option Bool) : combine op [v] = v := by
  revert v
  cases op <;> decide

theorem combine_assoc (op : Connective) (u v w : Option Bool) :
    combine op [combine op [u, v], w] = combine op [u, combine op [v, w]] := by
  revert u v w
  cases op <;> decide

theorem combine_cons (op : Connective) (v : Option Bool) (vs : List (Option Bool)) :
    combine op (v :: vs) = combine op [v, combine op vs] := by
  by_cases hdecisive : some (decide (op = .or)) ∈ vs
  · cases op <;> rcases v with _ | _ | _ <;> simp_all [combine]
  · by_cases hunknown : none ∈ vs
    · cases op <;> rcases v with _ | _ | _ <;> simp_all [combine]
    · cases op <;> rcases v with _ | _ | _ <;> simp_all [combine]

variable {op : Connective} {vs ws : List (Option Bool)}

theorem combine_eq_decisive_iff :
    combine op vs = some (decide (op = .or)) ↔ some (decide (op = .or)) ∈ vs := by
  unfold combine
  split_ifs with hd hn
  · simp [hd]
  · simp [hd]
  · cases op <;> simpa using hd

theorem combine_eq_none_iff :
    combine op vs = none ↔ some (decide (op = .or)) ∉ vs ∧ none ∈ vs := by
  unfold combine
  split_ifs with hd hn <;> simp [*]

/-- Truth values are joined alike when the decisive one is among both or neither, and without it the
unknown one. -/
theorem combine_congr (hd : some (decide (op = .or)) ∈ vs ↔ some (decide (op = .or)) ∈ ws)
    (hn : some (decide (op = .or)) ∉ vs → (none ∈ vs ↔ none ∈ ws)) :
    combine op vs = combine op ws := by
  unfold combine
  by_cases h : some (decide (op = .or)) ∈ vs
  · rw [if_pos h, if_pos (hd.1 h)]
  · rw [if_neg h, if_neg fun h' => h (hd.2 h')]
    simp only [hn h]

theorem combine_of_mem_iff (h : ∀ v, v ∈ vs ↔ v ∈ ws) : combine op vs = combine op ws :=
  combine_congr (h _) fun _ => h _

theorem combine_append (op : Connective) (vs ws : List (Option Bool)) :
    combine op (vs ++ ws) = combine op [combine op vs, combine op ws] := by
  induction vs with
  | nil =>
    have unit : ∀ w, combine op [combine op [], w] = w := by cases op <;> decide
    rw [List.nil_append, unit]
  | cons v vs ih =>
    rw [List.cons_append, combine_cons, ih, ← combine_assoc, combine_cons op v vs]

end Connective

namespace Condition

variable {db : Database} {e : Assignment}

theorem evalAll_eq_map (cs : List Condition) : evalAll db cs e = cs.map (·.eval db e) := by
  induction cs with
  | nil => rfl
  | cons c cs ih => rw [evalAll, ih, List.map_cons]

theorem eval_group {op : Connective} {cs : List Condition} :
    (Condition.group ⟨op, cs⟩).eval db e = op.combine (cs.map (·.eval db e)) := by
  rw [eval, Group.eval, evalAll_eq_map]

theorem holds_all_iff {cs : List Condition} :
    (Condition.group ⟨.and, cs⟩).Holds db e ↔ ∀ c ∈ cs, c.Holds db e := by
  unfold Holds
  rw [eval_group, Connective.combine_and_eq_true_iff]
  simp

theorem holds_any_iff {cs : List Condition} :
    (Condition.group ⟨.or, cs⟩).Holds db e ↔ ∃ c ∈ cs, c.Holds db e := by
  unfold Holds
  rw [eval_group, Connective.combine_or_eq_true_iff]
  simp

/-- A group holds when its conditions do, whatever else changes: there is no negation. -/
theorem holds_group_mono {db : Database} {op : Connective} {cs cs' : List Condition}
    {e e' : Assignment} (h : List.Forall₂ (fun c c' => c.Holds db e → c'.Holds db e') cs cs')
    (hc : (Condition.group ⟨op, cs⟩).Holds db e) : (Condition.group ⟨op, cs'⟩).Holds db e' := by
  cases op with
  | and =>
    rw [holds_all_iff] at hc ⊢
    induction h with
    | nil => simp
    | cons h _ ih =>
      intro c hm
      rcases List.mem_cons.1 hm with rfl | hm
      · exact h (hc _ List.mem_cons_self)
      · exact ih (fun c hm => hc c (List.mem_cons_of_mem _ hm)) c hm
  | or =>
    rw [holds_any_iff] at hc ⊢
    induction h with
    | nil => simp at hc
    | cons h _ ih =>
      obtain ⟨c, hm, hc⟩ := hc
      rcases List.mem_cons.1 hm with rfl | hm
      · exact ⟨_, List.mem_cons_self, h hc⟩
      · obtain ⟨c', hm', hc'⟩ := ih ⟨c, hm, hc⟩
        exact ⟨c', List.mem_cons_of_mem _ hm', hc'⟩

theorem holds_existence_iff {query : Plan} {negate : Bool} {outer : List String} :
    (Condition.existence query negate outer).Holds db e ↔
      (negate = true ↔ query.rows db e = []) := by
  unfold Holds
  rw [eval]
  cases negate <;> cases query.rows db e <;> simp

theorem holds_exists_iff {query : Plan} {outer : List String} :
    (Condition.existence query false outer).Holds db e ↔ ∃ e', e' ∈ query.rows db e := by
  rw [holds_existence_iff]
  simp [List.eq_nil_iff_forall_not_mem]

theorem holds_isMissing_iff {c : Condition} {a : String} (h : c.isMissing a = true) :
    c.Holds db e ↔ e.value ⟨a, "id"⟩ = .null := by
  cases c with
  | column c =>
    simp only [isMissing, Bool.and_eq_true, decide_eq_true_iff, Predicate.isNullTest_iff] at h
    obtain ⟨⟨rfl, hid⟩, hp⟩ := h
    unfold Holds
    rw [eval, hp, hid, Predicate.eval]
    cases e.value ⟨c.aliasName, "id"⟩ <;> simp [Value.isNull]
  | _ => cases h

theorem holds_correlation_iff {j : Join} (h : db.Correlates j) :
    (Condition.raw (.correlation j.parent j.own)).Holds db e ↔
      (e.value j.parent).Equals (e.value j.own) := by
  unfold Holds Value.Equals
  rw [eval, h]
  cases (e.value j.parent).compare? (e.value j.own) <;> simp

end Condition

/-! ### Plans -/

namespace Plan

variable {db : Database} {p : Plan} {e e₀ : Assignment}

theorem evalTop_condition_iff :
    Group.evalTop db p.condition e = some true ↔ ∀ c ∈ p.topConditions, c.Holds db e := by
  unfold topConditions
  cases p.condition with
  | none => simp [Group.evalTop]
  | some g =>
    obtain ⟨op, cs⟩ := g
    cases op with
    | and => exact Condition.holds_all_iff
    | or => simp [Group.evalTop, Condition.Holds, Condition.eval]

/-- The truth value at the top is that of the conditions there, joined by `AND`. -/
theorem evalTop_eq_combine : Group.evalTop db p.condition e =
    Connective.combine .and (p.topConditions.map (·.eval db e)) := by
  unfold topConditions
  cases p.condition with
  | none => rfl
  | some g =>
    obtain ⟨op, cs⟩ := g
    cases op with
    | and => rw [Group.evalTop, Group.eval, Condition.evalAll_eq_map]
    | or => rw [List.map_singleton, Connective.combine_singleton, Condition.eval, Group.evalTop]

theorem rows_eq_filter : p.rows db e₀ = (Table.bindAll db p.tables [e₀]).filter fun e =>
    Group.evalTop db p.condition e = some true := by
  cases p
  rw [rows]

theorem aggregates_eq : p.aggregates db e₀ =
    Select.aggregates db (p.rows db e₀) p.selects fun _ => .null := by
  cases p
  rw [aggregates, rows]

/-- A plan selects what its tables are bound to, where all conditions at the top hold. -/
theorem mem_rows_iff : e ∈ p.rows db e₀ ↔
    e ∈ Table.bindAll db p.tables [e₀] ∧ ∀ c ∈ p.topConditions, c.Holds db e := by
  rw [rows_eq_filter, List.mem_filter, decide_eq_true_iff, evalTop_condition_iff]

/-- A disjunction at the top stays one condition. -/
theorem topConditions_ofTop {disjunctive : Bool} {cs : List Condition}
    (hp : p.condition = Group.ofTop disjunctive cs)
    (h : disjunctive = true → ∀ g, .group g ∈ cs → g.op = .or) : p.topConditions = cs := by
  unfold topConditions
  rw [hp]
  match cs, h with
  | [], _ => rfl
  | [.group ⟨op, conditions⟩], h =>
    cases disjunctive with
    | false => rfl
    | true =>
      obtain rfl : op = .or := h rfl _ (List.mem_singleton_self _)
      rfl
  | [.column _], _ => rfl
  | [.raw _], _ => rfl
  | [.existence _ _ _], _ => rfl
  | c :: c' :: rest, _ => cases c <;> rfl

theorem op_of_isDisjunctive (h : p.isDisjunctive = true) {g : Group}
    (hg : .group g ∈ p.topConditions) : g.op = .or := by
  unfold isDisjunctive at h
  unfold topConditions at hg
  split at h
  · next g' hc =>
    obtain ⟨op, conditions⟩ := g'
    obtain rfl : op = .or := of_decide_eq_true h
    rw [hc] at hg
    obtain rfl := Condition.group.inj (List.mem_singleton.1 hg)
    rfl
  · cases h

end Plan

/-- Conditions put together at the top mean that all of them hold. -/
theorem Group.evalTop_ofTop_iff {db : Database} {e : Assignment} {disjunctive : Bool}
    {cs : List Condition} :
    Group.evalTop db (Group.ofTop disjunctive cs) e = some true ↔ ∀ c ∈ cs, c.Holds db e := by
  have all : ∀ cs, Group.evalTop db (some (.all cs)) e = some true ↔ ∀ c ∈ cs, c.Holds db e :=
    fun _ => Condition.holds_all_iff
  match cs with
  | [] => simp [Group.ofTop, Group.evalTop]
  | [.group g] =>
    cases disjunctive with
    | false => exact all [.group g]
    | true => simp [Group.ofTop, Group.evalTop, Condition.Holds, Condition.eval]
  | [.column c] => exact all [.column c]
  | [.raw r] => exact all [.raw r]
  | [.existence q n o] => exact all [.existence q n o]
  | c :: c' :: cs => cases c <;> exact all (_ :: c' :: cs)

/-! ### Tables that are read -/

theorem mem_insertNew {names : List String} {name a : String} :
    a ∈ insertNew names name ↔ a ∈ names ∨ a = name := by
  unfold insertNew
  split_ifs with h
  · constructor
    · exact Or.inl
    · rintro (h' | rfl)
      · exact h'
      · exact h
  · simp

theorem mem_foldl_insertNew {names found : List String} {a : String} :
    a ∈ names.foldl insertNew found ↔ a ∈ found ∨ a ∈ names := by
  induction names generalizing found with
  | nil => simp
  | cons n ns ih => rw [List.foldl_cons, ih, mem_insertNew, List.mem_cons, or_assoc]

theorem nodup_foldl_insertNew {names found : List String} (h : found.Nodup) :
    (names.foldl insertNew found).Nodup := by
  induction names generalizing found with
  | nil => exact h
  | cons n ns ih =>
    rw [List.foldl_cons]
    refine ih ?_
    unfold insertNew
    split_ifs with hn
    · exact h
    · rw [List.nodup_append]
      refine ⟨h, List.nodup_singleton n, fun a ha b hb he => ?_⟩
      rw [List.mem_singleton] at hb
      exact hn (hb ▸ he ▸ ha)

/-- Names that differ are collected as they are. -/
theorem foldl_insertNew_of_nodup {names found : List String} (h : (found ++ names).Nodup) :
    names.foldl insertNew found = found ++ names := by
  induction names generalizing found with
  | nil => rw [List.foldl_nil, List.append_nil]
  | cons n ns ih =>
    have hn : n ∉ found := fun hm => (List.nodup_append.1 h).2.2 n hm n List.mem_cons_self rfl
    rw [List.foldl_cons, insertNew, if_neg hn, ih (by rwa [← List.append_cons]), ← List.append_cons]

namespace Condition

theorem mem_aliasesInto {found : List String} {cs : List Condition} {a : String} :
    a ∈ aliasesInto found cs ↔ a ∈ found ∨ ∃ c ∈ cs, a ∈ c.aliases := by
  induction cs generalizing found with
  | nil => simp [aliasesInto]
  | cons c cs ih =>
    rw [aliasesInto, ih, mem_foldl_insertNew]
    simp [or_assoc]

theorem mem_aliases_group {op : Connective} {cs : List Condition} {a : String} :
    a ∈ (Condition.group ⟨op, cs⟩).aliases ↔ ∃ c ∈ cs, a ∈ c.aliases := by
  rw [aliases, Group.aliases, mem_aliasesInto]
  simp

theorem plansOf_eq_nil_iff {cs : List Condition} : plansOf cs = [] ↔ ∀ c ∈ cs, c.plans = [] := by
  induction cs with
  | nil => simp [plansOf]
  | cons c cs ih => rw [plansOf, List.append_eq_nil_iff, ih, List.forall_mem_cons]

theorem plans_group {op : Connective} {cs : List Condition} :
    (Condition.group ⟨op, cs⟩).plans = plansOf cs := by rw [plans, Group.plans]

end Condition

mutual

theorem Group.eval_congr {db : Database} {e e' : Assignment} : ∀ {g : Group}, g.plans = [] →
    e.Agree g.aliases e' → g.eval db e = g.eval db e'
  | ⟨op, cs⟩, h, he => by
    rw [Group.plans] at h
    have hcs : ∀ c ∈ cs, e.Agree c.aliases e' := fun c hc a ha =>
      he a (by rw [Group.aliases, Condition.mem_aliasesInto]; exact .inr ⟨c, hc, ha⟩)
    rw [Group.eval, Group.eval, Condition.evalAll_congr h hcs]

theorem Condition.evalAll_congr {db : Database} {e e' : Assignment} : ∀ {cs : List Condition},
    Condition.plansOf cs = [] → (∀ c ∈ cs, e.Agree c.aliases e') →
      Condition.evalAll db cs e = Condition.evalAll db cs e'
  | [], _, _ => by rw [Condition.evalAll, Condition.evalAll]
  | c :: cs, h, he => by
    rw [Condition.plansOf, List.append_eq_nil_iff] at h
    rw [Condition.evalAll, Condition.evalAll, Condition.eval_congr h.1 (he c List.mem_cons_self),
      Condition.evalAll_congr h.2 fun c hc => he c (List.mem_cons_of_mem _ hc)]

/-- The truth value of a condition without subqueries depends on the tables that it reads. -/
theorem Condition.eval_congr {db : Database} {e e' : Assignment} : ∀ {c : Condition},
    c.plans = [] → e.Agree c.aliases e' → c.eval db e = c.eval db e'
  | .group g, h, he => by
    rw [Condition.plans] at h
    rw [Condition.aliases] at he
    rw [Condition.eval, Condition.eval, Group.eval_congr h he]
  | .column c, _, he => by
    have : e c.aliasName = e' c.aliasName := he _ (by rw [Condition.aliases]; simp)
    rw [Condition.eval, Condition.eval, Assignment.value, Assignment.value, this]
  | .raw r, _, he => by
    rw [Condition.aliases] at he
    rw [Condition.eval, Condition.eval, db.fragment_congr he]
  | .existence .., h, _ => by
    rw [Condition.plans] at h
    cases h

end

theorem Condition.holds_congr {db : Database} {e e' : Assignment} {c : Condition}
    (h : c.plans = []) (he : e.Agree c.aliases e') : c.Holds db e ↔ c.Holds db e' := by
  unfold Condition.Holds
  rw [Condition.eval_congr h he]

end EntityQuery
