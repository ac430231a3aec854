import EntityQuery.Plan.Conjunction
import EntityQuery.Proofs.Evaluation.Truth
import EntityQuery.Proofs.Failure.Basic

/-!
# Expressions with undefined branches

A branch of an expression over user aliases may be undefined, and so may what is left of a group.
What an expression asks for is said here without the group that it is resolved to.

* `ExpressionLiteral.isVoid`, `ExpressionLiteral.leaves`: whether anything is left of an expression,
  and its leaves outside of groups that collapse;
* `ColumnCondition.truth`, `ExpressionLiteral.truth?`: the truth value that is asked for;
* `ColumnCondition.eval_split`: a predicate on a column is true where it is asked to be;
* `Condition.MadeOf`: the parts of a condition in document order;
* `ExpressionLiteral.exists_resolve`: the group of an expression whose leaves can be resolved.
-/

namespace EntityQuery

/-! ### What is left of an expression -/

mutual

/-- Nothing is left of the expression: no branch is defined, or one is not and collapses it. -/
def ExpressionLiteral.isVoid : ExpressionLiteral → Bool
  | ⟨_, branches, mode⟩ =>
    ConditionLiteral.allVoid branches || (mode = .collapse && ConditionLiteral.anyVoid branches)

/-- One of the branches is undefined. -/
def ConditionLiteral.anyVoid : List ConditionLiteral → Bool
  | [] => false
  | b :: rest => b.isVoid || ConditionLiteral.anyVoid rest

/-- All branches are undefined. -/
def ConditionLiteral.allVoid : List ConditionLiteral → Bool
  | [] => true
  | b :: rest => b.isVoid && ConditionLiteral.allVoid rest

/-- The branch is undefined, or a group of which nothing is left. -/
def ConditionLiteral.isVoid : ConditionLiteral → Bool
  | .undefined => true
  | .column _ _ _ => false
  | .raw _ _ _ => false
  | .group literal => literal.isVoid

end

mutual

/-- The leaves of an expression in document order, but for those of groups that collapse. -/
def ExpressionLiteral.leaves : ExpressionLiteral → List ConditionLiteral
  | ⟨_, branches, mode⟩ =>
    if mode = .collapse && ConditionLiteral.anyVoid branches then []
    else ConditionLiteral.leavesOf branches

/-- The leaves of branches. -/
def ConditionLiteral.leavesOf : List ConditionLiteral → List ConditionLiteral
  | [] => []
  | b :: rest => b.leaves ++ ConditionLiteral.leavesOf rest

/-- The leaves of a branch. -/
def ConditionLiteral.leaves : ConditionLiteral → List ConditionLiteral
  | .undefined => []
  | .group literal => literal.leaves
  | leaf => [leaf]

end

section

variable (r : Resolver)

mutual

/-- Every leaf of the expression stands for something, those of groups that collapse included. -/
def ExpressionLiteral.Resolves : ExpressionLiteral → Prop
  | ⟨_, branches, _⟩ => ConditionLiteral.AllResolve branches

def ConditionLiteral.AllResolve : List ConditionLiteral → Prop
  | [] => True
  | b :: rest => b.Resolves ∧ ConditionLiteral.AllResolve rest

/-- Every leaf of the branch stands for something. -/
def ConditionLiteral.Resolves : ConditionLiteral → Prop
  | .undefined => True
  | .column aliasName field predicate => ∃ c, r.column aliasName field predicate = .ok c
  | .raw aliases sql bindings => ∃ c, r.raw aliases sql bindings = .ok c
  | .group literal => literal.Resolves

end

/-- What a leaf stands for. -/
inductive ConditionLiteral.StandsFor : ConditionLiteral → Condition → Prop
  | column {aliasName field : String} {predicate : Predicate} {c : ColumnCondition}
      (h : r.column aliasName field predicate = .ok c) :
      StandsFor (.column aliasName field predicate) c.split
  | raw {aliases : List String} {sql : String} {bindings : List Value} {c : RawCondition}
      (h : r.raw aliases sql bindings = .ok c) : StandsFor (.raw aliases sql bindings) (.raw c)

end

/-! ### Truth values -/

/-- The truth value that is asked of a column.  A list with null asks for null besides the values,
or excludes it with them, and is decided for every value of the column. -/
def ColumnCondition.truth (db : Database) (e : Assignment) (c : ColumnCondition) : Option Bool :=
  let v := e.value ⟨c.aliasName, c.column⟩
  match c.predicate with
  | .isIn vs =>
    if vs.any Value.isNull then some (v.isNull || vs.any fun w => decide (v.Equals w))
    else c.predicate.eval db v
  | .notIn vs =>
    if vs.any Value.isNull then some (!v.isNull && vs.all fun w => !decide (v.Equals w))
    else c.predicate.eval db v
  | _ => c.predicate.eval db v

section

variable (r : Resolver) (db : Database) (e : Assignment)

mutual

/-- The truth value that an expression asks for, if anything is left of it. -/
def ExpressionLiteral.truth? : ExpressionLiteral → Option (Option Bool)
  | ⟨op, branches, mode⟩ =>
    if ExpressionLiteral.isVoid ⟨op, branches, mode⟩ then none
    else some (op.combine (ConditionLiteral.truths branches))

/-- The truth values of the branches that are defined. -/
def ConditionLiteral.truths : List ConditionLiteral → List (Option Bool)
  | [] => []
  | b :: rest => b.truth?.toList ++ ConditionLiteral.truths rest

/-- The truth value that a branch asks for. -/
def ConditionLiteral.truth? : ConditionLiteral → Option (Option Bool)
  | .undefined => none
  | .column aliasName field predicate =>
    (r.column aliasName field predicate).toOption.map (·.truth db e)
  | .raw aliases sql bindings => (r.raw aliases sql bindings).toOption.map (db.fragment · e)
  | .group literal => literal.truth?

end

end

section

variable {db : Database} {e : Assignment}

theorem Value.not_equals_null_right (v : Value) : ¬ v.Equals .null := by
  cases v <;> simp [Equals, compare?]

/-- Null equals nothing, so it can be left out of a list. -/
theorem Value.any_equals_withoutNulls {v : Value} {vs : List Value} :
    ((withoutNulls vs).any fun w => decide (v.Equals w)) = vs.any fun w => decide (v.Equals w) := by
  rw [withoutNulls, List.any_filter]
  congr 1
  funext w
  cases w with
  | null => simp [Value.not_equals_null_right]
  | _ => rfl

/-- Membership in a list without its nulls is decided for every value but null. -/
theorem Value.among?_withoutNulls {v : Value} {vs : List Value} (hv : v.isNull = false) :
    v.among? (withoutNulls vs) = some (vs.any fun w => decide (v.Equals w)) := by
  have hnulls : (withoutNulls vs).any Value.isNull = false := by
    simp [withoutNulls, List.any_filter]
  rw [among?, hv, any_equals_withoutNulls, hnulls]
  cases vs.any fun w => decide (v.Equals w) <;> rfl

/-- To be null or a member is to be null or equal to a listed value. -/
theorem Value.combine_or_among? {v : Value} {vs : List Value} :
    Connective.combine .or [some v.isNull, v.among? (withoutNulls vs)] =
      some (v.isNull || vs.any fun w => decide (v.Equals w)) := by
  cases hv : v.isNull with
  | true =>
    cases v.among? (withoutNulls vs) with
    | none => rfl
    | some b => cases b <;> rfl
  | false =>
    rw [among?_withoutNulls hv]
    cases vs.any fun w => decide (v.Equals w) <;> rfl

/-- To be neither null nor a member is to be no null and to differ from all listed values. -/
theorem Value.combine_and_among? {v : Value} {vs : List Value} :
    Connective.combine .and [some !v.isNull, (v.among? (withoutNulls vs)).map (!·)] =
      some (!v.isNull && vs.all fun w => !decide (v.Equals w)) := by
  rw [← List.not_any_eq_all_not]
  cases hv : v.isNull with
  | true =>
    cases v.among? (withoutNulls vs) with
    | none => rfl
    | some b => cases b <;> rfl
  | false =>
    rw [among?_withoutNulls hv]
    cases vs.any fun w => decide (v.Equals w) <;> rfl

/-- A predicate is split into what is asked for. -/
theorem ColumnCondition.eval_split {c : ColumnCondition} : c.split.eval db e = c.truth db e := by
  obtain ⟨a, column, ty, p, pruneable⟩ := c
  -- without other values there is nothing that could be equal
  have hnone : ∀ {vs : List Value}, withoutNulls vs = [] →
      (vs.any fun w => decide ((e.value ⟨a, column⟩).Equals w)) = false := fun hrest => by
    rw [← Value.any_equals_withoutNulls, hrest, List.any_nil]
  unfold split truth
  cases p with
  | isIn vs =>
    dsimp only
    split_ifs with hnull
    · split
      · next hrest =>
        rw [hnone hrest, Bool.or_false]
        rfl
      · exact Condition.eval_group.trans Value.combine_or_among?
    · rfl
  | notIn vs =>
    dsimp only
    split_ifs with hnull
    · split
      · next hrest =>
        rw [← List.not_any_eq_all_not, hnone hrest, Bool.not_false, Bool.and_true]
        rfl
      · exact Condition.eval_group.trans Value.combine_and_among?
    · rfl
  | _ => rfl

end

/-! ### Groups -/

mutual

/-- Neither the group nor any group inside it is empty. -/
def Group.Filled : Group → Prop
  | ⟨_, conditions⟩ => conditions ≠ [] ∧ Condition.AllFilled conditions

def Condition.AllFilled : List Condition → Prop
  | [] => True
  | c :: rest => c.Filled ∧ Condition.AllFilled rest

/-- No group inside the condition is empty. -/
def Condition.Filled : Condition → Prop
  | .group g => g.Filled
  | _ => True

end

/-- The condition is made of these parts, in this order, and of nothing else. -/
inductive Condition.MadeOf : Condition → List Condition → Prop
  | part (c : Condition) : MadeOf c [c]
  | group {op : Connective} {cs : List Condition} {parts : List (List Condition)}
      (h : List.Forall₂ MadeOf cs parts) : MadeOf (.group ⟨op, cs⟩) parts.flatten

theorem Condition.allFilled_iff {cs : List Condition} : AllFilled cs ↔ ∀ c ∈ cs, c.Filled := by
  induction cs with
  | nil => simp [AllFilled]
  | cons c cs ih => simp [AllFilled, ih]

theorem Condition.filled_split {c : ColumnCondition} : c.split.Filled := by
  unfold ColumnCondition.split
  split
  · split_ifs
    · split
      · exact trivial
      · exact ⟨List.cons_ne_nil _ _, trivial, trivial, trivial⟩
    · exact trivial
  · split_ifs
    · split
      · exact trivial
      · exact ⟨List.cons_ne_nil _ _, trivial, trivial, trivial⟩
    · exact trivial
  · exact trivial

/-- Nothing is left of the branches when there is no condition, or when one is undefined and
collapses the group. -/
theorem Branches.group?_eq {b : Branches} {op : Connective} {mode : UndefinedMode} :
    b.group? op mode =
      if b.conditions.isEmpty || (mode = .collapse && b.sawUndefined) then none
      else some ⟨op, b.conditions⟩ := by
  obtain ⟨cs, undefined⟩ := b
  cases mode <;> cases undefined <;> cases cs <;> rfl

/-- The conditions are what these leaves stand for, and have these truth values. -/
structure Condition.Convey (r : Resolver) (leaves : List ConditionLiteral)
    (truths : Database → Assignment → List (Option Bool)) (cs : List Condition) : Prop where
  filled : ∀ c ∈ cs, c.Filled
  madeOf : ∃ parts, List.Forall₂ MadeOf cs parts ∧
    List.Forall₂ (ConditionLiteral.StandsFor r) leaves parts.flatten
  truths : ∀ db e, cs.map (·.eval db e) = truths db e

namespace Condition.Convey

variable {r : Resolver} {leaves leaves' : List ConditionLiteral}
  {truths truths' : Database → Assignment → List (Option Bool)} {cs cs' : List Condition}

theorem nil : Convey r [] (fun _ _ => []) [] where
  filled := nofun
  madeOf := ⟨[], .nil, .nil⟩
  truths _ _ := rfl

theorem append (h : Convey r leaves truths cs) (h' : Convey r leaves' truths' cs') :
    Convey r (leaves ++ leaves') (fun db e => truths db e ++ truths' db e) (cs ++ cs') where
  filled := List.forall_mem_append.2 ⟨h.filled, h'.filled⟩
  madeOf := by
    obtain ⟨parts, hparts, hleaves⟩ := h.madeOf
    obtain ⟨parts', hparts', hleaves'⟩ := h'.madeOf
    refine ⟨parts ++ parts', List.rel_append hparts hparts', ?_⟩
    rw [List.flatten_append]
    exact List.rel_append hleaves hleaves'
  truths db e := by rw [List.map_append, h.truths, h'.truths]

/-- A leaf is translated whole. -/
theorem leaf {l : ConditionLiteral} {c : Condition} {v : Database → Assignment → Option Bool}
    (hl : l.StandsFor r c) (hc : c.Filled) (hv : ∀ db e, c.eval db e = v db e) :
    Convey r [l] (fun db e => [v db e]) [c] where
  filled := List.forall_mem_singleton.2 hc
  madeOf := ⟨[[c]], .cons (.part c) .nil, .cons hl .nil⟩
  truths db e := by rw [List.map_singleton, hv]

/-- A group conveys what its conditions do. -/
theorem group {op : Connective} (h : Convey r leaves truths cs) (hne : cs ≠ []) :
    Convey r leaves (fun db e => [op.combine (truths db e)]) [.group ⟨op, cs⟩] where
  filled := List.forall_mem_singleton.2 ⟨hne, allFilled_iff.2 h.filled⟩
  madeOf := by
    obtain ⟨parts, hparts, hleaves⟩ := h.madeOf
    refine ⟨[parts.flatten], .cons (.group hparts) .nil, ?_⟩
    rwa [List.flatten_singleton]
  truths db e := by rw [List.map_singleton, eval_group, h.truths]

/-- Where there is no condition, there is no leaf. -/
theorem leaves_eq_nil (h : Convey r leaves truths []) : leaves = [] := by
  obtain ⟨parts, hparts, hleaves⟩ := h.madeOf
  cases hparts
  cases hleaves
  rfl

end Condition.Convey

section

variable {r : Resolver}

mutual

/-- An expression whose leaves can be resolved stands for a group unless nothing is left of it. -/
theorem ExpressionLiteral.exists_resolve : ∀ {l : ExpressionLiteral}, l.Resolves r →
    ∃ g, l.resolve r = .ok g ∧ g.isNone = l.isVoid ∧
      Condition.Convey r l.leaves (fun db e => (l.truth? r db e).toList) (g.map .group).toList
  | ⟨op, branches, mode⟩, h => by
    obtain ⟨b, hb, hundefined, hempty, hconvey⟩ := ConditionLiteral.exists_resolveAll h
    refine ⟨b.group? op mode, ?_, ?_⟩
    · rw [ExpressionLiteral.resolve, hb]
      rfl
    · rw [Branches.group?_eq, hempty, hundefined, ← ExpressionLiteral.isVoid]
      have htruth : ∀ db e, ExpressionLiteral.truth? r db e ⟨op, branches, mode⟩ =
          if ExpressionLiteral.isVoid ⟨op, branches, mode⟩ then none
          else some (op.combine (ConditionLiteral.truths r db e branches)) := fun _ _ => by
        rw [ExpressionLiteral.truth?]
      cases hvoid : ExpressionLiteral.isVoid ⟨op, branches, mode⟩ with
      | true =>
        simp only [htruth, hvoid, if_true]
        have hleaves : ExpressionLiteral.leaves ⟨op, branches, mode⟩ = [] := by
          rw [ExpressionLiteral.leaves]
          split_ifs with hcollapse
          · rfl
          · rw [ExpressionLiteral.isVoid, Bool.or_eq_true] at hvoid
            rw [List.isEmpty_iff.1 (hempty.trans (hvoid.resolve_right hcollapse))] at hconvey
            exact hconvey.leaves_eq_nil
        rw [hleaves]
        exact ⟨rfl, .nil⟩
      | false =>
        simp only [htruth, hvoid]
        rw [ExpressionLiteral.isVoid, Bool.or_eq_false_iff] at hvoid
        rw [ExpressionLiteral.leaves, hvoid.2]
        exact ⟨rfl, hconvey.group fun hnil => by simp [hnil, hvoid.1] at hempty⟩

theorem ConditionLiteral.exists_resolveAll : ∀ {bs : List ConditionLiteral},
    ConditionLiteral.AllResolve r bs →
    ∃ b, ConditionLiteral.resolveAll r bs = .ok b ∧
      b.sawUndefined = ConditionLiteral.anyVoid bs ∧
      b.conditions.isEmpty = ConditionLiteral.allVoid bs ∧
      Condition.Convey r (ConditionLiteral.leavesOf bs)
        (fun db e => ConditionLiteral.truths r db e bs) b.conditions
  | [], _ => ⟨⟨[], false⟩, rfl, rfl, rfl, .nil⟩
  | l :: ls, h => by
    obtain ⟨c, hc, hvoid, hfirst⟩ := ConditionLiteral.exists_resolve h.1
    obtain ⟨b, hb, hundefined, hempty, hrest⟩ := ConditionLiteral.exists_resolveAll h.2
    refine ⟨b.cons c, ?_, ?_, ?_, ?_⟩
    · rw [ConditionLiteral.resolveAll, hc, hb]
      rfl
    · rw [ConditionLiteral.anyVoid, ← hvoid, ← hundefined]
      cases c <;> rfl
    · rw [ConditionLiteral.allVoid, ← hvoid, ← hempty]
      cases c <;> rfl
    · cases c <;> exact hfirst.append hrest

/-- A branch stands for a condition unless it is undefined. -/
theorem ConditionLiteral.exists_resolve : ∀ {l : ConditionLiteral}, l.Resolves r →
    ∃ c, ConditionLiteral.resolve r l = .ok c ∧ c.isNone = l.isVoid ∧
      Condition.Convey r l.leaves (fun db e => (l.truth? r db e).toList) c.toList
  | .undefined, _ => ⟨none, rfl, rfl, .nil⟩
  | .column _ _ _, ⟨c, hc⟩ => by
    refine ⟨some c.split, ?_, rfl, ?_⟩
    · rw [ConditionLiteral.resolve, hc]
      rfl
    · simp only [ConditionLiteral.truth?, hc, Except.toOption, Option.map_some, Option.toList_some]
      exact .leaf (.column hc) Condition.filled_split fun _ _ => ColumnCondition.eval_split
  | .raw _ _ _, ⟨c, hc⟩ => by
    refine ⟨some (.raw c), ?_, rfl, ?_⟩
    · rw [ConditionLiteral.resolve, hc]
      rfl
    · simp only [ConditionLiteral.truth?, hc, Except.toOption, Option.map_some, Option.toList_some]
      exact .leaf (.raw hc) trivial fun _ _ => rfl
  | .group literal, h => by
    obtain ⟨g, hg, hvoid, hconvey⟩ := ExpressionLiteral.exists_resolve (l := literal) h
    refine ⟨g.map .group, ?_, ?_, hconvey⟩
    · rw [ConditionLiteral.resolve, hg]
      rfl
    · rw [ConditionLiteral.isVoid, ← hvoid, Option.isNone_map]

end

end

/-- Leaves stand for themselves. -/
def Resolver.direct : Resolver :=
  ⟨fun aliasName field predicate => .ok (.asked aliasName field "int" predicate),
    fun aliases sql bindings => .ok ⟨aliases, sql, bindings, false⟩⟩

end EntityQuery
