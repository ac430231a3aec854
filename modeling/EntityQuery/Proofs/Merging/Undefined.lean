import EntityQuery.Proofs.Merging.Literal
import Mathlib.Logic.Relation

/-!
# Other spellings of undefined branches

An undefined branch may as well be a group that stands for nothing, at any depth, and where
undefined branches are dropped alone there may be any number of them.

* `ExpressionLiteral.Step`: an undefined branch that is spelled otherwise;
* `ExpressionLiteral.Step.resolve_eq`: it leaves what the expression stands for as it is;
* `ExpressionLiteral.uniform_resolve`: what an expression with undefined branches stands for.
-/

namespace EntityQuery

/-! ### Undefined branches -/

section

variable (r : Resolver)

mutual

/-- An undefined branch somewhere in an expression is spelled otherwise: as a group that stands for
nothing, or not at all where undefined branches are dropped alone. -/
inductive ExpressionLiteral.Step : ExpressionLiteral → ExpressionLiteral → Prop
  | dropped (op : Connective) (before after : List ConditionLiteral) :
      ExpressionLiteral.Step ⟨op, before ++ .undefined :: after, .drop⟩ ⟨op, before ++ after, .drop⟩
  | branch (op : Connective) (mode : UndefinedMode) (before after : List ConditionLiteral)
      {l l' : ConditionLiteral} (h : ConditionLiteral.Step l l') :
      ExpressionLiteral.Step ⟨op, before ++ l :: after, mode⟩ ⟨op, before ++ l' :: after, mode⟩

/-- An undefined branch is spelled otherwise, here or inside. -/
inductive ConditionLiteral.Step : ConditionLiteral → ConditionLiteral → Prop
  | void {literal : ExpressionLiteral} (h : literal.resolve r = .ok none) :
      ConditionLiteral.Step .undefined (.group literal)
  | group {l l' : ExpressionLiteral} (h : ExpressionLiteral.Step l l') :
      ConditionLiteral.Step (.group l) (.group l')

end

end

section

variable {r : Resolver} {l l' : ConditionLiteral} {before after : List ConditionLiteral}
  {op : Connective} {mode : UndefinedMode}

/-- What a branch is resolved to is all that matters of it. -/
theorem ConditionLiteral.resolveAll_congr
    (h : ConditionLiteral.resolve r l = ConditionLiteral.resolve r l') :
    ConditionLiteral.resolveAll r (before ++ l :: after) =
      ConditionLiteral.resolveAll r (before ++ l' :: after) := by
  induction before with
  | nil => rw [List.nil_append, List.nil_append, resolveAll, resolveAll, h]
  | cons b before ih => rw [List.cons_append, List.cons_append, resolveAll, resolveAll, ih]

theorem ExpressionLiteral.resolve_congr
    (h : ConditionLiteral.resolve r l = ConditionLiteral.resolve r l') :
    ExpressionLiteral.resolve r ⟨op, before ++ l :: after, mode⟩ =
      ExpressionLiteral.resolve r ⟨op, before ++ l' :: after, mode⟩ := by
  rw [resolve, resolve, ConditionLiteral.resolveAll_congr h]

/-- One more undefined branch adds no condition. -/
theorem ConditionLiteral.resolveAll_undefined :
    ConditionLiteral.resolveAll r (before ++ .undefined :: after) =
      (ConditionLiteral.resolveAll r (before ++ after)).map fun b => ⟨b.conditions, true⟩ := by
  induction before with
  | nil =>
    rw [List.nil_append, List.nil_append, resolveAll, resolve]
    cases resolveAll r after <;> rfl
  | cons b before ih =>
    rw [List.cons_append, List.cons_append, resolveAll, resolveAll, ih]
    cases resolve r b with
    | error err => rfl
    | ok c =>
      cases resolveAll r (before ++ after) with
      | error err => rfl
      | ok bs => cases c <;> rfl

/-- Where undefined branches are dropped alone, they can be left out. -/
theorem ExpressionLiteral.resolve_undefined :
    ExpressionLiteral.resolve r ⟨op, before ++ .undefined :: after, .drop⟩ =
      ExpressionLiteral.resolve r ⟨op, before ++ after, .drop⟩ := by
  rw [resolve, resolve, ConditionLiteral.resolveAll_undefined]
  cases ConditionLiteral.resolveAll r (before ++ after) with
  | error err => rfl
  | ok b =>
    show Except.ok (Branches.group? _ _ _) = Except.ok (Branches.group? _ _ _)
    rw [Branches.group?_eq, Branches.group?_eq]
    rfl

mutual

/-- Other spellings stand for the same group. -/
theorem ExpressionLiteral.Step.resolve_eq : ∀ {l l' : ExpressionLiteral},
    ExpressionLiteral.Step r l l' → l.resolve r = l'.resolve r
  | _, _, .dropped _ _ _ => ExpressionLiteral.resolve_undefined
  | _, _, .branch _ _ _ _ h => ExpressionLiteral.resolve_congr (ConditionLiteral.Step.resolve_eq h)

/-- Other spellings stand for the same condition. -/
theorem ConditionLiteral.Step.resolve_eq : ∀ {l l' : ConditionLiteral},
    ConditionLiteral.Step r l l' → ConditionLiteral.resolve r l = ConditionLiteral.resolve r l'
  | _, _, .void h => by
    rw [ConditionLiteral.resolve, ConditionLiteral.resolve, h]
    rfl
  | _, _, .group h => by
    rw [ConditionLiteral.resolve, ConditionLiteral.resolve, ExpressionLiteral.Step.resolve_eq h]

end

end

/-! ### Expressions -/

theorem ConditionLiteral.allResolve_iff {r : Resolver} {bs : List ConditionLiteral} :
    AllResolve r bs ↔ ∀ b ∈ bs, b.Resolves r := by
  induction bs with
  | nil => simp [AllResolve]
  | cons b bs ih => simp [AllResolve, ih]

theorem ConditionLiteral.anyVoid_iff {bs : List ConditionLiteral} :
    anyVoid bs = true ↔ ∃ b ∈ bs, b.isVoid = true := by
  induction bs with
  | nil => simp [anyVoid]
  | cons b bs ih => simp [anyVoid, ih]

/-- What a step leaves as it is, any number of steps leave, back and forth. -/
theorem eq_of_eqvGen {α β : Type} {r : α → α → Prop} {f : α → β} (hstep : ∀ x y, r x y → f x = f y)
    {x y : α} (h : Relation.EqvGen r x y) : f x = f y :=
  congrArg (Quot.lift f hstep) (Quot.eqvGen_sound h)

theorem ExpressionLiteral.resolve_eq_of_eqvGen {r : Resolver} {l l' : ExpressionLiteral}
    (h : Relation.EqvGen (ExpressionLiteral.Step r) l l') : l.resolve r = l'.resolve r :=
  eq_of_eqvGen (fun _ _ hstep => hstep.resolve_eq) h

/-- A branch that stands for nothing collapses its group. -/
theorem ExpressionLiteral.resolve_of_collapse {r : Resolver} {l : ExpressionLiteral}
    (h : l.Resolves r) (hmode : l.mode = .collapse)
    (hbranch : ∃ b ∈ l.branches, ConditionLiteral.resolve r b = .ok none) :
    l.resolve r = .ok none := by
  obtain ⟨op, branches, mode⟩ := l
  obtain rfl : mode = .collapse := hmode
  obtain ⟨b, hb, hnone⟩ := hbranch
  obtain ⟨c, hc, hvoid, -⟩ :=
    ConditionLiteral.exists_resolve (ConditionLiteral.allResolve_iff.1 h b hb)
  obtain rfl : c = none := Except.ok.inj (hc.symm.trans hnone)
  have hany : ConditionLiteral.anyVoid branches = true :=
    ConditionLiteral.anyVoid_iff.2 ⟨b, hb, hvoid.symm⟩
  obtain ⟨g, hg, hisVoid, -⟩ := ExpressionLiteral.exists_resolve h
  rw [isVoid, hany] at hisVoid
  rw [hg, Option.isNone_iff_eq_none.1 (hisVoid.trans (by simp))]

/-- Branches that are undefined or stand for nothing are treated alike at every depth.  They may be
spelled otherwise; where one collapses its group, the group counts as undefined; and what an
expression stands for has no empty group and is made of what the leaves outside of collapsed groups
stand for, in their order. -/
theorem ExpressionLiteral.uniform_resolve {r : Resolver} {l : ExpressionLiteral}
    (h : l.Resolves r) :
    (∀ l', Relation.EqvGen (ExpressionLiteral.Step r) l l' → l'.resolve r = l.resolve r) ∧
    (l.mode = .collapse → (∃ b ∈ l.branches, ConditionLiteral.resolve r b = .ok none) →
      l.resolve r = .ok none ∧
      (∀ op before after, ExpressionLiteral.resolve r ⟨op, before ++ .group l :: after, .drop⟩ =
        ExpressionLiteral.resolve r ⟨op, before ++ after, .drop⟩) ∧
      ∀ op mode before after, ExpressionLiteral.resolve r ⟨op, before ++ .group l :: after, mode⟩ =
        ExpressionLiteral.resolve r ⟨op, before ++ .undefined :: after, mode⟩) ∧
    ∃ g, l.resolve r = .ok g ∧ (g = none ↔ l.isVoid = true) ∧ ∀ g' ∈ g, g'.Filled ∧
      ∃ parts, List.Forall₂ (ConditionLiteral.StandsFor r) l.leaves parts ∧
        Condition.MadeOf (.group g') parts := by
  obtain ⟨g, hg, hvoid, hconvey⟩ := ExpressionLiteral.exists_resolve h
  refine ⟨fun l' hstep => ?_, fun hmode hbranch => ?_, g, hg, ?_, ?_⟩
  · exact (ExpressionLiteral.resolve_eq_of_eqvGen hstep).symm
  · have hnone := ExpressionLiteral.resolve_of_collapse h hmode hbranch
    have hlike : ConditionLiteral.resolve r (.group l) = ConditionLiteral.resolve r .undefined :=
      (ConditionLiteral.Step.void hnone).resolve_eq.symm
    refine ⟨hnone, fun op before after => ?_, fun op mode before after => ?_⟩
    · exact (ExpressionLiteral.resolve_congr hlike).trans ExpressionLiteral.resolve_undefined
    · exact ExpressionLiteral.resolve_congr hlike
  · rw [← hvoid, Option.isNone_iff_eq_none]
  · rintro g' rfl
    refine ⟨hconvey.filled _ (List.mem_singleton_self _), ?_⟩
    obtain ⟨parts, hparts, hleaves⟩ := hconvey.madeOf
    cases hparts with
    | cons hmade hnil =>
      cases hnil
      rw [List.flatten_singleton] at hleaves
      exact ⟨_, hleaves, hmade⟩

/-! ### Authors by age and name -/

/-- One of two names, if both are given. -/
def namesGiven (branch : ConditionLiteral) : ExpressionLiteral :=
  ⟨.or, [.column "a" "first_name" (.eq (.text "Jane")), branch], .collapse⟩

/-- Authors of an age, with one of two names of which one is not given, who have this text. -/
def agedAuthors (before : List ConditionLiteral) (name : ConditionLiteral) : ExpressionLiteral :=
  ⟨.and, before ++ [.column "a" "age" (.isIn [.int 40, .null]), .group (namesGiven name),
    .group ⟨.or, [.undefined, .raw ["a"] "a.age > a.id" []], .drop⟩], .drop⟩

/-- A group of undefined branches may stand for the missing name, and one more undefined branch in
front; either way the names go, and age and text are left. -/
theorem ExpressionLiteral.uniform_resolve_authors :
    (agedAuthors [] .undefined).Resolves .direct ∧
    (agedAuthors [.undefined] (.group ⟨.and, [.undefined], .drop⟩)).resolve .direct =
      (agedAuthors [] .undefined).resolve .direct ∧
    (namesGiven .undefined).resolve .direct = .ok none ∧
    ∃ g, (agedAuthors [] .undefined).resolve .direct = .ok (some g) ∧ g.Filled ∧
      ∃ parts, List.Forall₂ (ConditionLiteral.StandsFor .direct)
        [.column "a" "age" (.isIn [.int 40, .null]), .raw ["a"] "a.age > a.id" []] parts ∧
          Condition.MadeOf (.group g) parts := by
  have hnames : (namesGiven .undefined).Resolves .direct := ⟨⟨_, rfl⟩, trivial, trivial⟩
  have hauthors : (agedAuthors [] .undefined).Resolves .direct :=
    ⟨⟨_, rfl⟩, hnames, ⟨trivial, ⟨_, rfl⟩, trivial⟩, trivial⟩
  have hname : ConditionLiteral.Step .direct (.group (namesGiven .undefined))
      (.group (namesGiven (.group ⟨.and, [.undefined], .drop⟩))) :=
    .group (.branch .or .collapse [_] [] (.void rfl))
  have hinside : ExpressionLiteral.Step .direct (agedAuthors [] .undefined)
      (agedAuthors [] (.group ⟨.and, [.undefined], .drop⟩)) :=
    .branch .and .drop [_] [_] hname
  have hfront : ExpressionLiteral.Step .direct
      (agedAuthors [.undefined] (.group ⟨.and, [.undefined], .drop⟩))
      (agedAuthors [] (.group ⟨.and, [.undefined], .drop⟩)) := .dropped .and [] _
  obtain ⟨hsame, -, g, hg, hvoid, hleft⟩ := uniform_resolve hauthors
  refine ⟨hauthors, ?_, ?_, ?_⟩
  · exact hsame _ (.trans _ _ _ (.rel _ _ hinside) (.symm _ _ (.rel _ _ hfront)))
  · exact ((uniform_resolve hnames).2.1 rfl ⟨.undefined, by simp [namesGiven], rfl⟩).1
  · obtain ⟨g, rfl⟩ := Option.ne_none_iff_exists'.1 fun hnone => nomatch hvoid.1 hnone
    exact ⟨g, hg, hleft g rfl⟩

end EntityQuery
