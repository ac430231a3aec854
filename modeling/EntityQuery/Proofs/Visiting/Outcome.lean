import EntityQuery.Plan.Visit
import EntityQuery.Proofs.Failure.Basic
import Mathlib.Data.List.Forall2
import Mathlib.Data.List.ReduceOption
import Mathlib.Data.Option.Basic

/-!
# What a visit does

A visit carries out the answers of the visitor in one pass.  The groups that belong to no other group
can only be kept; everything else is kept, replaced or deleted where it stands, and what is put there
is not looked at again.

* `Plan.Reaches`, `Plan.Root`: the plans that a visit comes to, and the groups at their tops;
* `Plan.Presents`, `Plan.nodes`: the nodes that a visitor is shown, and their order;
* `Plan.Rewritten`: the plan with the answers carried out;
* `VisitEnds`: a visit that stops at a group or passes all of them;
* `Plan.visit_faithful`: a visit stops exactly if a group at a top is not kept, and is faithful otherwise.
-/

namespace EntityQuery

/-! ### The plans and groups that a visit comes to -/

/-- The group is the condition at the top of the plan or under an aggregate. -/
def Plan.HasRoot (p : Plan) (g : Group) : Prop :=
  p.condition = some g ∨ ∃ name, .boolOr g name ∈ p.selects

/-- The condition is below the group, which is kept, and so are the groups in between. -/
inductive Group.Reaches (v : Visitor) : Group → Condition → Prop
  | here {g : Group} {c : Condition} (hkeep : v.group g = .keep) (hc : c ∈ g.conditions) :
      Reaches v g c
  | inside {g h : Group} {c : Condition} (hkeep : v.group g = .keep) (hh : .group h ∈ g.conditions)
      (hc : h.Reaches v c) : Reaches v g c

/-- The plan is the other one or inside it, and not below a group that is replaced or deleted. -/
inductive Plan.Reaches (v : Visitor) : Plan → Plan → Prop
  | self {p : Plan} : Reaches v p p
  | lateral {p q r : Plan} {aliasName fromAlias : String}
      (ht : .lateral aliasName fromAlias q ∈ p.tables) (h : q.Reaches v r) : Reaches v p r
  | existence {p q r : Plan} {g : Group} {negate : Bool} {outerAliases : List String}
      (hg : p.HasRoot g) (hc : g.Reaches v (.existence q negate outerAliases))
      (h : q.Reaches v r) : Reaches v p r

/-- A visit of the plan comes to the group, which belongs to no other one. -/
def Plan.Root (v : Visitor) (p : Plan) (g : Group) : Prop := ∃ q, p.Reaches v q ∧ q.HasRoot g

/-- The node that a visitor is shown for a condition. -/
def Condition.node? : Condition → Option Node
  | .group g => some (.group g)
  | .column c => some (.column c)
  | .raw r => some (.raw r)
  | .existence .. => none

/-- The node is the group, or below it and not below a group that is replaced or deleted. -/
def Group.Presents (v : Visitor) (g : Group) (n : Node) : Prop :=
  n = .group g ∨ ∃ c, g.Reaches v c ∧ c.node? = some n

/-- The node is in the plan or a plan inside it, and not below a group that is replaced or deleted. -/
def Plan.Presents (v : Visitor) (p : Plan) (n : Node) : Prop := ∃ g, p.Root v g ∧ g.Presents v n

/-! ### The nodes that are shown -/

mutual

/-- The nodes that are not below a group that is replaced or deleted, as they stand in the plan: those
of its condition, of the plans inside its tables, and of its aggregates. -/
def Plan.nodes (v : Visitor) : Plan → List Node
  | ⟨selects, tables, condition, _, _, _⟩ =>
    Group.nodesTop v condition ++ Table.nodes v tables ++ Select.nodes v selects

def Group.nodesTop (v : Visitor) : Option Group → List Node
  | none => []
  | some g => g.nodes v

def Group.nodes (v : Visitor) : Group → List Node
  | ⟨op, conditions⟩ => .group ⟨op, conditions⟩ ::
    match v.group ⟨op, conditions⟩ with
    | .keep => Condition.nodesAll v conditions
    | _ => []

def Condition.nodesAll (v : Visitor) : List Condition → List Node
  | [] => []
  | c :: rest => c.nodes v ++ Condition.nodesAll v rest

def Condition.nodes (v : Visitor) : Condition → List Node
  | .column c => [.column c]
  | .raw r => [.raw r]
  | .group g => g.nodes v
  | .existence query _ _ => query.nodes v

def Table.nodes (v : Visitor) : List Table → List Node
  | [] => []
  | .lateral _ _ query :: rest => query.nodes v ++ Table.nodes v rest
  | _ :: rest => Table.nodes v rest

def Select.nodes (v : Visitor) : List Select → List Node
  | [] => []
  | .boolOr g _ :: rest => g.nodes v ++ Select.nodes v rest
  | _ :: rest => Select.nodes v rest

end

/-! ### The plan after a visit -/

/-- What an answer leaves of a condition. -/
def Action.left (c : Condition) : Action → Option Condition
  | .keep => some c
  | .replace r => some r
  | .delete => none

theorem Action.apply_eq {a : Action} {c : Condition} : a.apply c = (a.left c).toList := by
  cases a <;> rfl

mutual

/-- The conditions are those that are left, and everything else is as it was. -/
inductive Plan.Rewritten (v : Visitor) : Plan → Plan → Prop
  | intro {p q : Plan} (condition : Option.Rel (Group.Rewritten v) p.condition q.condition)
      (tables : List.Forall₂ (Table.Rewritten v) p.tables q.tables)
      (selects : List.Forall₂ (Select.Rewritten v) p.selects q.selects)
      (sortKeys : q.sortKeys = p.sortKeys) (groupBys : q.groupBys = p.groupBys)
      (ctes : q.ctes = p.ctes) : Plan.Rewritten v p q

/-- Each condition becomes what is left of it, and the conditions keep their order. -/
inductive Group.Rewritten (v : Visitor) : Group → Group → Prop
  | intro {op : Connective} {conditions : List Condition} {left : List (Option Condition)}
      (h : List.Forall₂ (Condition.Leaves v) conditions left) :
      Group.Rewritten v ⟨op, conditions⟩ ⟨op, left.reduceOption⟩

/-- What is left of a condition: inside a group that is kept and inside a subquery, the answers are
carried out. -/
inductive Condition.Leaves (v : Visitor) : Condition → Option Condition → Prop
  | column (c : ColumnCondition) : Condition.Leaves v (.column c) ((v.column c).left (.column c))
  | raw (r : RawCondition) : Condition.Leaves v (.raw r) ((v.raw r).left (.raw r))
  | answered {g : Group} (h : v.group g ≠ .keep) :
      Condition.Leaves v (.group g) ((v.group g).left (.group g))
  | kept {g g' : Group} (hkeep : v.group g = .keep) (h : Group.Rewritten v g g') :
      Condition.Leaves v (.group g) (some (.group g'))
  | existence {query query' : Plan} {negate : Bool} {outerAliases : List String}
      (h : Plan.Rewritten v query query') :
      Condition.Leaves v (.existence query negate outerAliases)
        (some (.existence query' negate outerAliases))

/-- Only a subquery is changed. -/
inductive Table.Rewritten (v : Visitor) : Table → Table → Prop
  | same {t : Table} (h : t.plans = []) : Table.Rewritten v t t
  | lateral {aliasName fromAlias : String} {query query' : Plan} (h : Plan.Rewritten v query query') :
      Table.Rewritten v (.lateral aliasName fromAlias query) (.lateral aliasName fromAlias query')

/-- Only the condition of an aggregate is changed. -/
inductive Select.Rewritten (v : Visitor) : Select → Select → Prop
  | same {s : Select} (h : ∀ g name, s ≠ .boolOr g name) : Select.Rewritten v s s
  | boolOr {g g' : Group} {name : String} (h : Group.Rewritten v g g') :
      Select.Rewritten v (.boolOr g name) (.boolOr g' name)

end

/-! ### Groups at the top -/

section

variable {v : Visitor} {r : Group} {n : Node}

/-- A visit of the group comes to the other one, at the top of a plan below it. -/
def Group.Below (v : Visitor) (g r : Group) : Prop :=
  ∃ query negate outerAliases, g.Reaches v (.existence query negate outerAliases) ∧ query.Root v r

/-- The groups at a top that a visit of a part of a plan comes to. -/
def Group.Root (v : Visitor) (g r : Group) : Prop := g = r ∨ g.Below v r

def Condition.Root (v : Visitor) (r : Group) : Condition → Prop
  | .group g => g.Below v r
  | .existence query _ _ => query.Root v r
  | _ => False

def Table.Root (v : Visitor) (r : Group) : Table → Prop
  | .lateral _ _ query => query.Root v r
  | _ => False

def Select.Root (v : Visitor) (r : Group) : Select → Prop
  | .boolOr g _ => g.Root v r
  | _ => False

theorem Group.below_iff {op : Connective} {conditions : List Condition}
    (hkeep : v.group ⟨op, conditions⟩ = .keep) :
    Group.Below v ⟨op, conditions⟩ r ↔ ∃ c ∈ conditions, c.Root v r := by
  constructor
  · rintro ⟨query, negate, outerAliases, hreach, hquery⟩
    cases hreach with
    | here _ hc => exact ⟨_, hc, hquery⟩
    | inside _ hh hc => exact ⟨_, hh, query, negate, outerAliases, hc, hquery⟩
  · rintro ⟨c, hc, hroot⟩
    cases c with
    | group h =>
      obtain ⟨query, negate, outerAliases, hreach, hquery⟩ := hroot
      exact ⟨query, negate, outerAliases, .inside hkeep hc hreach, hquery⟩
    | existence query negate outerAliases =>
      exact ⟨query, negate, outerAliases, .here hkeep hc, hroot⟩
    | column => exact hroot.elim
    | raw => exact hroot.elim

/-- Below a group that is not kept a visit comes to nothing. -/
theorem Group.not_reaches {g : Group} (h : v.group g ≠ .keep) (c : Condition) : ¬ g.Reaches v c := by
  rintro (⟨hkeep, -⟩ | ⟨hkeep, -, -⟩) <;> exact h hkeep

theorem Group.not_below {g : Group} (h : v.group g ≠ .keep) : ¬ g.Below v r :=
  fun ⟨_, _, _, hreach, _⟩ => not_reaches h _ hreach

theorem Plan.HasRoot.root {p : Plan} {g : Group} (hg : p.HasRoot g) (h : g.Root v r) : p.Root v r := by
  rcases h with rfl | ⟨query, negate, outerAliases, hreach, q, hq, hr⟩
  · exact ⟨p, .self, hg⟩
  · exact ⟨q, .existence hg hreach hq, hr⟩

theorem Plan.root_iff {p : Plan} : p.Root v r ↔ (∃ g, p.condition = some g ∧ g.Root v r) ∨
    (∃ t ∈ p.tables, t.Root v r) ∨ ∃ s ∈ p.selects, s.Root v r := by
  constructor
  · rintro ⟨q, hq, hr⟩
    have htop : ∀ {g}, p.HasRoot g → g.Root v r → (∃ g, p.condition = some g ∧ g.Root v r) ∨
        (∃ t ∈ p.tables, t.Root v r) ∨ ∃ s ∈ p.selects, s.Root v r := by
      rintro g (hg | ⟨name, hg⟩) hroot
      · exact .inl ⟨g, hg, hroot⟩
      · exact .inr (.inr ⟨_, hg, hroot⟩)
    cases hq with
    | self => exact htop hr (.inl rfl)
    | lateral ht h => exact .inr (.inl ⟨_, ht, q, h, hr⟩)
    | existence hg hc h => exact htop hg (.inr ⟨_, _, _, hc, q, h, hr⟩)
  · rintro (⟨g, hg, hroot⟩ | ⟨t, ht, hroot⟩ | ⟨s, hs, hroot⟩)
    · exact HasRoot.root (.inl hg) hroot
    · cases t with
      | lateral aliasName fromAlias query =>
        obtain ⟨q, hq, hr⟩ := hroot
        exact ⟨q, .lateral ht hq, hr⟩
      | _ => exact hroot.elim
    · cases s with
      | boolOr g name => exact HasRoot.root (.inr ⟨name, hs⟩) hroot
      | _ => exact hroot.elim

/-! ### One pass -/

/-- The visit stops at one of the groups, or keeps all of them and has such a result. -/
def VisitEnds {α : Type} (v : Visitor) (root : Group → Prop) (done : α → Prop) :
    Except PlanError α → Prop
  | .error err => ∃ g, root g ∧ v.group g ≠ .keep ∧ err = .rootReplacement g.op.name
  | .ok a => (∀ g, root g → v.group g = .keep) ∧ done a

namespace VisitEnds

variable {α β : Type} {root root' root'' : Group → Prop} {done : α → Prop} {done' : β → Prop}
  {x : Except PlanError α} {f : α → Except PlanError β}

/-- A visit comes to the groups of its first part, then to those of the rest. -/
theorem bind (hx : VisitEnds v root done x) (hf : ∀ a, done a → VisitEnds v root' done' (f a))
    (hroot : ∀ g, root'' g ↔ root g ∨ root' g) : VisitEnds v root'' done' (x >>= f) := by
  cases x with
  | error err =>
    obtain ⟨g, hg, herr⟩ := hx
    exact ⟨g, (hroot g).2 (.inl hg), herr⟩
  | ok a =>
    obtain ⟨hkept, hdone⟩ := hx
    have hrest := hf a hdone
    rw [ok_bind]
    cases hb : f a with
    | error err =>
      rw [hb] at hrest
      obtain ⟨g, hg, herr⟩ := hrest
      exact ⟨g, (hroot g).2 (.inr hg), herr⟩
    | ok b =>
      rw [hb] at hrest
      exact ⟨fun g hg => ((hroot g).1 hg).elim (hkept g) (hrest.1 g), hrest.2⟩

theorem ok {b : β} (h : done' b) : VisitEnds v (fun _ => False) done' (.ok b) := ⟨nofun, h⟩

/-- What is made of the result does not stop a visit. -/
theorem map {g : α → β} (hx : VisitEnds v root done x) (hg : ∀ a, done a → done' (g a))
    (hroot : ∀ g, root' g ↔ root g) : VisitEnds v root' done' (x >>= fun a => .ok (g a)) :=
  hx.bind (fun a ha => .ok (hg a ha)) fun r => (hroot r).trans (or_iff_left id).symm

/-- A group that is kept stops no visit. -/
theorem of_kept {g : Group} (hkeep : v.group g = .keep) (hx : VisitEnds v root done x) :
    VisitEnds v (fun r => g = r ∨ root r) done x := by
  cases x with
  | error err =>
    obtain ⟨r, hr, herr⟩ := hx
    exact ⟨r, .inr hr, herr⟩
  | ok a => exact ⟨fun r hr => hr.elim (fun h => h ▸ hkeep) (hx.1 r), hx.2⟩

end VisitEnds

/-! ### Groups that are not kept -/

section

variable {g : Group}

theorem Group.nodes_of_ne_keep (h : v.group g ≠ .keep) : g.nodes v = [.group g] := by
  obtain ⟨op, conditions⟩ := g
  rw [Group.nodes]
  split
  · next hkeep => exact absurd hkeep h
  · rfl

theorem Group.visitRoot_of_ne_keep (h : v.group g ≠ .keep) :
    g.visitRoot v = .error (.rootReplacement g.op.name) := by
  obtain ⟨op, conditions⟩ := g
  rw [Group.visitRoot]
  split
  · next hkeep => exact absurd hkeep h
  · rfl

theorem Condition.visit_of_ne_keep (h : v.group g ≠ .keep) :
    (Condition.group g).visit v = .ok ((v.group g).apply (.group g), [.group g]) := by
  obtain ⟨op, conditions⟩ := g
  rw [Condition.visit]
  split
  · next hkeep => exact absurd hkeep h
  · rfl

end

mutual

/-- A visit of the plan stops at the groups that it may not keep. -/
theorem Plan.visit_ends : ∀ p : Plan,
    VisitEnds v (p.Root v) (fun r => r.2 = p.nodes v ∧ p.Rewritten v r.1) (p.visit v)
  | ⟨selects, tables, condition, sortKeys, groupBys, ctes⟩ => by
    rw [Plan.visit]
    refine (Group.visitTop_ends condition).bind ?_ fun g => Plan.root_iff
    rintro ⟨condition', shown⟩ ⟨rfl, hcondition⟩
    refine (Table.visitAll_ends tables).bind ?_ fun g => Iff.rfl
    rintro ⟨tables', shown'⟩ ⟨rfl, htables⟩
    refine (Select.visitAll_ends selects).map ?_ fun g => Iff.rfl
    rintro ⟨selects', shown''⟩ ⟨rfl, hselects⟩
    exact ⟨rfl, .intro hcondition htables hselects rfl rfl rfl⟩

theorem Group.visitTop_ends : ∀ g : Option Group,
    VisitEnds v (fun r => ∃ h, g = some h ∧ h.Root v r)
      (fun r => r.2 = Group.nodesTop v g ∧ Option.Rel (Group.Rewritten v) g r.1)
      (Group.visitTop v g)
  | none => ⟨by simp, rfl, Option.Rel.none⟩
  | some g => by
    refine (Group.visitRoot_ends g).map ?_ fun r => by simp
    rintro ⟨g', shown⟩ ⟨rfl, hg⟩
    exact ⟨rfl, .some hg⟩

theorem Group.visitRoot_ends : ∀ g : Group,
    VisitEnds v (g.Root v) (fun r => r.2 = g.nodes v ∧ g.Rewritten v r.1) (g.visitRoot v)
  | ⟨op, conditions⟩ => by
    by_cases hkeep : v.group ⟨op, conditions⟩ = .keep
    · rw [Group.visitRoot, Group.nodes, hkeep]
      refine .of_kept hkeep ((Condition.visitAll_ends conditions).map ?_ fun r =>
        Group.below_iff hkeep)
      rintro ⟨conditions', shown⟩ ⟨rfl, left, hleft, rfl⟩
      exact ⟨rfl, .intro hleft⟩
    · rw [Group.visitRoot_of_ne_keep hkeep]
      exact ⟨_, .inl rfl, hkeep, rfl⟩

theorem Condition.visitAll_ends : ∀ cs : List Condition,
    VisitEnds v (fun r => ∃ c ∈ cs, c.Root v r)
      (fun r => r.2 = Condition.nodesAll v cs ∧
        ∃ left, List.Forall₂ (Condition.Leaves v) cs left ∧ r.1 = left.reduceOption)
      (Condition.visitAll v cs)
  | [] => ⟨by simp, rfl, [], .nil, rfl⟩
  | c :: cs => by
    rw [Condition.visitAll]
    refine (Condition.visit_ends c).bind ?_ fun r => List.exists_mem_cons_iff _ _ _
    rintro ⟨here, shown⟩ ⟨rfl, l, hl, rfl⟩
    refine (Condition.visitAll_ends cs).map ?_ fun r => Iff.rfl
    rintro ⟨rest, shown'⟩ ⟨rfl, left, hleft, rfl⟩
    -- a condition that is deleted leaves nothing in front of the rest
    refine ⟨rfl, l :: left, .cons hl hleft, ?_⟩
    cases l <;> rfl

theorem Condition.visit_ends : ∀ c : Condition,
    VisitEnds v (fun r => c.Root v r)
      (fun r => r.2 = c.nodes v ∧ ∃ left, c.Leaves v left ∧ r.1 = left.toList) (c.visit v)
  | .column c => ⟨nofun, rfl, _, .column c, Action.apply_eq⟩
  | .raw r => ⟨nofun, rfl, _, .raw r, Action.apply_eq⟩
  | .group ⟨op, conditions⟩ => by
    by_cases hkeep : v.group ⟨op, conditions⟩ = .keep
    · rw [Condition.visit, Condition.nodes, Group.nodes, hkeep]
      refine (Condition.visitAll_ends conditions).map ?_ fun r => Group.below_iff hkeep
      rintro ⟨conditions', shown⟩ ⟨rfl, left, hleft, rfl⟩
      exact ⟨rfl, _, .kept hkeep (.intro hleft), rfl⟩
    · rw [Condition.visit_of_ne_keep hkeep, Condition.nodes, Group.nodes_of_ne_keep hkeep]
      exact ⟨fun r h => absurd h (Group.not_below hkeep), rfl, _, .answered hkeep, Action.apply_eq⟩
  | .existence query negate outerAliases => by
    rw [Condition.visit]
    refine (Plan.visit_ends query).map ?_ fun r => Iff.rfl
    rintro ⟨query', shown⟩ ⟨rfl, hquery⟩
    exact ⟨rfl, _, .existence hquery, rfl⟩

theorem Table.visitAll_ends : ∀ ts : List Table,
    VisitEnds v (fun r => ∃ t ∈ ts, t.Root v r)
      (fun r => r.2 = Table.nodes v ts ∧ List.Forall₂ (Table.Rewritten v) ts r.1)
      (Table.visitAll v ts)
  | [] => ⟨by simp, rfl, .nil⟩
  | .lateral _ _ query :: ts => by
    rw [Table.visitAll]
    refine (Plan.visit_ends query).bind ?_ fun r => List.exists_mem_cons_iff _ _ _
    rintro ⟨query', shown⟩ ⟨rfl, hquery⟩
    refine (Table.visitAll_ends ts).map ?_ fun r => Iff.rfl
    rintro ⟨rest, shown'⟩ ⟨rfl, hrest⟩
    exact ⟨rfl, .cons (.lateral hquery) hrest⟩
  | .primary _ _ :: ts | .join _ :: ts | .cross _ _ :: ts => by
    refine (Table.visitAll_ends ts).map ?_ fun r => ?_
    · rintro ⟨rest, shown⟩ ⟨rfl, hrest⟩
      exact ⟨rfl, .cons (.same rfl) hrest⟩
    · exact (List.exists_mem_cons_iff _ _ _).trans (or_iff_right id)

theorem Select.visitAll_ends : ∀ ss : List Select,
    VisitEnds v (fun r => ∃ s ∈ ss, s.Root v r)
      (fun r => r.2 = Select.nodes v ss ∧ List.Forall₂ (Select.Rewritten v) ss r.1)
      (Select.visitAll v ss)
  | [] => ⟨by simp, rfl, .nil⟩
  | .boolOr g _ :: ss => by
    rw [Select.visitAll]
    refine (Group.visitRoot_ends g).bind ?_ fun r => List.exists_mem_cons_iff _ _ _
    rintro ⟨g', shown⟩ ⟨rfl, hg⟩
    refine (Select.visitAll_ends ss).map ?_ fun r => Iff.rfl
    rintro ⟨rest, shown'⟩ ⟨rfl, hrest⟩
    exact ⟨rfl, .cons (.boolOr hg) hrest⟩
  | .star _ :: ss | .column _ _ :: ss | .discriminator _ _ _ :: ss | .countIsZero _ :: ss
  | .raw _ _ _ :: ss => by
    refine (Select.visitAll_ends ss).map ?_ fun r => ?_
    · rintro ⟨rest, shown⟩ ⟨rfl, hrest⟩
      exact ⟨rfl, .cons (.same nofun) hrest⟩
    · exact (List.exists_mem_cons_iff _ _ _).trans (or_iff_right id)

end

/-! ### The nodes that are shown -/

/-- The nodes of a condition, and of what is below it. -/
def Condition.Presents (v : Visitor) (n : Node) (c : Condition) : Prop :=
  c.node? = some n ∨ (∃ g, c = .group g ∧ ∃ c', g.Reaches v c' ∧ c'.node? = some n) ∨
    ∃ r, c.Root v r ∧ r.Presents v n

theorem Group.presents_iff_of_keep {op : Connective} {conditions : List Condition}
    (hkeep : v.group ⟨op, conditions⟩ = .keep) : (∃ r, Group.Root v ⟨op, conditions⟩ r ∧ r.Presents v n) ↔
      n = .group ⟨op, conditions⟩ ∨ ∃ c ∈ conditions, c.Presents v n := by
  constructor
  · rintro ⟨r, rfl | hbelow, hr⟩
    · rcases hr with hr | ⟨c, ⟨-, hc⟩ | ⟨-, hh, hc⟩, hnode⟩
      · exact .inl hr
      · exact .inr ⟨c, hc, .inl hnode⟩
      · exact .inr ⟨_, hh, .inr (.inl ⟨_, rfl, c, hc, hnode⟩)⟩
    · obtain ⟨c, hc, hroot⟩ := (Group.below_iff hkeep).1 hbelow
      exact .inr ⟨c, hc, .inr (.inr ⟨r, hroot, hr⟩)⟩
  · rintro (rfl | ⟨c, hc, hnode | ⟨h, rfl, c', hc', hnode⟩ | ⟨r, hroot, hr⟩⟩)
    · exact ⟨_, .inl rfl, .inl rfl⟩
    · exact ⟨_, .inl rfl, .inr ⟨c, .here hkeep hc, hnode⟩⟩
    · exact ⟨_, .inl rfl, .inr ⟨c', .inside hkeep hc hc', hnode⟩⟩
    · exact ⟨r, .inr ((Group.below_iff hkeep).2 ⟨c, hc, hroot⟩), hr⟩

theorem Group.presents_iff_of_ne_keep {g : Group} (h : v.group g ≠ .keep) :
    (∃ r, g.Root v r ∧ r.Presents v n) ↔ n = .group g := by
  constructor
  · rintro ⟨r, rfl | hbelow, hr⟩
    · exact hr.resolve_right fun ⟨c, hc, _⟩ => Group.not_reaches h c hc
    · exact absurd hbelow (Group.not_below h)
  · rintro rfl
    exact ⟨g, .inl rfl, .inl rfl⟩

mutual

/-- The nodes of a plan are those that a visitor is shown. -/
theorem Plan.mem_nodes_iff : ∀ p : Plan, n ∈ p.nodes v ↔ p.Presents v n
  | ⟨selects, tables, condition, _, _, _⟩ => by
    simp only [Plan.nodes, List.mem_append, Group.mem_nodesTop_iff condition,
      Table.mem_nodes_iff tables, Select.mem_nodes_iff selects, Plan.Presents, Plan.root_iff, or_and_right,
      exists_or, or_assoc]

theorem Group.mem_nodesTop_iff : ∀ g : Option Group,
    n ∈ Group.nodesTop v g ↔ ∃ r, (∃ h, g = some h ∧ h.Root v r) ∧ r.Presents v n
  | none => by simp [Group.nodesTop]
  | some g => by simp [Group.nodesTop, Group.mem_nodes_iff g]

theorem Group.mem_nodes_iff : ∀ g : Group, n ∈ g.nodes v ↔ ∃ r, g.Root v r ∧ r.Presents v n
  | ⟨op, conditions⟩ => by
    by_cases hkeep : v.group ⟨op, conditions⟩ = .keep
    · rw [Group.nodes, hkeep, Group.presents_iff_of_keep hkeep, List.mem_cons,
        Condition.mem_nodesAll_iff conditions]
    · rw [Group.nodes_of_ne_keep hkeep, Group.presents_iff_of_ne_keep hkeep, List.mem_singleton]

theorem Condition.mem_nodesAll_iff : ∀ cs : List Condition,
    n ∈ Condition.nodesAll v cs ↔ ∃ c ∈ cs, c.Presents v n
  | [] => by simp [Condition.nodesAll]
  | c :: cs => by
    rw [Condition.nodesAll, List.mem_append, Condition.mem_nodes_iff c,
      Condition.mem_nodesAll_iff cs, List.exists_mem_cons_iff]

theorem Condition.mem_nodes_iff : ∀ c : Condition, n ∈ c.nodes v ↔ c.Presents v n
  | .column c => by simp [Condition.nodes, Condition.Presents, Condition.node?, Condition.Root, eq_comm]
  | .raw r => by simp [Condition.nodes, Condition.Presents, Condition.node?, Condition.Root, eq_comm]
  | .group g => by
    rw [Condition.nodes, Group.mem_nodes_iff g]
    simp [Condition.Presents, Condition.node?, Condition.Root, Group.Root, Group.Presents, or_and_right,
      exists_or, or_assoc, eq_comm]
  | .existence query _ _ => by
    simp [Condition.nodes, Condition.Presents, Condition.node?, Condition.Root, Plan.mem_nodes_iff query,
      Plan.Presents]

theorem Table.mem_nodes_iff : ∀ ts : List Table,
    n ∈ Table.nodes v ts ↔ ∃ r, (∃ t ∈ ts, t.Root v r) ∧ r.Presents v n
  | [] => by simp [Table.nodes]
  | .lateral _ _ query :: ts => by
    simp [Table.nodes, Plan.mem_nodes_iff query, Table.mem_nodes_iff ts, Plan.Presents, Table.Root,
      or_and_right, exists_or]
  | .primary _ _ :: ts | .join _ :: ts | .cross _ _ :: ts => by
    simp [Table.nodes, Table.mem_nodes_iff ts, Table.Root]

theorem Select.mem_nodes_iff : ∀ ss : List Select,
    n ∈ Select.nodes v ss ↔ ∃ r, (∃ s ∈ ss, s.Root v r) ∧ r.Presents v n
  | [] => by simp [Select.nodes]
  | .boolOr g _ :: ss => by
    simp [Select.nodes, Group.mem_nodes_iff g, Select.mem_nodes_iff ss, Select.Root, or_and_right,
      exists_or]
  | .star _ :: ss | .column _ _ :: ss | .discriminator _ _ _ :: ss | .countIsZero _ :: ss
  | .raw _ _ _ :: ss => by
    simp [Select.nodes, Select.mem_nodes_iff ss, Select.Root]

end

end

/-- A visit stops exactly if it comes to a group, at the top of a plan or under an aggregate, that is
not kept.  Otherwise each node that is not below a group that is replaced or deleted is shown once,
and the answers are carried out. -/
theorem Plan.visit_faithful (v : Visitor) (p : Plan) :
    ((∃ kind, p.visit v = .error (.rootReplacement kind)) ↔ ∃ g, p.Root v g ∧ v.group g ≠ .keep) ∧
      ((∃ g, p.Root v g ∧ v.group g ≠ .keep ∧ p.visit v = .error (.rootReplacement g.op.name)) ∨
        ∃ q, p.visit v = .ok (q, p.nodes v) ∧ p.Rewritten v q) ∧
      ∀ n, n ∈ p.nodes v ↔ p.Presents v n := by
  have hends := p.visit_ends (v := v)
  refine ⟨?_, ?_, fun n => p.mem_nodes_iff⟩
  · cases hvisit : p.visit v with
    | error err =>
      rw [hvisit] at hends
      obtain ⟨g, hg, hrefused, rfl⟩ := hends
      exact ⟨fun _ => ⟨g, hg, hrefused⟩, fun _ => ⟨_, rfl⟩⟩
    | ok r =>
      rw [hvisit] at hends
      exact ⟨nofun, fun ⟨g, hg, hrefused⟩ => absurd (hends.1 g hg) hrefused⟩
  · cases hvisit : p.visit v with
    | error err =>
      rw [hvisit] at hends
      obtain ⟨g, hg, hrefused, rfl⟩ := hends
      exact .inl ⟨g, hg, hrefused, rfl⟩
    | ok r =>
      rw [hvisit] at hends
      obtain ⟨q, shown⟩ := r
      obtain ⟨-, rfl, hq⟩ := hends
      exact .inr ⟨q, rfl, hq⟩

end EntityQuery
