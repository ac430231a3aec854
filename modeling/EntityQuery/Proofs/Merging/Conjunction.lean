import EntityQuery.Proofs.Merging.Literal

/-!
# Merging is conjunction

Conditions are added one after another, from each kind of source; the group that joins them holds
when all of them do.

* `Addition`: what is added, with the truth value that it contributes;
* `Conjuncts.add`, `Conjuncts.addAll`: one addition, and a run of them;
* `Conjuncts.Gathers`: the conditions by source after a run;
* `Conjuncts.group?_cases`: the shapes of the group that joins conditions;
* `Conjuncts.conjoined_addAll`: the group of a run is the conjunction of what was added.
-/

namespace EntityQuery

/-- What is added to conditions. -/
inductive Addition
  | column (c : ColumnCondition)
  | raw (r : RawCondition)
  | existence (query : Plan) (negate : Bool) (outerAliases : List String)
  | group (g : Group)
  /-- An expression, with what its leaves stand for. -/
  | expression (literal : ExpressionLiteral) (r : Resolver)

namespace Addition

/-- Every leaf of what is added stands for something. -/
def Resolves : Addition → Prop
  | .expression literal r => literal.Resolves r
  | _ => True

/-- It contributes nothing. -/
def isVoid : Addition → Bool
  | .expression literal _ => literal.isVoid
  | _ => false

/-- The truth value that it contributes. -/
def truth? (db : Database) (e : Assignment) : Addition → Option (Option Bool)
  | .column c => some (c.truth db e)
  | .raw r => some (db.fragment r e)
  | .existence query negate outerAliases =>
    some ((Condition.existence query negate outerAliases).eval db e)
  | .group g => some (g.eval db e)
  | .expression literal r => literal.truth? r db e

/-- The predicates on columns and the fragments of text. -/
def inlined : Addition → List Condition
  | .column c => [c.split]
  | .raw r => [.raw r]
  | _ => []

/-- The subqueries. -/
def existences : Addition → List Condition
  | .existence query negate outerAliases => [.existence query negate outerAliases]
  | _ => []

/-- The groups, those that expressions stand for among them. -/
def groups : Addition → List Group
  | .group g => [g]
  | .expression literal r => (literal.resolve r).toOption.join.toList
  | _ => []

/-- All conditions, by source. -/
def conditions (a : Addition) : List Condition :=
  a.inlined ++ a.existences ++ a.groups.map .group

end Addition

namespace Conjuncts

/-- One more condition, if it is resolved. -/
def add (cs : Conjuncts) : Addition → Except PlanError Conjuncts
  | .column c => .ok (cs.addColumn c)
  | .raw r => .ok (cs.addRaw r)
  | .existence query negate outerAliases => .ok (cs.addExistence query negate outerAliases)
  | .group g => .ok (cs.addGroup g)
  | .expression literal r => do return cs.addGroup? (← literal.resolve r)

/-- Conditions that are added one after another. -/
def addAll (additions : List Addition) : Except PlanError Conjuncts :=
  additions.foldlM add empty

/-- All conditions. -/
def conditions (cs : Conjuncts) : List Condition :=
  cs.inlined ++ cs.existences ++ cs.groups.map .group

/-- The conditions are those of the additions, in their order. -/
structure Gathers (additions : List Addition) (cs : Conjuncts) : Prop where
  inlined : cs.inlined = additions.flatMap Addition.inlined
  existences : cs.existences = additions.flatMap Addition.existences
  groups : cs.groups = additions.flatMap Addition.groups

end Conjuncts

/-- The conditions that stand for groups: those of the only group, when all of them have to hold,
else the groups themselves. -/
def Group.spliced : List Group → List Condition
  | [⟨.and, conditions⟩] => conditions
  | groups => groups.map .group

/-! ### Lists with null -/

namespace ColumnCondition

variable {c : ColumnCondition} {vs : List Value} (db : Database) (e : Assignment)

/-- A list with null asks for null or one of its values, and is decided for every value. -/
theorem truth_isIn (h : c.predicate = .isIn vs) (hnull : .null ∈ vs) :
    ∃ b, c.truth db e = some b ∧ (b = true ↔ e.value ⟨c.aliasName, c.column⟩ = .null ∨
      ∃ w ∈ vs, (e.value ⟨c.aliasName, c.column⟩).Equals w) := by
  have hany : vs.any Value.isNull = true := List.any_eq_true.2 ⟨.null, hnull, rfl⟩
  refine ⟨(e.value ⟨c.aliasName, c.column⟩).isNull ||
    vs.any fun w => decide ((e.value ⟨c.aliasName, c.column⟩).Equals w), ?_, ?_⟩
  · rw [truth, h]
    exact if_pos hany
  · simp [Value.isNull_iff]

/-- To be in no list with null is to be no null and none of its values, and is decided for every
value. -/
theorem truth_notIn (h : c.predicate = .notIn vs) (hnull : .null ∈ vs) :
    ∃ b, c.truth db e = some b ∧ (b = true ↔ e.value ⟨c.aliasName, c.column⟩ ≠ .null ∧
      ∀ w ∈ vs, ¬ (e.value ⟨c.aliasName, c.column⟩).Equals w) := by
  have hany : vs.any Value.isNull = true := List.any_eq_true.2 ⟨.null, hnull, rfl⟩
  refine ⟨!(e.value ⟨c.aliasName, c.column⟩).isNull &&
    vs.all fun w => !decide ((e.value ⟨c.aliasName, c.column⟩).Equals w), ?_, ?_⟩
  · rw [truth, h]
    exact if_pos hany
  · simp [← Value.isNull_iff]

end ColumnCondition

/-! ### Additions -/

namespace Addition

variable {a : Addition}

/-- What contributes nothing adds no condition, and what adds one contributes its truth value. -/
theorem conveys_conditions (h : a.Resolves) : (a.conditions = [] ↔ a.isVoid = true) ∧
    ∀ db e, a.conditions.map (·.eval db e) = (a.truth? db e).toList := by
  cases a with
  | column c =>
    refine ⟨by simp [conditions, inlined, isVoid], fun db e => ?_⟩
    exact congrArg (fun v => [v]) ColumnCondition.eval_split
  | raw r => exact ⟨by simp [conditions, inlined, isVoid], fun _ _ => rfl⟩
  | existence query negate outer =>
    exact ⟨by simp [conditions, existences, isVoid], fun _ _ => rfl⟩
  | group g => exact ⟨by simp [conditions, groups, isVoid], fun _ _ => rfl⟩
  | expression literal r =>
    obtain ⟨g, hg, hvoid, hconvey⟩ := ExpressionLiteral.exists_resolve h
    have hconditions : conditions (.expression literal r) = (g.map .group).toList := by
      simp only [conditions, inlined, existences, groups, hg]
      cases g <;> rfl
    rw [hconditions]
    refine ⟨?_, hconvey.truths⟩
    rw [isVoid, ← hvoid]
    cases g <;> simp

end Addition

namespace Conjuncts

variable {additions : List Addition} {a : Addition} {cs : Conjuncts} {g : Group}

theorem Gathers.behind {cs' : Conjuncts} (h : cs.Gathers additions)
    (hinlined : cs'.inlined = cs.inlined ++ a.inlined)
    (hexistences : cs'.existences = cs.existences ++ a.existences)
    (hgroups : cs'.groups = cs.groups ++ a.groups) : cs'.Gathers (additions ++ [a]) where
  inlined := by rw [hinlined, h.inlined, List.flatMap_append, List.flatMap_singleton]
  existences := by rw [hexistences, h.existences, List.flatMap_append, List.flatMap_singleton]
  groups := by rw [hgroups, h.groups, List.flatMap_append, List.flatMap_singleton]

/-- One more addition is gathered behind the others. -/
theorem Gathers.exists_add (h : cs.Gathers additions) (ha : a.Resolves) :
    ∃ cs', cs.add a = .ok cs' ∧ cs'.Gathers (additions ++ [a]) := by
  have unchanged : ∀ {α : Type} {xs : List α}, xs = xs ++ [] := (List.append_nil _).symm
  cases a with
  | column c => exact ⟨_, rfl, h.behind rfl unchanged unchanged⟩
  | raw r => exact ⟨_, rfl, h.behind rfl unchanged unchanged⟩
  | existence query negate outer => exact ⟨_, rfl, h.behind unchanged rfl unchanged⟩
  | group g => exact ⟨_, rfl, h.behind unchanged unchanged rfl⟩
  | expression literal r =>
    obtain ⟨g, hg, -⟩ := ExpressionLiteral.exists_resolve ha
    have hgroups : Addition.groups (.expression literal r) = g.toList := by
      rw [Addition.groups, hg]
      rfl
    refine ⟨cs.addGroup? g, ?_, ?_⟩
    · rw [add, hg]
      rfl
    · cases g with
      | none => exact h.behind unchanged unchanged (hgroups ▸ unchanged)
      | some g => exact h.behind unchanged unchanged (hgroups ▸ rfl)

/-- Additions whose leaves are resolved are gathered in their order. -/
theorem exists_addAll (h : ∀ a ∈ additions, a.Resolves) :
    ∃ cs, addAll additions = .ok cs ∧ cs.Gathers additions := by
  induction additions using List.reverseRecOn with
  | nil => exact ⟨empty, rfl, rfl, rfl, rfl⟩
  | append_singleton additions a ih =>
    obtain ⟨hbefore, ha⟩ := List.forall_mem_append.1 h
    obtain ⟨cs, hcs, hgathers⟩ := ih hbefore
    obtain ⟨cs', hcs', hgathers'⟩ := hgathers.exists_add (List.forall_mem_singleton.1 ha)
    refine ⟨cs', ?_, hgathers'⟩
    rw [addAll, List.foldlM_append]
    exact (congrArg (· >>= _) hcs).trans (bind_pure (cs.add a) ▸ hcs')

theorem Gathers.mem_conditions_iff (h : cs.Gathers additions) {c : Condition} :
    c ∈ cs.conditions ↔ ∃ a ∈ additions, c ∈ a.conditions := by
  simp only [conditions, h.inlined, h.existences, h.groups, Addition.conditions, List.mem_append,
    List.mem_map, List.mem_flatMap]
  constructor
  · rintro ((⟨a, ha, hc⟩ | ⟨a, ha, hc⟩) | ⟨g, ⟨a, ha, hg⟩, rfl⟩)
    · exact ⟨a, ha, .inl (.inl hc)⟩
    · exact ⟨a, ha, .inl (.inr hc)⟩
    · exact ⟨a, ha, .inr ⟨g, hg, rfl⟩⟩
  · rintro ⟨a, ha, (hc | hc) | ⟨g, hg, rfl⟩⟩
    · exact .inl (.inl ⟨a, ha, hc⟩)
    · exact .inl (.inr ⟨a, ha, hc⟩)
    · exact .inr ⟨g, ⟨a, ha, hg⟩, rfl⟩

theorem Gathers.conditions_eq_nil_iff (h : cs.Gathers additions)
    (hres : ∀ a ∈ additions, a.Resolves) :
    cs.conditions = [] ↔ ∀ a ∈ additions, a.isVoid = true := by
  rw [List.eq_nil_iff_forall_not_mem]
  simp only [h.mem_conditions_iff]
  constructor
  · intro hnone a ha
    refine (Addition.conveys_conditions (hres a ha)).1.1 ?_
    exact List.eq_nil_iff_forall_not_mem.2 fun c hc => hnone c ⟨a, ha, hc⟩
  · rintro hvoid c ⟨a, ha, hc⟩
    rw [(Addition.conveys_conditions (hres a ha)).1.2 (hvoid a ha)] at hc
    cases hc

/-- The conditions have the truth values that were contributed. -/
theorem Gathers.mem_map_eval_iff (h : cs.Gathers additions) (hres : ∀ a ∈ additions, a.Resolves)
    {db : Database} {e : Assignment} {v : Option Bool} :
    v ∈ cs.conditions.map (·.eval db e) ↔ v ∈ additions.filterMap (·.truth? db e) := by
  rw [List.mem_map, List.mem_filterMap]
  constructor
  · rintro ⟨c, hc, rfl⟩
    obtain ⟨a, ha, hc⟩ := h.mem_conditions_iff.1 hc
    refine ⟨a, ha, Option.mem_toList.1 ?_⟩
    rw [← (Addition.conveys_conditions (hres a ha)).2]
    exact List.mem_map_of_mem hc
  · rintro ⟨a, ha, hv⟩
    have hmem := Option.mem_toList.2 hv
    rw [← (Addition.conveys_conditions (hres a ha)).2] at hmem
    obtain ⟨c, hc, rfl⟩ := List.mem_map.1 hmem
    exact ⟨c, h.mem_conditions_iff.2 ⟨a, ha, hc⟩, rfl⟩

/-! ### The group of conditions -/

theorem group?_eq_none_iff : cs.group? = none ↔ cs.conditions = [] := by
  obtain ⟨inlined, existences, groups⟩ := cs
  unfold group? conditions
  dsimp only
  generalize inlined ++ existences = ks
  split
  · simp
  · simp
  · simp
  · next hempty _ =>
    refine iff_of_false (Option.some_ne_none _) fun hnil => ?_
    obtain ⟨rfl, hgroups⟩ := List.append_eq_nil_iff.1 hnil
    exact hempty rfl (List.map_eq_nil_iff.1 hgroups)

/-- A group that is the only condition stands alone.  Otherwise the conditions come by source, with
those of the only group taken out of it when all of them have to hold. -/
theorem group?_cases (hg : cs.group? = some g) :
    cs.inlined ++ cs.existences = [] ∧ cs.groups = [g] ∨
      g = .all (cs.inlined ++ cs.existences ++ Group.spliced cs.groups) := by
  obtain ⟨inlined, existences, groups⟩ := cs
  unfold group? at hg
  dsimp only at hg ⊢
  generalize inlined ++ existences = ks at hg ⊢
  split at hg
  · cases hg
  · exact .inl ⟨rfl, congrArg (fun g => [g]) (Option.some.inj hg)⟩
  · exact .inr (Option.some.inj hg).symm
  · next hand _ _ =>
    have hspliced : Group.spliced groups = groups.map .group := by
      unfold Group.spliced
      split
      · exact absurd rfl (hand _)
      · rfl
    rw [hspliced]
    exact .inr (Option.some.inj hg).symm

/-- The conditions of a group that is taken apart have to hold as the group had to. -/
theorem combine_spliced {groups : List Group} {db : Database} {e : Assignment} :
    Connective.combine .and ((Group.spliced groups).map (·.eval db e)) =
      Connective.combine .and ((groups.map Condition.group).map (·.eval db e)) := by
  unfold Group.spliced
  split
  · rw [List.map_singleton, List.map_singleton, Connective.combine_singleton, Condition.eval_group]
  · rfl

/-- The group is the conjunction of all conditions. -/
theorem eval_group? (hg : cs.group? = some g) (db : Database) (e : Assignment) :
    g.eval db e = Connective.combine .and (cs.conditions.map (·.eval db e)) := by
  rcases group?_cases hg with ⟨hks, hsole⟩ | rfl
  · rw [conditions, hks, hsole]
    exact (Connective.combine_singleton .and _).symm
  · rw [conditions, Group.all, ← Condition.eval, Condition.eval_group, List.map_append,
      Connective.combine_append, combine_spliced, ← Connective.combine_append, ← List.map_append]

/-- What is added is joined to a group that is the conjunction of all that was contributed.  There
is none when nothing was, a list with null is decided for every value of its column, and the
conditions stand in the order of their sources, those of the only group taken out of it when all of
them have to hold. -/
theorem conjoined_addAll (h : ∀ a ∈ additions, a.Resolves) : ∃ cs, addAll additions = .ok cs ∧
    (cs.group? = none ↔ ∀ a ∈ additions, a.isVoid = true) ∧
    (∀ g ∈ cs.group?,
      (∀ db e, g.eval db e =
        Connective.combine .and (additions.filterMap (·.truth? db e))) ∧
      (additions.flatMap Addition.inlined ++ additions.flatMap Addition.existences = [] ∧
          additions.flatMap Addition.groups = [g] ∨
        g = .all (additions.flatMap Addition.inlined ++ additions.flatMap Addition.existences ++
          Group.spliced (additions.flatMap Addition.groups)))) ∧
    ∀ c vs, .column c ∈ additions → .null ∈ vs → ∀ db e,
      (c.predicate = .isIn vs → ∃ b, Addition.truth? db e (.column c) = some (some b) ∧
        (b = true ↔ e.value ⟨c.aliasName, c.column⟩ = .null ∨
          ∃ w ∈ vs, (e.value ⟨c.aliasName, c.column⟩).Equals w)) ∧
      (c.predicate = .notIn vs → ∃ b, Addition.truth? db e (.column c) = some (some b) ∧
        (b = true ↔ e.value ⟨c.aliasName, c.column⟩ ≠ .null ∧
          ∀ w ∈ vs, ¬ (e.value ⟨c.aliasName, c.column⟩).Equals w)) := by
  obtain ⟨cs, hcs, hgathers⟩ := exists_addAll h
  refine ⟨cs, hcs, ?_, fun g hg => ⟨fun db e => ?_, ?_⟩, fun c vs _ hnull db e => ⟨?_, ?_⟩⟩
  · exact group?_eq_none_iff.trans (hgathers.conditions_eq_nil_iff h)
  · rw [eval_group? hg]
    exact Connective.combine_of_mem_iff fun v => hgathers.mem_map_eval_iff h
  · rw [← hgathers.inlined, ← hgathers.existences, ← hgathers.groups]
    exact group?_cases hg
  · intro hlist
    obtain ⟨b, hb, hiff⟩ := ColumnCondition.truth_isIn db e hlist hnull
    exact ⟨b, congrArg some hb, hiff⟩
  · intro hlist
    obtain ⟨b, hb, hiff⟩ := ColumnCondition.truth_notIn db e hlist hnull
    exact ⟨b, congrArg some hb, hiff⟩

/-- Books of a title or without one that have long chapters and this text; a year is not given. -/
def bookAdditions : List Addition :=
  [.expression ⟨.and, [.column "b" "pages" (.compare .gt (.int 300)), .undefined], .drop⟩ .direct,
    .column (.asked "b" "title" "text" (.isIn [.text "Emma", .null])),
    .existence ⟨[], [.primary "c" "chapter"], none, [], none, none⟩ false ["b"],
    .expression ⟨.or, [.undefined, .column "b" "year" .isNull], .collapse⟩ .direct,
    .raw ⟨["b"], "b.pages > b.id", [], false⟩]

/-- The year contributes nothing.  The pages come last though they were added first, and a book
without title is asked for as well. -/
theorem conjoined_addAll_books : (∀ a ∈ bookAdditions, a.Resolves) ∧
    ∃ cs g, addAll bookAdditions = .ok cs ∧ cs.group? = some g ∧
      (∀ db e, g.eval db e =
        Connective.combine .and (bookAdditions.filterMap (·.truth? db e))) ∧
      g = .all [
        .any [.column (.asked "b" "title" "text" .isNull),
          .column (.asked "b" "title" "text" (.isIn [.text "Emma"]))],
        .raw ⟨["b"], "b.pages > b.id", [], false⟩,
        .existence ⟨[], [.primary "c" "chapter"], none, [], none, none⟩ false ["b"],
        .column (.asked "b" "pages" "int" (.compare .gt (.int 300)))] ∧
      ∀ db e, ∃ b, ColumnCondition.truth db e
          (.asked "b" "title" "text" (.isIn [.text "Emma", .null])) = some b ∧
        (b = true ↔
          e.value ⟨"b", "title"⟩ = .null ∨ (e.value ⟨"b", "title"⟩).Equals (.text "Emma")) := by
  have hres : ∀ a ∈ bookAdditions, a.Resolves := by
    simp only [bookAdditions, List.forall_mem_cons, List.not_mem_nil, false_imp_iff, implies_true,
      and_true]
    exact ⟨⟨⟨_, rfl⟩, trivial, trivial⟩, trivial, trivial, ⟨trivial, ⟨_, rfl⟩, trivial⟩, trivial⟩
  obtain ⟨cs, hcs, hnone, hsome, hnull⟩ := conjoined_addAll hres
  have hgroup : cs.group? ≠ none := fun h =>
    absurd (hnone.1 h (.raw ⟨["b"], "b.pages > b.id", [], false⟩) (by simp [bookAdditions]))
      Bool.false_ne_true
  obtain ⟨g, hg⟩ := Option.ne_none_iff_exists'.1 hgroup
  obtain ⟨heval, hsole | hshape⟩ := hsome g hg
  · exact absurd hsole.1 (List.cons_ne_nil _ _)
  · refine ⟨hres, cs, g, hcs, hg, heval, hshape, fun db e => ?_⟩
    obtain ⟨b, hb, hiff⟩ := (hnull (.asked "b" "title" "text" (.isIn [.text "Emma", .null]))
      [.text "Emma", .null] (by simp [bookAdditions]) (by simp) db e).1 rfl
    refine ⟨b, Option.some.inj hb, hiff.trans ?_⟩
    simp [ColumnCondition.asked, Value.not_equals_null_right]

end Conjuncts

end EntityQuery
