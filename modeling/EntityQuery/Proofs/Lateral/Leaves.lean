import EntityQuery.Proofs.Existence.Division
import EntityQuery.Proofs.Lateral.Plan
import EntityQuery.Proofs.Strategy.Leaves

/-!
# Lateral aggregates with other leaves

Which collections become lateral subqueries, and which groups of conditions become their columns, is
decided by the tables that conditions read.  So it makes no difference whether leaves are replaced
before collections become lateral subqueries or afterwards: the columns have the same values.

* `Plan.lateralScope_mapLeaves`: the same collections are chosen;
* `Lateral.Column.Kin`: the columns for a group with other leaves;
* `Lateral.decompose_mapLeavesAll`: the conditions and their columns;
* `Lateral.rows_lateralPlan_mapLeaves`: the rows of the rewritten plan.
-/

namespace EntityQuery

open Condition

namespace Lateral

section

variable {s : Scope} {f : Condition → List Condition} {c k : Condition} {cs : List Condition}
  {u : String}

theorem units_twin (h : Twin c k) : s.units k = s.units c := by
  rw [Scope.units, Scope.units, owners, owners, h.aliases]

theorem only?_twin (h : Twin c k) : s.only? k = s.only? c := by
  rw [Scope.only?, Scope.only?, units_twin h]

theorem isGuard_twin (h : Twin c k) : isGuard s k = isGuard s c := by
  rw [isGuard, isGuard, units_twin h, h.isPruneable]

/-- A column condition reads one table, so it reads no collection or one alone. -/
theorem units_column (n : ColumnCondition) : s.units (.column n) = ([], true) ∨
    ∃ u, s.units (.column n) = ([u], false) := by
  cases h : s.unit? n.aliasName with
  | none => exact .inl (by simp [Scope.units, owners, ownersOf, aliases, h])
  | some u => exact .inr ⟨u, by simp [Scope.units, owners, ownersOf, aliases, h, insertNew]⟩

theorem pinnedBy_of_units (h : s.units k = ([], true) ∨ ∃ u, s.units k = ([u], false)) :
    s.pinnedBy k = [] := by
  refine Scope.pinnedBy_eq_nil_iff.2 (h.imp (congrArg Prod.fst) fun ⟨u, hu⟩ => .inl ⟨u, ?_⟩)
  rw [Scope.only?, hu]

theorem pinnedByAll_map (h : ∀ c ∈ cs, s.pinnedBy (c.changed f) = s.pinnedBy c) :
    s.pinnedByAll (cs.map (changed f)) = s.pinnedByAll cs := by
  induction cs with
  | nil => rfl
  | cons c cs ih =>
    obtain ⟨hc, hcs⟩ := List.forall_mem_cons.1 h
    rw [List.map_cons, Scope.pinnedByAll, Scope.pinnedByAll, hc, ih hcs]

variable (hf : Steady f)

include hf

theorem pinnedBy_changed (h : c.Asked) : s.pinnedBy (c.changed f) = s.pinnedBy c := by
  induction h with
  | @column n hn =>
    have hunits := units_column (s := s) n
    rw [pinnedBy_of_units hunits, pinnedBy_of_units]
    rwa [units_twin ((Asked.column hn).twin hf)]
  | raw hr => rw [changed_raw hf hr]
  | @group op cs hcs ih =>
    have hgroup : (Condition.group ⟨op, cs⟩).Asked := .group hcs
    have hunits := units_twin (s := s) (hgroup.twin hf)
    rw [changed_group hf hcs] at hunits ⊢
    rw [Scope.pinnedBy, Scope.pinnedBy, hunits, pinnedByAll_map ih]

theorem pinned_mapLeavesAll (h : ∀ c ∈ cs, c.Parted) :
    s.pinned (mapLeavesAll f cs) = s.pinned cs := by
  have hasked : ∀ c ∈ cs.filter (!·.isPruneable), c.Asked := fun c hc =>
    (h c (List.mem_filter.1 hc).1).asked (by simpa using (List.mem_filter.1 hc).2)
  rw [Scope.pinned, Scope.pinned,
    filter_mapLeavesAll fun c hc k hk => by rw [((h c hc).twin hf k hk).isPruneable],
    mapLeavesAll_of_asked hf hasked, pinnedByAll_map fun c hc => pinnedBy_changed hf (hasked c hc)]

theorem settle_mapLeavesAll (h : ∀ c ∈ cs, c.Parted) {t : Collections} {eligible : List String} :
    ∀ rounds excluded warnings, settle t eligible (mapLeavesAll f cs) rounds excluded warnings =
      settle t eligible cs rounds excluded warnings := by
  intro rounds
  induction rounds with
  | zero =>
    intro excluded warnings
    unfold settle
    simp only [spanningOf?_mapLeavesAll hf h, pinned_mapLeavesAll hf h]
    cases spanningOf? _ cs with
    | some => rfl
    | none => cases Scope.pinned _ cs <;> rfl
  | succ rounds ih =>
    intro excluded warnings
    unfold settle
    simp only [spanningOf?_mapLeavesAll hf h, pinned_mapLeavesAll hf h]
    cases spanningOf? _ cs with
    | some => rfl
    | none =>
      cases Scope.pinned _ cs with
      | nil => rfl
      | cons => exact ih _ _

end

/-! ### The columns -/

/-- The two select whether a group holds, the second one with the leaves replaced; or both whether
there is no row. -/
inductive Kin (db : Database) (f : Condition → List Condition) : Select → Select → Prop
  | boolOr {g g' : Group} (name : String) (h : ∀ e, g'.eval db e = (g.mapLeaves f).eval db e) :
      Kin db f (.boolOr g name) (.boolOr g' name)
  | countIsZero (name : String) : Kin db f (.countIsZero name) (.countIsZero name)

/-- Columns of one collection that are alike. -/
def Column.Kin (db : Database) (f : Condition → List Condition) (column column' : Column) : Prop :=
  column'.unit = column.unit ∧ Lateral.Kin db f column.select column'.select

section

variable {db : Database} {s : Scope} {f : Condition → List Condition} {c k : Condition}
  {cs : List Condition} {u name : String} {columns columns' : List Column} {op : Connective}

theorem forall₂_selectsOf (h : List.Forall₂ (Column.Kin db f) columns columns') :
    List.Forall₂ (Kin db f) (selectsOf u columns) (selectsOf u columns') := by
  induction h with
  | nil => exact .nil
  | @cons column column' _ _ hkin _ ih =>
    rw [selectsOf, selectsOf, List.filter_cons, List.filter_cons, hkin.1]
    split_ifs
    · exact .cons hkin.2 ih
    · exact ih

theorem isRewritten_of_kin (h : List.Forall₂ (Column.Kin db f) columns columns') :
    isRewritten columns' u = isRewritten columns u := by
  rw [isRewritten, isRewritten, isEmpty_eq_of_forall₂ (forall₂_selectsOf h)]

variable (hf : Steady f)

include hf

/-- The column for a group with other leaves. -/
theorem kin_columnOf (h : c.Asked) : Kin db f (columnOf u name c) (columnOf u name (c.changed f)) := by
  unfold columnOf
  rw [(h.twin hf).isMissing]
  split_ifs
  · exact .countIsZero name
  · cases h with
    | @column n hn =>
      have hmap : (Group.all [Condition.column n]).mapLeaves f =
          .all [(Condition.column n).changed f] := by
        rw [Group.all, Group.mapLeaves,
          mapLeavesAll_of_asked hf (List.forall_mem_singleton.2 (.column hn))]
        rfl
      have hchecks := checks_changed hf hn
      generalize (Condition.column n).changed f = k at hmap hchecks
      cases hchecks with
      | same => exact .boolOr name fun e => by rw [hmap]
      | beside =>
        have hone : ∀ k e, (Group.all [k]).eval db e = k.eval db e := fun k e => by
          rw [Group.all, Group.eval, evalAll_eq_map, List.map_singleton,
            Connective.combine_singleton]
        refine .boolOr name fun e => ?_
        rw [hmap, hone]
        rfl
    | @raw r hr =>
      have hmap : (Group.all [Condition.raw r]).mapLeaves f = .all [.raw r] := by
        rw [Group.all, Group.mapLeaves,
          mapLeavesAll_of_asked hf (List.forall_mem_singleton.2 (.raw hr)), List.map_singleton,
          changed_raw hf hr]
      rw [changed_raw hf hr]
      exact .boolOr name fun e => by rw [hmap]
    | group hcs => exact .boolOr name fun _ => rfl

theorem changed_asOne (h : ∀ c ∈ cs, c.Asked) :
    (asOne op cs).changed f = asOne op (cs.map (changed f)) := by
  match cs with
  | [c] => rfl
  | [] => exact changed_group hf h
  | _ :: _ :: _ => exact changed_group hf h

omit hf in
theorem asked_asOne (h : ∀ c ∈ cs, c.Asked) : (asOne op cs).Asked := by
  match cs with
  | [c] => exact h c (List.mem_singleton_self c)
  | [] => exact .group h
  | _ :: _ :: _ => exact .group h

end

/-! ### The conditions and their columns -/

/-- The condition was asked for throughout, or is a column condition that reads no chosen
collection. -/
def Idle (s : Scope) (c : Condition) : Prop :=
  c.Asked ∨ c.Parted ∧ c.isPruneable = true ∧ s.only? c = none

section

variable {db : Database} {s : Scope} {f : Condition → List Condition} {aliasOf : String → String}
  (hf : Steady f)

include hf

theorem filter_only?_mapLeavesAll {siblings : List Condition} (h : ∀ c ∈ siblings, Idle s c)
    (u : String) :
    ((mapLeavesAll f siblings).filter fun m => s.only? m = some u) =
        (siblings.filter fun m => s.only? m = some u).map (changed f) ∧
      ∀ m ∈ siblings.filter fun m => s.only? m = some u, m.Asked := by
  have hasked : ∀ m ∈ siblings.filter fun m => s.only? m = some u, m.Asked := fun m hm => by
    obtain ⟨hm, hu⟩ := List.mem_filter.1 hm
    refine (h m hm).resolve_right fun ⟨_, _, hnone⟩ => ?_
    rw [hnone, decide_eq_true_iff] at hu
    cases hu
  have hparted : ∀ m ∈ siblings, m.Parted := fun m hm => (h m hm).elim .inl And.left
  refine ⟨?_, hasked⟩
  rw [filter_mapLeavesAll fun m hm k hk => by rw [only?_twin ((hparted m hm).twin hf k hk)],
    mapLeavesAll_of_asked hf hasked]

/-- The columns for a group, and the references to them. -/
theorem addColumn_changed {c : Condition} (h : c.Asked) {u : String} {columns columns' : List Column}
    (hkin : List.Forall₂ (Column.Kin db f) columns columns') :
    (addColumn aliasOf u (c.changed f) columns').1 = (addColumn aliasOf u c columns).1 ∧
      List.Forall₂ (Column.Kin db f) (addColumn aliasOf u c columns).2
        (addColumn aliasOf u (c.changed f) columns').2 := by
  have hlength := (forall₂_selectsOf (u := u) hkin).length_eq
  unfold addColumn
  simp only [hlength]
  exact ⟨trivial, List.rel_append hkin (.cons ⟨rfl, kin_columnOf hf h⟩ .nil)⟩

mutual

theorem decompose_mapLeavesAll {op : Connective} {siblings : List Condition}
    (hsib : ∀ c ∈ siblings, Idle s c) :
    ∀ (rest : List Condition) (seen : List String) {columns columns' : List Column},
      (∀ c ∈ rest, Idle s c) → List.Forall₂ (Column.Kin db f) columns columns' →
      (decompose s aliasOf op (mapLeavesAll f siblings) seen (mapLeavesAll f rest) columns').1 =
          mapLeavesAll f (decompose s aliasOf op siblings seen rest columns).1 ∧
        List.Forall₂ (Column.Kin db f) (decompose s aliasOf op siblings seen rest columns).2
          (decompose s aliasOf op (mapLeavesAll f siblings) seen (mapLeavesAll f rest) columns').2
  | [], _, _, _, _, hkin => by
    rw [mapLeavesAll, decompose, decompose]
    exact ⟨rfl, hkin⟩
  | c :: rest, seen, columns, columns', hrest, hkin => by
    obtain ⟨hc, hmem⟩ := List.forall_mem_cons.1 hrest
    rcases hc with hc | ⟨hc, hp, hnone⟩
    · rw [mapLeavesAll, mapLeaves_of_asked hf hc, List.singleton_append, decompose, decompose,
        only?_twin (hc.twin hf)]
      cases hu : s.only? c with
      | some unit =>
        simp only
        split_ifs
        · exact decompose_mapLeavesAll hsib rest seen hmem hkin
        · obtain ⟨hmembers, hasked⟩ := filter_only?_mapLeavesAll hf hsib unit
          rw [hmembers, ← changed_asOne hf hasked]
          have hone : (asOne op (siblings.filter fun m => s.only? m = some unit)).Asked :=
            asked_asOne hasked
          obtain ⟨href, hkin⟩ : (addColumn aliasOf unit _ columns').1 =
            (addColumn aliasOf unit _ columns).1 ∧ _ := addColumn_changed hf hone hkin
          obtain ⟨hothers, hkin⟩ := decompose_mapLeavesAll hsib rest (unit :: seen) hmem hkin
          refine ⟨?_, hkin⟩
          have hraw : (addColumn aliasOf unit (asOne op (siblings.filter fun m =>
              s.only? m = some unit)) columns).1.mapLeaves f = [(addColumn aliasOf unit (asOne op
                (siblings.filter fun m => s.only? m = some unit)) columns).1] := hf.raw _ rfl
          rw [mapLeavesAll, hraw, hothers, href, List.singleton_append]
      | none =>
        simp only
        obtain ⟨hone, hkin⟩ := decomposeOne_changed c hc hu hkin
        obtain ⟨hothers, hkin⟩ := decompose_mapLeavesAll hsib rest seen hmem hkin
        exact ⟨by rw [mapLeavesAll, hone, hothers, List.singleton_append], hkin⟩
    · obtain hasked | ⟨n, rfl, hn⟩ := hc
      · rw [hasked.isPruneable] at hp
        cases hp
      obtain ⟨hothers, hothersKin⟩ := decompose_mapLeavesAll hsib rest seen hmem hkin
      rw [decompose, hnone]
      simp only [decomposeOne_leaf (c := .column n) (by simp)]
      rw [mapLeavesAll, mapLeavesAll]
      rcases hf.implied n hn with he | he
      · rw [mapLeaves, he, List.singleton_append, List.singleton_append, decompose, hnone]
        simp only [decomposeOne_leaf (c := .column n) (by simp)]
        exact ⟨by rw [hothers], hothersKin⟩
      · rw [mapLeaves, he, List.nil_append, List.nil_append]
        exact ⟨hothers, hothersKin⟩

theorem decomposeOne_changed : ∀ (c : Condition) {columns columns' : List Column}, c.Asked →
    s.only? c = none → List.Forall₂ (Column.Kin db f) columns columns' →
      (decomposeOne s aliasOf c columns).1.mapLeaves f =
          [(decomposeOne s aliasOf (c.changed f) columns').1] ∧
        List.Forall₂ (Column.Kin db f) (decomposeOne s aliasOf c columns).2
          (decomposeOne s aliasOf (c.changed f) columns').2
  | .group ⟨op, cs⟩, columns, columns', h, hnone, hkin => by
    cases h with
    | group hcs =>
    have hgroup : (Condition.group ⟨op, cs⟩).Asked := .group hcs
    have htwin := hgroup.twin hf
    rw [changed_group hf hcs] at htwin ⊢
    rw [decomposeOne, decomposeOne, units_twin htwin]
    split_ifs
    · exact ⟨by rw [mapLeaves, Group.mapLeaves, mapLeavesAll_of_asked hf hcs], hkin⟩
    · rw [← mapLeavesAll_of_asked hf hcs]
      obtain ⟨hothers, hkin⟩ :=
        decompose_mapLeavesAll (fun c hc => .inl (hcs c hc)) cs [] (fun c hc => .inl (hcs c hc)) hkin
      refine ⟨?_, hkin⟩
      rw [mapLeaves, Group.mapLeaves, ← hothers]
  | .column n, columns, columns', h, hnone, hkin => by
    have htwin := h.twin hf
    have hunits : (s.units ((Condition.column n).changed f)).1.isEmpty = true := by
      rw [units_twin htwin]
      rcases units_column (s := s) n with hu | ⟨u, hu⟩
      · rw [hu]
        rfl
      · rw [Scope.only?, hu] at hnone
        cases hnone
    have hone : decomposeOne s aliasOf ((Condition.column n).changed f) columns' =
        ((Condition.column n).changed f, columns') := by
      cases h with
      | column hn =>
      have hchecks := checks_changed hf hn
      generalize (Condition.column n).changed f = k at hchecks hunits
      cases hchecks with
      | same => exact decomposeOne_leaf (by simp)
      | beside =>
        rw [Condition.all, Group.all] at hunits ⊢
        rw [decomposeOne, if_pos hunits]
    rw [hone, decomposeOne_leaf (by simp), mapLeaves_of_asked hf h]
    exact ⟨rfl, hkin⟩
  | .raw r, columns, columns', h, hnone, hkin => by
    cases h with
    | raw hr =>
    rw [changed_raw hf hr, decomposeOne_leaf (by simp), decomposeOne_leaf (by simp)]
    exact ⟨hf.raw r hr, hkin⟩
  | .existence .., _, _, h, _, _ => nomatch h

end

variable {top : List Condition} {supply : AliasSupply} (hparted : ∀ c ∈ top, c.Parted)

include hparted

theorem askedOf_mapLeavesAll : askedOf s (mapLeavesAll f top) = mapLeavesAll f (askedOf s top) :=
  filter_mapLeavesAll fun c hc k hk => by rw [isGuard_twin ((hparted c hc).twin hf k hk)]

theorem guardsOf_mapLeavesAll (u : String) :
    guardsOf s (mapLeavesAll f top) u = mapLeavesAll f (guardsOf s top u) :=
  filter_mapLeavesAll fun c hc k hk => by
    rw [isGuard_twin ((hparted c hc).twin hf k hk), units_twin ((hparted c hc).twin hf k hk)]

omit hf in
theorem idle_of_mem_askedOf : ∀ c ∈ askedOf s top, Idle s c := fun c hc => by
  obtain ⟨hc, hguard⟩ := List.mem_filter.1 hc
  refine (hparted c hc).imp id fun himplied => ?_
  obtain ⟨n, rfl, hn⟩ := himplied
  refine ⟨.inr ⟨n, rfl, hn⟩, hn, ?_⟩
  rcases units_column (s := s) n with hu | ⟨u, hu⟩
  · rw [Scope.only?, hu]
  · simp [isGuard, Condition.isPruneable, hn, hu] at hguard

/-- The conditions with references in them, and the columns that they refer to. -/
theorem divided_mapLeavesAll :
    (divided s supply (mapLeavesAll f top)).1 = mapLeavesAll f (divided s supply top).1 ∧
      List.Forall₂ (Column.Kin db f) (divided s supply top).2
        (divided s supply (mapLeavesAll f top)).2 := by
  have hidle := idle_of_mem_askedOf (s := s) hparted
  rw [divided, divided, askedOf_mapLeavesAll hf hparted]
  exact decompose_mapLeavesAll hf hidle _ _ hidle .nil

end

/-! ### The rows of the subqueries -/

/-- The two select the same. -/
inductive Alike (db : Database) : Select → Select → Prop
  | boolOr {g g' : Group} (name : String) (h : ∀ e, g.eval db e = g'.eval db e) :
      Alike db (.boolOr g name) (.boolOr g' name)
  | countIsZero (name : String) : Alike db (.countIsZero name) (.countIsZero name)

section

variable {db : Database} {f : Condition → List Condition} {guards : List Condition}
  {xs xs' : List Select}

theorem aggregates_of_alike (h : List.Forall₂ (Alike db) xs xs') {es : List Assignment} {row : Row} :
    Select.aggregates db es xs row = Select.aggregates db es xs' row := by
  induction h generalizing row with
  | nil => rfl
  | cons hx _ ih =>
    cases hx with
    | boolOr name h =>
      rw [Select.aggregates, Select.aggregates, funext h, ih]
    | countIsZero name => rw [Select.aggregates, Select.aggregates, ih]

/-- A group with guards has the value of the group and the guards together, whether there are any or
not. -/
theorem exists_guarded (db : Database) (f : Condition → List Condition) (guards : List Condition)
    (g : Group) (name : String) : ∃ g₁,
      (if guards.isEmpty then Select.boolOr g name else guarded guards (.boolOr g name)) =
        .boolOr g₁ name ∧
      (∀ e, g₁.eval db e = Connective.combine .and (evalAll db guards e ++ [g.eval db e])) ∧
      ∀ e, (g₁.mapLeaves f).eval db e = Connective.combine .and
        (evalAll db (mapLeavesAll f guards) e ++ [(g.mapLeaves f).eval db e]) := by
  have hnested : ∀ guards (g : Group) e, (Group.all (guards ++ [.group g])).eval db e =
      Connective.combine .and (evalAll db guards e ++ [g.eval db e]) := fun guards g e => by
    rw [Group.all, Group.eval, evalAll_append]
    rfl
  have hflat : ∀ guards cs e, (Group.all (guards ++ cs)).eval db e =
      Connective.combine .and (evalAll db guards e ++ [(Group.all cs).eval db e]) :=
    fun guards cs e => by
      rw [Group.all, Group.eval, evalAll_append, Connective.combine_append, Connective.combine_append,
        Connective.combine_singleton]
      rfl
  split_ifs with hempty
  · rw [List.isEmpty_iff.1 hempty]
    exact ⟨g, rfl, fun e => (Connective.combine_singleton _ _).symm,
      fun e => (Connective.combine_singleton _ _).symm⟩
  · match g with
    | ⟨.and, cs⟩ =>
      refine ⟨_, rfl, hflat guards cs, fun e => ?_⟩
      rw [Group.all, Group.mapLeaves, mapLeavesAll_append]
      exact hflat _ _ e
    | ⟨.or, cs⟩ =>
      refine ⟨_, rfl, hnested guards _, fun e => ?_⟩
      rw [Group.all, Group.mapLeaves, mapLeavesAll_append]
      exact hnested _ _ e

/-- With their guards, too, columns that are alike select the same. -/
theorem forall₂_guardedAll (h : List.Forall₂ (Kin db f) xs xs') :
    List.Forall₂ (Alike db) (Select.mapLeavesAll f (guardedAll guards xs))
      (guardedAll (mapLeavesAll f guards) xs') := by
  have hmap : ∀ guards xs, guardedAll guards xs = xs.map fun x =>
      if guards.isEmpty then x else guarded guards x := fun guards xs => by
    rw [guardedAll]
    split_ifs <;> simp
  rw [hmap, hmap]
  induction h with
  | nil => exact .nil
  | cons hx _ ih =>
    cases hx with
    | @boolOr g g' name hg =>
      obtain ⟨g₁, hg₁, -, hmapped⟩ := exists_guarded db f guards g name
      obtain ⟨g₂, hg₂, heval, -⟩ := exists_guarded db f (mapLeavesAll f guards) g' name
      rw [List.map_cons, List.map_cons, hg₁, hg₂, Select.mapLeavesAll]
      exact .cons (.boolOr name fun e => by rw [hmapped, heval, hg]) ih
    | countIsZero name =>
      have hself : ∀ guards : List Condition, (if guards.isEmpty then Select.countIsZero name
          else guarded guards (.countIsZero name)) = .countIsZero name := fun guards => by
        split_ifs <;> rfl
      rw [List.map_cons, List.map_cons, hself, hself, Select.mapLeavesAll]
      · exact .cons (.countIsZero name) ih
      · simp

end

section

variable {db : Database} {s : Scope} {f : Condition → List Condition} {top : List Condition}
  {columns columns' : List Column} {u : String} {j : Join} {tables : List Table} {e : Assignment}
  {supply : AliasSupply}

theorem bindAll_congr {ts ts' : List Table}
    (h : List.Forall₂ (fun t t' => ∀ e, t.bind db e = t'.bind db e) ts ts') {es : List Assignment} :
    Table.bindAll db ts es = Table.bindAll db ts' es := by
  induction h generalizing es with
  | nil => rfl
  | cons ht _ ih => rw [Table.bindAll, Table.bindAll, funext ht, ih]

variable (hf : Steady f) (htables : ∀ x ∈ tables, x.plans = []) (hparted : ∀ c ∈ top, c.Parted)
  (hkin : List.Forall₂ (Column.Kin db f) columns columns')

include hf htables hparted hkin

/-- The subquery of a collection has the same row. -/
theorem aggregates_subqueryOf_mapLeavesAll :
    (subqueryOf s (mapLeavesAll f top) columns' u j tables).aggregates db e =
      ((subqueryOf s top columns u j tables).mapLeaves f).aggregates db e := by
  have hcorr : (Condition.raw (.correlation j.parent j.own)).mapLeaves f =
    [.raw (.correlation j.parent j.own)] := hf.raw _ rfl
  have hrows : (subqueryOf s (mapLeavesAll f top) columns' u j tables).rows db e =
      ((subqueryOf s top columns u j tables).mapLeaves f).rows db e := by
    refine Plan.rows_congr ?_ ?_
    · rw [Plan.tables_mapLeaves_of_flat (Existence.plans_subqueryTables htables)]
      rfl
    · rw [Plan.topConditions_mapLeaves]
      show [_] = mapLeavesAll f [_]
      rw [mapLeavesAll, hcorr]
      rfl
  rw [Plan.aggregates_eq, Plan.aggregates_eq, hrows, Plan.selects_mapLeaves]
  refine (aggregates_of_alike ?_).symm
  show List.Forall₂ _ (Select.mapLeavesAll f (guardedAll _ _)) (guardedAll _ _)
  rw [guardsOf_mapLeavesAll hf hparted]
  exact forall₂_guardedAll (forall₂_selectsOf hkin)

/-- The lateral tables are bound to the same rows. -/
theorem forall₂_bind_laterals (supply : AliasSupply) :
    List.Forall₂ (fun t t' => ∀ e, t.bind db e = t'.bind db e)
    (laterals s (mapLeavesAll f top) columns' supply tables)
    ((laterals s top columns supply tables).map (Table.mapPlan (Plan.mapLeaves f))) := by
  rw [laterals, laterals, List.map_filterMap]
  induction s.active with
  | nil => exact .nil
  | cons u units ih =>
    rw [List.filterMap_cons, List.filterMap_cons, lateral?, lateral?, isRewritten_of_kin hkin]
    cases s.tree.join? u with
    | none => exact ih
    | some j =>
      simp only
      split_ifs
      · refine .cons (fun e => ?_) ih
        rw [Table.mapPlan, Table.bind, Table.bind,
          aggregates_subqueryOf_mapLeavesAll hf htables hparted hkin]
      · exact ih

end

section

variable {db : Database} {s : Scope} {f : Condition → List Condition} {p : Plan} {e : Assignment}
  {supply : AliasSupply} (hf : Steady f) (htables : ∀ x ∈ p.tables, x.plans = [])
  (hparted : ∀ c ∈ p.topConditions, c.Parted)

include hf htables hparted

/-- It makes no difference to what is selected whether leaves are replaced before or after
collections become lateral subqueries. -/
theorem rows_lateralPlan_mapLeaves :
    (lateralPlan s supply (p.mapLeaves f)).rows db e =
      ((lateralPlan s supply p).mapLeaves f).rows db e := by
  obtain ⟨hdivided, hkin⟩ : (divided s supply _).1 = _ ∧ List.Forall₂ (Column.Kin db f) _ _ :=
    divided_mapLeavesAll hf hparted
  rw [← Plan.topConditions_mapLeaves] at hdivided hkin
  refine Plan.rows_congr ?_ ?_
  · rw [Plan.tables_mapLeaves, ← Table.mapLeavesAll_eq_map]
    show Table.bindAll db (outside _ _ _ (p.mapLeaves f).tables ++
      laterals _ (p.mapLeaves f).topConditions _ _ (p.mapLeaves f).tables) _ =
      Table.bindAll db (Table.mapLeavesAll f (outside _ _ _ _ ++ laterals _ _ _ _ _)) _
    have houtside : outside s (divided s supply (p.mapLeaves f).topConditions).2 s.active p.tables =
        outside s (divided s supply p.topConditions).2 s.active p.tables := by
      unfold outside
      simp only [isRewritten_of_kin hkin]
    have hflat : ∀ x ∈ outside s (divided s supply p.topConditions).2 s.active p.tables,
        x.plans = [] := fun x hx => htables x (List.mem_filter.1 hx).1
    rw [Plan.tables_mapLeaves_of_flat htables, houtside, Table.mapLeavesAll_eq_map, List.map_append,
      ← Table.mapLeavesAll_eq_map, Table.mapLeavesAll_of_flat hflat]
    refine bindAll_congr (List.rel_append (List.forall₂_same.2 fun _ _ _ => rfl) ?_)
    rw [Plan.topConditions_mapLeaves] at hkin ⊢
    exact forall₂_bind_laterals hf htables hparted hkin supply
  · rw [topConditions_lateralPlan (p := p.mapLeaves f),
      Plan.topConditions_mapLeaves (p := lateralPlan s supply p), topConditions_lateralPlan (p := p),
      mapLeavesAll_append, hdivided, mapLeavesAll_flatMap]
    refine congrArg _ (List.flatMap_congr fun u _ => ?_)
    rw [isRewritten_of_kin hkin, Plan.topConditions_mapLeaves, guardsOf_mapLeavesAll hf hparted]
    split_ifs <;> rfl

end

end Lateral

open Lateral

namespace Plan

variable {p : Plan} {joins : List Join} {force : Bool} {threshold : Nat}
  {f : Condition → List Condition}

/-- The same collections become lateral subqueries. -/
theorem lateralScope_mapLeaves (hf : Steady f) (htables : ∀ x ∈ p.tables, x.plans = [])
    (hparted : ∀ c ∈ p.topConditions, c.Parted) :
    (p.mapLeaves f).lateralScope force threshold joins = p.lateralScope force threshold joins := by
  unfold lateralScope
  rw [ofPlan_mapLeaves htables]
  simp only [topConditions_mapLeaves, settle_mapLeavesAll hf hparted]

end Plan

end EntityQuery
