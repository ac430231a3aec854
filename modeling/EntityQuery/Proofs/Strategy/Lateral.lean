import EntityQuery.Proofs.Lateral.Leaves
import EntityQuery.Proofs.Lateral.Usage
import EntityQuery.Proofs.Naming.Collections
import EntityQuery.Proofs.Strategy.Mirror

/-!
# Lateral subqueries need the tables that joins need

A group of conditions becomes a column, and a reference to the column stands in its place.  So the
lateral subquery is needed exactly if something is asked below its collection, and the column refers
to the tables that the group refers to.

* `Lateral.Carries`: what a condition refers to is carried to what stands in its place;
* `Lateral.carries_divided`: what stands in the place of all that was asked for;
* `Plan.Gathered.mirrors_subqueryOf`: the subquery of a collection;
* `Plan.Gathered.mirrors_lateralPlan`: the rewritten plan and the subqueries inside it.
-/

namespace EntityQuery

open Condition

namespace Lateral

/-! ### References that are carried to columns -/

/-- Outside the collections the second condition refers to what the first one refers to.  In place of
tables below a collection, it refers to the subquery of the collection; a column of the subquery
refers to them then, unless the collection alone is asked to be missing. -/
structure Carries (s : Scope) (supply : AliasSupply) (columns : List Column)
    (c c' : Condition) : Prop where
  reads : ∀ a ∈ c'.references,
    a ∈ c.references ∧ s.unit? a = none ∨ ∃ u ∈ s.active, a = subqueryName supply u
  keeps : ∀ a ∈ c.references, s.unit? a = none → a ∈ c'.references
  asks : ∀ a ∈ c.references, ∀ u, s.unit? a = some u →
    subqueryName supply u ∈ c'.references ∧ isRewritten columns u = true ∧
      (a ≠ u → a ∈ Select.referencesOf (selectsOf u columns))
  implies : ∀ a ∈ c'.implied, a ∈ c.implied ∧ s.unit? a = none

section

variable {s : Scope} {supply : AliasSupply} {columns : List Column} {op : Connective}
  {c c' : Condition} {cs cs' top siblings : List Condition} {u a name : String}

theorem mem_references_group_iff (op : Connective) (cs : List Condition) (a : String) :
    a ∈ (Condition.group ⟨op, cs⟩).references ↔ ∃ c ∈ cs, a ∈ c.references :=
  mem_referencesOf_iff

theorem mem_implied_group_iff (op : Connective) (cs : List Condition) (a : String) :
    a ∈ (Condition.group ⟨op, cs⟩).implied ↔ ∃ c ∈ cs, a ∈ c.implied :=
  mem_impliedOf_iff

theorem exists_of_forall₂ {r : Condition → Condition → Prop} (h : List.Forall₂ r cs cs') :
    (∀ c ∈ cs, ∃ c' ∈ cs', r c c') ∧ ∀ c' ∈ cs', ∃ c ∈ cs, r c c' := by
  induction h with
  | nil => exact ⟨List.forall_mem_nil _, List.forall_mem_nil _⟩
  | @cons c c' cs cs' h _ ih =>
    refine ⟨List.forall_mem_cons.2 ⟨⟨c', List.mem_cons_self, h⟩, fun d hd => ?_⟩,
      List.forall_mem_cons.2 ⟨⟨c, List.mem_cons_self, h⟩, fun d' hd' => ?_⟩⟩
    · obtain ⟨d', hd', h⟩ := ih.1 d hd
      exact ⟨d', List.mem_cons_of_mem _ hd', h⟩
    · obtain ⟨d, hd, h⟩ := ih.2 d' hd'
      exact ⟨d, List.mem_cons_of_mem _ hd, h⟩

theorem Carries.group (h : List.Forall₂ (Carries s supply columns) cs cs') :
    Carries s supply columns (.group ⟨op, cs⟩) (.group ⟨op, cs'⟩) := by
  obtain ⟨hleft, hright⟩ := exists_of_forall₂ h
  refine ⟨fun a ha => ?_, fun a ha hu => ?_, fun a ha u hu => ?_, fun a ha => ?_⟩
  · obtain ⟨c', hc', ha⟩ := (mem_references_group_iff op cs' a).1 ha
    obtain ⟨c, hc, h⟩ := hright c' hc'
    exact (h.reads a ha).imp_left fun ⟨ha, hu⟩ => ⟨mem_referencesOf_iff.2 ⟨c, hc, ha⟩, hu⟩
  · obtain ⟨c, hc, ha⟩ := (mem_references_group_iff op cs a).1 ha
    obtain ⟨c', hc', h⟩ := hleft c hc
    exact mem_referencesOf_iff.2 ⟨c', hc', h.keeps a ha hu⟩
  · obtain ⟨c, hc, ha⟩ := (mem_references_group_iff op cs a).1 ha
    obtain ⟨c', hc', h⟩ := hleft c hc
    exact (h.asks a ha u hu).imp_left fun ha => mem_referencesOf_iff.2 ⟨c', hc', ha⟩
  · obtain ⟨c', hc', ha⟩ := (mem_implied_group_iff op cs' a).1 ha
    obtain ⟨c, hc, h⟩ := hright c' hc'
    exact (h.implies a ha).imp_left fun ha => mem_impliedOf_iff.2 ⟨c, hc, ha⟩

/-- A condition that reads no collection stands for itself. -/
theorem Carries.keep (hc : Idle s c) (hunits : (s.units c).1 = []) : Carries s supply columns c c := by
  have hparted : c.Parted := hc.elim .inl And.left
  have hnone := Scope.units_eq_nil_iff.1 hunits
  have hreads : ∀ a ∈ c.references, s.unit? a = none := fun a ha =>
    hnone a (hparted.mem_references_iff.1 ha).2
  refine ⟨fun a ha => .inl ⟨ha, hreads a ha⟩, fun a ha _ => ha, fun a ha u hu => ?_, fun a ha =>
    ⟨ha, hnone a (hparted.mem_implied_iff.1 ha).2⟩⟩
  rw [hreads a ha] at hu
  cases hu

/-- The reference to a column stands for the group of the column. -/
theorem Carries.column (hc : c.Asked) (hu : u ∈ s.active) (hreads : ∀ a ∈ c.aliases, s.unit? a = some u)
    (hcolumn : ⟨u, columnOf u name c⟩ ∈ columns) :
    Carries s supply columns c (reference (aliasOf s supply) u name) := by
  have href : (reference (aliasOf s supply) u name).references = [subqueryName supply u] := by
    rw [← aliasOf_of_mem hu]
    rfl
  obtain ⟨hselect, hr⟩ := isRewritten_of_mem hcolumn
  refine ⟨fun a ha => .inr ⟨u, hu, List.mem_singleton.1 (href ▸ ha)⟩, fun a ha hnone => ?_,
    fun a ha v hv => ?_, List.forall_mem_nil _⟩
  · rw [hreads a (hc.mem_references_iff.1 ha)] at hnone
    cases hnone
  · rw [hreads a (hc.mem_references_iff.1 ha), Option.some.injEq] at hv
    subst hv
    refine ⟨href ▸ List.mem_singleton_self _, hr, fun hne => Select.mem_referencesOf_iff.2
      ⟨_, hselect, ?_⟩⟩
    rw [references_columnOf]
    split_ifs with hmissing
    · -- only the collection itself is read where it is asked to be missing
      cases hc with
      | column h =>
        simp only [isMissing, Bool.and_eq_true, decide_eq_true_iff] at hmissing
        rw [references, h] at ha
        exact absurd ((List.mem_singleton.1 ha).trans hmissing.1.1) hne
      | raw | group => cases hmissing
    · exact ha

theorem Idle.member (h : Idle s (.group ⟨op, cs⟩)) : ∀ c ∈ cs, Idle s c := by
  rcases h with h | ⟨-, hp, -⟩
  · cases h with
    | group hcs => exact fun c hc => .inl (hcs c hc)
  · cases hp

/-- What is replaced was asked for throughout. -/
theorem asked_of_lifts (hidle : ∀ m ∈ siblings, Idle s m) (h : Lifts s op siblings u c) : c.Asked := by
  induction h with
  | here =>
    refine asked_asOne fun m hm => ?_
    obtain ⟨hm, hu⟩ := List.mem_filter.1 hm
    refine (hidle m hm).resolve_right fun ⟨_, _, hnone⟩ => ?_
    rw [hnone, decide_eq_true_iff] at hu
    cases hu
  | inside hm _ _ ih =>
    exact ih (hidle _ hm).member

variable (hparted : ∀ k ∈ top, k.Parted)

include hparted

/-- What stands in the place of all that was asked for. -/
theorem carries_divided (hdiv : Divisible s top) :
    Carries s supply (divided s supply top).2 (.group ⟨.and, askedOf s top⟩)
      (.group ⟨.and, (divided s supply top).1⟩) := by
  have hfollows : Follows s (aliasOf s supply) (divided s supply top).2 (Idle s)
      (fun u c => u ∈ s.active ∧ c.Asked ∧ ∀ a ∈ c.aliases, s.unit? a = some u)
      (Carries s supply (divided s supply top).2) := by
    refine ⟨Idle.member, .group, fun {op cs c} h => ?_, .keep,
      fun ⟨hu, hc, hreads⟩ => .column hc hu hreads⟩
    · have href : ∀ a, a ∈ (Condition.group ⟨op, regroup s op cs [] cs⟩).references ↔
          a ∈ (Condition.group ⟨op, cs⟩).references := fun _ =>
        mem_group_regroup_iff mem_references_group_iff
      have himp : ∀ a, a ∈ (Condition.group ⟨op, regroup s op cs [] cs⟩).implied ↔
          a ∈ (Condition.group ⟨op, cs⟩).implied := fun _ =>
        mem_group_regroup_iff mem_implied_group_iff
      exact ⟨fun a ha => (h.reads a ha).imp_left (And.imp_left (href a).1),
        fun a ha => h.keeps a ((href a).2 ha), fun a ha => h.asks a ((href a).2 ha),
        fun a ha => (h.implies a ha).imp_left (himp a).1⟩
  have hidle := idle_of_mem_askedOf (s := s) hparted
  exact follows_group hfollows
    (fun u c hl => ⟨mem_active_of_lifts hl, asked_of_lifts hidle hl, unit?_of_lifts hl⟩) hidle
    (pinnedByAll_askedOf hdiv) (List.Subset.refl _)

/-- What was asked for is no guard. -/
theorem mem_askedOf_of_mem_references (hc : c ∈ top) (ha : a ∈ c.references) : c ∈ askedOf s top := by
  refine List.mem_filter.2 ⟨hc, ?_⟩
  rw [isGuard, ((hparted c hc).mem_references_iff.1 ha).1]
  rfl

end

end Lateral

open Lateral

namespace Plan.Gathered

variable {T : JoinTree} {p : Plan} {joins : List Join} {s : Scope} {supply supply' : AliasSupply}
  {j : Join} {u a : String} {force : Bool} {threshold : Nat} {r : Resolved}

section

variable (h : p.Gathered T joins)

include h

/-- A column refers to what is needed. -/
theorem needed_of_mem_selectsOf
    (ha : a ∈ Select.referencesOf (selectsOf u (columnsOf s supply p))) : p.Needed [] a := by
  obtain ⟨x, hx, ha⟩ := Select.mem_referencesOf_iff.1 ha
  obtain ⟨c, name, hl, rfl⟩ := exists_lifts_of_mem_selectsOf hx
  obtain ⟨m, hm, ha⟩ := exists_mem_of_lifts mem_references_group_iff hl (references_columnOf_subset ha)
  exact .asked (h.mem_ownReferences_iff.2 (.inr ⟨m, (List.mem_filter.1 hm).1, ha⟩))

variable (hparted : ∀ k ∈ p.topConditions, k.Parted) (hs : s.tree = Collections.ofPlan p joins)

include hparted hs

/-- A collection with columns is needed. -/
theorem needed_of_isRewritten (hr : isRewritten (columnsOf s supply p) u = true) : p.Needed [] u := by
  have hF := JoinTree.isForest h.tables h.mem_joins
  obtain ⟨c, hl⟩ := exists_lifts_of_isRewritten hr
  obtain ⟨m, hm, a, ha, hu⟩ := exists_unit?_of_lifts hl
  have hasked : m.Asked := (idle_of_mem_askedOf hparted m hm).resolve_right fun ⟨hp, himp, hnone⟩ => by
    obtain hp | ⟨k, rfl, -⟩ := hp
    · rw [hp.isPruneable] at himp
      cases himp
    · rw [Scope.only?_eq_some_iff.2 ⟨⟨a, ha, hu⟩, fun b hb => ?_⟩] at hnone
      · cases hnone
      · rwa [List.mem_singleton.1 hb, ← List.mem_singleton.1 ha]
  refine h.needed_of_mem_chain (Collections.mem_above.1 (hs ▸ (Scope.of_unit? hu).2)).1
    (.asked (h.mem_ownReferences_iff.2 (.inr ⟨m, (List.mem_filter.1 hm).1, ?_⟩)))
  exact hasked.mem_references_iff.2 ha

variable (hdiv : Divisible s p.topConditions)

include hdiv

/-- What the subquery of a collection refers to among its tables is needed, as is its parent. -/
theorem mirrors_subqueryOf (hj : j ∈ joins)
    (hr : isRewritten (columnsOf s supply p) j.aliasName = true) :
    p.Mirrors (subqueryOf s p.topConditions (columnsOf s supply p) j.aliasName j p.tables) := by
  have hF := JoinTree.isForest h.tables h.mem_joins
  have hF' : s.tree.IsForest := hs ▸ hF
  have hjT := h.mem_joins j hj
  have hcol := (JoinTree.isCollection_iff h.tables h.mem_joins).2 ⟨j, hj, rfl⟩
  have hmem : ∀ {a}, a ∈ s.tree.subtree j.aliasName ↔
      j.aliasName ∈ (Collections.ofPlan p joins).above a := fun {a} => by
    rw [hs, hF.mem_subtree_iff]
  have hlive := h.needed_of_isRewritten hparted hs hr
  have hown : ∀ {a}, a ∈ (subqueryOf s p.topConditions (columnsOf s supply p) j.aliasName j
      p.tables).ownReferences ↔
        a ∈ Select.referencesOf (selectsOf j.aliasName (columnsOf s supply p)) ∨
          a ∈ (Condition.raw (.correlation j.parent j.own)).references := fun {a} => by
    have hguards : ∀ k ∈ guardsOf s p.topConditions j.aliasName, k.references = [] :=
      references_of_mem_guardsOf
    rw [← mem_references_guardedAll hguards]
    simp [Plan.ownReferences, subqueryOf, Group.referencesOf, Group.references, Group.all,
      mem_referencesOf_iff]
  obtain ⟨c, hl⟩ := exists_lifts_of_isRewritten hr
  have hu := mem_active_of_lifts hl
  refine h.mirrors_of_subquery hjT (hmem.2 (hF.mem_above_self hcol)) (fun a ha => hmem.1 ha) hlive
    rfl (plans_selects_subqueryOf h.flat j) (fun _ hc => by cases hc) (fun a ha => ?_)
    (fun a ha hm => ?_) (fun k hk a ha hm hne => ?_) fun d hd _ hm hne => .inl (hmem.2 ?_)
  · rcases mem_implied_iff.1 ha with ⟨k, hk, ha⟩ | ⟨x, hx, ha⟩
    · rw [List.mem_singleton.1 hk] at ha
      cases ha
    rcases implied_guardedAll ⟨x, hx, ha⟩ with ⟨k, hk, ha⟩ | ⟨x, hx, ha⟩
    · -- a guard reads one table, which belongs to the collection
      obtain ⟨htop, hp, -⟩ := mem_guardsOf_iff.1 hk
      have ha := ((hparted k htop).mem_implied_iff.1 ha).2
      obtain ⟨b, hb, hu⟩ := exists_unit?_of_mem_guardsOf hk
      obtain ⟨b', hb'⟩ := h.single k htop hp
      rw [hb', List.mem_singleton] at ha hb
      rw [ha, ← hb]
      exact hF'.mem_subtree_iff.2 (Scope.of_unit? hu).2
    · obtain ⟨c, name, hl, rfl⟩ := exists_lifts_of_mem_selectsOf hx
      have ha := implied_columnOf_subset ha
      rw [(asked_of_lifts (idle_of_mem_askedOf hparted) hl).implied] at ha
      cases ha
  · rcases hown.1 ha with ha | ha
    · exact h.needed_of_mem_selectsOf ha
    · exact h.needed_of_correlation hjT hlive ha
  · have hunit : s.unit? a = some j.aliasName :=
      (Scope.unit?_eq_some_iff hdiv.independent hF').2 ⟨hu, hF'.mem_subtree_iff.1 hm⟩
    refine hown.2 (.inl (((carries_divided hparted hdiv).asks a ?_ _ hunit).2.2 hne))
    exact mem_referencesOf_iff.2 ⟨k, mem_askedOf_of_mem_references hparted hk ha, ha⟩
  · exact hF.mem_above_of_parent (JoinTree.parent?_of_mem h.tables hd) (hmem.1 hm)

/-- Something is asked below a collection that is needed, so the rewritten plan refers to its
subquery. -/
theorem stays_parent_lateralPlan (hj : j ∈ joins) (hneeded : p.Needed [] j.aliasName)
    (hu : j.aliasName ∈ s.active) (hr : isRewritten (columnsOf s supply p) j.aliasName = true) :
    (lateralPlan s supply p).Stays [] j.parent.aliasName := by
  have hF := JoinTree.isForest h.tables h.mem_joins
  have hcol := (JoinTree.isCollection_iff h.tables h.mem_joins).2 ⟨j, hj, rfl⟩
  obtain ⟨k, hk, b, hb, hm⟩ := h.exists_asked_of_needed hneeded (hF.mem_above_self hcol)
  have hunit : s.unit? b = some j.aliasName :=
    (Scope.unit?_eq_some_iff hdiv.independent (hs ▸ hF)).2 ⟨hu, hs ▸ hm⟩
  obtain ⟨c, hc, href⟩ := mem_referencesOf_iff.1 ((carries_divided hparted hdiv).asks b
    (mem_referencesOf_iff.2 ⟨k, mem_askedOf_of_mem_references hparted hk hb, hb⟩) _ hunit).1
  have hjoin : s.tree.join? j.aliasName = some j :=
    hs ▸ (JoinTree.join?_iff h.tables h.mem_joins).2 ⟨hj, rfl⟩
  have hlateral : Table.lateral (subqueryName supply j.aliasName) j.parent.aliasName
      (subqueryOf s p.topConditions (columnsOf s supply p) j.aliasName j p.tables) ∈
        (lateralPlan s supply p).tables :=
    List.mem_append_right _ (Lateral.mem_laterals_iff.2 ⟨_, hu, j, hjoin, hr, rfl⟩)
  have hown : (lateralPlan s supply p).Needed [] (subqueryName supply j.aliasName) := by
    refine .asked (List.mem_append_left _ (List.mem_append_left _ (List.mem_append_right _
      (mem_references_condition_iff.2 ⟨c, ?_, href⟩))))
    rw [topConditions_lateralPlan]
    exact List.mem_append_left _ hc
  exact (Needed.referent hlateral hown List.mem_cons_self).stays

omit h hs hdiv in
/-- A disjunction stays one of what was asked for. -/
theorem founded_lateralPlan (hfounded : p.Founded) : (lateralPlan s supply p).Founded := by
  refine founded_of_ofTop rfl fun hd cs hcs => ?_
  rcases List.mem_append.1 hcs with hcs | hcs
  · obtain ⟨⟨op, cs'⟩, hg, rfl, hasked⟩ := exists_group_of_mem_decompose hcs
    have hg := (List.mem_filter.1 hg).1
    obtain ⟨c, hc, -⟩ := hfounded.of_mem hd hg
    cases (hparted _ hg).asked rfl with
    | group hmembers =>
    cases cs' with
    | nil => cases hc
    | cons c' rest => exact hasked c' rest rfl (hmembers c' List.mem_cons_self).isPruneable
  · obtain ⟨u, -, hcs⟩ := List.mem_flatMap.1 hcs
    split_ifs at hcs
    · cases hcs
    · have hp := (mem_guardsOf_iff.1 hcs).2.1
      cases hp

omit hdiv in
/-- The subquery of a collection refers to tables that are left only where they are needed. -/
theorem needed_of_mem_lateral (hj : j ∈ joins) (hu : j.aliasName ∈ s.active)
    (hr : isRewritten (columnsOf s supply p) j.aliasName = true)
    (ha : a ∈ j.parent.aliasName ::
      (subqueryOf s p.topConditions (columnsOf s supply p) j.aliasName j p.tables).references)
    (hleft : Survives s supply p a) : p.Needed [] a := by
  have hF : s.tree.IsForest := hs ▸ JoinTree.isForest h.tables h.mem_joins
  have hparent := h.needed_of_parent (h.mem_joins j hj) (h.needed_of_isRewritten hparted hs hr)
  rcases List.mem_cons.1 ha with rfl | ha
  · exact hparent
  rcases references_of_scoped (scoped_subqueryOf h hs hj) ha with ha | ha
  · -- the tables of the subquery are not left outside
    rw [allAliases_subqueryOf h] at ha
    exact absurd (hF.mem_subtree_iff.1 (of_decide_eq_true (List.mem_filter.1 ha).2)) (hleft _ hu hr)
  · exact List.mem_singleton.1 ha ▸ hparent

/-- What is read outside without having been asked for is a table that is left. -/
theorem survives_of_mem_implied {k : Condition} (hk : k ∈ (lateralPlan s supply p).topConditions)
    (ha : a ∈ k.implied) : a ∈ T.aliases ∧ Survives s supply p a := by
  rcases mem_topConditions_lateralPlan_iff.1 hk with hk | ⟨u, -, hr, hk⟩
  · have hcarries : Carries s supply _ _ _ := carries_divided hparted hdiv
    obtain ⟨ha, hnone⟩ := hcarries.implies a (mem_impliedOf_iff.2 ⟨k, hk, ha⟩)
    obtain ⟨m, hm, ha⟩ := mem_impliedOf_iff.1 ha
    have hm := (List.mem_filter.1 hm).1
    exact ⟨h.reads m hm a ((hparted m hm).mem_implied_iff.1 ha).2, fun v hv _ =>
      Scope.unit?_eq_none_iff.1 hnone v hv⟩
  · have hm := (mem_guardsOf_iff.1 hk).1
    have ha := ((hparted k hm).mem_implied_iff.1 ha).2
    exact ⟨h.reads k hm a ha, survives_of_mem_guardsOf
      (hs ▸ JoinTree.isForest h.tables h.mem_joins) hdiv.independent hr hk a ha⟩

omit hs in
/-- Besides columns of subqueries, the conditions outside refer to what is needed. -/
theorem needed_of_mem_references_lateralPlan (hfresh : Fresh s p supply) {k : Condition}
    (hk : k ∈ (lateralPlan s supply p).topConditions) (ha : a ∈ k.references) (hm : a ∈ T.aliases) :
    p.Needed [] a := by
  rcases mem_topConditions_lateralPlan_iff.1 hk with hk | ⟨u, -, -, hk⟩
  · have hcarries : Carries s supply _ _ _ := carries_divided hparted hdiv
    rcases hcarries.reads a (mem_referencesOf_iff.2 ⟨k, hk, ha⟩) with ⟨ha, -⟩ | ⟨u, hu, rfl⟩
    · obtain ⟨m, hmem, ha⟩ := mem_referencesOf_iff.1 ha
      exact .asked (h.mem_ownReferences_iff.2 (.inr ⟨m, (List.mem_filter.1 hmem).1, ha⟩))
    · exact absurd rfl (ne_subqueryName h.tables hfresh hm _ hu)
  · rw [references_of_mem_guardsOf k hk] at ha
    cases ha

omit h hs in
/-- What is asked of a table that is left is asked outside. -/
theorem exists_mem_references_lateralPlan {k : Condition} (hk : k ∈ p.topConditions)
    (ha : a ∈ k.references) (hleft : Survives s supply p a) :
    ∃ k' ∈ (lateralPlan s supply p).topConditions, a ∈ k'.references := by
  have hcarries : Carries s supply _ _ _ := carries_divided hparted hdiv
  have href : a ∈ (Condition.group ⟨.and, askedOf s p.topConditions⟩).references :=
    mem_referencesOf_iff.2 ⟨k, mem_askedOf_of_mem_references hparted hk ha, ha⟩
  have hnone : s.unit? a = none := by
    refine Option.eq_none_iff_forall_ne_some.2 fun u hu => ?_
    obtain ⟨hactive, hin⟩ := Scope.of_unit? hu
    exact hleft u hactive (hcarries.asks a href u hu).2.1 hin
  obtain ⟨k', hk', ha⟩ := mem_referencesOf_iff.1 (hcarries.keeps a href hnone)
  rw [topConditions_lateralPlan]
  exact ⟨k', List.mem_append_left _ hk', ha⟩

/-- A table that is needed is left with the table that it is joined to, or it is a collection whose
subquery keeps that table. -/
theorem survives_or_stays_parent (hj : j ∈ T.joins) (hneeded : p.Needed [] j.aliasName)
    (hleft : Survives s supply p j.parent.aliasName) :
    Survives s supply p j.aliasName ∨ (lateralPlan s supply p).Stays [] j.parent.aliasName := by
  by_cases hleft' : Survives s supply p j.aliasName
  · exact .inl hleft'
  unfold Survives at hleft'
  push Not at hleft'
  obtain ⟨u, hu, hr, hin⟩ := hleft'
  have hname : j.aliasName = u := by
    by_contra hne
    exact hleft u hu hr (hs ▸ JoinTree.parent_mem_above h.tables h.mem_joins hj (hs ▸ hin) hne)
  subst hname
  obtain ⟨d, hd, hname⟩ := (JoinTree.isCollection_iff h.tables h.mem_joins).1
    (hs ▸ hdiv.independent.collection _ hu)
  obtain rfl := JoinTree.eq_of_aliasName (h.mem_joins d hd) hj hname
  exact .inr (h.stays_parent_lateralPlan hparted hs hdiv hd hneeded hu hr)

omit hparted hs hdiv in
/-- There are no other plans inside the subquery of a collection. -/
theorem nestedPlans_subqueryOf :
    (subqueryOf s p.topConditions (columnsOf s supply p) u j p.tables).nestedPlans = [] := by
  refine List.eq_nil_iff_forall_not_mem.2 fun q hq => ?_
  rcases mem_nestedPlans_iff.1 hq with ⟨t, ht, hq⟩ | ⟨k, hk, hq⟩ | ⟨x, hx, hq⟩
  · rw [Existence.plans_subqueryTables h.plans_tables t ht] at hq
    cases hq
  · rw [List.mem_singleton.1 hk] at hq
    cases hq
  · rw [plans_selects_subqueryOf h.flat j x hx] at hq
    cases hq

omit hparted in
/-- The plans inside the rewritten plan are the subqueries of collections with columns. -/
theorem exists_of_mem_nestedPlans_lateralPlan {q : Plan}
    (hq : q ∈ (lateralPlan s supply p).nestedPlans) :
    ∃ j ∈ joins, isRewritten (columnsOf s supply p) j.aliasName = true ∧
      q = subqueryOf s p.topConditions (columnsOf s supply p) j.aliasName j p.tables := by
  rcases mem_nestedPlans_iff.1 hq with ⟨t, ht, hq⟩ | ⟨k, hk, hq⟩ | ⟨x, hx, hq⟩
  · rcases List.mem_append.1 ht with ht | ht
    · rw [h.plans_tables t (List.mem_filter.1 ht).1] at hq
      cases hq
    · obtain ⟨j, hj, -, hr, rfl⟩ := exists_of_mem_laterals h.tables h.mem_joins hs ht
      exact ⟨j, hj, hr, List.mem_singleton.1 hq⟩
  · rcases mem_topConditions_lateralPlan_iff.1 hk with hk | ⟨u, -, -, hk⟩
    · rw [h.plans_divided hdiv k hk] at hq
      cases hq
    · rw [h.flat k (mem_guardsOf_iff.1 hk).1] at hq
      cases hq
  · rw [(h.selects x hx).1] at hq
    cases hq

/-- The tables that are left, and the subqueries behind them. -/
theorem mirrors_lateralPlan (hplain : ∀ x ∈ p.selects, x.implied = []) (hfounded : p.Founded)
    (hfresh : Fresh s p supply) :
    (lateralPlan s supply p).Everywhere p.Mirrors := by
  refine .intro ?_ fun q hq => ?_
  · refine h.mirrors_of_filter (Survives s supply p) (Lateral.laterals s p.topConditions
      (columnsOf s supply p) supply p.tables) hplain (fun t => ?_) (fun t ht => ?_) rfl
      (founded_lateralPlan hparted hfounded) rfl rfl
      (fun k hk a ha => h.survives_of_mem_implied hparted hs hdiv hk ha)
      (fun k hk a ha hm _ => h.needed_of_mem_references_lateralPlan hparted hdiv hfresh hk ha hm)
      (fun k hk a ha hleft => exists_mem_references_lateralPlan hparted hdiv hk ha hleft)
      fun j hj hneeded hleft => h.survives_or_stays_parent hparted hs hdiv hj hneeded hleft
    · refine List.mem_append.trans (or_congr_left ?_)
      exact (mem_outside_iff h.tables h.mem_joins hs).trans (by rw [h.tables])
    · obtain ⟨j, hj, hu, hr, rfl⟩ := exists_of_mem_laterals h.tables h.mem_joins hs ht
      exact ⟨_, _, _, rfl, fun hm => ne_subqueryName h.tables hfresh hm _ hu rfl, fun a ha hleft =>
        h.needed_of_mem_lateral hparted hs hj hu hr ha hleft⟩
  · obtain ⟨j, hj, hr, rfl⟩ := h.exists_of_mem_nestedPlans_lateralPlan hs hdiv hq
    refine .intro (h.mirrors_subqueryOf hparted hs hdiv hj hr) fun q hq => ?_
    rw [h.nestedPlans_subqueryOf] at hq
    cases hq

end

end Plan.Gathered

end EntityQuery
