import EntityQuery.Proofs.Collection.Ordered
import EntityQuery.Proofs.Existence.Build

/-!
# What becomes of the conditions of a collection

The subqueries that collections become take over conditions and tables.  Each condition goes to one
place, and what goes nowhere was not asked for and reads a table that is bound nowhere.

* `Subqueries`: the subqueries of collections, with those nested in them;
* `Existence.perm_sentTo`: conditions that are sent to several places are all there;
* `Existence.Divided`: conditions that are divided between subqueries and those that are dropped;
* `Existence.exists_divided`: the conditions that reach a collection are divided.
-/

namespace EntityQuery

open Existence

/-- The subqueries that stand for collections beside each other: each asks for a row, with its own
conditions and the subqueries nested in it, or for the collection to have no row. -/
inductive Subqueries
  | nil
  | row (join : Join) (names : List String) (own : List Condition) (nested rest : Subqueries)
  | missing (join : Join) (asked : Condition) (h : asked.isMissing join.aliasName = true)
      (rest : Subqueries)

namespace Subqueries

/-- The conditions that stand for the collections, over the tables of the plan. -/
def conditions (tables : List Table) : Subqueries → List Condition
  | .nil => []
  | .row j names own nested rest =>
    .existence (subquery (subqueryTables tables j.aliasName names)
      (.raw (.correlation j.parent j.own) :: (own ++ nested.conditions tables))) false
        [j.parent.aliasName] :: rest.conditions tables
  | .missing j _ _ rest =>
    .existence (subquery (subqueryTables tables j.aliasName [j.aliasName])
      [.raw (.correlation j.parent j.own)]) true [j.parent.aliasName] :: rest.conditions tables

/-- The conditions that subqueries took over, at any depth. -/
def taken : Subqueries → List Condition
  | .nil => []
  | .row _ _ own nested rest => own ++ nested.taken ++ rest.taken
  | .missing _ asked _ rest => asked :: rest.taken

/-- The tables that subqueries bind, at any depth. -/
def tables (ts : List Table) : Subqueries → List Table
  | .nil => []
  | .row j names _ nested rest =>
    subqueryTables ts j.aliasName names ++ nested.tables ts ++ rest.tables ts
  | .missing j _ _ rest => subqueryTables ts j.aliasName [j.aliasName] ++ rest.tables ts

/-- The names of the tables. -/
def names (ts : List Table) (ss : Subqueries) : List String := (ss.tables ts).map Table.aliasName

/-- The tables that subqueries ask to have no row. -/
def absent : Subqueries → List String
  | .nil => []
  | .row _ _ _ nested rest => nested.absent ++ rest.absent
  | .missing j _ _ rest => j.aliasName :: rest.absent

/-- Subqueries and others beside them. -/
def append : Subqueries → Subqueries → Subqueries
  | .nil, others => others
  | .row j names own nested rest, others => .row j names own nested (rest.append others)
  | .missing j asked h rest, others => .missing j asked h (rest.append others)

variable {ts : List Table} {ss others : Subqueries}

@[simp] theorem conditions_append :
    (ss.append others).conditions ts = ss.conditions ts ++ others.conditions ts := by
  induction ss with
  | nil => rfl
  | row j names own nested rest _ ih => simp [append, conditions, ih]
  | missing j asked h rest ih => simp [append, conditions, ih]

@[simp] theorem taken_append : (ss.append others).taken = ss.taken ++ others.taken := by
  induction ss with
  | nil => rfl
  | row j names own nested rest _ ih => simp [append, taken, ih]
  | missing j asked h rest ih => simp [append, taken, ih]

@[simp] theorem names_append :
    (ss.append others).names ts = ss.names ts ++ others.names ts := by
  unfold names
  induction ss with
  | nil => rfl
  | row j names own nested rest _ ih => simpa [append, tables] using ih
  | missing j asked h rest ih => simpa [append, tables] using ih

@[simp] theorem absent_append : (ss.append others).absent = ss.absent ++ others.absent := by
  induction ss with
  | nil => rfl
  | row j names own nested rest _ ih => simp [append, absent, ih]
  | missing j asked h rest ih => simp [append, absent, ih]

/-- What stands for a collection is no group. -/
theorem group_not_mem_conditions {g : Group} : .group g ∉ ss.conditions ts := by
  induction ss with
  | nil => exact List.not_mem_nil
  | row j names own nested rest _ ih => simpa [conditions] using ih
  | missing j asked h rest ih => simpa [conditions] using ih

end Subqueries

/-- The tables of a subquery have the names that they have in the plan. -/
theorem map_aliasName_subqueryTables {ts : List Table} {root : String} {names : List String} :
    (subqueryTables ts root names).map Table.aliasName =
      (ts.map Table.aliasName).filter (· ∈ names) := by
  rw [subqueryTables, List.map_map, List.filter_map]
  refine List.map_congr_left fun t _ => ?_
  rw [Function.comp_apply]
  split
  · split_ifs <;> rfl
  · rfl

namespace Existence

theorem plans_subqueryTables {tables : List Table} {u : String} {names : List String}
    (htables : ∀ x ∈ tables, x.plans = []) :
    ∀ x ∈ subqueryTables tables u names, x.plans = [] := by
  intro x hx
  obtain ⟨x', hx', rfl⟩ := List.mem_map.1 hx
  have hnone := htables x' (List.mem_filter.1 hx').1
  cases x' with
  | join j =>
    show Table.plans (if _ then _ else _) = []
    split_ifs <;> rfl
  | _ => exact hnone

/-! ### Conditions that are sent to several places -/

/-- Conditions that are sent to one of several places each are all there. -/
theorem perm_sentTo (send : Condition → Option String) {places : List String}
    (conditions : List Condition) (hnd : places.Nodup)
    (h : ∀ k ∈ conditions, ∀ place, send k = some place → place ∈ places) :
    conditions.Perm (staying send conditions ++
      places.flatMap fun place => sentTo send place conditions) := by
  induction conditions with
  | nil => simp [staying, sentTo]
  | cons k ks ih =>
    have hks := ih fun k hk => h k (List.mem_cons_of_mem _ hk)
    have sent : ∀ place, sentTo send place (k :: ks) =
        if send k = some place then k :: sentTo send place ks else sentTo send place ks := by
      intro place
      rw [sentTo, List.filter_cons]
      simp [sentTo]
    cases hk : send k with
    | none =>
      have hstay : staying send (k :: ks) = k :: staying send ks := by simp [staying, hk]
      simp only [sent, hk, reduceCtorEq, if_false]
      rw [hstay, List.cons_append]
      exact hks.cons k
    | some place =>
      have hstay : staying send (k :: ks) = staying send ks := by simp [staying, hk]
      obtain ⟨pre, post, rfl⟩ := List.append_of_mem (h k List.mem_cons_self place hk)
      -- the place comes once, so the others are sent what they were sent before
      have others : ∀ ps : List String, place ∉ ps →
          (ps.flatMap fun x => sentTo send x (k :: ks)) =
            ps.flatMap fun x => sentTo send x ks := by
        intro ps hps
        refine List.flatMap_congr fun x hx => ?_
        rw [sent, hk, if_neg]
        exact fun he => hps (Option.some.inj he ▸ hx)
      obtain ⟨-, hpost, hdisj⟩ := List.nodup_append.1 hnd
      rw [List.flatMap_append, List.flatMap_cons, others pre fun hm =>
          hdisj _ hm _ List.mem_cons_self rfl,
        others post (List.nodup_cons.1 hpost).1, sent, if_pos hk, hstay, List.cons_append]
      rw [List.flatMap_append, List.flatMap_cons] at hks
      rw [← List.append_assoc]
      refine (hks.cons k).trans ?_
      rw [← List.append_assoc]
      exact List.perm_middle.symm

/-! ### Conditions that are divided -/

/-- Conditions are divided between subqueries, which bind tables of a certain kind, each once, and
those that are dropped: these were not asked for and read a table of the kind that is not bound, or
is asked to have no row. -/
structure Divided (ts : List Table) (P : String → Prop) (conditions : List Condition)
    (ss : Subqueries) (dropped : List Condition) : Prop where
  perm : conditions.Perm (ss.taken ++ dropped)
  of_dropped : ∀ k ∈ dropped, k.isPruneable = true ∧
    ∃ a ∈ k.aliases, P a ∧ (a ∈ ss.names ts → a ∈ ss.absent)
  inside : ∀ a ∈ ss.names ts, P a
  nodup : (ss.names ts).Nodup

section

variable {ts : List Table} {P P' : String → Prop} {cs cs' ds ds' : List Condition}
  {ss ss' : Subqueries}

theorem Divided.nil : Divided ts P [] .nil [] :=
  ⟨.nil, nofun, nofun, List.nodup_nil⟩

theorem Divided.mono (h : Divided ts P cs ss ds) (hP : ∀ a, P a → P' a) :
    Divided ts P' cs ss ds where
  perm := h.perm
  of_dropped k hk := by
    obtain ⟨hp, a, ha, hPa, habsent⟩ := h.of_dropped k hk
    exact ⟨hp, a, ha, hP a hPa, habsent⟩
  inside a ha := hP a (h.inside a ha)
  nodup := h.nodup

/-- Divisions that concern different tables make up one. -/
theorem Divided.append (h : Divided ts P cs ss ds) (h' : Divided ts P' cs' ss' ds')
    (hP : ∀ a, P a → ¬ P' a) :
    Divided ts (fun a => P a ∨ P' a) (cs ++ cs') (ss.append ss') (ds ++ ds') where
  perm := by
    rw [Subqueries.taken_append]
    refine (h.perm.append h'.perm).trans ?_
    rw [List.append_assoc, List.append_assoc]
    refine List.Perm.append_left _ ?_
    rw [← List.append_assoc, ← List.append_assoc]
    exact List.perm_append_comm.append_right _
  of_dropped k hk := by
    rw [Subqueries.names_append, Subqueries.absent_append]
    rcases List.mem_append.1 hk with hk | hk
    · obtain ⟨hp, a, ha, hPa, habsent⟩ := h.of_dropped k hk
      refine ⟨hp, a, ha, .inl hPa, fun hm => List.mem_append_left _ ?_⟩
      exact (List.mem_append.1 hm).elim habsent fun hm => absurd (h'.inside a hm) (hP a hPa)
    · obtain ⟨hp, a, ha, hPa, habsent⟩ := h'.of_dropped k hk
      refine ⟨hp, a, ha, .inr hPa, fun hm => List.mem_append_right _ ?_⟩
      exact (List.mem_append.1 hm).elim (fun hm => absurd hPa (hP a (h.inside a hm))) habsent
  inside a ha := by
    rw [Subqueries.names_append] at ha
    exact (List.mem_append.1 ha).imp (h.inside a) (h'.inside a)
  nodup := by
    rw [Subqueries.names_append, List.nodup_append]
    exact ⟨h.nodup, h'.nodup, fun a ha b hb he => hP a (h.inside a ha) (he ▸ h'.inside b hb)⟩

/-- Conditions that were not asked for and read tables of the kind can all be dropped. -/
theorem Divided.drop (h : ∀ k ∈ cs, k.isPruneable = true ∧ ∃ a ∈ k.aliases, P a) :
    Divided ts P cs .nil cs where
  perm := .refl _
  of_dropped k hk := by
    obtain ⟨hp, a, ha, hPa⟩ := h k hk
    exact ⟨hp, a, ha, hPa, nofun⟩
  inside := nofun
  nodup := List.nodup_nil

/-- The divisions of what is sent to several places make up one. -/
theorem Divided.flatMap {places : List String} {Q : String → String → Prop}
    {stands : String → Option Condition} {sent : String → List Condition} (hnd : places.Nodup)
    (hQ : ∀ a, ∀ d ∈ places, ∀ d' ∈ places, Q d a → Q d' a → d = d')
    (h : ∀ d ∈ places, ∃ ss dropped, ss.conditions ts = (stands d).toList ∧
      Divided ts (Q d) (sent d) ss dropped) :
    ∃ ss dropped, ss.conditions ts = places.filterMap stands ∧
      Divided ts (fun a => ∃ d ∈ places, Q d a) (places.flatMap sent) ss dropped := by
  induction places with
  | nil => exact ⟨.nil, [], rfl, .nil⟩
  | cons d places ih =>
    obtain ⟨hd, hnd⟩ := List.nodup_cons.1 hnd
    obtain ⟨ss, dropped, hss, hdiv⟩ := h d List.mem_cons_self
    obtain ⟨ss', dropped', hss', hdiv'⟩ := ih hnd
      (fun a x hx y hy => hQ a x (List.mem_cons_of_mem _ hx) y (List.mem_cons_of_mem _ hy))
      fun x hx => h x (List.mem_cons_of_mem _ hx)
    refine ⟨ss.append ss', dropped ++ dropped', ?_, ?_⟩
    · rw [Subqueries.conditions_append, hss, hss', List.filterMap_cons]
      cases stands d <;> rfl
    · rw [List.flatMap_cons]
      refine (hdiv.append hdiv' ?_).mono ?_
      · rintro a ha ⟨x, hx, hxa⟩
        exact hd (hQ a d List.mem_cons_self x (List.mem_cons_of_mem _ hx) ha hxa ▸ hx)
      · rintro a (ha | ⟨x, hx, hxa⟩)
        · exact ⟨d, List.mem_cons_self, ha⟩
        · exact ⟨x, List.mem_cons_of_mem _ hx, hxa⟩

end

/-! ### The conditions of a collection -/

section

variable {ts : List Table} {t : Collections} {c d : String} {conditions : List Condition} {n : Nat}
  {j : Join}

/-- The nested collections that become subqueries of their own, or nothing. -/
def free (t : Collections) (c : String) (conditions : List Condition) : List String :=
  (t.childrenOf c).filter (· ∉ tainted t c conditions)

theorem mem_free_iff :
    d ∈ free t c conditions ↔ d ∈ t.childrenOf c ∧ d ∉ tainted t c conditions := by
  rw [free, List.mem_filter, decide_eq_true_iff]

theorem nodup_free (hF : t.IsForest) : (free t c conditions).Nodup := hF.nodup_childrenOf.filter _

theorem nested_eq (hF : t.IsForest) : nested ts t n c conditions =
    (free t c conditions).filterMap fun d => build? ts t n d (sent t c conditions d) := by
  rw [nested, foldl_insertNew_of_nodup (nodup_free hF), List.nil_append]
  rfl

/-- Each condition stays with the collection or goes to one of the nested ones. -/
theorem perm_own (hF : t.IsForest) (c : String) (conditions : List Condition) : conditions.Perm
    (own t c conditions ++ (free t c conditions).flatMap (sent t c conditions)) := by
  have hnd : (tainted t c conditions ++ free t c conditions).Nodup := by
    rw [List.nodup_append]
    refine ⟨nodup_foldl_insertNew List.nodup_nil, nodup_free hF, ?_⟩
    rintro a ha b hb rfl
    exact (mem_free_iff.1 hb).2 ha
  have := perm_sentTo (only? t (t.childrenOf c)) conditions hnd fun k _ d hs => by
    rw [List.mem_append, mem_free_iff]
    by_cases hd : d ∈ tainted t c conditions
    · exact .inl hd
    · exact .inr ⟨(of_only? hs).1, hd⟩
  rw [List.flatMap_append, ← List.append_assoc] at this
  exact this

theorem nodup_names_subqueryTables (hts : (ts.map Table.aliasName).Nodup) {root : String}
    {names : List String} : ((subqueryTables ts root names).map Table.aliasName).Nodup := by
  rw [map_aliasName_subqueryTables]
  exact hts.filter _

theorem mem_names_subqueryTables {root a : String} {names : List String}
    (h : a ∈ (subqueryTables ts root names).map Table.aliasName) : a ∈ names := by
  rw [map_aliasName_subqueryTables, List.mem_filter, decide_eq_true_iff] at h
  exact h.2

theorem aliasName_of_join? (h : t.join? c = some j) : j.aliasName = c := by
  simpa using List.find?_some h

/-- A collection that is asked to have no row takes over that condition alone. -/
theorem divided_missing (hF : t.IsForest) (hts : (ts.map Table.aliasName).Nodup)
    (hj : t.join? c = some j) {k : Condition} (hmissing : asksMissing ts t n c conditions = true)
    (hk : (own t c conditions).filter (!·.isPruneable) = [k])
    (hm : k.isMissing j.aliasName = true)
    (hchild : ∀ d ∈ t.childrenOf c, (build? ts t n d (sent t c conditions d) = none ↔
      ∀ k ∈ sent t c conditions d, k.isPruneable = true))
    (htouch : ∀ k ∈ conditions, ∃ a ∈ k.aliases, c ∈ t.above a) :
    Divided ts (c ∈ t.above ·) conditions (.missing j k hm .nil)
      (conditions.filter (·.isPruneable)) := by
  obtain ⟨-, hnested, htainted⟩ := asksMissing_iff.1 hmissing
  have hja := aliasName_of_join? hj
  have hnames : ∀ a ∈ (Subqueries.missing j k hm .nil).names ts, a = j.aliasName := fun a ha => by
    simp only [Subqueries.names, Subqueries.tables, List.append_nil] at ha
    exact List.mem_singleton.1 (mem_names_subqueryTables ha)
  refine ⟨?_, fun k' hk' => ?_, fun a ha => ?_, ?_⟩
  · -- nothing that was asked for is sent to a nested collection
    have hrest : ((free t c conditions).flatMap (sent t c conditions)).filter
        (!·.isPruneable) = [] := by
      rw [List.filter_eq_nil_iff]
      intro k' hk'
      obtain ⟨d, hd, hk'⟩ := List.mem_flatMap.1 hk'
      obtain ⟨hd, hnt⟩ := mem_free_iff.1 hd
      simp [(hchild d hd).1 (nested_eq_nil_iff.1 hnested d hd hnt) k' hk']
    have hasked := (perm_own hF c conditions).filter (!·.isPruneable)
    rw [List.filter_append, hk, hrest, List.append_nil] at hasked
    have hsplit := (List.filter_append_perm (·.isPruneable) conditions).symm.trans
      List.perm_append_comm
    rw [hasked.eq_singleton] at hsplit
    simpa [Subqueries.taken] using hsplit
  · rw [List.mem_filter] at hk'
    obtain ⟨a, ha, hc⟩ := htouch k' hk'.1
    refine ⟨hk'.2, a, ha, hc, fun hm' => ?_⟩
    rw [hnames a hm']
    exact List.mem_cons_self
  · rw [hnames a ha, hja]
    exact hF.mem_above_self (by rw [Collections.isCollection, hj]; rfl)
  · simpa [Subqueries.names, Subqueries.tables] using nodup_names_subqueryTables hts

/-- A collection that is asked for a row takes over its own conditions, and its nested collections
theirs. -/
theorem divided_row (hF : t.IsForest) (hts : (ts.map Table.aliasName).Nodup)
    {ss : Subqueries} {dropped : List Condition} (j : Join)
    (h : Divided ts (fun a => ∃ d ∈ free t c conditions, d ∈ t.above a)
      ((free t c conditions).flatMap (sent t c conditions)) ss dropped) :
    Divided ts (c ∈ t.above ·) conditions
      (.row j (kept t c conditions) (own t c conditions) ss .nil) dropped := by
  have hbelow : ∀ a, (∃ d ∈ free t c conditions, d ∈ t.above a) → c ∈ t.above a := by
    rintro a ⟨d, hd, ha⟩
    exact hF.mem_above_of_mem_childrenOf (mem_free_iff.1 hd).1 ha
  have hkept : ∀ a ∈ (subqueryTables ts j.aliasName (kept t c conditions)).map Table.aliasName,
      ¬ ∃ d ∈ free t c conditions, d ∈ t.above a := by
    rintro a ha ⟨d, hd, had⟩
    obtain ⟨hd, hnt⟩ := mem_free_iff.1 hd
    exact ((mem_kept_iff hF).1 (mem_names_subqueryTables ha)).2 d hd hnt had
  have hnames : (Subqueries.row j (kept t c conditions) (own t c conditions) ss .nil).names ts =
      (subqueryTables ts j.aliasName (kept t c conditions)).map Table.aliasName ++ ss.names ts := by
    simp [Subqueries.names, Subqueries.tables]
  refine ⟨?_, fun k hk => ?_, fun a ha => ?_, ?_⟩
  · refine (perm_own hF _ _).trans ((h.perm.append_left _).trans ?_)
    simp [Subqueries.taken]
  · obtain ⟨hp, a, ha, hd, habsent⟩ := h.of_dropped k hk
    refine ⟨hp, a, ha, hbelow a hd, fun hm => ?_⟩
    rw [hnames, List.mem_append] at hm
    rw [Subqueries.absent]
    exact List.mem_append_left _ (hm.elim (fun hm => absurd hd (hkept a hm)) habsent)
  · rw [hnames, List.mem_append] at ha
    rcases ha with ha | ha
    · exact ((mem_kept_iff hF).1 (mem_names_subqueryTables ha)).1
    · exact hbelow a (h.inside a ha)
  · rw [hnames, List.nodup_append]
    refine ⟨nodup_names_subqueryTables hts, h.nodup, ?_⟩
    rintro a ha b hb rfl
    exact hkept a ha (h.inside a hb)

/-- The conditions that reach a collection are divided between the subquery that it becomes, those
nested in this, and those that are dropped. -/
theorem exists_divided (hF : t.IsForest) (hts : (ts.map Table.aliasName).Nodup)
    (hc : t.isCollection c) (hfuel : t.collections.length < n + (t.above c).length)
    (htouch : ∀ k ∈ conditions, ∃ a ∈ k.aliases, c ∈ t.above a) :
    ∃ ss dropped, ss.conditions ts = (build? ts t n c conditions).toList ∧
      Divided ts (c ∈ t.above ·) conditions ss dropped := by
  induction n generalizing c conditions with
  | zero => exact absurd (lt_of_fuel hF hfuel) (by simp)
  | succ n ih =>
    obtain ⟨j, hj⟩ := Option.isSome_iff_exists.1 hc
    have hja := aliasName_of_join? hj
    have hsome : build? ts t (n + 1) c conditions = _ := build?_succ hj
    split_ifs at hsome with hmissing hnone
    · obtain ⟨⟨k, hk, hm⟩, -⟩ := asksMissing_iff.1 hmissing
      rw [← hja] at hm
      refine ⟨.missing j k hm .nil, _, ?_, divided_missing hF hts hj hmissing hk hm
        (fun d hd => build?_eq_none_iff hF (hF.above_of_mem_childrenOf hd).1
          (fuel_of_mem_childrenOf hF hd hfuel)) htouch⟩
      rw [hsome, Subqueries.conditions, Subqueries.conditions, hja]
      rfl
    · have hall := (build?_eq_none_iff hF hc hfuel).1 hsome
      refine ⟨.nil, conditions, by rw [hsome]; rfl, Divided.drop fun k hk => ?_⟩
      exact ⟨hall k hk, htouch k hk⟩
    · have children : ∀ d ∈ free t c conditions, ∃ ss dropped,
          ss.conditions ts = (build? ts t n d (sent t c conditions d)).toList ∧
            Divided ts (d ∈ t.above ·) (sent t c conditions d) ss dropped := by
        intro d hd
        have hd := (mem_free_iff.1 hd).1
        exact ih (hF.above_of_mem_childrenOf hd).1 (fuel_of_mem_childrenOf hF hd hfuel)
          fun k hk => (of_only? (mem_sent_iff.1 hk).2).2.1
      obtain ⟨ss, dropped, hss, hdiv⟩ := Divided.flatMap (Q := fun d a => d ∈ t.above a)
        (nodup_free hF) (fun a d hd d' hd' =>
          hF.child_unique (mem_free_iff.1 hd).1 (mem_free_iff.1 hd').1) children
      refine ⟨.row j (kept t c conditions) (own t c conditions) ss .nil, dropped, ?_,
        divided_row hF hts j hdiv⟩
      rw [hsome, Subqueries.conditions, Subqueries.conditions, hss, hja, ← nested_eq hF]
      rfl

end

end Existence

end EntityQuery
