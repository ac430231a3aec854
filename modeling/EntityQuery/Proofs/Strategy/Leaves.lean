import EntityQuery.Proofs.Draft.Step
import EntityQuery.Proofs.Pruning.Round
import EntityQuery.Proofs.Pruning.Top
import EntityQuery.Collection.Basic
import EntityQuery.Proofs.Evaluation.Truth

/-!
# Conditions with other leaves

Passes replace the leaves of a plan: what was asked for gets tests for rows, what was not asked for
goes with its table.  Neither changes which tables a condition reads, so a condition with other
leaves is sent to the place where the condition would be sent.

* `Condition.Steady`: the replacements that passes make;
* `Condition.changed`: the condition that stands in the place of one that was asked for;
* `Condition.Twin`: the two are sent to the same places.
-/

namespace EntityQuery

theorem Table.mapLeavesAll_of_flat {f : Condition → List Condition} {ts : List Table}
    (h : ∀ t ∈ ts, t.plans = []) : Table.mapLeavesAll f ts = ts := by
  rw [Table.mapLeavesAll_eq_map]
  conv_rhs => rw [← List.map_id ts]
  refine List.map_congr_left fun t ht => ?_
  have hflat := h t ht
  cases t with
  | lateral => cases hflat
  | _ => rfl

namespace Plan

variable {p q : Plan} {joins : List Join} {f : Condition → List Condition} {db : Database}
  {e : Assignment}

theorem tables_mapLeaves_of_flat (h : ∀ x ∈ p.tables, x.plans = []) :
    (p.mapLeaves f).tables = p.tables := by
  rw [tables_mapLeaves, ← Table.mapLeavesAll_eq_map, Table.mapLeavesAll_of_flat h]

theorem ofPlan_mapLeaves (h : ∀ x ∈ p.tables, x.plans = []) :
    Collections.ofPlan (p.mapLeaves f) joins = Collections.ofPlan p joins := by
  unfold Collections.ofPlan hasAlias
  rw [tables_mapLeaves_of_flat h]

/-- The rows of a plan depend on what its tables are bound to and on the conditions at its top. -/
theorem rows_congr (htables : Table.bindAll db p.tables [e] = Table.bindAll db q.tables [e])
    (htop : p.topConditions = q.topConditions) : p.rows db e = q.rows db e := by
  rw [rows_eq_filter, rows_eq_filter, htables]
  simp only [evalTop_eq_combine, htop]

end Plan

namespace Condition

/-- What stands in the place of a column condition that was asked for: the condition, with another
one on the same table beside it, unless it is on the id. -/
inductive Checks (c : ColumnCondition) : Condition → Prop
  | same : Checks c (.column c)
  | beside {n : ColumnCondition} (hname : n.aliasName = c.aliasName) (hasked : n.pruneable = false)
      (hid : c.column ≠ "id") : Checks c (.all [.column c, .column n])

/-- Fragments that were asked for are left, column conditions that were asked for are left with one
more condition on the same table, those that were not asked for are left or go. -/
structure Steady (f : Condition → List Condition) : Prop where
  raw : ∀ r : RawCondition, r.pruneable = false → f (.raw r) = [.raw r]
  asked : ∀ c : ColumnCondition, c.pruneable = false → ∃ k, f (.column c) = [k] ∧ Checks c k
  implied : ∀ c : ColumnCondition, c.pruneable = true → f (.column c) = [.column c] ∨
    f (.column c) = []

/-- The two conditions read the same tables, and are alike in all that decides where a condition is
sent. -/
structure Twin (c c' : Condition) : Prop where
  aliases : c'.aliases = c.aliases
  isPruneable : c'.isPruneable = c.isPruneable
  isMissing : ∀ a, c'.isMissing a = c.isMissing a

/-- The condition that stands in the place of one that was asked for. -/
def changed (f : Condition → List Condition) (c : Condition) : Condition := (c.mapLeaves f).headD c

section

variable {f : Condition → List Condition} {c c' k : Condition} {cs : List Condition}
  {ownerOf : String → Option String}

theorem Twin.refl : Twin c c := ⟨rfl, rfl, fun _ => rfl⟩

theorem Checks.twin {c : ColumnCondition} (h : Checks c k) (hasked : c.pruneable = false) :
    Twin (.column c) k := by
  cases h with
  | same => exact .refl
  | @beside n hname _ hid =>
    refine ⟨?_, hasked.symm, fun a => ?_⟩
    · simp [Condition.all, Group.all, aliases, Group.aliases, aliasesInto, insertNew, hname]
    · simp [Condition.all, isMissing, hid]

theorem Checks.spanning? {c : ColumnCondition} (h : Checks c k) : k.spanning? ownerOf = none := by
  cases h with
  | same => rfl
  | beside => rfl

theorem aliasesInto_map (h : ∀ c ∈ cs, (c.changed f).aliases = c.aliases) (found : List String) :
    aliasesInto found (cs.map (changed f)) = aliasesInto found cs := by
  induction cs generalizing found with
  | nil => rfl
  | cons c cs ih =>
    obtain ⟨hc, hcs⟩ := List.forall_mem_cons.1 h
    rw [List.map_cons, aliasesInto, aliasesInto, hc, ih hcs]

theorem spanningOf?_map (h : ∀ c ∈ cs, (c.changed f).spanning? ownerOf = c.spanning? ownerOf) :
    spanningOf? ownerOf (cs.map (changed f)) = spanningOf? ownerOf cs := by
  induction cs with
  | nil => rfl
  | cons c cs ih =>
    obtain ⟨hc, hcs⟩ := List.forall_mem_cons.1 h
    rw [List.map_cons, spanningOf?, spanningOf?, hc, ih hcs]

/-- What is chosen by the places where conditions are sent is chosen with the other leaves. -/
theorem filter_mapLeavesAll {p : Condition → Bool}
    (h : ∀ c ∈ cs, ∀ k ∈ c.mapLeaves f, p k = p c) :
    (mapLeavesAll f cs).filter p = mapLeavesAll f (cs.filter p) := by
  induction cs with
  | nil => rfl
  | cons c cs ih =>
    obtain ⟨hc, hcs⟩ := List.forall_mem_cons.1 h
    rw [mapLeavesAll, List.filter_append, ih hcs, List.filter_cons]
    split_ifs with hp
    · rw [mapLeavesAll, List.filter_eq_self.2 fun k hk => (hc k hk).trans hp]
    · rw [List.filter_eq_nil_iff.2 fun k hk => by rwa [hc k hk], List.nil_append]

theorem mapLeavesAll_eq_map (h : ∀ c ∈ cs, c.mapLeaves f = [c.changed f]) :
    mapLeavesAll f cs = cs.map (changed f) := by
  induction cs with
  | nil => rfl
  | cons c cs ih =>
    obtain ⟨hc, hcs⟩ := List.forall_mem_cons.1 h
    rw [mapLeavesAll, hc, ih hcs]
    rfl

theorem mapLeavesAll_flatMap {α : Type} {xs : List α} {g : α → List Condition} :
    mapLeavesAll f (xs.flatMap g) = xs.flatMap fun x => mapLeavesAll f (g x) := by
  induction xs with
  | nil => rfl
  | cons x xs ih => rw [List.flatMap_cons, mapLeavesAll_append, ih, List.flatMap_cons]

/-- What is gathered from conditions is gathered with the other leaves. -/
theorem flatMap_mapLeavesAll {α : Type} {g : Condition → List α}
    (h : ∀ c ∈ cs, (c.mapLeaves f).flatMap g = g c) : (mapLeavesAll f cs).flatMap g = cs.flatMap g := by
  induction cs with
  | nil => rfl
  | cons c cs ih =>
    obtain ⟨hc, hcs⟩ := List.forall_mem_cons.1 h
    rw [mapLeavesAll, List.flatMap_append, hc, ih hcs, List.flatMap_cons]

variable (hf : Steady f)

include hf

/-- One condition stands in the place of a condition that was asked for. -/
theorem mapLeaves_of_asked (h : c.Asked) : c.mapLeaves f = [c.changed f] := by
  cases h with
  | @column c h =>
    obtain ⟨k, hk, -⟩ := hf.asked c h
    rw [changed, mapLeaves, hk]
    rfl
  | @raw r h =>
    rw [changed, mapLeaves, hf.raw r h]
    rfl
  | group => rfl

theorem mapLeavesAll_of_asked (h : ∀ c ∈ cs, c.Asked) : mapLeavesAll f cs = cs.map (changed f) :=
  mapLeavesAll_eq_map fun c hc => mapLeaves_of_asked hf (h c hc)

theorem changed_group {op : Connective} (h : ∀ c ∈ cs, c.Asked) :
    (Condition.group ⟨op, cs⟩).changed f = .group ⟨op, cs.map (changed f)⟩ := by
  rw [← mapLeavesAll_of_asked hf h]
  rfl

theorem changed_raw {r : RawCondition} (h : r.pruneable = false) : (Condition.raw r).changed f = .raw r := by
  rw [changed, mapLeaves, hf.raw r h]
  rfl

theorem checks_changed {c : ColumnCondition} (h : c.pruneable = false) :
    Checks c ((Condition.column c).changed f) := by
  obtain ⟨k, hk, hchecks⟩ := hf.asked c h
  rw [changed, mapLeaves, hk]
  exact hchecks

theorem Asked.twin (h : c.Asked) : Twin c (c.changed f) := by
  induction h with
  | column h => exact (checks_changed hf h).twin h
  | raw h =>
    rw [changed_raw hf h]
    exact .refl
  | group h ih =>
    rw [changed_group hf h]
    exact ⟨aliasesInto_map (fun c hc => (ih c hc).aliases) [], rfl, fun _ => rfl⟩

theorem Parted.twin (h : c.Parted) : ∀ k ∈ c.mapLeaves f, Twin c k := by
  intro k hk
  rcases h with h | ⟨n, rfl, hn⟩
  · rw [mapLeaves_of_asked hf h, List.mem_singleton] at hk
    rw [hk]
    exact h.twin hf
  · rw [mapLeaves] at hk
    rcases hf.implied n hn with he | he
    · rw [he, List.mem_singleton] at hk
      rw [hk]
      exact .refl
    · rw [he] at hk
      cases hk

theorem Asked.spanning? (h : c.Asked) : (c.changed f).spanning? ownerOf = c.spanning? ownerOf := by
  induction h with
  | column h => exact (checks_changed hf h).spanning?
  | raw h => rw [changed_raw hf h]
  | group h ih =>
    rw [changed_group hf h]
    exact spanningOf?_map ih

/-- No fragment comes or goes. -/
theorem spanningOf?_mapLeavesAll (h : ∀ c ∈ cs, c.Parted) :
    spanningOf? ownerOf (mapLeavesAll f cs) = spanningOf? ownerOf cs := by
  induction cs with
  | nil => rfl
  | cons c cs ih =>
    obtain ⟨hc, hcs⟩ := List.forall_mem_cons.1 h
    rw [mapLeavesAll]
    rcases hc with hc | ⟨n, rfl, hn⟩
    · rw [mapLeaves_of_asked hf hc, List.singleton_append, spanningOf?, spanningOf?, ih hcs,
        hc.spanning? hf]
    · rw [mapLeaves]
      rcases hf.implied n hn with he | he
      · rw [he, List.singleton_append, spanningOf?, spanningOf?, ih hcs]
      · rw [he, List.nil_append, ih hcs]
        rfl

/-- What is gathered from conditions that were asked for is gathered with the other leaves, if
nothing is gathered from other ones. -/
theorem flatMap_of_parted {α : Type} {g : Condition → List α} (h : ∀ c ∈ cs, c.Parted)
    (hg : ∀ c ∈ cs, ∀ k, Twin c k → g k = g c)
    (himplied : ∀ c ∈ cs, c.isPruneable = true → g c = []) :
    (mapLeavesAll f cs).flatMap g = cs.flatMap g := by
  refine flatMap_mapLeavesAll fun c hc => ?_
  rcases h c hc with hasked | ⟨n, rfl, hn⟩
  · rw [mapLeaves_of_asked hf hasked, List.flatMap_singleton, hg c hc _ (hasked.twin hf)]
  · rw [himplied _ hc hn, List.flatMap_eq_nil_iff]
    intro k hk
    rw [hg _ hc k (Parted.twin hf (.inr ⟨n, rfl, hn⟩) k hk), himplied _ hc hn]

end

end Condition

end EntityQuery
