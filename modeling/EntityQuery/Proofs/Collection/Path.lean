import EntityQuery.Collection.Basic
import Mathlib.Data.List.Nodup
import Mathlib.Data.List.Perm.Subperm
import Mathlib.Data.Nat.Find
import Mathlib.Logic.Function.Iterate
import Mathlib.Logic.Relation

/-!
# Paths upwards

A path leads from a table to its parent, or from a collection to the one around it.  With as many steps
as there are tables with something above them it comes to all that it ever comes to, even where it leads
back to where it was.

* `Collections.mem_pathWithin_of_reaches`: so many steps are enough;
* `Collections.nearest?_eq`: the nearest collection, from that of the parent;
* `Collections.Climbs`: a collection around a table, come to from collection to collection;
* `Collections.inSubtree_iff_climbs`, `Collections.inSubtree_iff`: a table belongs to the collections
  that are come to so, and these are the ones above it.
-/

namespace EntityQuery.Collections

/-! ### Steps of a path -/

section

variable {up : String → Option String} {n : Nat} {a b c : String}

theorem pathWithin_succ (h : up a = some b) : pathWithin up (n + 1) a = a :: pathWithin up n b := by
  rw [pathWithin, h]

theorem pathWithin_of_none (h : up a = none) : pathWithin up n a = [a] := by
  cases n with
  | zero => rfl
  | succ n => rw [pathWithin, h]

/-- A path holds what its first steps lead to. -/
theorem mem_pathWithin_iff : c ∈ pathWithin up n a ↔
    ∃ k ≤ n, (·.bind up)^[k] (some a) = some c := by
  induction n generalizing a with
  | zero => simp [pathWithin, eq_comm]
  | succ n ih =>
    have hnone : ∀ k, (·.bind up)^[k] none = none := fun k => Function.iterate_fixed rfl k
    cases hup : up a with
    | none =>
      rw [pathWithin_of_none hup, List.mem_singleton]
      refine ⟨fun hc => ⟨0, Nat.zero_le _, hc ▸ rfl⟩, ?_⟩
      rintro ⟨_ | k, -, hk⟩
      · exact (Option.some.inj hk).symm
      · rw [Function.iterate_succ_apply, Option.bind_some, hup, hnone] at hk
        cases hk
    | some b =>
      rw [pathWithin_succ hup, List.mem_cons, ih]
      constructor
      · rintro (rfl | ⟨k, hk, hc⟩)
        · exact ⟨0, Nat.zero_le _, rfl⟩
        · refine ⟨k + 1, Nat.succ_le_succ hk, ?_⟩
          rwa [Function.iterate_succ_apply, Option.bind_some, hup]
      · rintro ⟨_ | k, hk, hc⟩
        · exact .inl (Option.some.inj hc).symm
        · rw [Function.iterate_succ_apply, Option.bind_some, hup] at hc
          exact .inr ⟨k, Nat.le_of_succ_le_succ hk, hc⟩

theorem reaches_iff : Relation.ReflTransGen (fun d e => up d = some e) a c ↔
    ∃ k, (·.bind up)^[k] (some a) = some c := by
  constructor
  · intro h
    induction h with
    | refl => exact ⟨0, rfl⟩
    | tail _ hstep ih =>
      obtain ⟨k, hk⟩ := ih
      exact ⟨k + 1, by rw [Function.iterate_succ_apply', hk, Option.bind_some, hstep]⟩
  · rintro ⟨k, hk⟩
    induction k generalizing c with
    | zero =>
      obtain rfl := Option.some.inj hk
      exact .refl
    | succ k ih =>
      rw [Function.iterate_succ_apply'] at hk
      obtain ⟨b, hb, hstep⟩ := Option.bind_eq_some_iff.1 hk
      exact (ih hb).tail hstep

theorem reaches_of_mem_pathWithin (h : c ∈ pathWithin up n a) :
    Relation.ReflTransGen (fun d e => up d = some e) a c := by
  obtain ⟨k, -, hk⟩ := mem_pathWithin_iff.1 h
  exact reaches_iff.2 ⟨k, hk⟩

theorem prefix_pathWithin_succ : pathWithin up n a <+: pathWithin up (n + 1) a := by
  induction n generalizing a with
  | zero => exact ⟨_, rfl⟩
  | succ n ih =>
    cases hup : up a with
    | none => simp only [pathWithin_of_none hup, List.prefix_rfl]
    | some b =>
      rw [pathWithin_succ hup, pathWithin_succ hup]
      exact (List.prefix_cons_inj a).2 ih

/-- No table is come to twice on the shortest way. -/
theorem iterate_ne_of_shortest {i j k : Nat} (hk : (·.bind up)^[k] (some a) = some c)
    (hshortest : ∀ i < k, (·.bind up)^[i] (some a) ≠ some c) (hij : i < j) (hj : j < k) :
    (·.bind up)^[i] (some a) ≠ (·.bind up)^[j] (some a) := by
  intro he
  refine hshortest (k - j + i) (by omega) ?_
  rw [Function.iterate_add_apply, he, ← Function.iterate_add_apply,
    Nat.sub_add_cancel (Nat.le_of_lt hj), hk]

/-- A table in front of the last one is stepped from. -/
theorem exists_step_of_lt {i k : Nat} (hk : (·.bind up)^[k] (some a) = some c) (hi : i < k) :
    ∃ b e, (·.bind up)^[i] (some a) = some b ∧ up b = some e := by
  have hrest : (·.bind up)^[k - (i + 1)] ((·.bind up)^[i + 1] (some a)) = some c := by
    rw [← Function.iterate_add_apply, Nat.sub_add_cancel hi, hk]
  cases hnext : (·.bind up)^[i + 1] (some a) with
  | none =>
    rw [hnext, Function.iterate_fixed rfl] at hrest
    cases hrest
  | some e =>
    rw [Function.iterate_succ_apply'] at hnext
    obtain ⟨b, hb, hup⟩ := Option.bind_eq_some_iff.1 hnext
    exact ⟨b, e, hb, hup⟩

/-- What is come to at all is come to in as many steps as there are tables to step from. -/
theorem mem_pathWithin_of_reaches {keys : List String} (hkeys : ∀ {b e}, up b = some e → b ∈ keys)
    (h : Relation.ReflTransGen (fun d e => up d = some e) a c) :
    c ∈ pathWithin up keys.length a := by
  classical
  have hex : ∃ k, (·.bind up)^[k] (some a) = some c := reaches_iff.1 h
  let k := Nat.find hex
  have hk : (·.bind up)^[k] (some a) = some c := Nat.find_spec hex
  have hshortest : ∀ i < k, (·.bind up)^[i] (some a) ≠ some c := fun i => Nat.find_min hex
  -- the tables on the shortest way are distinct keys, so that there are no more of them than keys
  have hnodup : ((List.range k).map fun i => (·.bind up)^[i] (some a)).Nodup := by
    refine List.Nodup.map_on (fun i hi j hj hij => ?_) List.nodup_range
    rw [List.mem_range] at hi hj
    rcases lt_trichotomy i j with hless | heq | hless
    · exact absurd hij (iterate_ne_of_shortest hk hshortest hless hj)
    · exact heq
    · exact absurd hij.symm (iterate_ne_of_shortest hk hshortest hless hi)
  have hsub : ((List.range k).map fun i => (·.bind up)^[i] (some a)) ⊆ keys.map some := by
    intro x hx
    obtain ⟨i, hi, rfl⟩ := List.mem_map.1 hx
    obtain ⟨b, e, hb, hup⟩ := exists_step_of_lt hk (List.mem_range.1 hi)
    exact List.mem_map.2 ⟨b, hkeys hup, hb.symm⟩
  have hle := (List.subperm_of_subset hnodup hsub).length_le
  rw [List.length_map, List.length_map, List.length_range] at hle
  exact mem_pathWithin_iff.2 ⟨k, hle, hk⟩

/-- One more step finds nothing else. -/
theorem find?_pathWithin_succ {keys : List String} (hkeys : ∀ {b e}, up b = some e → b ∈ keys)
    {p : String → Bool} :
    (pathWithin up (keys.length + 1) a).find? p = (pathWithin up keys.length a).find? p := by
  obtain ⟨rest, hrest⟩ : pathWithin up keys.length a <+: pathWithin up (keys.length + 1) a :=
    prefix_pathWithin_succ
  rw [← hrest, List.find?_append]
  cases hfind : (pathWithin up keys.length a).find? p with
  | some b => rfl
  | none =>
    rw [Option.none_or, List.find?_eq_none]
    intro b hb
    have hmem : b ∈ pathWithin up (keys.length + 1) a := hrest ▸ List.mem_append_right _ hb
    exact List.find?_eq_none.1 hfind b
      (mem_pathWithin_of_reaches hkeys (reaches_of_mem_pathWithin hmem))

end

/-! ### From collection to collection -/

variable {t : Collections} {a b c d : String}

/-- From the nearest collection of the table one comes to the collection by going to the collection
around it, any number of times. -/
def Climbs (t : Collections) (a c : String) : Prop :=
  ∃ d, t.nearest? a = some d ∧ Relation.ReflTransGen (fun d e => t.parentCollection? d = some e) d c

theorem mem_parents_of_parent? (hp : t.parent? a = some b) : a ∈ t.parents.map (·.1) := by
  obtain ⟨entry, hentry, -⟩ := Option.map_eq_some_iff.1 hp
  have hname : entry.1 = a := by simpa using List.find?_some hentry
  exact hname ▸ List.mem_map_of_mem (List.mem_of_find?_eq_some hentry)

theorem mem_parents_of_parentCollection? (hp : t.parentCollection? a = some b) :
    a ∈ t.parents.map (·.1) := by
  obtain ⟨d, hd, -⟩ := Option.bind_eq_some_iff.1 hp
  exact mem_parents_of_parent? hd

theorem mem_above : c ∈ t.above a ↔ c ∈ t.chain a ∧ t.isCollection c := by
  rw [above, List.mem_filter]

theorem mem_chain_iff : c ∈ t.chain a ↔
    Relation.ReflTransGen (fun d e => t.parent? d = some e) a c := by
  refine ⟨reaches_of_mem_pathWithin, fun h => ?_⟩
  have hmem := mem_pathWithin_of_reaches mem_parents_of_parent? h
  rwa [List.length_map] at hmem

/-- The nearest collection is the table's own or that of its parent. -/
theorem nearest?_eq : t.nearest? a =
    if t.isCollection a then some a else (t.parent? a).bind t.nearest? := by
  have hfind : ∀ b, t.nearest? b =
      (pathWithin t.parent? t.parents.length b).find? t.isCollection := fun b =>
    List.head?_filter
  have hsucc := find?_pathWithin_succ (a := a) (p := t.isCollection)
    (mem_parents_of_parent? (t := t))
  rw [List.length_map] at hsucc
  rw [hfind, ← hsucc]
  cases hp : t.parent? a with
  | none =>
    rw [pathWithin_of_none hp, List.find?_singleton]
    rfl
  | some b =>
    rw [pathWithin_succ hp, List.find?_cons, Option.bind_some, hfind]
    cases t.isCollection a <;> rfl

/-- The collections that are come to are those above the table. -/
theorem climbs_iff : t.Climbs a c ↔ c ∈ t.above a := by
  rw [mem_above, mem_chain_iff]
  have hnearest : ∀ {b d}, t.nearest? b = some d → d ∈ t.above b := fun h =>
    List.mem_of_head? h
  constructor
  · rintro ⟨d, hd, hreach⟩
    induction hreach with
    | refl => exact ⟨mem_chain_iff.1 (mem_above.1 (hnearest hd)).1, (mem_above.1 (hnearest hd)).2⟩
    | tail _ hstep ih =>
      obtain ⟨b, hb, he⟩ := Option.bind_eq_some_iff.1 hstep
      obtain ⟨hchain, hcollection⟩ := mem_above.1 (hnearest he)
      exact ⟨(ih.1.tail hb).trans (mem_chain_iff.1 hchain), hcollection⟩
  · rintro ⟨hreach, hc⟩
    induction hreach using Relation.ReflTransGen.head_induction_on with
    | refl => exact ⟨c, by rw [nearest?_eq, if_pos hc], .refl⟩
    | @head a b hp _ ih =>
      obtain ⟨d, hd, hclimb⟩ := ih
      have hparent : (t.parent? a).bind t.nearest? = some d := by rw [hp, Option.bind_some, hd]
      by_cases ha : t.isCollection a
      · exact ⟨a, by rw [nearest?_eq, if_pos ha], .head hparent hclimb⟩
      · exact ⟨d, by rw [nearest?_eq, if_neg ha, hparent], hclimb⟩

/-- A table belongs to the collections that one comes to from its nearest one. -/
theorem inSubtree_iff_climbs : t.inSubtree a c = true ↔ t.Climbs a c := by
  rw [inSubtree, Climbs]
  cases t.nearest? a with
  | none => simp
  | some d =>
    simp only [Option.some.injEq, exists_eq_left', decide_eq_true_iff]
    refine ⟨reaches_of_mem_pathWithin, fun h => ?_⟩
    have hmem := mem_pathWithin_of_reaches mem_parents_of_parentCollection? h
    rwa [List.length_map] at hmem

theorem inSubtree_iff : t.inSubtree a c = true ↔ c ∈ t.above a :=
  inSubtree_iff_climbs.trans climbs_iff

end EntityQuery.Collections
