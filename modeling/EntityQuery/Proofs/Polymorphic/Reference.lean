import EntityQuery.Find.Polymorphic
import EntityQuery.Proofs.Draft.Lookup
import EntityQuery.Proofs.Evaluation.Truth

/-!
# Polymorphic references

A polymorphic field has a column for each type that it can refer to, and refers to the row whose id is
in the one column that is not null.  A filter names such a row by its id behind the tag of its type.

* `Target.Refers`: what the columns of a row refer to;
* `Target.Names`: what a value in a filter names;
* `Predicate.Accepts`: the references that a predicate is true of, null being one of them;
* `Target.Refers.cell`: what a single column holds;
* `Target.identify_of_names`, `Target.exists_grouped`: the columns that ids belong to.
-/

namespace EntityQuery

/-! ### References -/

/-- What a polymorphic field refers to: the position of a type and an id, or nothing. -/
abbrev Reference := Option (Nat × Value)

/-- Ids of the type are stored like this. -/
def IdType.Stored : IdType → Value → Prop
  | .int, .int _ => True
  | .int, _ => False
  | _, .text _ => True
  | _, _ => False

/-- The id is stored as this value: a number, the canonical text of a UUID, or the text as it was
given, with its tag. -/
inductive IdType.Stores (given untagged : String) : IdType → Value → Prop
  | int {n : Int64} (h : Integer.parse64 untagged = .ok n) : Stores given untagged .int (.int n)
  | uuid {u : Uuid} (h : Uuid.parse? untagged = some u) : Stores given untagged .uuid (.text u.text)
  | untaggedString : Stores given untagged .untaggedString (.text given)

namespace Target

/-- The value names the reference: null names nothing, an id behind the tag of an entity names the
row of that entity. -/
inductive Names (targets : List Target) : Value → Reference → Prop
  | null : Names targets .null none
  | id {i : Nat} {t : Target} {s untagged : String} {w : Value} (ht : targets[i]? = some t)
      (htag : splitTag? s = some (t.entity.tag, untagged))
      (hstored : t.entity.idType.Stores s untagged w) : Names targets (.text s) (some (i, w))

/-- In the table of the name the columns hold the reference: one of them has the id, all others are
null. -/
def Refers (targets : List Target) (a : String) (σ : Assignment) : Reference → Prop
  | none => ∀ t ∈ targets, σ.value ⟨a, t.column⟩ = .null
  | some (i, w) => (∃ t, targets[i]? = some t ∧ t.entity.idType.Stored w ∧
      σ.value ⟨a, t.column⟩ = w) ∧
    ∀ j t, targets[j]? = some t → j ≠ i → σ.value ⟨a, t.column⟩ = .null

/-- The types have tags of their own. -/
abbrev Tagged (targets : List Target) : Prop := (targets.map (·.entity.tag)).Nodup

end Target

namespace Predicate

/-- The predicate asks which reference it is, with values that name one. -/
def AsksReference (targets : List Target) : Predicate → Prop
  | .isNull => True
  | .notNull => True
  | .compare .eq v => ∃ r, Target.Names targets v r
  | .compare .ne v => ∃ r, Target.Names targets v r
  | .isIn vs => ∀ v ∈ vs, ∃ r, Target.Names targets v r
  | .notIn vs => ∀ v ∈ vs, ∃ r, Target.Names targets v r
  | _ => False

/-- The predicate is true of the reference; null is a reference like others. -/
def Accepts (targets : List Target) (r : Reference) : Predicate → Prop
  | .isNull => r = none
  | .notNull => r ≠ none
  | .compare .eq v => Target.Names targets v r
  | .compare .ne v => ¬ Target.Names targets v r
  | .isIn vs => ∃ v ∈ vs, Target.Names targets v r
  | .notIn vs => ¬ ∃ v ∈ vs, Target.Names targets v r
  | _ => False

/-- The predicate is true of null, or of a reference to one of the types. -/
def Possible (targets : List Target) (p : Predicate) : Prop :=
  p.Accepts targets none ∨ ∃ i < targets.length, ∃ w, p.Accepts targets (some (i, w))

end Predicate

/-! ### Stored ids -/

theorem IdType.Stores.stored {ty : IdType} {s untagged : String} {w : Value}
    (h : ty.Stores s untagged w) : ty.Stored w := by
  cases h <;> trivial

theorem IdType.Stores.unique {ty : IdType} {s untagged : String} {w w' : Value}
    (h : ty.Stores s untagged w) (h' : ty.Stores s untagged w') : w = w' := by
  cases h with
  | int h =>
    cases h' with
    | int h' => rw [Except.ok.inj (h.symm.trans h')]
  | uuid h =>
    cases h' with
    | uuid h' => rw [Option.some.inj (h.symm.trans h')]
  | untaggedString =>
    cases h'
    rfl

namespace IdType.Stored

variable {ty : IdType} {v w : Value}

theorem ne_null (h : ty.Stored w) : w ≠ .null := by
  rintro rfl
  cases ty <;> exact h

theorem isNull_eq (h : ty.Stored w) : w.isNull = false :=
  Bool.eq_false_iff.2 fun hnull => h.ne_null (Value.isNull_iff.1 hnull)

/-- Stored ids of one type are compared as they are. -/
theorem exists_compare? (hv : ty.Stored v) (hw : ty.Stored w) :
    ∃ o, v.compare? w = some o ∧ (o = .eq ↔ v = w) := by
  have htexts : ∀ {s t : String}, ∃ o, (Value.text s).compare? (.text t) = some o ∧
      (o = .eq ↔ Value.text s = .text t) := fun {s t} =>
    ⟨compare s t, rfl, Std.LawfulEqOrd.compare_eq_iff_eq.trans (by simp)⟩
  cases ty with
  | int =>
    cases v with
    | int i =>
      cases w with
      | int j =>
        exact ⟨compare i j, rfl, Std.LawfulEqOrd.compare_eq_iff_eq.trans (by simp)⟩
      | _ => cases hw
    | _ => cases hv
  | uuid =>
    cases v with
    | text s =>
      cases w with
      | text t => exact htexts
      | _ => cases hw
    | _ => cases hv
  | untaggedString =>
    cases v with
    | text s =>
      cases w with
      | text t => exact htexts
      | _ => cases hw
    | _ => cases hv

theorem equals_iff (hv : ty.Stored v) (hw : ty.Stored w) : v.Equals w ↔ v = w := by
  obtain ⟨o, ho, hiff⟩ := hv.exists_compare? hw
  rw [Value.Equals, ho, Option.some.injEq, hiff]

end IdType.Stored

/-! ### Columns -/

namespace Target

variable {targets : List Target} {a : String} {σ : Assignment} {r r' : Reference} {i : Nat}
  {t : Target} {v w : Value}

/-- A type is found by its tag. -/
theorem index_unique (htags : Tagged targets) {j : Nat} {t' : Target} (ht : targets[i]? = some t)
    (ht' : targets[j]? = some t') (htag : t.entity.tag = t'.entity.tag) : i = j := by
  obtain ⟨hi, rfl⟩ := List.getElem?_eq_some_iff.1 ht
  obtain ⟨hj, rfl⟩ := List.getElem?_eq_some_iff.1 ht'
  have hi' : i < (targets.map fun t => t.entity.tag).length := by simpa using hi
  have hj' : j < (targets.map fun t => t.entity.tag).length := by simpa using hj
  have heq : (targets.map fun t => t.entity.tag)[i] = (targets.map fun t => t.entity.tag)[j] := by
    simpa using htag
  exact htags.getElem_inj_iff.1 heq

/-- A value names at most one reference. -/
theorem Names.unique (htags : Tagged targets) (h : Names targets v r) (h' : Names targets v r') :
    r = r' := by
  cases h with
  | null =>
    cases h'
    rfl
  | id ht htag hstored =>
    cases h' with
    | id ht' htag' hstored' =>
      obtain ⟨heq, rfl⟩ := Prod.mk.inj (Option.some.inj (htag.symm.trans htag'))
      obtain rfl := index_unique htags ht ht' heq
      obtain rfl := Option.some.inj (ht.symm.trans ht')
      rw [hstored.unique hstored']

theorem names_null_iff : Names targets .null r ↔ r = none := by
  constructor
  · intro h
    cases h
    rfl
  · rintro rfl
    exact .null

theorem Names.eq_null (h : Names targets v none) : v = .null := by
  cases h
  rfl

/-- An id that is named is stored in the form of its type. -/
theorem Names.stored (h : Names targets v (some (i, w))) :
    ∃ t, targets[i]? = some t ∧ t.entity.idType.Stored w := by
  cases h with
  | id ht _ hstored => exact ⟨_, ht, hstored.stored⟩

/-- A column holds the id that is referred to, or null. -/
theorem Refers.cell (h : Refers targets a σ r) (ht : targets[i]? = some t) :
    (σ.value ⟨a, t.column⟩ = .null ∧ ∀ w, r ≠ some (i, w)) ∨
      ∃ w, σ.value ⟨a, t.column⟩ = w ∧ r = some (i, w) ∧ t.entity.idType.Stored w := by
  cases r with
  | none => exact .inl ⟨h t (List.mem_of_getElem? ht), nofun⟩
  | some r =>
    obtain ⟨j, w⟩ := r
    obtain ⟨⟨t', ht', hstored, hvalue⟩, hothers⟩ := h
    by_cases hij : i = j
    · subst hij
      obtain rfl := Option.some.inj (ht.symm.trans ht')
      exact .inr ⟨w, hvalue, rfl, hstored⟩
    · refine .inl ⟨hothers i t ht hij, fun w' hw => hij ?_⟩
      exact (Prod.mk.inj (Option.some.inj hw)).1.symm

/-! ### The columns that ids belong to -/

theorem parseId_of_stores {e : Entity} {nil : NilIds} {s untagged : String}
    (htag : splitTag? s = some (e.tag, untagged)) (h : e.idType.Stores s untagged w) :
    e.parseId nil (.text s) = .ok w := by
  have huntag : e.untag (.text s) s = .ok untagged := by simp [Entity.untag, htag]
  generalize hty : e.idType = ty at h
  cases h with
  | int h =>
    simp only [Entity.parseId, hty, huntag]
    show parseUntagged .int (.text s) untagged = _
    rw [parseUntagged, h]
  | @uuid u h =>
    have hparse : parseUntagged .uuid (.text s) untagged = .ok (.text u.text) := by
      simp [parseUntagged, h]
    simp only [Entity.parseId, hty, huntag]
    exact hparse
  | untaggedString => simp only [Entity.parseId, hty]

theorem identify_of_names (htags : Tagged targets) (h : Names targets v (some (i, w)))
    (field : String) (nil : NilIds) :
    ∃ t, targets[i]? = some t ∧ identify targets field nil v = .ok (i, t, w) := by
  cases h with
  | @id _ t s untagged _ ht htag hstored =>
    have hposition : position? targets (.text s) = some i := by
      obtain ⟨hi, heq⟩ := List.getElem?_eq_some_iff.1 ht
      simp only [position?, htag]
      refine List.findIdx?_eq_some_iff_getElem.2 ⟨hi, by simp [heq], fun j hji htag => ?_⟩
      have hj : targets[j]? = some targets[j] := List.getElem?_eq_getElem _
      exact absurd (index_unique htags hj ht (of_decide_eq_true htag)) (Nat.ne_of_lt hji)
    refine ⟨t, ht, ?_⟩
    rw [identify, hposition]
    simp only [Option.bind_some, ht, Option.map_some, parseId_of_stores htag hstored]
    rfl

/-- The column of the type at the position, with the ids in the list that belong there. -/
structure Gathers (targets : List Target) (vs : List Value) (i : Nat) (g : Target × List Value) :
    Prop where
  target : targets[i]? = some g.1
  ids : ∀ w, w ∈ g.2 ↔ ∃ v ∈ vs, Names targets v (some (i, w))

theorem Gathers.stored {vs : List Value} {g : Target × List Value} (h : Gathers targets vs i g) :
    ∀ w ∈ g.2, g.1.entity.idType.Stored w := by
  intro w hw
  obtain ⟨v, -, hnames⟩ := (h.ids w).1 hw
  obtain ⟨t, ht, hstored⟩ := hnames.stored
  obtain rfl := Option.some.inj (ht.symm.trans h.target)
  exact hstored

/-- Ids that are named are grouped by their columns: there is a group for each column that some id
belongs to, and for no other. -/
theorem exists_grouped (htags : Tagged targets) {vs : List Value}
    (hvs : ∀ v ∈ vs, ∃ r, Names targets v r) (field : String) (nil : NilIds) :
    ∃ groups, grouped targets field nil vs = .ok groups ∧
      (∀ g ∈ groups, ∃ i, Gathers targets vs i g) ∧
      ∀ v ∈ vs, ∀ i w, Names targets v (some (i, w)) → ∃ g ∈ groups, Gathers targets vs i g := by
  have hnamed : ∀ v ∈ withoutNulls vs, ∃ i t w, Names targets v (some (i, w)) ∧
      targets[i]? = some t ∧ identify targets field nil v = .ok (i, t, w) := by
    intro v hv
    obtain ⟨hv, hnull⟩ := List.mem_filter.1 hv
    obtain ⟨r, hr⟩ := hvs v hv
    cases r with
    | none =>
      rw [hr.eq_null] at hnull
      cases hnull
    | some r =>
      obtain ⟨t, ht, hid⟩ := identify_of_names htags hr field nil
      exact ⟨r.1, t, r.2, hr, ht, hid⟩
  obtain ⟨ids, hids⟩ := exists_mapM_eq_ok fun v hv => by
    obtain ⟨i, t, w, -, -, hid⟩ := hnamed v hv
    exact ⟨_, hid⟩
  have hpairs := forall₂_of_mapM_eq_ok hids
  -- An id is gathered exactly where a value of the list names it.
  have hmem : ∀ i w, (∃ t, (i, t, w) ∈ ids) ↔ ∃ v ∈ vs, Names targets v (some (i, w)) := by
    intro i w
    constructor
    · rintro ⟨t, hid⟩
      obtain ⟨v, hv, hok⟩ := exists_of_forall₂ hpairs _ hid
      obtain ⟨i', t', w', hnames, -, hok'⟩ := hnamed v hv
      obtain ⟨rfl, heq⟩ := Prod.mk.inj (Except.ok.inj (hok.symm.trans hok'))
      obtain ⟨-, rfl⟩ := Prod.mk.inj heq
      exact ⟨v, (List.mem_filter.1 hv).1, hnames⟩
    · rintro ⟨v, hv, hnames⟩
      have hv' : v ∈ withoutNulls vs := List.mem_filter.2 ⟨hv, by cases hnames; rfl⟩
      obtain ⟨y, hy, hok⟩ := exists_of_forall₂ hpairs.flip v hv'
      obtain ⟨t, ht, hok'⟩ := identify_of_names htags hnames field nil
      obtain rfl := Except.ok.inj (hok.symm.trans hok')
      exact ⟨t, hy⟩
  have hgroup : ∀ i w, w ∈ (ids.filter (·.1 = i)).map (·.2.2) ↔
      ∃ v ∈ vs, Names targets v (some (i, w)) := by
    intro i w
    rw [← hmem, List.mem_map]
    constructor
    · rintro ⟨⟨j, t, w'⟩, hid, rfl⟩
      obtain ⟨hmem, hj⟩ := List.mem_filter.1 hid
      obtain rfl : j = i := of_decide_eq_true hj
      exact ⟨t, hmem⟩
    · rintro ⟨t, hid⟩
      exact ⟨_, List.mem_filter.2 ⟨hid, decide_eq_true rfl⟩, rfl⟩
  refine ⟨_, congrArg (· >>= _) hids, ?_, fun v hv i w hnames => ?_⟩
  · intro g hg
    obtain ⟨⟨t, i⟩, hti, rfl⟩ := List.mem_map.1 (List.mem_filter.1 hg).1
    exact ⟨i, List.mk_mem_zipIdx_iff_getElem?.1 hti, hgroup i⟩
  · obtain ⟨t, ht, -⟩ := identify_of_names htags hnames field nil
    have hw := (hgroup i w).2 ⟨v, hv, hnames⟩
    refine ⟨(t, (ids.filter (·.1 = i)).map (·.2.2)), List.mem_filter.2 ⟨List.mem_map.2
      ⟨(t, i), List.mk_mem_zipIdx_iff_getElem?.2 ht, rfl⟩, ?_⟩, ht, hgroup i⟩
    cases hgroup : (ids.filter (·.1 = i)).map (·.2.2) with
    | nil =>
      rw [hgroup] at hw
      cases hw
    | cons => rfl

end Target

/-! ### Predicates with null -/

namespace Predicate

variable {targets : List Target} {r : Reference} {p : Predicate}

/-- Comparison with null is a test for null. -/
theorem accepts_normalize : p.normalize.Accepts targets r ↔ p.Accepts targets r := by
  unfold normalize
  split
  · exact Target.names_null_iff.symm
  · exact not_congr Target.names_null_iff.symm
  · rfl

theorem AsksReference.normalize (h : p.AsksReference targets) :
    p.normalize.AsksReference targets := by
  unfold Predicate.normalize
  split
  · trivial
  · trivial
  · exact h

theorem Possible.normalize (h : p.Possible targets) : p.normalize.Possible targets :=
  h.imp accepts_normalize.2 fun ⟨i, hi, w, hw⟩ => ⟨i, hi, w, accepts_normalize.2 hw⟩

end Predicate

end EntityQuery
