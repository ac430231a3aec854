import EntityQuery.Proofs.Evaluation.Truth

/-!
# Assignments that fit the tables

Binding tables one after the other is a computation; what comes out of it can be said of the result
alone.  An assignment fits a table when it binds the table to one of its rows, a joined table to a
partner of its parent's row, or to no row where an outer join has no partner.

* `Join.Fits`, `Table.Fits`: the assignment binds the table as its join asks for it;
* `Table.Staged`: no table refers to itself or to one behind it;
* `Table.mem_bindAll_iff`: the assignments of staged tables are those that fit all of them;
* `JoinTree`: a primary table with joins behind it, each on a table in front of it.
-/

namespace EntityQuery

/-- The row is a partner of the row that the join's parent is bound to. -/
def Join.Partner (db : Database) (j : Join) (e : Assignment) (row : Row) : Prop :=
  row ∈ db.table j.table ∧ (e.value j.parent).Equals (row j.own.column)

/-- The joined table is bound to a partner, or to no row where an outer join has none. -/
def Join.Fits (db : Database) (j : Join) (e : Assignment) : Prop :=
  (∃ row, j.Partner db e row ∧ e j.aliasName = some row) ∨
    (j.kind = .outer ∧ (∀ row, ¬ j.Partner db e row) ∧ e j.aliasName = none)

/-- The table is bound as it asks for it. -/
def Table.Fits (db : Database) : Table → Assignment → Prop
  | .primary aliasName table, e => ∃ row ∈ db.table table, e aliasName = some row
  | .join j, e => j.Fits db e
  | .cross aliasName table, e => ∃ row ∈ db.table table, e aliasName = some row
  | .lateral aliasName _ query, e => e aliasName = some (query.aggregates db e)

/-! ### Staged tables -/

/-- Tables without subqueries that can be bound in their order: none refers to itself or to one
behind it, and no two have the same name. -/
structure Table.Staged (ts : List Table) : Prop where
  flat : ∀ t ∈ ts, t.plans = []
  irreflexive : ∀ t ∈ ts, t.parentAlias? ≠ some t.aliasName
  pairwise : ts.Pairwise fun t t' =>
    t.aliasName ≠ t'.aliasName ∧ t.parentAlias? ≠ some t'.aliasName

section

variable {db : Database} {e e' e₀ : Assignment}

@[simp] theorem Assignment.bind_self {a : String} {row : Option Row} : e.bind a row a = row :=
  Function.update_self ..

theorem Assignment.bind_of_ne {a b : String} {row : Option Row} (h : a ≠ b) :
    e.bind b row a = e a := Function.update_of_ne h ..

theorem Assignment.eq_bind_iff {a : String} {row : Option Row} :
    e = e₀.bind a row ↔ (∀ b, b ≠ a → e b = e₀ b) ∧ e a = row := by
  rw [Assignment.bind, Function.eq_update_iff, and_comm]

theorem Assignment.value_congr {c : ColumnRef} (h : e c.aliasName = e' c.aliasName) :
    e.value c = e'.value c := by
  unfold Assignment.value
  rw [h]

theorem Assignment.value_of_none {c : ColumnRef} (h : e c.aliasName = none) :
    e.value c = .null := by
  unfold Assignment.value
  rw [h]

theorem Assignment.value_of_some {c : ColumnRef} {row : Row} (h : e c.aliasName = some row) :
    e.value c = row c.column := by
  unfold Assignment.value
  rw [h]

theorem Assignment.restrict_congr {names : List String} (h : e.Agree names e') :
    e.restrict names = e'.restrict names := by
  funext a
  unfold Assignment.restrict
  split_ifs with ha
  · exact h a ha
  · rfl

namespace Join

variable {j : Join} {row : Row}

theorem partner_congr (h : e j.parent.aliasName = e' j.parent.aliasName) :
    j.Partner db e row ↔ j.Partner db e' row := by
  unfold Partner
  rw [Assignment.value_congr h]

theorem fits_congr (h : e j.aliasName = e' j.aliasName)
    (hp : e j.parent.aliasName = e' j.parent.aliasName) : j.Fits db e ↔ j.Fits db e' := by
  unfold Fits
  rw [h]
  simp only [partner_congr hp]

/-- A table has no partner below one that has no row. -/
theorem eq_none_of_fits (hf : j.Fits db e) (hp : e j.parent.aliasName = none) :
    e j.aliasName = none := by
  rcases hf with ⟨row, ⟨_, hr⟩, _⟩ | ⟨_, _, h⟩
  · rw [Assignment.value_of_none hp] at hr
    exact absurd hr (Value.not_equals_null _)
  · exact h

theorem mem_bind_iff (h : j.parent.aliasName ≠ j.aliasName) :
    e ∈ j.bind db e₀ ↔ (∀ a, a ≠ j.aliasName → e a = e₀ a) ∧ j.Fits db e := by
  have partners : ∀ row, row ∈ ((db.table j.table).filter fun row =>
      (e₀.value j.parent).Equals (row j.own.column)) ↔ j.Partner db e₀ row := by
    intro row
    rw [List.mem_filter, decide_eq_true_iff, Partner]
  unfold bind
  simp only
  constructor
  · intro hm
    split_ifs at hm with hc
    · rw [Bool.and_eq_true, List.isEmpty_iff, decide_eq_true_iff] at hc
      rw [List.mem_singleton, Assignment.eq_bind_iff] at hm
      refine ⟨hm.1, .inr ⟨hc.2, fun row hr => ?_, hm.2⟩⟩
      rw [partner_congr (hm.1 _ h), ← partners, hc.1] at hr
      cases hr
    · obtain ⟨row, hr, he⟩ := List.mem_map.1 hm
      obtain ⟨ho, hrow⟩ := Assignment.eq_bind_iff.1 he.symm
      refine ⟨ho, .inl ⟨row, ?_, hrow⟩⟩
      rwa [partner_congr (ho _ h), ← partners]
  · rintro ⟨ho, ⟨row, hr, hrow⟩ | ⟨hk, hn, hnone⟩⟩
    · rw [partner_congr (ho _ h), ← partners] at hr
      rw [if_neg (by simp [List.ne_nil_of_mem hr])]
      exact List.mem_map.2 ⟨row, hr, (Assignment.eq_bind_iff.2 ⟨ho, hrow⟩).symm⟩
    · have hnil : ((db.table j.table).filter fun row =>
          (e₀.value j.parent).Equals (row j.own.column)) = [] := by
        refine List.eq_nil_iff_forall_not_mem.2 fun row hr => hn row ?_
        rwa [partner_congr (ho _ h), ← partners]
      rw [if_pos (by simp [hnil, hk])]
      exact List.mem_singleton.2 (Assignment.eq_bind_iff.2 ⟨ho, hnone⟩)

end Join

namespace Table

theorem mem_bind_iff {t : Table} (hflat : t.plans = []) (hself : t.parentAlias? ≠ some t.aliasName) :
    e ∈ t.bind db e₀ ↔ (∀ a, a ≠ t.aliasName → e a = e₀ a) ∧ t.Fits db e := by
  have scan : ∀ aliasName table, (e ∈ (db.table table).map fun row =>
      e₀.bind aliasName (some row)) ↔ (∀ a, a ≠ aliasName → e a = e₀ a) ∧
        ∃ row ∈ db.table table, e aliasName = some row := by
    intro aliasName table
    rw [List.mem_map]
    constructor
    · rintro ⟨row, hr, rfl⟩
      exact ⟨fun a ha => Assignment.bind_of_ne ha, row, hr, Assignment.bind_self⟩
    · rintro ⟨ho, row, hr, hrow⟩
      exact ⟨row, hr, (Assignment.eq_bind_iff.2 ⟨ho, hrow⟩).symm⟩
  cases t with
  | primary aliasName table => exact scan aliasName table
  | join j => exact Join.mem_bind_iff fun h => hself (by rw [parentAlias?, h, aliasName])
  | cross aliasName table => exact scan aliasName table
  | lateral => cases hflat

theorem fits_congr {t : Table} (hflat : t.plans = []) (h : e t.aliasName = e' t.aliasName)
    (hp : ∀ a, t.parentAlias? = some a → e a = e' a) : t.Fits db e ↔ t.Fits db e' := by
  cases t with
  | primary aliasName table => simp only [Fits]; rw [show e aliasName = e' aliasName from h]
  | join j => exact Join.fits_congr h (hp _ rfl)
  | cross aliasName table => simp only [Fits]; rw [show e aliasName = e' aliasName from h]
  | lateral => cases hflat

namespace Staged

theorem tail {t : Table} {ts : List Table} (h : Staged (t :: ts)) : Staged ts where
  flat t ht := h.flat t (List.mem_cons_of_mem _ ht)
  irreflexive t ht := h.irreflexive t (List.mem_cons_of_mem _ ht)
  pairwise := (List.pairwise_cons.1 h.pairwise).2

theorem sublist {ts ts' : List Table} (h : Staged ts) (hs : ts'.Sublist ts) : Staged ts' where
  flat t ht := h.flat t (hs.subset ht)
  irreflexive t ht := h.irreflexive t (hs.subset ht)
  pairwise := h.pairwise.sublist hs

end Staged

/-- Staged tables are bound to what fits all of them; other tables keep their rows. -/
theorem mem_bindAll_iff {ts : List Table} (h : Staged ts) {es : List Assignment} :
    e ∈ bindAll db ts es ↔
      ∃ e₀ ∈ es, (∀ a, a ∉ ts.map aliasName → e a = e₀ a) ∧ ∀ t ∈ ts, t.Fits db e := by
  induction ts generalizing es with
  | nil =>
    rw [bindAll]
    constructor
    · exact fun he => ⟨e, he, fun _ _ => rfl, by simp⟩
    · rintro ⟨e₀, he₀, heq, -⟩
      rwa [show e = e₀ from funext fun a => heq a (by simp)]
  | cons t ts ih =>
    have hself := h.irreflexive t List.mem_cons_self
    have hflat := h.flat t List.mem_cons_self
    have hrest := (List.pairwise_cons.1 h.pairwise).1
    have fresh : t.aliasName ∉ ts.map aliasName := fun hm => by
      obtain ⟨t', ht', he⟩ := List.mem_map.1 hm
      exact (hrest t' ht').1 he.symm
    have above : ∀ a, t.parentAlias? = some a → a ∉ ts.map aliasName := fun a ha hm => by
      obtain ⟨t', ht', he⟩ := List.mem_map.1 hm
      exact (hrest t' ht').2 (by rw [ha, he])
    rw [bindAll, ih h.tail]
    constructor
    · rintro ⟨e₁, he₁, ho, hf⟩
      obtain ⟨e₀, he₀, hm⟩ := List.mem_flatMap.1 he₁
      obtain ⟨ho₁, hf₁⟩ := (mem_bind_iff hflat hself).1 hm
      refine ⟨e₀, he₀, fun a ha => ?_, fun t' ht' => ?_⟩
      · rw [List.map_cons, List.mem_cons, not_or] at ha
        rw [ho a ha.2, ho₁ a ha.1]
      · rcases List.mem_cons.1 ht' with rfl | ht'
        · exact (fits_congr hflat (ho _ fresh) fun a ha => ho a (above a ha)).2 hf₁
        · exact hf t' ht'
    · rintro ⟨e₀, he₀, ho, hf⟩
      refine ⟨e₀.bind t.aliasName (e t.aliasName), List.mem_flatMap.2 ⟨e₀, he₀, ?_⟩, fun a ha => ?_,
        fun t' ht' => hf t' (List.mem_cons_of_mem _ ht')⟩
      · refine (mem_bind_iff hflat hself).2 ⟨fun a ha => Assignment.bind_of_ne ha, ?_⟩
        refine (fits_congr hflat Assignment.bind_self fun a ha => ?_).2 (hf t List.mem_cons_self)
        have hne : a ≠ t.aliasName := fun hat => hself (by rw [ha, hat])
        rw [Assignment.bind_of_ne hne]
        refine (ho a ?_).symm
        rw [List.map_cons, List.mem_cons, not_or]
        exact ⟨hne, above a ha⟩
      · by_cases hat : a = t.aliasName
        · rw [hat, Assignment.bind_self]
        · rw [Assignment.bind_of_ne hat]
          refine ho a ?_
          rw [List.map_cons, List.mem_cons, not_or]
          exact ⟨hat, ha⟩

end Table

end

/-- What a plan with staged tables selects around an assignment. -/
theorem Plan.mem_rows_iff_fits {db : Database} {p : Plan} {e e₀ : Assignment}
    (h : Table.Staged p.tables) : e ∈ p.rows db e₀ ↔
      (∀ a, a ∉ p.tables.map Table.aliasName → e a = e₀ a) ∧ (∀ t ∈ p.tables, t.Fits db e) ∧
        ∀ c ∈ p.topConditions, c.Holds db e := by
  rw [Plan.mem_rows_iff, Table.mem_bindAll_iff h]
  simp [and_assoc]

/-! ### Join trees -/

/-- Joins that refer to tables in front of them, under names of their own. -/
def Join.Ordered : List String → List Join → Prop
  | _, [] => True
  | names, j :: rest => j.parent.aliasName ∈ names ∧ j.aliasName ∉ names ∧
      j.own.aliasName = j.aliasName ∧ Join.Ordered (names ++ [j.aliasName]) rest

/-- A primary table with joins behind it, each on a table in front of it. -/
structure JoinTree where
  aliasName : String
  table : String
  joins : List Join
  ordered : Join.Ordered [aliasName] joins

namespace JoinTree

/-- The tables of the tree in their order. -/
def tables (T : JoinTree) : List Table := .primary T.aliasName T.table :: T.joins.map .join

/-- The names of the tables. -/
def aliases (T : JoinTree) : List String := T.aliasName :: T.joins.map (·.aliasName)

theorem map_aliasName_tables (T : JoinTree) : T.tables.map Table.aliasName = T.aliases := by
  simp [tables, aliases, Table.aliasName, Function.comp_def]

end JoinTree

end EntityQuery
