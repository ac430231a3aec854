import EntityQuery.Proofs.Lateral.Column
import EntityQuery.Proofs.Collection.Subtree

/-!
# Tables of a plan with lateral subqueries

Each collection that has columns gives up its subtree for a lateral subquery behind the other
tables.  A lateral table is bound to one row, whatever the tables before it are bound to.

* `Lateral.nameUnits_eq`: the names of the subqueries;
* `Lateral.absorbAll_eq`: the tables and the conditions that are left;
* `Lateral.mem_bindAll_laterals`: what lateral tables are bound to.
-/

namespace EntityQuery

namespace AliasSupply

theorem count_withCount_of_ne {supply : AliasSupply} {name name' : String} {n : Nat}
    (h : name' ≠ name) : (supply.withCount name n).count name' = supply.count name' := by
  unfold withCount count
  rw [List.find?_cons_of_neg (by simpa using h.symm), List.find?_filter]
  congr 2
  refine congrArg (fun p => List.find? p supply.counters) (funext fun entry => ?_)
  by_cases he : entry.1 = name'
  · simp [he, h]
  · simp [he]

/-- A name depends on the supply alone; other names that were given make no difference. -/
theorem literal_of_ne {supply : AliasSupply} {name name' : String} (h : name' ≠ name) :
    ((supply.literal name).2.literal name').1 = (supply.literal name').1 := by
  unfold literal
  simp only
  rw [count_withCount_of_ne h]

end AliasSupply

namespace Lateral

/-- The name of the subquery of a collection. -/
def subqueryName (supply : AliasSupply) (unit : String) : String := (supply.literal ("_" ++ unit)).1

theorem underscore_injective {u v : String} (h : "_" ++ u = "_" ++ v) : u = v := by
  have h' := congrArg String.toList h
  rw [String.toList_append, String.toList_append, List.append_cancel_left_eq] at h'
  exact String.toList_inj.1 h'

/-- Each collection asks for a name of its own, so the names do not depend on each other. -/
theorem nameUnits_eq {units : List String} (h : units.Nodup) (supply : AliasSupply) :
    (nameUnits units supply).1 = units.map fun u => (u, subqueryName supply u) := by
  induction units generalizing supply with
  | nil => rfl
  | cons u units ih =>
    obtain ⟨hu, hrest⟩ := List.nodup_cons.1 h
    have hnames : ∀ v ∈ units,
        subqueryName (supply.literal ("_" ++ u)).2 v = subqueryName supply v := fun v hv =>
      AliasSupply.literal_of_ne fun he => hu (underscore_injective he ▸ hv)
    have hstep : (nameUnits (u :: units) supply).1 =
        (u, subqueryName supply u) :: (nameUnits units (supply.literal ("_" ++ u)).2).1 := rfl
    rw [hstep, ih hrest, List.map_cons]
    refine congrArg _ (List.map_congr_left fun v hv => ?_)
    rw [hnames v hv]

/-! ### What is left -/

/-- The collection has columns. -/
def isRewritten (columns : List Column) (unit : String) : Bool :=
  !(selectsOf unit columns).isEmpty

/-- The subquery of a collection. -/
def subqueryOf (s : Scope) (top : List Condition) (columns : List Column) (unit : String)
    (j : Join) (tables : List Table) : Plan :=
  ⟨guardedAll (guardsOf s top unit) (selectsOf unit columns),
    subqueryTables tables unit (s.tree.subtree unit),
    some (.all [.raw (.correlation j.parent j.own)]), [], none, none⟩

/-- The lateral table of a collection, if it has columns. -/
def lateral? (s : Scope) (top : List Condition) (columns : List Column) (name : String → String)
    (tables : List Table) (unit : String) : Option Table :=
  match s.tree.join? unit with
  | some j =>
    if isRewritten columns unit then
      some (.lateral (name unit) j.parent.aliasName (subqueryOf s top columns unit j tables))
    else none
  | none => none

/-- The tables below none of the given collections that have columns. -/
def outside (s : Scope) (columns : List Column) (units : List String) (tables : List Table) :
    List Table :=
  tables.filter fun x => units.all fun u => !(isRewritten columns u) || x.aliasName ∉ s.tree.subtree u

section

variable {s : Scope} {top : List Condition} {columns : List Column} {name : String → String}
  {unit u v : String} {units : List String} {tables laterals : List Table} {j : Join}

theorem absorb_of_rewritten (hu : isRewritten columns unit = true) :
    absorb s top columns unit (name unit) j tables =
      (tables.filter (·.aliasName ∉ s.tree.subtree unit) ++
        [.lateral (name unit) j.parent.aliasName (subqueryOf s top columns unit j tables)], []) := by
  unfold absorb
  cases hs : selectsOf unit columns with
  | nil => simp [isRewritten, hs] at hu
  | cons x xs => simp only [subqueryOf, hs]

theorem absorb_of_not_rewritten (hu : isRewritten columns unit = false) :
    absorb s top columns unit (name unit) j tables = (tables, guardsOf s top unit) := by
  unfold absorb
  cases hs : selectsOf unit columns with
  | nil => rfl
  | cons x xs => simp [isRewritten, hs] at hu

/-- The subquery of a collection is not changed by tables that are not below it. -/
theorem subqueryTables_congr {tables' : List Table}
    (h : tables.filter (·.aliasName ∈ s.tree.subtree unit) =
      tables'.filter (·.aliasName ∈ s.tree.subtree unit)) :
    subqueryTables tables unit (s.tree.subtree unit) =
      subqueryTables tables' unit (s.tree.subtree unit) := by
  rw [subqueryTables, subqueryTables, h]

theorem subqueryOf_congr {tables' : List Table}
    (h : tables.filter (·.aliasName ∈ s.tree.subtree unit) =
      tables'.filter (·.aliasName ∈ s.tree.subtree unit)) :
    subqueryOf s top columns unit j tables = subqueryOf s top columns unit j tables' := by
  rw [subqueryOf, subqueryOf, subqueryTables_congr h]

theorem lateral?_congr {tables' : List Table}
    (h : tables.filter (·.aliasName ∈ s.tree.subtree unit) =
      tables'.filter (·.aliasName ∈ s.tree.subtree unit)) :
    lateral? s top columns name tables unit = lateral? s top columns name tables' unit := by
  unfold lateral?
  simp only [subqueryOf_congr h]

/-- A collection takes nothing of tables that are not below it. -/
theorem filter_subtree_append (tables : List Table)
    (h : ∀ x ∈ laterals, x.aliasName ∉ s.tree.subtree u) :
    (tables ++ laterals).filter (·.aliasName ∈ s.tree.subtree u) =
        tables.filter (·.aliasName ∈ s.tree.subtree u) ∧
      (tables ++ laterals).filter (·.aliasName ∉ s.tree.subtree u) =
        tables.filter (·.aliasName ∉ s.tree.subtree u) ++ laterals := by
  have hnil : laterals.filter (·.aliasName ∈ s.tree.subtree u) = [] :=
    List.filter_eq_nil_iff.2 fun x hx => by simpa using h x hx
  have hall : laterals.filter (·.aliasName ∉ s.tree.subtree u) = laterals :=
    List.filter_eq_self.2 fun x hx => by simpa using h x hx
  rw [List.filter_append, List.filter_append, hnil, hall, List.append_nil]
  exact ⟨rfl, rfl⟩

theorem outside_filter (hr : isRewritten columns u = true) :
    outside s columns units (tables.filter (·.aliasName ∉ s.tree.subtree u)) =
      outside s columns (u :: units) tables := by
  simp only [outside, List.filter_filter, List.all_cons, hr, Bool.not_true, Bool.false_or,
    Bool.and_comm]

/-- The lateral table of a collection does not depend on tables below another one. -/
theorem lateral?_filter (h : ∀ a ∈ s.tree.subtree v, a ∉ s.tree.subtree u) :
    lateral? s top columns name (tables.filter (·.aliasName ∉ s.tree.subtree u)) v =
      lateral? s top columns name tables v := by
  refine lateral?_congr ?_
  rw [List.filter_filter]
  refine List.filter_congr fun x _ => ?_
  by_cases hx : x.aliasName ∈ s.tree.subtree v
  · simp [hx, h _ hx]
  · simp [hx]

/-- What all collections make of the tables: those below collections with columns are gone, the
lateral tables come last. -/
theorem absorbAll_eq (hF : s.tree.IsForest) (hI : s.Independent)
    (hnew : ∀ u ∈ s.active, ∀ v ∈ s.active, name u ∉ s.tree.subtree v)
    (hunits : units ⊆ s.active) (hnodup : units.Nodup)
    (hlaterals : ∀ x ∈ laterals, ∀ v ∈ s.active, x.aliasName ∉ s.tree.subtree v) :
    absorbAll s top columns (units.map fun u => (u, name u)) (tables ++ laterals) =
      (outside s columns units tables ++ laterals ++
        units.filterMap (lateral? s top columns name tables),
      units.flatMap fun u => if isRewritten columns u then [] else guardsOf s top u) := by
  induction units generalizing tables laterals with
  | nil => simp [absorbAll, outside]
  | cons u units ih =>
    obtain ⟨hu, hunits⟩ := List.cons_subset.1 hunits
    obtain ⟨hfresh, hnodup⟩ := List.nodup_cons.1 hnodup
    obtain ⟨j, hj⟩ := Option.isSome_iff_exists.1 (hI.collection u hu)
    rw [List.map_cons, absorbAll]
    simp only [hj]
    cases hr : isRewritten columns u with
    | false =>
      rw [absorb_of_not_rewritten hr]
      simp only
      rw [ih hunits hnodup hlaterals]
      simp [outside, lateral?, hj, hr]
    | true =>
      -- the subtrees are disjoint, so what is left serves the other collections as before
      have apart : ∀ v ∈ units, ∀ a ∈ s.tree.subtree v, a ∉ s.tree.subtree u := by
        intro v hv a hav hau
        rw [hF.mem_subtree_iff] at hav hau
        exact hfresh (hI.unique hF hu (hunits hv) hau hav ▸ hv)
      obtain ⟨below, above⟩ := filter_subtree_append tables fun x hx => hlaterals x hx u hu
      have same : units.filterMap (lateral? s top columns name
          (tables.filter (·.aliasName ∉ s.tree.subtree u))) =
            units.filterMap (lateral? s top columns name tables) :=
        List.filterMap_congr fun v hv => lateral?_filter (apart v hv)
      rw [absorb_of_rewritten hr]
      simp only
      rw [above, List.append_assoc, ih hunits hnodup (fun x hx => ?_), outside_filter hr, same,
        subqueryOf_congr below]
      · simp [lateral?, hj, hr]
      · rcases List.mem_append.1 hx with hx | hx
        · exact hlaterals x hx
        · rw [List.mem_singleton.1 hx]
          exact hnew u hu

end

end Lateral

/-! ### Lateral tables -/

namespace Table

variable {db : Database} {e e₀ : Assignment}

theorem bindAll_append {ts ts' : List Table} {es : List Assignment} :
    bindAll db (ts ++ ts') es = bindAll db ts' (bindAll db ts es) := by
  induction ts generalizing es with
  | nil => rfl
  | cons t ts ih => rw [List.cons_append, bindAll, bindAll, ih]

theorem mem_bindAll_iff_exists {ts : List Table} {es : List Assignment} :
    e ∈ bindAll db ts es ↔ ∃ e₀ ∈ es, e ∈ bindAll db ts [e₀] := by
  induction ts generalizing es with
  | nil => simp [bindAll]
  | cons t ts ih =>
    rw [bindAll, ih]
    simp only [bindAll, List.flatMap_cons, List.flatMap_nil, List.append_nil, List.mem_flatMap]
    constructor
    · rintro ⟨e₁, ⟨e₀, he₀, he₁⟩, he⟩
      exact ⟨e₀, he₀, ih.2 ⟨e₁, he₁, he⟩⟩
    · rintro ⟨e₀, he₀, he⟩
      obtain ⟨e₁, he₁, he⟩ := ih.1 he
      exact ⟨e₁, ⟨e₀, he₀, he₁⟩, he⟩

/-- Lateral tables can be bound to rows whatever the other tables are bound to. -/
theorem bindAll_laterals_ne_nil {ts : List Table}
    (hts : ∀ t ∈ ts, ∃ a f q, t = .lateral a f q) : ∃ e, e ∈ bindAll db ts [e₀] := by
  induction ts generalizing e₀ with
  | nil => exact ⟨e₀, List.mem_singleton_self _⟩
  | cons t ts ih =>
    obtain ⟨⟨a, f, q, rfl⟩, hrest⟩ := List.forall_mem_cons.1 hts
    rw [bindAll]
    exact ih hrest

/-- A lateral table is bound to its aggregates, for an assignment that differs in lateral tables
alone. -/
theorem of_mem_bindAll_laterals {ts : List Table} (hts : ∀ t ∈ ts, ∃ a f q, t = .lateral a f q)
    (hnodup : (ts.map aliasName).Nodup) (he : e ∈ bindAll db ts [e₀]) :
    (∀ a, a ∉ ts.map aliasName → e a = e₀ a) ∧ ∀ a f q, Table.lateral a f q ∈ ts →
      ∃ e₁ : Assignment, (∀ b, b ∉ ts.map aliasName → e₁ b = e₀ b) ∧
        e a = some (q.aggregates db e₁) := by
  induction ts generalizing e₀ with
  | nil => exact ⟨fun a _ => by rw [List.mem_singleton.1 he], by simp⟩
  | cons t ts ih =>
    obtain ⟨⟨a, f, q, rfl⟩, hrest⟩ := List.forall_mem_cons.1 hts
    rw [List.map_cons, List.nodup_cons] at hnodup
    rw [bindAll] at he
    obtain ⟨hout, hin⟩ := ih hrest hnodup.2 he
    have step : ∀ b, b ∉ (lateral a f q :: ts).map aliasName →
        e₀.bind a (some (q.aggregates db e₀)) b = e₀ b := fun b hb =>
      Assignment.bind_of_ne fun hba => hb (by simp [hba, aliasName])
    refine ⟨fun b hb => ?_, fun a' f' q' hm => ?_⟩
    · rw [hout b fun hm => hb (List.mem_cons_of_mem _ hm)]
      exact step b hb
    · rcases List.mem_cons.1 hm with hm | hm
      · obtain ⟨rfl, rfl, rfl⟩ := Table.lateral.inj hm
        refine ⟨e₀, fun _ _ => rfl, ?_⟩
        rw [hout a' hnodup.1]
        exact Assignment.bind_self
      · obtain ⟨e₁, he₁, hrow⟩ := hin a' f' q' hm
        refine ⟨e₁, fun b hb => ?_, hrow⟩
        rw [he₁ b fun hm => hb (List.mem_cons_of_mem _ hm)]
        exact step b hb

end Table

end EntityQuery
