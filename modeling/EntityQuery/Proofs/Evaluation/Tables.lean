import EntityQuery.Proofs.Collection.JoinTree

/-!
# Databases given by their tables

A database with given rows, in which fragments of text have the meaning that they are written for:
a fragment on one table names a column of it, and one on two tables is the condition of a join.

* `Database.ofTables`: the database;
* `Database.correlates_ofTables`, `Database.readsColumns_ofTables`: the meaning of its fragments;
* `Bookshelf.tree`, `Bookshelf.database`: authors with their books, as an example.
-/

namespace EntityQuery

namespace Database

/-- The value of a fragment of text: a column of the only table, or the condition of a join. -/
def read (joins : List Join) (r : RawCondition) (e : Assignment) : Option Bool :=
  match r.aliases with
  | [a] => (e.value ⟨a, String.ofList (r.sql.toList.drop (a.toList.length + 1))⟩).truth?
  | [a, b] =>
    match joins.find? fun j => j.parent.aliasName = a ∧ j.own.aliasName = b with
    | some j => ((e.value j.parent).compare? (e.value j.own)).map fun o => decide (o = .eq)
    | none => none
  | _ => none

theorem read_congr {joins : List Join} {r : RawCondition} {e e' : Assignment}
    (h : e.Agree r.aliases e') : read joins r e = read joins r e' := by
  unfold read
  split
  · next a ha =>
    rw [ha] at h
    rw [Assignment.value_congr (c := ⟨a, _⟩) (h a List.mem_cons_self)]
  · next a b hab =>
    rw [hab] at h
    split
    · next j hj =>
      have hab := List.find?_some hj
      rw [decide_eq_true_iff] at hab
      rw [Assignment.value_congr (c := j.parent) (h _ (by simp [hab.1])),
        Assignment.value_congr (c := j.own) (h _ (by simp [hab.2]))]
    · rfl
  · rfl

/-- The database with the given rows, where fragments name columns or stand for the given joins. -/
def ofTables (table : String → List Row) (joins : List Join) : Database where
  table := table
  pattern _ _ _ := none
  containment _ _ _ := none
  fragment := read joins
  fragment_congr := read_congr

variable {table : String → List Row}

/-- A join of a join tree is written as a condition that means the same. -/
theorem correlates_ofTables (T : JoinTree) :
    ∀ j ∈ T.joins, (ofTables table T.joins).Correlates j := by
  intro j hj e
  have hex : ∃ j' ∈ T.joins, decide (j'.parent.aliasName = j.parent.aliasName ∧
      j'.own.aliasName = j.own.aliasName) = true := ⟨j, hj, by simp⟩
  obtain ⟨j', hf⟩ := Option.isSome_iff_exists.1 (List.find?_isSome.2 hex)
  have hj' := List.mem_of_find?_eq_some hf
  have hown := List.find?_some hf
  rw [decide_eq_true_iff, T.ordered.own_aliasName j hj, T.ordered.own_aliasName j' hj'] at hown
  obtain rfl := JoinTree.eq_of_aliasName hj' hj hown.2
  show read T.joins (.correlation j'.parent j'.own) e = _
  simp only [read, RawCondition.correlation]
  rw [hf]

theorem readsColumns_ofTables {joins : List Join} : (ofTables table joins).ReadsColumns := by
  intro a column e
  have hdrop : (a ++ "." ++ column).toList.drop (a.toList.length + 1) = column.toList := by
    simp [String.toList_append]
  show (e.value ⟨a, String.ofList ((a ++ "." ++ column).toList.drop (a.toList.length + 1))⟩).truth? =
    _
  rw [hdrop, String.ofList_toList]

end Database

/-! ### Authors and books -/

namespace Bookshelf

/-- Books of an author. -/
def books : Join := ⟨"b", "books", .outer, ⟨"a", "id"⟩, ⟨"b", "author_id"⟩, none⟩

/-- Books that an author edited. -/
def edited : Join := ⟨"b1", "books", .outer, ⟨"a", "id"⟩, ⟨"b1", "editor_id"⟩, none⟩

/-- The biography of an author, which has the name of a lateral subquery. -/
def biography : Join := ⟨"_b", "biographies", .outer, ⟨"a", "id"⟩, ⟨"_b", "author_id"⟩, none⟩

/-- Authors with their books. -/
def tree : JoinTree where
  aliasName := "a"
  table := "authors"
  joins := [books, edited, biography]
  ordered := by simp [Join.Ordered, books, edited, biography]

/-- The authors that meet a condition. -/
def authors (condition : Group) : Plan := ⟨[.star "a"], tree.tables, some condition, [], none, none⟩

/-- A book with its title, by the author of that id. -/
def book (id author title : String) : Row := fun column =>
  if column = "id" then .text id
  else if column = "author_id" then .text author
  else if column = "title" then .text title else .null

/-- Two authors, the first one with two copies of one book. -/
def table : String → List Row
  | "authors" => [fun column => if column = "id" then .text "a1" else .null,
      fun column => if column = "id" then .text "a2" else .null]
  | "books" => [book "b1" "a1" "Emma", book "b2" "a1" "Emma", book "b3" "a2" "Persuasion"]
  | _ => []

/-- The database of the authors. -/
def database : Database := .ofTables table tree.joins

theorem correlates_database : ∀ j ∈ tree.joins, database.Correlates j :=
  Database.correlates_ofTables tree

theorem hasIds_database : database.HasIds := by
  intro name row hrow
  change row ∈ table name at hrow
  unfold table at hrow
  split at hrow
  · simp only [List.mem_cons, List.not_mem_nil, or_false] at hrow
    obtain rfl | rfl := hrow <;> simp
  · simp only [List.mem_cons, List.not_mem_nil, or_false] at hrow
    obtain rfl | rfl | rfl := hrow <;> simp [book]
  · cases hrow

/-- The book of that name is Emma. -/
def titled (aliasName : String) : Condition :=
  .column (.asked aliasName "title" "text" (.compare .eq (.text "Emma")))

theorem titled_rejects_null {aliasName : String} {e : Assignment}
    (he : ∀ a ∈ (titled aliasName).aliases, e a = none) : ¬ (titled aliasName).Holds database e := by
  have hb : e aliasName = none := he aliasName (List.mem_singleton_self _)
  have hnull : e.value ⟨aliasName, "title"⟩ = .null := Assignment.value_of_none hb
  simp [titled, ColumnCondition.asked, Condition.Holds, Condition.eval, hnull, Predicate.eval,
    Value.compare?]

/-- The authors of Emma. -/
def found : Plan := authors (.all [titled "b"])

/-- The authors and the editors of Emma. -/
def involved : Plan := authors ⟨.or, [titled "b", titled "b1"]⟩

end Bookshelf

end EntityQuery
