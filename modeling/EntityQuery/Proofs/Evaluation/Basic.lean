import EntityQuery.Plan.Basic
import Mathlib.Logic.Function.Basic

/-!
# Evaluation of plans

What a plan selects from a database.  A condition has one of three truth values; `none` is the
unknown one.  Tables are bound one after the other, a subquery is evaluated for each assignment of
the tables around it.

* `Database`: the rows of its tables, and the meaning of operators and fragments that are not
  interpreted here;
* `Assignment`: the rows that the tables of a query are bound to;
* `Predicate.eval`, `Condition.eval`: the truth value of predicates and conditions;
* `Plan.rows`: the assignments that a plan selects; `Plan.aggregates`: the row of boolean columns
  that a lateral query has;
* `Plan.combinations`: what a plan selects, seen on some of its tables.
-/

namespace EntityQuery

/-- A row: the value of each column, null where it has none. -/
abbrev Row := String → Value

/-- The rows that the tables of a query are bound to.  A table that is not bound has none, nor has
one that is joined without a partner. -/
abbrev Assignment := String → Option Row

namespace Assignment

/-- No table is bound. -/
def empty : Assignment := fun _ => none

/-- One more table is bound. -/
def bind (e : Assignment) (aliasName : String) (row : Option Row) : Assignment :=
  Function.update e aliasName row

/-- The value of a column; without a row it is null. -/
def value (e : Assignment) (c : ColumnRef) : Value :=
  match e c.aliasName with
  | some row => row c.column
  | none => .null

/-- The assignment of the named tables alone. -/
def restrict (e : Assignment) (aliases : List String) : Assignment :=
  fun a => if a ∈ aliases then e a else none

/-- Two assignments bind the named tables to the same rows. -/
def Agree (aliases : List String) (e e' : Assignment) : Prop := ∀ a ∈ aliases, e a = e' a

end Assignment

/-! ### Values -/

namespace Value

/-- The order of two doubles, if both are numbers. -/
def order? (x y : Float) : Option Ordering :=
  if x < y then some .lt else if y < x then some .gt else if x == y then some .eq else none

/-- The order of two values, if they can be compared. -/
def compare? : Value → Value → Option Ordering
  | .int i, .int j => some (compare i j)
  | .float x, .float y => order? x y
  | .int i, .float y => order? i.toFloat y
  | .float x, .int j => order? x j.toFloat
  | .text s, .text t => some (compare s t)
  | .bool a, .bool b => some (compare a b)
  | _, _ => none

/-- The values can be compared and are equal. -/
def Equals (v w : Value) : Prop := compare? v w = some .eq

instance : DecidableRel Equals := fun v w => inferInstanceAs (Decidable (compare? v w = some .eq))

theorem not_equals_null (v : Value) : ¬ Equals .null v := by simp [Equals, compare?]

/-- Membership in a list; null is a member of no list, and any value may be a null of the list. -/
def among? (v : Value) (ws : List Value) : Option Bool :=
  if v.isNull then none
  else if ws.any fun w => decide (Equals v w) then some true
  else if ws.any isNull then none
  else some false

/-- A boolean column as a condition. -/
def truth? : Value → Option Bool
  | .bool b => some b
  | _ => none

end Value

/-- The order in which a comparison holds. -/
def Comparison.accepts : Comparison → Ordering → Bool
  | .eq, o => o = .eq
  | .ne, o => o ≠ .eq
  | .gt, o => o = .gt
  | .gte, o => o ≠ .lt
  | .lt, o => o = .lt
  | .lte, o => o ≠ .gt

/-! ### Databases -/

/-- A database with the meaning of what is not interpreted here.  A fragment of text reads the
tables that it mentions and no other. -/
structure Database where
  table : String → List Row
  pattern : Pattern → String → Value → Option Bool
  containment : Containment → List Value → Value → Option Bool
  fragment : RawCondition → Assignment → Option Bool
  fragment_congr : ∀ {r : RawCondition} {e e' : Assignment}, e.Agree r.aliases e' →
    fragment r e = fragment r e'

namespace Database

/-- Every row of every table has an id. -/
def HasIds (db : Database) : Prop := ∀ name, ∀ row ∈ db.table name, row "id" ≠ .null

/-- The fragment that stands for a join compares the two columns of the join. -/
def Correlates (db : Database) (j : Join) : Prop :=
  ∀ e, db.fragment (.correlation j.parent j.own) e =
    ((e.value j.parent).compare? (e.value j.own)).map fun o => decide (o = .eq)

/-- The fragment that names a column of a table is the truth value of that column. -/
def ReadsColumns (db : Database) : Prop :=
  ∀ aliasName column e, db.fragment ⟨[aliasName], aliasName ++ "." ++ column, [], false⟩ e =
    (e.value ⟨aliasName, column⟩).truth?

end Database

/-- The truth value of a predicate for a value. -/
def Predicate.eval (db : Database) : Predicate → Value → Option Bool
  | .compare op w, v => (v.compare? w).map op.accepts
  | .isIn ws, v => v.among? ws
  | .notIn ws, v => (v.among? ws).map (!·)
  | .between low high, v => do
    let above ← v.compare? low
    let below ← v.compare? high
    return above ≠ .lt && below ≠ .gt
  | .isNull, v => some v.isNull
  | .notNull, v => some !v.isNull
  | .pattern op s, v => db.pattern op s v
  | .containment op ws, v => db.containment op ws v

/-- The truth value of a group: one decisive value settles it, else one that is unknown does. -/
def Connective.combine (op : Connective) (values : List (Option Bool)) : Option Bool :=
  if some (decide (op = .or)) ∈ values then some (decide (op = .or))
  else if none ∈ values then none
  else some (decide (op = .and))

/-! ### Plans -/

/-- The assignments with a row of the joined table; an outer join without a partner binds none. -/
def Join.bind (db : Database) (j : Join) (e : Assignment) : List Assignment :=
  let partners := (db.table j.table).filter fun row => (e.value j.parent).Equals (row j.own.column)
  if partners.isEmpty && j.kind = .outer then [e.bind j.aliasName none]
  else partners.map fun row => e.bind j.aliasName (some row)

mutual

/-- The assignments that a plan selects, one behind another. -/
def Plan.rows (db : Database) : Plan → Assignment → List Assignment
  | ⟨_, tables, condition, _, _, _⟩, e =>
    (Table.bindAll db tables [e]).filter fun e => Group.evalTop db condition e = some true

/-- The assignments with rows of all tables. -/
def Table.bindAll (db : Database) : List Table → List Assignment → List Assignment
  | [], es => es
  | t :: rest, es => Table.bindAll db rest (es.flatMap (t.bind db))

/-- The assignments with a row of one more table. -/
def Table.bind (db : Database) : Table → Assignment → List Assignment
  | .primary aliasName table, e => (db.table table).map fun row => e.bind aliasName (some row)
  | .join j, e => j.bind db e
  | .cross aliasName table, e => (db.table table).map fun row => e.bind aliasName (some row)
  | .lateral aliasName _ query, e => [e.bind aliasName (some (query.aggregates db e))]

/-- The row of boolean columns over all that a plan selects. -/
def Plan.aggregates (db : Database) : Plan → Assignment → Row
  | ⟨selects, tables, condition, _, _, _⟩, e =>
    Select.aggregates db ((Table.bindAll db tables [e]).filter fun e =>
      Group.evalTop db condition e = some true) selects fun _ => .null

/-- The boolean columns over some assignments, added to a row. -/
def Select.aggregates (db : Database) (es : List Assignment) : List Select → Row → Row
  | [], row => row
  | .boolOr g name :: rest, row =>
    let values := es.filterMap (g.eval db)
    let value := if values.isEmpty then .null else .bool (decide (true ∈ values))
    Select.aggregates db es rest (Function.update row name value)
  | .countIsZero name :: rest, row =>
    Select.aggregates db es rest (Function.update row name (.bool es.isEmpty))
  | _ :: rest, row => Select.aggregates db es rest row

/-- The truth value of the group at the top of a plan; no condition is true. -/
def Group.evalTop (db : Database) : Option Group → Assignment → Option Bool
  | none, _ => some true
  | some g, e => g.eval db e

/-- The truth value of a group. -/
def Group.eval (db : Database) : Group → Assignment → Option Bool
  | ⟨op, conditions⟩, e => op.combine (Condition.evalAll db conditions e)

/-- The truth values of conditions. -/
def Condition.evalAll (db : Database) : List Condition → Assignment → List (Option Bool)
  | [], _ => []
  | c :: rest, e => c.eval db e :: Condition.evalAll db rest e

/-- The truth value of a condition. -/
def Condition.eval (db : Database) : Condition → Assignment → Option Bool
  | .group g, e => g.eval db e
  | .column c, e => c.predicate.eval db (e.value ⟨c.aliasName, c.column⟩)
  | .raw r, e => db.fragment r e
  | .existence query negate _, e => some ((!(query.rows db e).isEmpty) != negate)

end

/-- What a plan selects, seen on the named tables. -/
def Plan.combinations (db : Database) (p : Plan) (aliases : List String) : Set Assignment :=
  {f | ∃ e ∈ p.rows db .empty, e.restrict aliases = f}

end EntityQuery
