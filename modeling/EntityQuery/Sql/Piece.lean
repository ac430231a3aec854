import EntityQuery.Plan.Basic

/-!
# Pieces of SQL

A query is written as a list of pieces, from which its text and its bindings are read off together,
so that the placeholders and the bindings stand in the same order.

* `Piece`: fixed text, one bound operand, or a given fragment with bindings of its own;
* `Token`: the tokens of a condition; a leaf is one predicate;
* `Rendered`: the text and the bindings of a query.
-/

namespace EntityQuery

/-- A piece of a query. -/
inductive Piece
  | text (s : String)
  /-- A placeholder with the value that is bound to it. -/
  | operand (v : Value)
  /-- A fragment that is given as text, with the values that its placeholders are bound to. -/
  | fragment (sql : String) (bindings : List Value)

namespace Piece

/-- What the piece writes. -/
def written : Piece → String
  | .text s => s
  | .operand _ => "?"
  | .fragment sql _ => sql

/-- What the piece binds. -/
def bindings : Piece → List Value
  | .text _ => []
  | .operand v => [v]
  | .fragment _ vs => vs

end Piece

/-- Lists of pieces with a text between them. -/
def separated (separator : String) : List (List Piece) → List Piece
  | [] => []
  | [ps] => ps
  | ps :: rest => ps ++ .text separator :: separated separator rest

/-- A token of a condition. -/
inductive Token
  | leaf (pieces : List Piece)
  | connective (op : Connective)
  | opening
  | closing
  | constant (b : Bool)

/-- The pieces of a token. -/
def Token.pieces : Token → List Piece
  | .leaf ps => ps
  | .connective .and => [.text " AND "]
  | .connective .or => [.text " OR "]
  | .opening => [.text "("]
  | .closing => [.text ")"]
  | .constant true => [.text "TRUE"]
  | .constant false => [.text "FALSE"]

/-- The text of a query and the values of its placeholders. -/
structure Rendered where
  sql : String
  bindings : List Value

/-- The text and the bindings of pieces. -/
def Rendered.ofPieces (ps : List Piece) : Rendered :=
  ⟨String.join (ps.map Piece.written), ps.flatMap Piece.bindings⟩

end EntityQuery
