import EntityQuery.Sql.Piece

/-!
# Rendering plans

A plan is written as parameterised SQL: every operand becomes a placeholder.

* `ColumnCondition.tokens`: a predicate on a column;
* `Plan.pieces`, `Group.tokens`: a plan and a condition; a group inside a group stands in
  parentheses when it has more than one condition;
* `Plan.render`: the text and the bindings;
* `SqlError`: a plan that cannot be written.
-/

namespace EntityQuery

/-- Why a plan cannot be written. -/
inductive SqlError
  | noPrimaryTable
  /-- A comparison with null. -/
  | nullOperand (kind column : String)
  deriving DecidableEq, Repr

/-- The wording of the error. -/
def SqlError.message : SqlError → String
  | .noPrimaryTable => "Plan has no primary table"
  | .nullOperand kind column =>
    "Null operand for `" ++ kind ++ "` on " ++ column ++
      " (expected an IS NULL / IS NOT NULL check)"

/-! ### Predicates -/

/-- The operator of a comparison. -/
def Comparison.sql : Comparison → String
  | .eq => "="
  | .ne => "!="
  | .gt => ">"
  | .gte => ">="
  | .lt => "<"
  | .lte => "<="

/-- The operator of a pattern. -/
def Pattern.sql : Pattern → String
  | .like => "LIKE"
  | .ilike => "ILIKE"
  | .nlike => "NOT LIKE"
  | .nilike => "NOT ILIKE"
  | .regex => "~"
  | .iregex => "~*"
  | .nregex => "!~"
  | .niregex => "!~*"
  | .pathExists => "@?"
  | .pathPredicate => "@@"

/-- The operator of a containment. -/
def Containment.sql : Containment → String
  | .contains => "@>"
  | .overlaps => "&&"
  | .containedBy => "<@"

namespace ColumnCondition

/-- The column as it is written. -/
def columnText (c : ColumnCondition) : String := c.aliasName ++ "." ++ c.column

/-- A placeholder; null is no operand. -/
def operand (c : ColumnCondition) (v : Value) : Except SqlError Piece :=
  if v.isNull then .error (.nullOperand c.predicate.kind c.columnText) else .ok (.operand v)

/-- The column, an operator and a placeholder. -/
def binary (c : ColumnCondition) (op : String) (v : Value) : Except SqlError (List Token) := do
  return [.leaf [.text (c.columnText ++ " " ++ op ++ " "), ← c.operand v]]

/-- Membership in a list; the empty list decides it. -/
def membership (c : ColumnCondition) (op : String) (empty : Bool) :
    List Value → Except SqlError (List Token)
  | [] => .ok [.constant empty]
  | vs => do
    let operands ← vs.mapM c.operand
    return [.leaf (.text (c.columnText ++ " " ++ op ++ " (") ::
      separated ", " (operands.map fun p => [p]) ++ [.text ")"])]

/-- The tokens of a predicate on a column. -/
def tokens (c : ColumnCondition) : Except SqlError (List Token) :=
  match c.predicate with
  | .compare op v => c.binary op.sql v
  | .isIn vs => c.membership "IN" false vs
  | .notIn vs => c.membership "NOT IN" true vs
  | .between low high => do
    let low ← c.operand low
    let high ← c.operand high
    return [.leaf [.text (c.columnText ++ " BETWEEN "), low, .text " AND ", high]]
  | .isNull => .ok [.leaf [.text (c.columnText ++ " IS NULL")]]
  | .notNull => .ok [.leaf [.text (c.columnText ++ " IS NOT NULL")]]
  | .pattern op s => c.binary op.sql (.text s)
  | .containment op vs => c.binary op.sql (.array vs)

end ColumnCondition

/-! ### Plans -/

/-- The name of a result column behind what it shows. -/
def named (name : Option String) (sql : String) : String :=
  match name with
  | some name => sql ++ " AS " ++ name
  | none => sql

/-- A table under its name in the query. -/
def tableText (table aliasName : String) : String := "\"" ++ table ++ "\" AS " ++ aliasName

/-- A join as it is written. -/
def Join.text (j : Join) : String :=
  (match j.kind with
    | .inner => "INNER JOIN "
    | .outer => "LEFT OUTER JOIN ") ++
  tableText j.table j.aliasName ++ " ON " ++ j.parent.text ++ " = " ++ j.own.text

/-- The choice of a type by the first table that has a row. -/
def discriminatorText (cases : List DiscriminatorCase) (defaultType name : String) : String :=
  "CASE " ++ " ".intercalate (cases.map fun c =>
    "WHEN " ++ c.aliasName ++ ".id IS NOT NULL THEN '" ++ c.typeName ++ "'") ++
  " ELSE '" ++ defaultType ++ "' END AS " ++ name

/-- The named queries in front of a plan. -/
def Cte.piecesOf : Option (List Cte) → List Piece
  | none => []
  | some [] => []
  | some ctes =>
    .text "WITH " ::
      separated ", " (ctes.map fun c =>
        [.text (c.aliasName ++ " AS ("), .fragment c.sql c.bindings, .text ")"]) ++ [.text " "]

/-- The columns that rows are grouped by. -/
def groupByPieces : Option (List ColumnRef) → List Piece
  | none => []
  | some [] => []
  | some columns => [.text (" GROUP BY " ++ ", ".intercalate (columns.map ColumnRef.text))]

/-- The order of the rows. -/
def sortPieces : List SortKey → List Piece
  | [] => []
  | keys =>
    [.text (" ORDER BY " ++
      ", ".intercalate (keys.map fun k =>
        k.aliasName ++ "." ++ k.column ++ " " ++ k.direction.text))]

mutual

/-- The pieces of a plan. -/
def Plan.pieces : Plan → Except SqlError (List Piece)
  | ⟨selects, tables, condition, sortKeys, groupBys, ctes⟩ => do
    let columns ← Select.piecesOf selects
    let columns := if columns.isEmpty then [.text "*"] else separated ", " columns
    match tables.find? Table.isPrimary with
    | some (.primary aliasName table) => do
      let joins ← Table.piecesOf tables
      let filter ← Group.piecesOf condition
      return Cte.piecesOf ctes ++ .text "SELECT " :: columns ++
        .text (" FROM " ++ tableText table aliasName) :: joins ++ filter ++
        groupByPieces groupBys ++ sortPieces sortKeys
    | _ => .error .noPrimaryTable

/-- The pieces of the tables besides primary ones. -/
def Table.piecesOf : List Table → Except SqlError (List Piece)
  | [] => .ok []
  | .primary _ _ :: rest => Table.piecesOf rest
  | .join j :: rest => do return .text (" " ++ j.text) :: (← Table.piecesOf rest)
  | .cross aliasName table :: rest => do
    return .text (" CROSS JOIN " ++ tableText table aliasName) :: (← Table.piecesOf rest)
  | .lateral aliasName _ query :: rest => do
    let inner ← query.pieces
    return .text " CROSS JOIN LATERAL (" :: inner ++ .text (") AS " ++ aliasName) ::
      (← Table.piecesOf rest)

/-- The pieces of the result columns. -/
def Select.piecesOf : List Select → Except SqlError (List (List Piece))
  | [] => .ok []
  | s :: rest => do
    let ps ← s.pieces
    return ps :: (← Select.piecesOf rest)

/-- The pieces of a result column. -/
def Select.pieces : Select → Except SqlError (List Piece)
  | .star aliasName => .ok [.text (aliasName ++ ".*")]
  | .column c name => .ok [.text (named name c.text)]
  | .discriminator cases defaultType name => .ok [.text (discriminatorText cases defaultType name)]
  | .boolOr condition name => do
    let inner ← condition.tokens
    return .text "bool_or(" :: inner.flatMap Token.pieces ++ [.text (") AS " ++ name)]
  | .countIsZero name => .ok [.text ("count(*) = 0 AS " ++ name)]
  | .raw sql _ name => .ok [.text (named name sql)]

/-- The pieces of the condition of a plan; a group without conditions is left out. -/
def Group.piecesOf : Option Group → Except SqlError (List Piece)
  | none => .ok []
  | some ⟨_, []⟩ => .ok []
  | some ⟨op, conditions⟩ => do
    return .text " WHERE " :: (← Condition.tokensOf op conditions).flatMap Token.pieces

/-- The tokens of a group; without conditions it is a constant. -/
def Group.tokens : Group → Except SqlError (List Token)
  | ⟨op, []⟩ => .ok [.constant (op = .and)]
  | ⟨op, conditions⟩ => Condition.tokensOf op conditions

/-- The tokens of conditions with a connective between them. -/
def Condition.tokensOf (op : Connective) : List Condition → Except SqlError (List Token)
  | [] => .ok []
  | c :: rest => do
    let ts ← c.tokens
    match rest with
    | [] => return ts
    | _ => return ts ++ .connective op :: (← Condition.tokensOf op rest)

/-- The tokens of a condition among others; a group of several stands in parentheses. -/
def Condition.tokens : Condition → Except SqlError (List Token)
  | .group ⟨op, []⟩ => .ok [.constant (op = .and)]
  | .group ⟨op, [c]⟩ => Condition.tokensOf op [c]
  | .group ⟨op, conditions⟩ => do
    return .opening :: (← Condition.tokensOf op conditions) ++ [.closing]
  | .column c => c.tokens
  | .raw r => .ok [.leaf [.fragment r.sql r.bindings]]
  | .existence query negate _ => do
    let inner ← query.pieces
    return [.leaf (.text (if negate then "NOT EXISTS (" else "EXISTS (") :: inner ++ [.text ")"])]

end

/-- The text and the bindings of a plan. -/
def Plan.render (p : Plan) : Except SqlError Rendered := p.pieces.map Rendered.ofPieces

end EntityQuery
