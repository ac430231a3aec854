import EntityQuery.Find.Draft

/-!
# Conditions over user aliases

* `Draft.resolveColumn`: a field of the table that a user alias names;
* `Draft.resolveRaw`: a fragment of text, in which a name between braces stands for the table;
* `Draft.addConditions`: an expression over user aliases.
-/

namespace EntityQuery

/-- Replaces every occurrence of a text, from the left; `skip` characters belong to the last one. -/
def replaceFrom (old new : List Char) : Nat → List Char → List Char
  | _, [] => []
  | skip + 1, _ :: rest => replaceFrom old new skip rest
  | 0, c :: rest =>
    if old.isPrefixOf (c :: rest) then new ++ replaceFrom old new (old.length - 1) rest
    else c :: replaceFrom old new 0 rest

/-- Replaces every occurrence of a text that is not empty. -/
def replaceAll (old new s : String) : String :=
  String.ofList (replaceFrom old.toList new.toList 0 s.toList)

namespace Draft

/-- The condition on a field of the table that a user alias names. -/
def resolveColumn (d : Draft) (s : Setting) (name field : String) (p : Predicate) :
    Except PlanError ColumnCondition := do
  let b ← d.binding name
  let site ← s.resolve b.entity field
  let nil := s.config.nilIds
  match site.kind with
  | .primaryKey =>
    return .asked b.aliasName "id" b.entity.idDbType
      (← p.normalize.forId b.entity nil (b.aliasName ++ ".id"))
  | .primitive column dbType =>
    return .asked (site.columnAlias b.aliasName) column dbType p.normalize
  | .enumeration column dbType =>
    return .asked (site.columnAlias b.aliasName) column dbType p.normalize
  | .manyToOne column other _ =>
    let target ← s.entity other
    let aliasName := site.columnAlias b.aliasName
    return .asked aliasName column target.idDbType
      (← p.normalize.forId target nil (aliasName ++ "." ++ column))
  | kind =>
    .error (.unsupportedFilter b.entity.typeName field ("condition on " ++ kind.name ++ " field"))

/-- The text with the names replaced by the tables that they stand for, and these tables. -/
def replaceNames (d : Draft) : List String → String → Except PlanError (String × List String)
  | [], sql => .ok (sql, [])
  | name :: rest, sql => do
    let b ← d.binding name
    let (sql, aliases) ← replaceNames d rest (replaceAll ("\x7b" ++ name ++ "\x7d") b.aliasName sql)
    return (sql, b.aliasName :: aliases)

/-- A fragment of text with the names in it replaced. -/
def resolveRaw (d : Draft) (names : List String) (sql : String) (bindings : List Value) :
    Except PlanError RawCondition := do
  let (sql, aliases) ← d.replaceNames names sql
  return ⟨aliases, sql, bindings, false⟩

/-- What the leaves of an expression stand for. -/
def resolver (d : Draft) (s : Setting) : Resolver := ⟨d.resolveColumn s, d.resolveRaw⟩

/-- The conditions of an expression over user aliases. -/
def addConditions (d : Draft) (s : Setting) (literal : ExpressionLiteral) :
    Except PlanError Draft := do
  let g ← literal.resolve (d.resolver s)
  return { d with conjuncts := d.conjuncts.addGroup? g }

end Draft

end EntityQuery
