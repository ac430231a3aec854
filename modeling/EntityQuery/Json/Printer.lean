import EntityQuery.Json.Basic
import EntityQuery.Decimal.Notation

/-!
# Printing JSON

`Json.compact` writes a value without any blank; `Json.pretty` writes one member or item a line,
indented by two spaces a level.  Members appear in their order; a double that is not finite is
written `null`.
-/

namespace EntityQuery.Json

/-- The digit of a value below sixteen, in lower case. -/
def hexDigit (n : Nat) : Char := Nat.digitChar n

/-- A character inside quotes: quote, backslash and control characters are escaped. -/
def escapeChar (c : Char) : String :=
  match c with
  | '"' => "\\\""
  | '\\' => "\\\\"
  | '\n' => "\\n"
  | '\r' => "\\r"
  | '\t' => "\\t"
  | _ =>
    if c.val = 8 then "\\b"
    else if c.val = 12 then "\\f"
    else if c.val < 32 then
      "\\u00" ++ String.ofList [hexDigit (c.toNat / 16), hexDigit (c.toNat % 16)]
    else String.singleton c

/-- A quoted text. -/
def quote (s : String) : String :=
  "\"" ++ String.join (s.toList.map escapeChar) ++ "\""

/-- The text of a number; a double that is not finite is `null`. -/
def Number.text : Number → String
  | .int i => toString i
  | .float x => if x.isFinite then Decimal.ofFloat Decimal.marked x else "null"

mutual

/-- The text of a value without any blank. -/
def compact : Json → String
  | .null => "null"
  | .bool b => if b then "true" else "false"
  | .num n => n.text
  | .str s => quote s
  | .arr items => "[" ++ ",".intercalate (compactItems items) ++ "]"
  | .obj members => "\x7b" ++ ",".intercalate (compactMembers members) ++ "\x7d"

/-- The texts of the items. -/
def compactItems : List Json → List String
  | [] => []
  | j :: rest => j.compact :: compactItems rest

/-- The texts of the members. -/
def compactMembers : List (String × Json) → List String
  | [] => []
  | (k, j) :: rest => (quote k ++ ":" ++ j.compact) :: compactMembers rest

end

/-- A new line, indented by two spaces a level. -/
def newline (level : Nat) : String := "\n" ++ String.ofList (List.replicate (2 * level) ' ')

/-- Entries between brackets, one a line; brackets that hold nothing stay together. -/
def block (opening closing : String) (level : Nat) (entries : List String) : String :=
  if entries.isEmpty then opening ++ closing
  else opening ++ newline (level + 1) ++ ("," ++ newline (level + 1)).intercalate entries ++
    newline level ++ closing

mutual

/-- The text of a value that starts at a level of indentation. -/
def prettyAt (level : Nat) : Json → String
  | .arr items => block "[" "]" level (prettyItems (level + 1) items)
  | .obj members => block "\x7b" "\x7d" level (prettyMembers (level + 1) members)
  | .null => "null"
  | .bool b => if b then "true" else "false"
  | .num n => n.text
  | .str s => quote s

/-- The texts of the items. -/
def prettyItems (level : Nat) : List Json → List String
  | [] => []
  | j :: rest => j.prettyAt level :: prettyItems level rest

/-- The texts of the members. -/
def prettyMembers (level : Nat) : List (String × Json) → List String
  | [] => []
  | (k, j) :: rest => (quote k ++ ": " ++ j.prettyAt level) :: prettyMembers level rest

end

/-- The text of a value with one member or item a line. -/
def pretty (j : Json) : String := j.prettyAt 0

end EntityQuery.Json
