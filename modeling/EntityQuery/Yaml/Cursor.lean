import EntityQuery.Yaml.Character

/-!
# Places in a YAML text

* `Yaml.Cursor`: the text that is left, with the place where it begins;
* `Yaml.Cursor.skip`, `Yaml.Cursor.span`, `Yaml.Cursor.lineEnd?`: moving on;
* `Yaml.Cursor.isMarker`: the marks between documents.
-/

namespace EntityQuery.Yaml

/-- The rest of a text, and how far it has been read. -/
structure Cursor where
  rest : List Char
  /-- The characters before this one. -/
  index : Nat
  /-- The line ends before this one. -/
  line : Nat
  /-- The characters before this one on its line. -/
  column : Nat

namespace Cursor

/-- The beginning of a text. -/
def start (cs : List Char) : Cursor := ⟨cs, 0, 0, 0⟩

/-- Skips characters of the line. -/
def skip (n : Nat) (c : Cursor) : Cursor := ⟨c.rest.drop n, c.index + n, c.line, c.column + n⟩

/-- The characters of a class that come next, and the place behind them. -/
def span (p : Char → Bool) (c : Cursor) : List Char × Cursor :=
  let cs := c.rest.takeWhile p
  (cs, c.skip cs.length)

/-- Skips the characters of a class. -/
def skipWhile (p : Char → Bool) (c : Cursor) : Cursor := (c.span p).2

/-- The line end that comes next, and the place behind it: all of them read as a newline but the
separators. -/
def lineEnd? (c : Cursor) : Option (Char × Cursor) :=
  match c.rest with
  | '\r' :: '\n' :: rest => some ('\n', ⟨rest, c.index + 2, c.line + 1, 0⟩)
  | x :: rest =>
    if isSeparator x then some (x, ⟨rest, c.index + 1, c.line + 1, 0⟩)
    else if isBreak x then some ('\n', ⟨rest, c.index + 1, c.line + 1, 0⟩)
    else none
  | [] => none

/-- The character that comes next. -/
def peek? (c : Cursor) : Option Char := c.rest.head?

/-- The character comes next. -/
def sees (x : Char) (c : Cursor) : Bool := c.rest.head? = some x

/-- Behind this many characters the text ends or goes on with a space. -/
def endsAfter (n : Nat) (c : Cursor) : Bool := endsWord (c.rest.drop n)

/-- Skips blanks, and a comment if one comes next. -/
def skipComment (c : Cursor) : Cursor :=
  let c := c.skipWhile isBlank
  if c.sees '#' then c.skipWhile (!isBreak ·) else c

/-- A mark of three characters stands alone at the beginning of a line. -/
def isMark (x : Char) (c : Cursor) : Bool :=
  c.column = 0 && c.rest.take 3 = [x, x, x] && c.endsAfter 3

/-- A mark between documents comes next. -/
def isMarker (c : Cursor) : Bool := c.isMark '-' || c.isMark '.'

end Cursor

end EntityQuery.Yaml
