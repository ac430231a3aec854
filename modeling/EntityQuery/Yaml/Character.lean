/-!
# Characters of YAML

* `Yaml.isAllowed`: the characters that a YAML text may hold;
* `Yaml.isBlank`, `Yaml.isBreak`, `Yaml.isSpace`: blanks, line ends, and both;
* `Yaml.isWord`, `Yaml.isUriCharacter`, `Yaml.isBracket`: the characters of names and of tags, and
  those that end a bare scalar between brackets;
* `Yaml.digit?`: digits of a base.
-/

namespace EntityQuery.Yaml

/-- A text holds tabs, line ends and printable characters. -/
def isAllowed (c : Char) : Bool :=
  let n := c.toNat
  n = 0x09 || n = 0x0A || n = 0x0D || n = 0x85 || (0x20 ≤ n && n ≤ 0x7E) ||
    (0xA0 ≤ n && n ≤ 0xFFFD) || 0x10000 ≤ n

/-- Blanks and tabs. -/
def isBlank (c : Char) : Bool := c = ' ' || c = '\t'

/-- The line and paragraph separators, which stay as they are. -/
def isSeparator (c : Char) : Bool := c = '\u2028' || c = '\u2029'

/-- Line ends. -/
def isBreak (c : Char) : Bool := c = '\n' || c = '\r' || c = '\u0085' || isSeparator c

/-- Blanks, tabs and line ends. -/
def isSpace (c : Char) : Bool := isBlank c || isBreak c

/-- The characters of names. -/
def isWord (c : Char) : Bool := c.isAlphanum || c = '_' || c = '-'

/-- Brackets and commas. -/
def isBracket (c : Char) : Bool := c ∈ [',', '[', ']', '\x7b', '\x7d']

/-- The characters of a tag; where it is enclosed, commas and square brackets are among them. -/
def isUriCharacter (enclosed : Bool) (c : Char) : Bool :=
  isWord c || c ∈ [';', '/', '?', ':', '@', '&', '=', '+', '$', '.', '%', '!', '~', '*', '\'', '(',
    ')'] || (enclosed && c ∈ [',', '[', ']'])

/-- The text ends here, or goes on with a space. -/
def endsWord (cs : List Char) : Bool := cs.head?.all isSpace

/-- The value of a digit of a base of at most sixteen. -/
def digit? (base : Nat) (c : Char) : Option Nat :=
  let n := if c.isDigit then c.toNat - 48
    else if 'a' ≤ c ∧ c ≤ 'f' then c.toNat - 87
    else if 'A' ≤ c ∧ c ≤ 'F' then c.toNat - 55
    else 16
  if n < base then some n else none

/-- The number that digits of a base spell. -/
def natural? (base : Nat) (cs : List Char) : Option Nat :=
  if cs.isEmpty then none
  else cs.foldlM (fun n c => (digit? base c).map (n * base + ·)) 0

end EntityQuery.Yaml
