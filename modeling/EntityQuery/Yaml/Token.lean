import EntityQuery.Yaml.Scalar
import EntityQuery.Yaml.Tag

/-!
# Tokens of a YAML text

* `Yaml.Token`: what a text is made of; the ends of indented collections are tokens too;
* `Yaml.Lexer`: the tokens up to a place, with the open collections there;
* `Yaml.tokens?`: the tokens of a text.

A scalar, an alias or a bracket may turn out to be a key when a colon follows it on its line.  A
`PendingKey` remembers where it began, and the colon puts the token of the key there.
-/

namespace EntityQuery.Yaml

/-- How a scalar is written. -/
inductive Style
  | plain
  | quoted
  | literal
  | folded
  deriving DecidableEq, Repr

/-- What a text is made of. -/
inductive Token
  | directive (d : Directive)
  | documentStart
  | documentEnd
  | blockSeqStart
  | blockMapStart
  /-- The end of an indented list or mapping. -/
  | blockEnd
  | flowSeqStart
  | flowSeqEnd
  | flowMapStart
  | flowMapEnd
  /-- The dash in front of an item. -/
  | blockEntry
  /-- The comma between brackets. -/
  | flowEntry
  | key
  | value
  | reference (name : String)
  | anchor (name : String)
  | tag (handle suffix : String)
  | scalar (style : Style) (text : String)

/-- A token that is a key if a colon follows. -/
structure PendingKey where
  /-- The number of tokens before it. -/
  number : Nat
  /-- The token cannot be anything else where it stands. -/
  isRequired : Bool
  place : Cursor

/-- A key is pending on its line, and for no more than 1024 characters. -/
def PendingKey.isStale (c : Cursor) (k : PendingKey) : Bool :=
  k.place.line < c.line || k.place.index + 1024 < c.index

/-- The tokens up to a place. -/
structure Lexer where
  place : Cursor
  /-- More steps than the text has characters. -/
  steps : Nat
  /-- The tokens, the last one first. -/
  tokens : List Token
  /-- The number of tokens. -/
  count : Nat
  /-- The columns of the open indented collections, the innermost one first. -/
  margins : List Nat
  /-- A key may begin here. -/
  keyAllowed : Bool
  /-- The pending key inside the innermost bracket. -/
  pending : Option PendingKey
  /-- The pending keys outside of it, one for each open bracket. -/
  outer : List (Option PendingKey)

namespace Lexer

/-- No token has been read. -/
def start (cs : List Char) : Lexer := ⟨.start cs, cs.length + 1, [], 0, [], true, none, []⟩

/-- The place is between brackets. -/
def inFlow (l : Lexer) : Bool := !l.outer.isEmpty

/-- The column of the innermost indented collection, `-1` outside of all. -/
def margin (l : Lexer) : Int := l.margins.head?.elim (-1) Int.ofNat

/-- One more token. -/
def push (t : Token) (l : Lexer) : Lexer :=
  { l with tokens := t :: l.tokens, count := l.count + 1 }

/-- One more token, behind the first `number` ones. -/
def insert (number : Nat) (t : Token) (l : Lexer) : Lexer :=
  { l with tokens := l.tokens.insertIdx (l.count - number) t, count := l.count + 1 }

/-- Opens a collection at a column, unless one is open there or between brackets.  Its token stands
behind the first `number` ones. -/
def indent (column number : Nat) (t : Token) (l : Lexer) : Lexer :=
  if !l.inFlow && l.margin < column then
    { l.insert number t with margins := column :: l.margins }
  else l

/-- Closes the collections right of a column, unless between brackets. -/
def unindent (column : Int) (l : Lexer) : Lexer :=
  if l.inFlow then l
  else
    let closed := (l.margins.takeWhile fun (m : Nat) => column < m).length
    { l with
      tokens := List.replicate closed .blockEnd ++ l.tokens
      count := l.count + closed
      margins := l.margins.drop closed }

/-! ### Pending keys -/

/-- The pending key is given up, if it need not be one. -/
def dropKey? (l : Lexer) : Option Lexer :=
  if l.pending.any (·.isRequired) then none else some { l with pending := none }

/-- The next token may be a key. -/
def expectKey? (l : Lexer) : Option Lexer :=
  if l.keyAllowed then
    l.dropKey?.map fun l' =>
      { l' with pending := some ⟨l.count, !l.inFlow && l.margin = l.place.column, l.place⟩ }
  else some l

/-- A key that is no longer pending, if it need not be one. -/
def refresh? (c : Cursor) : Option PendingKey → Option (Option PendingKey)
  | none => some none
  | some k => if k.isStale c then (if k.isRequired then none else some none) else some (some k)

/-- Stale keys are given up, if they need not be keys. -/
def dropStale? (l : Lexer) : Option Lexer :=
  match refresh? l.place l.pending, l.outer.mapM (refresh? l.place) with
  | some pending, some outer => some { l with pending, outer }
  | _, _ => none

/-! ### One token -/

/-- Skips blanks, comments and line ends.  A tab is no blank where a key may begin outside of
brackets; a line end allows one. -/
def skipSpace (inFlow : Bool) : Nat → Bool → Cursor → Bool × Cursor
  | 0, allowed, c => (allowed, c)
  | n + 1, allowed, c =>
    let c := c.skipWhile fun x => x = ' ' || ((inFlow || !allowed) && x = '\t')
    let c := if c.sees '#' then c.skipWhile (!isBreak ·) else c
    match c.lineEnd? with
    | some (_, c') => skipSpace inFlow n (allowed || !inFlow) c'
    | none => (allowed, c)

/-- The lexer in front of the next token. -/
def advance? (l : Lexer) : Option Lexer :=
  let c := if l.place.index = 0 && l.place.sees '\ufeff' then l.place.skip 1 else l.place
  let (allowed, c) := skipSpace l.inFlow l.steps l.keyAllowed c
  (dropStale? { l with place := c, keyAllowed := allowed }).map (unindent c.column)

/-- A token between documents. -/
def boundary? (t : Token) (c : Cursor) (l : Lexer) : Option Lexer :=
  ((l.unindent (-1)).dropKey?).map fun l => { l.push t with place := c, keyAllowed := false }

/-- An opening bracket. -/
def open? (t : Token) (l : Lexer) : Option Lexer :=
  l.expectKey?.map fun l =>
    { l.push t with
      place := l.place.skip 1, keyAllowed := true, pending := none, outer := l.pending :: l.outer }

/-- A closing bracket. -/
def close? (t : Token) (l : Lexer) : Option Lexer :=
  l.dropKey?.map fun l =>
    { l.push t with
      place := l.place.skip 1
      keyAllowed := false
      pending := l.outer.headD none
      outer := l.outer.tail }

/-- A comma. -/
def flowEntry? (l : Lexer) : Option Lexer :=
  l.dropKey?.map fun l => { l.push .flowEntry with place := l.place.skip 1, keyAllowed := true }

/-- A dash in front of an item, or a question mark in front of a key. -/
def entry? (opening t : Token) (allowed : Bool) (l : Lexer) : Option Lexer :=
  if l.inFlow || l.keyAllowed then
    ((l.indent l.place.column l.count opening).dropKey?).map fun l =>
      { l.push t with place := l.place.skip 1, keyAllowed := allowed }
  else none

/-- A colon.  Behind a pending key it makes that one a key; else it follows one that a question mark
has announced. -/
def value? (l : Lexer) : Option Lexer :=
  match l.pending with
  | some k =>
    let l := (l.insert k.number .key).indent k.place.column k.number .blockMapStart
    some { l.push .value with place := l.place.skip 1, keyAllowed := false, pending := none }
  | none =>
    if l.inFlow || l.keyAllowed then
      let l := l.indent l.place.column l.count .blockMapStart
      some { l.push .value with place := l.place.skip 1, keyAllowed := !l.inFlow }
    else none

/-- A token that may be a key, behind which none may begin. -/
def atom? (l : Lexer) (read : Cursor → Option (Token × Cursor)) : Option Lexer :=
  match l.expectKey?, read l.place with
  | some l, some (t, c) => some { l.push t with place := c, keyAllowed := false }
  | _, _ => none

/-- The name of an anchor or an alias. -/
def name? (c : Cursor) : Option (String × Cursor) :=
  let (word, c) := (c.skip 1).span isWord
  let ends := c.peek?.all fun x => isSpace x || x ∈ ['?', ':', ',', ']', '\x7d', '%', '@', '`']
  if !word.isEmpty && ends then some (String.ofList word, c) else none

/-- A bare scalar, behind which a key may begin if it ends at the beginning of a line. -/
def plainToken? (l : Lexer) : Option Lexer :=
  match l.expectKey?, plain? l.steps l.inFlow l.margin l.place with
  | some l, some (s, endsLine, c) =>
    some { l.push (.scalar .plain s) with place := c, keyAllowed := endsLine }
  | _, _ => none

/-- A literal or folded block. -/
def blockToken? (style : Style) (l : Lexer) : Option Lexer :=
  match l.dropKey?, block? l.steps (style = .literal) l.margin l.place with
  | some l, some (s, c) => some { l.push (.scalar style s) with place := c, keyAllowed := true }
  | _, _ => none

/-- The next token, which begins with `x`. -/
def token? (x : Char) (l : Lexer) : Option Lexer :=
  let c := l.place
  let alone := c.endsAfter 1
  if c.column = 0 && x = '%' then
    (directive? l.steps c).bind fun r => l.boundary? (.directive r.1) r.2
  else if c.isMark '-' then l.boundary? .documentStart (c.skip 3)
  else if c.isMark '.' then l.boundary? .documentEnd (c.skip 3)
  else if x = '[' then l.open? .flowSeqStart
  else if x = '\x7b' then l.open? .flowMapStart
  else if x = ']' then l.close? .flowSeqEnd
  else if x = '\x7d' then l.close? .flowMapEnd
  else if x = ',' then l.flowEntry?
  else if x = '-' && alone then l.entry? .blockSeqStart .blockEntry true
  else if x = '?' && (l.inFlow || alone) then l.entry? .blockMapStart .key (!l.inFlow)
  else if x = ':' && (l.inFlow || alone) then l.value?
  else if x = '*' then l.atom? fun c => (name? c).map fun r => (.reference r.1, r.2)
  else if x = '&' then l.atom? fun c => (name? c).map fun r => (.anchor r.1, r.2)
  else if x = '!' then
    l.atom? fun c => (tag? l.steps l.inFlow c).map fun r => (.tag r.1.1 r.1.2, r.2)
  else if x = '|' && !l.inFlow then l.blockToken? .literal
  else if x = '>' && !l.inFlow then l.blockToken? .folded
  else if x = '\'' || x = '"' then
    l.atom? fun c => (quoted? l.steps x c).map fun r => (.scalar .quoted r.1, r.2)
  else if startsPlain l.inFlow c.rest then l.plainToken?
  else none

/-- The end of the text closes what is open. -/
def finish? (l : Lexer) : Option (List Token) :=
  ((l.unindent (-1)).dropKey?).map (·.tokens.reverse)

/-- The tokens of the rest of a text, each of one character at least. -/
def run : Nat → Lexer → Option (List Token)
  | 0, _ => none
  | n + 1, l =>
    match l.advance? with
    | none => none
    | some l =>
      match l.place.peek? with
      | none => l.finish?
      | some x => (l.token? x).bind (run n)

end Lexer

/-- The tokens of a text; a byte order mark may stand in front. -/
def tokens? (text : String) : Option (List Token) :=
  let cs := match text.toList with
    | '\ufeff' :: cs => cs
    | cs => cs
  let l := Lexer.start cs
  if cs.all isAllowed then Lexer.run l.steps l else none

end EntityQuery.Yaml
