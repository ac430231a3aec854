import EntityQuery.Yaml.Cursor

/-!
# The texts of YAML scalars

How the lines of a scalar are joined.

* `Yaml.Folded`: a scalar under way, with the blanks and line ends that are not yet part of it;
* `Yaml.quoted?`: the scalars in quotes;
* `Yaml.plain?`: the scalars without;
* `Yaml.block?`: the literal and the folded blocks.

Each reader gives the text and the place behind it.  It takes a number of steps, which is to exceed
the number of characters that are left.
-/

namespace EntityQuery.Yaml

/-! ### Joining lines -/

/-- A scalar under way.  All texts are reversed. -/
structure Folded where
  done : List Char
  /-- The blanks since the last character. -/
  blanks : List Char
  /-- The first line end since the last character; an escaped one is empty. -/
  lineEnd : Option (List Char)
  /-- The other line ends since the last character. -/
  emptyLines : List Char

namespace Folded

/-- Nothing has been read. -/
def empty : Folded := ⟨[], [], none, []⟩

/-- Blanks or line ends have been read since the last character. -/
def isWaiting (f : Folded) : Bool := !f.blanks.isEmpty || f.lineEnd.isSome

/-- What stands for the blanks and line ends: a newline alone is a blank, and of several the first
is dropped. -/
def gap (f : Folded) : List Char :=
  match f.lineEnd with
  | none => f.blanks
  | some ['\n'] => if f.emptyLines.isEmpty then [' '] else f.emptyLines
  | some e => f.emptyLines ++ e

/-- The scalar with its blanks and line ends made part of it. -/
def join (f : Folded) : Folded := ⟨f.gap ++ f.done, [], none, []⟩

/-- One more character. -/
def push (x : Char) (f : Folded) : Folded := ⟨x :: f.join.done, [], none, []⟩

/-- One more blank; at the beginning of a line it does not count. -/
def pushBlank (x : Char) (f : Folded) : Folded :=
  if f.lineEnd.isSome then f else ⟨f.done, x :: f.blanks, none, f.emptyLines⟩

/-- One more line end; blanks before it do not count. -/
def pushLineEnd (x : Char) (f : Folded) : Folded :=
  match f.lineEnd with
  | none => ⟨f.done, [], some [x], f.emptyLines⟩
  | some e => ⟨f.done, f.blanks, some e, x :: f.emptyLines⟩

/-- An escaped line end stands for nothing, and blanks before it count. -/
def pushEscapedLineEnd (f : Folded) : Folded := ⟨f.join.done, [], some [], []⟩

/-- The text that has been read. -/
def text (f : Folded) : String := String.ofList f.done.reverse

end Folded

/-! ### Quotes -/

/-- The character of an escape of one letter. -/
def escape? : Char → Option Char
  | '0' => some '\x00'
  | 'a' => some '\x07'
  | 'b' => some '\x08'
  | 't' => some '\t'
  | '\t' => some '\t'
  | 'n' => some '\n'
  | 'v' => some '\x0b'
  | 'f' => some '\x0c'
  | 'r' => some '\r'
  | 'e' => some '\x1b'
  | ' ' => some ' '
  | '"' => some '"'
  | '/' => some '/'
  | '\\' => some '\\'
  | 'N' => some '\u0085'
  | '_' => some '\u00a0'
  | 'L' => some '\u2028'
  | 'P' => some '\u2029'
  | _ => none

/-- The number of hexadecimal digits behind the letter of an escape. -/
def codeLength? : Char → Option Nat
  | 'x' => some 2
  | 'u' => some 4
  | 'U' => some 8
  | _ => none

/-- The character of a code that so many hexadecimal digits spell. -/
def codeChar? (length : Nat) (cs : List Char) : Option Char :=
  let digits := cs.take length
  if digits.length = length then
    (natural? 16 digits).bind fun n => if n.isValidChar then some (Char.ofNat n) else none
  else none

/-- What a backslash stands for, the text behind it being given, and how many characters it
takes. -/
def escaped? : List Char → Option (Char × Nat)
  | [] => none
  | x :: rest =>
    match codeLength? x with
    | some n => (codeChar? n rest).map (·, n + 2)
    | none => (escape? x).map (·, 2)

/-- The rest of a scalar in quotes.  A single quote inside single quotes is written twice; a
backslash escapes inside double quotes. -/
def quotedRest? (quote : Char) : Nat → Folded → Cursor → Option (String × Cursor)
  | 0, _, _ => none
  | n + 1, f, c =>
    match c.rest with
    | [] => none
    | x :: rest =>
      if isBlank x then quotedRest? quote n (f.pushBlank x) (c.skip 1)
      else
        match c.lineEnd? with
        | some (e, c') => quotedRest? quote n (f.pushLineEnd e) c'
        | none =>
          if c.isMarker then none
          else if x = quote then
            if quote = '\'' && rest.head? = some '\'' then
              quotedRest? quote n (f.push '\'') (c.skip 2)
            else some (f.join.text, c.skip 1)
          else if quote = '"' && x = '\\' then
            match (c.skip 1).lineEnd? with
            | some (_, c') => quotedRest? quote n f.pushEscapedLineEnd c'
            | none =>
              match escaped? rest with
              | some (y, length) => quotedRest? quote n (f.push y) (c.skip length)
              | none => none
          else quotedRest? quote n (f.push x) (c.skip 1)

/-- A scalar in quotes. -/
def quoted? (steps : Nat) (quote : Char) (c : Cursor) : Option (String × Cursor) :=
  quotedRest? quote steps .empty (c.skip 1)

/-! ### Bare scalars -/

/-- A colon between brackets that is neither part of a word nor in front of a space. -/
def isStrayColon (cs : List Char) : Bool :=
  match cs with
  | ':' :: x :: _ => isBracket x || x = '?'
  | _ => false

/-- Nothing of a bare scalar comes next: an indicator, or a colon in front of a space. -/
def endsPlain (inFlow : Bool) : List Char → Bool
  | [] => true
  | x :: rest => (x = ':' && endsWord rest) || (inFlow && isBracket x)

/-- The rest of a bare scalar whose lines begin at `margin` at least.  Behind blanks it also ends at
a comment or at a mark between documents. -/
def plainRest? (inFlow : Bool) (margin : Int) : Nat → Folded → Cursor → Option (Folded × Cursor)
  | 0, _, _ => none
  | n + 1, f, c =>
    match c.rest with
    | [] => some (f, c)
    | x :: _ =>
      if isBlank x then
        if f.lineEnd.isSome && c.column < margin && x = '\t' then none
        else plainRest? inFlow margin n (f.pushBlank x) (c.skip 1)
      else
        match c.lineEnd? with
        | some (e, c') => plainRest? inFlow margin n (f.pushLineEnd e) c'
        | none =>
          let endsLine := (!inFlow && c.column < margin) || c.isMarker || x = '#'
          if f.isWaiting && endsLine then some (f, c)
          else if inFlow && isStrayColon c.rest then none
          else if endsPlain inFlow c.rest then some (f, c)
          else plainRest? inFlow margin n (f.push x) (c.skip 1)

/-- A bare scalar inside a node at a column: its text, whether it ends at the beginning of a line,
and the place behind it. -/
def plain? (steps : Nat) (inFlow : Bool) (column : Int) (c : Cursor) :
    Option (String × Bool × Cursor) :=
  (plainRest? inFlow (column + 1) steps .empty c).map fun r =>
    (r.1.text, r.1.lineEnd.isSome, r.2)

/-- A bare scalar may begin here.  Between brackets a colon or a question mark never begins one. -/
def startsPlain (inFlow : Bool) : List Char → Bool
  | [] => false
  | x :: rest =>
    if x = '-' then !rest.head?.any isBlank
    else if x = '?' ∨ x = ':' then !inFlow && !endsWord rest
    else !isSpace x && !isBracket x &&
      x ∉ ['#', '&', '*', '!', '|', '>', '\'', '"', '%', '@', '`']

/-! ### Blocks -/

/-- What happens to the line ends behind a block. -/
inductive Chomping
  | strip
  | clip
  | keep

/-- The chomping that an indicator asks for. -/
def Chomping.ofChar? : Char → Option Chomping
  | '+' => some .keep
  | '-' => some .strip
  | _ => none

/-- The indentation that an indicator gives, which is not zero. -/
def margin? (x : Char) : Option Nat := if x.isDigit && x ≠ '0' then some (x.toNat - 48) else none

/-- The indicators of a block, in either order, and the place behind them. -/
def blockHeader (c : Cursor) : Chomping × Option Nat × Cursor :=
  match c.peek?.bind Chomping.ofChar? with
  | some chomping =>
    match (c.skip 1).peek?.bind margin? with
    | some m => (chomping, some m, c.skip 2)
    | none => (chomping, none, c.skip 1)
  | none =>
    match c.peek?.bind margin? with
    | some m =>
      match (c.skip 1).peek?.bind Chomping.ofChar? with
      | some chomping => (chomping, some m, c.skip 2)
      | none => (.clip, some m, c.skip 1)
    | none => (.clip, none, c)

/-- Skips blanks up to the margin, or all of them while there is none. -/
def skipMargin (margin : Option Nat) (c : Cursor) : Cursor :=
  let blanks := (c.rest.takeWhile (· = ' ')).length
  match margin with
  | none => c.skip blanks
  | some m => c.skip (min blanks (m - c.column))

/-- The line ends of empty lines, reversed, the deepest indentation among them, and the place behind
them with its indentation skipped.  No tab stands in the indentation. -/
def emptyLines? (margin : Option Nat) : Nat → List Char → Nat → Cursor →
    Option (List Char × Nat × Cursor)
  | 0, _, _, _ => none
  | n + 1, ends, deepest, c =>
    let c := skipMargin margin c
    let deepest := max deepest c.column
    if (margin.all fun m => c.column < m) && c.sees '\t' then none
    else
      match c.lineEnd? with
      | some (e, c') => emptyLines? margin n (e :: ends) deepest c'
      | none => some (ends, deepest, c)

/-- A block under way.  All texts are reversed. -/
structure Block where
  done : List Char
  /-- The line end of the last line. -/
  lineEnd : List Char
  /-- The line ends of the empty lines behind it. -/
  emptyLines : List Char
  /-- The last line begins with a blank. -/
  isIndented : Bool

/-- The text up to a line that begins with `x`.  In a folded block a newline between two lines
without further indentation is a blank, or nothing before empty lines. -/
def Block.joined (literal : Bool) (x : Char) (b : Block) : List Char :=
  if !literal && b.lineEnd = ['\n'] && !b.isIndented && !isBlank x then
    b.emptyLines ++ (if b.emptyLines.isEmpty then [' '] else []) ++ b.done
  else b.emptyLines ++ b.lineEnd ++ b.done

/-- The text with its last line ends. -/
def Block.chomped (chomping : Chomping) (b : Block) : String :=
  let text := match chomping with
    | .strip => b.done
    | .clip => b.lineEnd ++ b.done
    | .keep => b.emptyLines ++ b.lineEnd ++ b.done
  String.ofList text.reverse

/-- The lines of a block at a margin. -/
def blockLines? (steps : Nat) (literal : Bool) (margin : Nat) :
    Nat → Block → Cursor → Option (Block × Cursor)
  | 0, _, _ => none
  | n + 1, b, c =>
    match c.rest with
    | [] => some (b, c)
    | x :: _ =>
      if c.column = margin then
        let (line, c) := c.span (!isBreak ·)
        let (lineEnd, c) := match c.lineEnd? with
          | some (e, c') => ([e], c')
          | none => ([], c)
        match emptyLines? (some margin) steps [] 0 c with
        | none => none
        | some (ends, _, c) =>
          blockLines? steps literal margin n
            ⟨line.reverse ++ b.joined literal x, lineEnd, ends, isBlank x⟩ c
      else some (b, c)

/-- A block inside a node at a column, `-1` being outside of all. -/
def block? (steps : Nat) (literal : Bool) (column : Int) (c : Cursor) :
    Option (String × Cursor) :=
  let (chomping, given, c) := blockHeader (c.skip 1)
  let c := c.skipComment
  let below : Option Cursor := match c.rest with
    | [] => some c
    | _ => c.lineEnd?.map (·.2)
  match below with
  | none => none
  | some c =>
    let given := given.map fun m => (max 0 column).toNat + m
    match emptyLines? given steps [] 0 c with
    | none => none
    | some (ends, deepest, c) =>
      let margin := given.getD (max (max deepest (column + 1).toNat) 1)
      (blockLines? steps literal margin steps ⟨[], [], ends, false⟩ c).map fun r =>
        (r.1.chomped chomping, r.2)

end EntityQuery.Yaml
