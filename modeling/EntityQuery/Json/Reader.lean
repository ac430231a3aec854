import EntityQuery.Json.Basic
import EntityQuery.Decimal.Literal

/-!
# Reading JSON

A text is cut into tokens, and a stack machine builds the value that the tokens spell.

* `Json.Token`, `Json.tokens?`: the tokens of a text;
* `Json.Reader.step`: one token's effect on the machine;
* `Json.parse?`: the value of a text, `none` when it is not JSON or nests deeper than `depthLimit`.

Of members with one name the first gives the place and the last the value.
-/

namespace EntityQuery.Json

/-- A token of a JSON text. -/
inductive Token
  | openArray
  | closeArray
  | openObject
  | closeObject
  | comma
  | colon
  | str (s : String)
  /-- A number or one of the three names. -/
  | scalar (j : Json)

/-! ### Strings -/

/-- The value of a hexadecimal digit. -/
def hexValue? (c : Char) : Option Nat :=
  if '0' ≤ c ∧ c ≤ '9' then some (c.toNat - 48)
  else if 'a' ≤ c ∧ c ≤ 'f' then some (c.toNat - 87)
  else if 'A' ≤ c ∧ c ≤ 'F' then some (c.toNat - 55)
  else none

/-- The value of four hexadecimal digits. -/
def hex4? (a b c d : Char) : Option Nat := do
  return (← hexValue? a) * 4096 + (← hexValue? b) * 256 + (← hexValue? c) * 16 + (← hexValue? d)

/-- The character of a one-letter escape. -/
def shortEscape? : Char → Option Char
  | '"' => some '"'
  | '\\' => some '\\'
  | '/' => some '/'
  | 'b' => some '\x08'
  | 'f' => some '\x0c'
  | 'n' => some '\n'
  | 'r' => some '\r'
  | 't' => some '\t'
  | _ => none

/-- The character of one escaped unit, or of a pair of them. -/
def unitChar? (high : Nat) (low : Option Nat) : Option Char :=
  match low with
  | none => if 0xD800 ≤ high ∧ high < 0xE000 then none else some (Char.ofNat high)
  | some low =>
    if 0xD800 ≤ high ∧ high < 0xDC00 ∧ 0xDC00 ≤ low ∧ low < 0xE000 then
      some (Char.ofNat (0x10000 + (high - 0xD800) * 1024 + (low - 0xDC00)))
    else none

/-- The rest of a string up to its closing quote, and the text behind it. -/
def string? (done : List Char) : List Char → Option (String × List Char)
  | '"' :: rest => some (String.ofList done.reverse, rest)
  | '\\' :: 'u' :: a :: b :: c :: d :: rest =>
    match hex4? a b c d with
    | none => none
    | some high =>
      if 0xD800 ≤ high ∧ high < 0xDC00 then
        match rest with
        | '\\' :: 'u' :: e :: f :: g :: h :: rest' =>
          match (hex4? e f g h).bind fun low => unitChar? high (some low) with
          | none => none
          | some ch => string? (ch :: done) rest'
        | _ => none
      else match unitChar? high none with
        | none => none
        | some ch => string? (ch :: done) rest
  | '\\' :: e :: rest =>
    match shortEscape? e with
    | none => none
    | some ch => string? (ch :: done) rest
  | c :: rest => if c.val < 32 then none else string? (c :: done) rest
  | [] => none

theorem string?_length {done cs : List Char} {s : String} {rest : List Char}
    (h : string? done cs = some (s, rest)) : rest.length < cs.length := by
  fun_induction string? done cs <;> simp_all <;> omega

/-! ### Numbers and names -/

/-- The values of a run of digits. -/
def digitValues? (cs : List Char) : Option (List Nat) :=
  if cs.isEmpty then none else cs.mapM fun c => if c.isDigit then some (c.toNat - 48) else none

/-- The sign and the digits of an exponent. -/
def exponent? : List Char → Option (Bool × List Nat)
  | '+' :: cs => (digitValues? cs).map (false, ·)
  | '-' :: cs => (digitValues? cs).map (true, ·)
  | cs => (digitValues? cs).map (false, ·)

/-- A double behind its sign, unless it exceeds the range. -/
def Number.ofLiteral? (l : Decimal.Literal) : Option Number := l.toFloat?.map .float

/-- A literal without point and exponent: an integer where 64 bits hold it, else a double. -/
def Number.ofWhole? (negative : Bool) (ds : List Nat) : Option Number :=
  let n := Decimal.Literal.digitsValue ds
  if negative then
    if 0 < n ∧ Word.intMin ≤ -n then some (.int (-n)) else Number.ofLiteral? ⟨true, ds, [], none⟩
  else if n ≤ Word.natMax then some (.int n) else Number.ofLiteral? ⟨false, ds, [], none⟩

/-- An unsigned number; a leading zero stands alone. -/
def unsigned? (negative : Bool) (cs : List Char) : Option Number := do
  let whole := cs.takeWhile Char.isDigit
  let ds ← digitValues? whole
  if ds.head? = some 0 ∧ 1 < ds.length then none
  else match cs.dropWhile Char.isDigit with
    | [] => Number.ofWhole? negative ds
    | '.' :: rest =>
      let fraction ← digitValues? (rest.takeWhile Char.isDigit)
      match rest.dropWhile Char.isDigit with
      | [] => Number.ofLiteral? ⟨negative, ds, fraction, none⟩
      | e :: exponent =>
        if e = 'e' ∨ e = 'E' then
          Number.ofLiteral? ⟨negative, ds, fraction, some (← exponent? exponent)⟩
        else none
    | e :: exponent =>
      if e = 'e' ∨ e = 'E' then Number.ofLiteral? ⟨negative, ds, [], some (← exponent? exponent)⟩
      else none

/-- A number. -/
def number? : List Char → Option Number
  | '-' :: cs => unsigned? true cs
  | cs => unsigned? false cs

/-- One of the three names, or a number. -/
def scalar? (cs : List Char) : Option Json :=
  match String.ofList cs with
  | "null" => some .null
  | "true" => some (.bool true)
  | "false" => some (.bool false)
  | _ => (number? cs).map .num

/-! ### Tokens -/

/-- Blank, tab, line feed and carriage return separate tokens. -/
def isBlank (c : Char) : Bool := c = ' ' || c = '\t' || c = '\n' || c = '\r'

/-- The token of a punctuation character. -/
def punctuation? : Char → Option Token
  | '[' => some .openArray
  | ']' => some .closeArray
  | '\x7b' => some .openObject
  | '\x7d' => some .closeObject
  | ',' => some .comma
  | ':' => some .colon
  | _ => none

/-- A character of a number or of a name. -/
def isWord (c : Char) : Bool := c.isAlphanum || c = '-' || c = '+' || c = '.'

/-- The tokens of a text. -/
def tokens? : List Char → Option (List Token)
  | [] => some []
  | c :: rest =>
    if isBlank c then tokens? rest
    else if c = '"' then
      match h : string? [] rest with
      | none => none
      | some (s, behind) =>
        have : behind.length < rest.length := string?_length h
        (tokens? behind).map (.str s :: ·)
    else match punctuation? c with
      | some t => (tokens? rest).map (t :: ·)
      | none =>
        if isWord c then
          have : (rest.dropWhile isWord).length ≤ rest.length :=
            (List.dropWhile_suffix isWord).length_le
          match scalar? (c :: rest.takeWhile isWord) with
          | none => none
          | some j => (tokens? (rest.dropWhile isWord)).map (.scalar j :: ·)
        else none
  termination_by cs => cs.length

/-! ### The stack machine -/

namespace Reader

/-- An array or object that is still open. -/
inductive Frame
  | array (items : List Json)
  | object (members : List (String × Json))
  /-- An object whose last member waits for its value. -/
  | member (members : List (String × Json)) (key : String)

/-- What may come next. -/
inductive Expect
  | value
  | valueOrEnd
  | keyOrEnd
  | key
  | colon
  | commaOrEnd
  deriving DecidableEq

/-- The machine: what may come next inside which frames, or a finished value. -/
inductive State
  | reading (next : Expect) (frames : List Frame)
  | finished (j : Json)

/-- How deeply arrays and objects may be nested. -/
def depthLimit : Nat := 127

/-- A value is complete: it goes into the innermost frame, or it is the result. -/
def complete (j : Json) : List Frame → Option State
  | [] => some (.finished j)
  | .array items :: frames => some (.reading .commaOrEnd (.array (items ++ [j]) :: frames))
  | .member members key :: frames =>
    some (.reading .commaOrEnd (.object (set key j members) :: frames))
  | .object _ :: _ => none

/-- A frame is opened, unless it is nested too deeply. -/
def enter (frame : Frame) (next : Expect) (frames : List Frame) : Option State :=
  if frames.length < depthLimit then some (.reading next (frame :: frames)) else none

/-- A value begins, or is complete at once. -/
def begin (t : Token) (frames : List Frame) : Option State :=
  match t with
  | .openArray => enter (.array []) .valueOrEnd frames
  | .openObject => enter (.object []) .keyOrEnd frames
  | .str s => complete (.str s) frames
  | .scalar j => complete j frames
  | _ => none

/-- The innermost frame is closed. -/
def close (t : Token) (frames : List Frame) : Option State :=
  match t, frames with
  | .closeArray, .array items :: outer => complete (.arr items) outer
  | .closeObject, .object members :: outer => complete (.obj members) outer
  | _, _ => none

/-- A member's name. -/
def name (t : Token) (frames : List Frame) : Option State :=
  match t, frames with
  | .str key, .object members :: outer => some (.reading .colon (.member members key :: outer))
  | _, _ => none

/-- One token. -/
def step : State → Token → Option State
  | .finished _, _ => none
  | .reading .value frames, t => begin t frames
  | .reading .valueOrEnd frames, .closeArray => close .closeArray frames
  | .reading .valueOrEnd frames, t => begin t frames
  | .reading .keyOrEnd frames, .closeObject => close .closeObject frames
  | .reading .keyOrEnd frames, t => name t frames
  | .reading .key frames, t => name t frames
  | .reading .colon frames, .colon => some (.reading .value frames)
  | .reading .colon _, _ => none
  | .reading .commaOrEnd frames, .comma =>
    match frames with
    | .array _ :: _ => some (.reading .value frames)
    | .object _ :: _ => some (.reading .key frames)
    | _ => none
  | .reading .commaOrEnd frames, t => close t frames

end Reader

/-- The value that tokens spell. -/
def ofTokens? (ts : List Token) : Option Json :=
  match ts.foldlM Reader.step (.reading .value []) with
  | some (.finished j) => some j
  | _ => none

/-- The value of a text. -/
def parse? (text : String) : Option Json := (tokens? text.toList).bind ofTokens?

end EntityQuery.Json
