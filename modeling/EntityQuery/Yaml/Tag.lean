import EntityQuery.Yaml.Cursor

/-!
# Tags in a YAML text

* `Yaml.uri?`: the characters of a tag, with their percent escapes;
* `Yaml.tag?`: a tag as a handle and a suffix; the handle is empty when the suffix is all of it;
* `Yaml.directive?`: the lines that state the version, or what a handle stands for.

Each reader takes a number of steps, which is to exceed the number of characters that are left.
-/

namespace EntityQuery.Yaml

/-! ### Percent escapes -/

/-- An octet written as a percent sign and two hexadecimal digits. -/
def octet? (c : Cursor) : Option (Nat × Cursor) :=
  match c.rest with
  | '%' :: a :: b :: _ => (natural? 16 [a, b]).map (·, c.skip 3)
  | _ => none

/-- The octets that follow a first one, and the part of a code point that this one holds. -/
def octetLead? (n : Nat) : Option (Nat × Nat) :=
  if n < 0x80 then some (0, n)
  else if n < 0xC0 then none
  else if n < 0xE0 then some (1, n - 0xC0)
  else if n < 0xF0 then some (2, n - 0xE0)
  else if n < 0xF8 then some (3, n - 0xF0)
  else none

/-- The code point behind the part that has been read. -/
def octetTail? : Nat → Nat → Cursor → Option (Nat × Cursor)
  | 0, code, c => some (code, c)
  | n + 1, code, c =>
    match octet? c with
    | none => none
    | some (octet, c) =>
      if 0x80 ≤ octet ∧ octet < 0xC0 then octetTail? n (code * 64 + (octet - 0x80)) c else none

/-- The least code point of so many octets behind the first one. -/
def leastCode : Nat → Nat
  | 0 => 0
  | 1 => 0x80
  | 2 => 0x800
  | _ => 0x10000

/-- An escaped character; what is none is replaced. -/
def uriEscape? (c : Cursor) : Option (Char × Cursor) :=
  match octet? c with
  | none => none
  | some (octet, c) =>
    match octetLead? octet with
    | none => none
    | some (n, part) =>
      (octetTail? n part c).map fun r =>
        (if leastCode n ≤ r.1 ∧ r.1.isValidChar then Char.ofNat r.1 else '\ufffd', r.2)

/-! ### Tags -/

/-- The rest of the characters of a tag. -/
def uriRest? (enclosed : Bool) : Nat → List Char → Cursor → Option (List Char × Cursor)
  | 0, _, _ => none
  | n + 1, done, c =>
    match c.peek? with
    | none => some (done.reverse, c)
    | some x =>
      if x = '%' then
        match uriEscape? c with
        | none => none
        | some (y, c) => uriRest? enclosed n (y :: done) c
      else if isUriCharacter enclosed x then uriRest? enclosed n (x :: done) (c.skip 1)
      else some (done.reverse, c)

/-- The characters of a tag.  There is one at least, and a zero ends them. -/
def uri? (steps : Nat) (enclosed : Bool) (c : Cursor) : Option (List Char × Cursor) :=
  match uriRest? enclosed steps [] c with
  | none => none
  | some (cs, c) => if cs.isEmpty then none else some (cs.takeWhile (· ≠ '\x00'), c)

/-- A handle: a word behind an exclamation mark, which another one may close. -/
def handle (c : Cursor) : List Char × Cursor :=
  let (word, c) := (c.skip 1).span isWord
  if c.sees '!' then ('!' :: word ++ ['!'], c.skip 1) else ('!' :: word, c)

/-- A closed handle is one that a suffix follows. -/
def isClosed (cs : List Char) : Bool := 1 < cs.length && cs.getLast? = some '!'

/-- The handle and the suffix of a tag that is not enclosed. -/
def shortTag? (steps : Nat) (c : Cursor) : Option ((List Char × List Char) × Cursor) :=
  let (word, behind) := handle c
  if isClosed word then (uri? steps false behind).map fun r => ((word, r.1), r.2)
  else
    match uriRest? false steps word.tail.reverse behind with
    | none => none
    | some (cs, c) =>
      match cs.takeWhile (· ≠ '\x00') with
      | [] => some (([], ['!']), c)
      | suffix => some ((['!'], suffix), c)

/-- The handle and the suffix of a tag between angle brackets. -/
def enclosedTag? (steps : Nat) (c : Cursor) : Option ((List Char × List Char) × Cursor) :=
  match uri? steps true (c.skip 2) with
  | none => none
  | some (cs, c) => if c.sees '>' then some (([], cs), c.skip 1) else none

/-- A tag, which ends at a space or, between brackets, at a comma. -/
def tag? (steps : Nat) (inFlow : Bool) (c : Cursor) : Option ((String × String) × Cursor) :=
  match if (c.skip 1).sees '<' then enclosedTag? steps c else shortTag? steps c with
  | none => none
  | some ((h, suffix), c) =>
    if endsWord c.rest || (inFlow && c.sees ',') then
      some ((String.ofList h, String.ofList suffix), c)
    else none

/-! ### Directives -/

/-- What a directive states. -/
inductive Directive
  | version (major minor : Nat)
  | handle (handle : String) (lead : String)

/-- A number of a version, of at most nine digits. -/
def versionNumber? (c : Cursor) : Option (Nat × Cursor) :=
  let (digits, c) := c.span Char.isDigit
  if digits.length ≤ 9 then (natural? 10 digits).map (·, c) else none

/-- The version that a directive states. -/
def versionDirective? (c : Cursor) : Option (Directive × Cursor) :=
  match versionNumber? (c.skipWhile isBlank) with
  | none => none
  | some (major, c) =>
    if c.sees '.' then
      (versionNumber? (c.skip 1)).map fun r => (.version major r.1, r.2)
    else none

/-- The handle that a directive gives a meaning. -/
def handleDirective? (steps : Nat) (c : Cursor) : Option (Directive × Cursor) :=
  let c := c.skipWhile isBlank
  if c.sees '!' then
    let (word, c) := handle c
    if (isClosed word || word = ['!']) && c.peek?.any isBlank then
      match uri? steps true (c.skipWhile isBlank) with
      | none => none
      | some (lead, c) =>
        if endsWord c.rest then some (.handle (String.ofList word) (String.ofList lead), c)
        else none
    else none
  else none

/-- A directive and its line. -/
def directive? (steps : Nat) (c : Cursor) : Option (Directive × Cursor) :=
  let (name, c) := (c.skip 1).span isWord
  let content :=
    if !endsWord c.rest then none
    else if name = ['Y', 'A', 'M', 'L'] then versionDirective? c
    else if name = ['T', 'A', 'G'] then handleDirective? steps c
    else none
  match content with
  | none => none
  | some (d, c) =>
    let c := c.skipComment
    match c.rest with
    | [] => some (d, c)
    | _ => c.lineEnd?.map fun r => (d, r.2)

end EntityQuery.Yaml
