import EntityQuery.Document.Settled
import EntityQuery.Word

/-!
# Documents

What a decoder may ask of a document, whichever format the document is written in.

* `Document`: scalars, lists, members and variants of a node;
* `Document.Label`: members and variants are referred to by name, or by place once a document is
  settled;
* `Document.record?`: the members of given names, each at most once;
* `Document.tagged?`: the name of a tagged record, with its other members settled;
* `Document.optional`, `Document.orElse`: what an absent member stands for;
* the instances for `Json` and `Settled`.
-/

namespace EntityQuery

/-- How a member or a variant is referred to. -/
inductive Document.Label
  | name (s : String)
  /-- The place among the declared ones, counted from zero. -/
  | index (n : Nat)
  deriving DecidableEq, Repr

/-- Nodes of a format. -/
class Document (δ : Type) where
  bool? : δ → Option Bool
  /-- An integer of 64 bits. -/
  int64? : δ → Option Int64
  /-- A number of 64 bits without a sign. -/
  nat64? : δ → Option Nat
  text? : δ → Option String
  items? : δ → Option (List δ)
  members? : δ → Option (List (Document.Label × δ))
  /-- The members of a record that are given by their position. -/
  positional? : δ → Option (List δ)
  /-- Whether the node stands for the absence of a value, if that can be told. -/
  isAbsent? : δ → Option Bool
  /-- The name of a variant, and its content if it has one. -/
  variant? : δ → Option (String × Option δ)
  /-- The node is the content of a variant that has none. -/
  isUnit : δ → Bool
  /-- The node with every scalar read as what it looks like. -/
  settled? : δ → Option Settled
  /-- What the member of this name, or the first item, refers to, and the settled others. -/
  labelled? : String → δ → Option (Document.Label × Settled)

/-! ### JSON values -/

namespace Json

/-- The content of a boolean. -/
def bool? : Json → Option Bool
  | .bool b => some b
  | _ => none

/-- The content of a whole number. -/
def int? : Json → Option Int
  | .num (.int i) => some i
  | _ => none

/-- The content of a text. -/
def text? : Json → Option String
  | .str s => some s
  | _ => none

/-- The items of an array. -/
def items? : Json → Option (List Json)
  | .arr items => some items
  | _ => none

/-- The members of an object. -/
def members? : Json → Option (List (String × Json))
  | .obj members => some members
  | _ => none

/-- A text, or an object of one member. -/
def variant? : Json → Option (String × Option Json)
  | .str s => some (s, none)
  | .obj [(k, v)] => some (k, some v)
  | _ => none

/-- The value is `null`. -/
def isNull : Json → Bool
  | .null => true
  | _ => false

/-- The text of the only member of a name, or of the first item, and the settled others. -/
def labelled? (tag : String) : Json → Option (Document.Label × Settled)
  | .obj members =>
    match members.filter (·.1 = tag) with
    | [(_, .str name)] =>
      some (.name name, .map (Settled.ofMembers (members.filter (·.1 ≠ tag))))
    | _ => none
  | .arr (.str name :: items) => some (.name name, .list (Settled.ofItems items))
  | _ => none

end Json

instance : Document Json where
  bool? := Json.bool?
  int64? j := j.int?.bind Word.int64?
  nat64? j := j.int?.bind Word.nat64?
  text? := Json.text?
  items? := Json.items?
  members? j := j.members?.map fun ms => ms.map fun m => (.name m.1, m.2)
  positional? := Json.items?
  isAbsent? j := some j.isNull
  variant? := Json.variant?
  isUnit := Json.isNull
  settled? j := some (.ofJson j)
  labelled? := Json.labelled?

/-! ### Settled documents -/

namespace Settled

/-- What the document refers to as a key or as the name of a variant. -/
def label? : Settled → Option Document.Label
  | .text s => some (.name s)
  | .nat n => some (.index n)
  | _ => none

/-- The content of a boolean. -/
def bool? : Settled → Option Bool
  | .bool b => some b
  | _ => none

/-- The content of a whole number. -/
def int? : Settled → Option Int
  | .nat n => some n
  | .neg i => some i
  | _ => none

/-- The content of a text. -/
def text? : Settled → Option String
  | .text s => some s
  | _ => none

/-- The content of a list. -/
def listed? : Settled → Option (List Settled)
  | .list items => some items
  | _ => none

/-- The members of a record. -/
def labelledMembers? : Settled → Option (List (Document.Label × Settled))
  | .map entries => entries.mapM fun e => (label? e.1).map (·, e.2)
  | _ => none

/-- A text, or a mapping of one entry. -/
def variant? : Settled → Option (String × Option Settled)
  | .text s => some (s, none)
  | .map [(.text k, d)] => some (k, some d)
  | _ => none

/-- The document is null. -/
def isNull : Settled → Bool
  | .null => true
  | _ => false

/-- Null, or an empty mapping. -/
def isUnit : Settled → Bool
  | .null => true
  | .map [] => true
  | _ => false

/-- What the only entry of a name, or the first item, refers to, and the others. -/
def labelled? (tag : String) : Settled → Option (Document.Label × Settled)
  | .map entries =>
    match entries.filter (·.1.isText tag) with
    | [(_, d)] => (label? d).map (·, .map (entries.filter (!·.1.isText tag)))
    | _ => none
  | .list (d :: items) => (label? d).map (·, .list items)
  | _ => none

end Settled

instance : Document Settled where
  bool? := Settled.bool?
  int64? d := d.int?.bind Word.int64?
  nat64? d := d.int?.bind Word.nat64?
  text? := Settled.text?
  items? := Settled.listed?
  members? := Settled.labelledMembers?
  positional? := Settled.listed?
  isAbsent? d := some d.isNull
  variant? := Settled.variant?
  isUnit := Settled.isUnit
  settled? := some
  labelled? := Settled.labelled?

/-! ### Records -/

namespace Document

variable {δ : Type} [Document δ]

/-- The name that a label refers to, the declared names being given. -/
def Label.among? (names : List String) : Label → Option String
  | .name s => some s
  | .index n => names[n]?

/-- A label as a key. -/
def Label.settled : Label → Settled
  | .name s => .text s
  | .index n => .nat n

/-- The value of the member of a name and a place, which may be given once: `some none` when it is
absent. -/
def member? (key : String) (place : Nat) (members : List (Label × δ)) : Option (Option δ) :=
  match members.filter fun m => m.1 = .name key || m.1 = .index place with
  | [] => some none
  | [m] => some (some m.2)
  | _ => none

/-- The values of the members of these names. -/
def namedRecord? (keys : List String) (d : δ) : Option (List (Option δ)) :=
  (members? d).bind fun members => keys.zipIdx.mapM fun k => member? k.1 k.2 members

/-- The values of the members of these names.  A record given by position has at least `least` and
at most all of them. -/
def record? (keys : List String) (least : Nat) (d : δ) : Option (List (Option δ)) :=
  match positional? d with
  | some items =>
    if least ≤ items.length ∧ items.length ≤ keys.length then
      some (items.map some ++ List.replicate (keys.length - items.length) none)
    else none
  | none => namedRecord? keys d

/-- The content of a member, or the default when it is absent. -/
def orElse (default : α) (read : δ → Option α) : Option δ → Option α
  | none => some default
  | some d => read d

/-- The content of a node that may be null. -/
def nullable (read : δ → Option α) (d : δ) : Option (Option α) :=
  match isAbsent? d with
  | some true => some none
  | some false => (read d).map some
  | none => none

/-- The content of a member that may be absent or null. -/
def optional (read : δ → Option α) : Option δ → Option (Option α) := orElse none (nullable read)

/-- A list of one kind of node. -/
def list? (read : δ → Option α) (d : δ) : Option (List α) := (items? d).bind fun ds => ds.mapM read

/-- A variant without content. -/
def name? (d : δ) : Option String :=
  match variant? d with
  | some (name, none) => some name
  | some (name, some content) => if isUnit content then some name else none
  | none => none

/-- The name of a tagged record among the declared names, and its settled members: the tag is a
member, or the first position. -/
def tagged? (tag : String) (names : List String) (d : δ) : Option (String × Settled) :=
  (labelled? tag d).bind fun r => (r.1.among? names).map (·, r.2)

end Document

end EntityQuery
