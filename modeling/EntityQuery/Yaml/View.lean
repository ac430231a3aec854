import EntityQuery.Document.Basic
import EntityQuery.Yaml.Literal
import EntityQuery.Yaml.Tree

/-!
# YAML nodes as documents

* `Yaml.View`: a node inside its text, where aliases have a meaning;
* `Yaml.Scalar.settled?`, `Yaml.settle`: what a node looks like;
* the `Document` instance: a scalar is a text where a text is asked for, and a number or a truth
  value where one is asked for; an empty one is an empty list or an empty record;
* `Yaml.parse?`: the only document of a text.

A tag of the document's own names a variant, and a node with one stands for nothing else where
any value may stand.
-/

namespace EntityQuery.Yaml

/-- The tag of the core schema for a kind of value. -/
def coreTag (kind : String) : String := "tag:yaml.org,2002:" ++ kind

/-! ### Scalars -/

namespace Scalar

/-- The tag is the one of the core schema. -/
def isCore (kind : String) (s : Scalar) : Bool := s.tag = some (coreTag kind)

/-- The scalar is written without quotes and not as a block. -/
def isPlain (s : Scalar) : Bool := s.style = .plain

/-- Nothing is written. -/
def isVoid (s : Scalar) : Bool := s.isPlain && s.text = ""

/-- The scalar is read as a value of a kind: it is bare, or a literal block with the tag of that
kind. -/
def isLiteral (kind : String) (s : Scalar) : Bool :=
  s.isPlain || (s.style = .literal && s.isCore kind)

/-- Nothing, or a bare spelling of the absent value. -/
def isNull (s : Scalar) : Bool := s.isPlain && (s.text = "" || Literal.isNull s.text)

/-- Whether the scalar stands for the absence of a value.  A tag makes it a value, but for the tag
of the absent value, behind which nothing else may stand. -/
def isAbsent? (s : Scalar) : Option Bool :=
  if !s.isPlain then some false
  else if s.tag.isNone then some s.isNull
  else if s.isCore "null" then (if Literal.isNull s.text then some true else none)
  else some false

/-- What a scalar looks like: with a tag of the core schema what its text spells of that kind, else
what it spells if it is bare and has no tag. -/
def settled? (s : Scalar) : Option Settled :=
  if (variantOf? s.tag).isSome then none
  else if s.isCore "bool" then (Literal.bool? s.text).map .bool
  else if s.isCore "int" then (Literal.integer? s.text).join
  else if s.isCore "float" then (Literal.float? s.text).map .float
  else if s.isCore "null" then (if Literal.isNull s.text then some .null else none)
  else if s.isPlain && s.tag.isNone then Literal.settled? s.text
  else some (.text s.text)

end Scalar

/-! ### Aliases -/

/-- What aliases mean: the anchored nodes, the last one first. -/
abbrev Anchors := List (Nat × Yaml)

/-- The node that an alias means, without its anchor. -/
def Anchors.find? (known : Anchors) (id : Nat) : Option Yaml :=
  (List.find? (fun a => a.1 = id) known).map (·.2)

/-- The node behind an anchor or an alias. -/
def behind? (known : Anchors) : Yaml → Option Yaml
  | .reference id => known.find? id
  | .anchored _ y => some y
  | y => some y

/-- The scalar that a node is. -/
def scalarIn? (known : Anchors) (y : Yaml) : Option Scalar :=
  match y.behind? known with
  | some (.scalar s) => some s
  | _ => none

/-- The text of any scalar. -/
def textIn? (known : Anchors) (y : Yaml) : Option String := (y.scalarIn? known).map (·.text)

/-- The node is an alias. -/
def isReference : Yaml → Bool
  | .reference _ => true
  | _ => false

/-- Reading with a bounded number of aliases. -/
abbrev Settling := StateT Nat Option

/-- The node behind an anchor or an alias; an alias counts against the bound. -/
def follow (known : Anchors) (y : Yaml) : Settling Yaml := do
  if y.isReference then
    match ← get with
    | 0 => failure
    | n + 1 => set n
  y.behind? known

/-- What a node looks like, down to a depth of lists and mappings. -/
def settle (known : Anchors) : Nat → Yaml → Settling Settled
  | depth, y => do
    match ← follow known y, depth with
    | .scalar s, _ => s.settled?
    | .seq tag items, d + 1 =>
      if (variantOf? tag).isSome then failure
      return .list (← items.mapM (settle known d))
    | .map tag entries, d + 1 =>
      if (variantOf? tag).isSome then failure
      return .map (← entries.mapM fun e =>
        return (← settle known d e.1, ← settle known d e.2))
    | _, _ => failure

/-! ### Nodes as documents -/

/-- A node inside its text. -/
structure View where
  known : Anchors
  /-- How many aliases may be followed to settle a node. -/
  bound : Nat
  /-- How many lists and mappings may be entered. -/
  depth : Nat
  node : Yaml

namespace View

/-- The node behind an anchor or an alias. -/
def content? (v : View) : Option Yaml := v.node.behind? v.known

/-- The scalar that the node is. -/
def scalar? (v : View) : Option Scalar := v.node.scalarIn? v.known

/-- A node inside this one. -/
def inside (v : View) (node : Yaml) : View := ⟨v.known, v.bound, v.depth - 1, node⟩

/-- The node, settled. -/
def settled? (v : View) : Option Settled := (settle v.known v.depth v.node).run' v.bound

/-- The text of any scalar. -/
def text? (v : View) : Option String := v.node.textIn? v.known

/-- The items of a list; nothing at all is the empty list. -/
def items? (v : View) : Option (List View) :=
  match v.content? with
  | some (.seq _ items) => if 0 < v.depth then some (items.map v.inside) else none
  | some (.scalar s) => if s.isVoid then some [] else none
  | _ => none

/-- The members of a record, whose keys are texts; nothing at all is the empty record. -/
def members? (v : View) : Option (List (Document.Label × View)) :=
  match v.content? with
  | some (.map _ entries) =>
    if 0 < v.depth then
      entries.mapM fun e => (e.1.textIn? v.known).map fun k => (.name k, v.inside e.2)
    else none
  | some (.scalar s) => if s.isVoid then some [] else none
  | _ => none

/-- Whether the node stands for the absence of a value. -/
def isAbsent? (v : View) : Option Bool :=
  match v.content? with
  | some (.scalar s) => s.isAbsent?
  | some _ => some false
  | none => none

/-- A tag names a variant with content, and a scalar without such a tag one that has none. -/
def variant? (v : View) : Option (String × Option View) :=
  match v.content? with
  | none => none
  | some y =>
    match variantOf? y.tagOf?, y with
    | some name, _ => some (name, some { v with node := y.untagged })
    | none, .scalar s => some (s.text, none)
    | none, _ => none

/-- The text of the first item, and the settled others. -/
def labelledItem? (v : View) : List Yaml → Option (Document.Label × Settled)
  | [] => none
  | y :: items =>
    match y.textIn? v.known, (items.mapM (settle v.known (v.depth - 1))).run' v.bound with
    | some name, some ds => some (.name name, .list ds)
    | _, _ => none

/-- The text of the only entry of a name, and the settled others. -/
def labelledEntry? (tag : String) (v : View) (entries : List (Yaml × Yaml)) :
    Option (Document.Label × Settled) :=
  let keyed : Settling (List (Settled × Yaml)) :=
    entries.mapM fun e => return (← settle v.known (v.depth - 1) e.1, e.2)
  match keyed.run' v.bound with
  | none => none
  | some entries =>
    let others : Settling (List (Settled × Settled)) :=
      (entries.filter (!·.1.isText tag)).mapM fun e =>
        return (e.1, ← settle v.known (v.depth - 1) e.2)
    match entries.filter (·.1.isText tag), others.run' v.bound with
    | [(_, y)], some others => (y.textIn? v.known).map (.name ·, .map others)
    | _, _ => none

/-- What the only entry of a name, or the first item, refers to, and the settled others. -/
def labelled? (tag : String) (v : View) : Option (Document.Label × Settled) :=
  match v.content? with
  | none => none
  | some y =>
    if (variantOf? y.tagOf?).isSome || v.depth = 0 then none
    else
      match y with
      | .seq _ items => v.labelledItem? items
      | .map _ entries => v.labelledEntry? tag entries
      | _ => none

end View

instance : Document View where
  bool? v := v.scalar?.bind fun s => if s.isLiteral "bool" then Literal.bool? s.text else none
  int64? v := v.scalar?.bind fun s => if s.isLiteral "int" then Literal.int64? s.text else none
  nat64? v := v.scalar?.bind fun s =>
    if s.isLiteral "int" then Literal.unsigned? Word.natMax s.text else none
  text? := View.text?
  items? := View.items?
  members? := View.members?
  positional? _ := none
  isAbsent? := View.isAbsent?
  variant? := View.variant?
  isUnit v := v.scalar?.any (·.isNull)
  settled? := View.settled?
  labelled? := View.labelled?

/-! ### Texts -/

/-- The greatest depth of lists and mappings. -/
def depthLimit : Nat := 128

/-- The document that a node is. -/
def view (y : Yaml) : View := ⟨y.marked.reverse, 100 * y.size, depthLimit, y⟩

/-- The only document of a text; a text without any has an empty one. -/
def parse? (text : String) : Option View := ((tokens? text).bind Tree.document).map view

end EntityQuery.Yaml
