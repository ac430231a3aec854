import EntityQuery.Yaml.Token

/-!
# YAML nodes

* `Yaml`: a node with its tags; a scalar keeps its text, since what it stands for depends on who
  asks;
* `Yaml.Scalar`: a scalar with its tag and the way in which it is written;
* `Yaml.marked`: the anchored nodes of a node; `Yaml.size`: the marks that it takes to write it.

Anchors are told apart by numbers.  Where several nodes have one number, the last of them is meant.
-/

namespace EntityQuery

/-- A scalar of a YAML text. -/
structure Yaml.Scalar where
  tag : Option String
  style : Yaml.Style
  text : String

/-- A YAML node. -/
inductive Yaml
  | scalar (s : Yaml.Scalar)
  | seq (tag : Option String) (items : List Yaml)
  | map (tag : Option String) (entries : List (Yaml × Yaml))
  | anchored (id : Nat) (node : Yaml)
  | reference (id : Nat)

namespace Yaml

/-- An empty node without a tag. -/
def nothing : Yaml := .scalar ⟨none, .plain, ""⟩

/-- The tag of the node without its anchor. -/
def tagOf? : Yaml → Option String
  | .scalar s => s.tag
  | .seq tag _ => tag
  | .map tag _ => tag
  | _ => none

/-- The node without its tag. -/
def untagged : Yaml → Yaml
  | .scalar s => .scalar { s with tag := none }
  | .seq _ items => .seq none items
  | .map _ entries => .map none entries
  | y => y

/-- The variant that a tag names: a tag of the document's own, without its exclamation mark unless
that is all of it. -/
def variantOf? (tag : Option String) : Option String :=
  match tag.map String.toList with
  | some ['!'] => some "!"
  | some ('!' :: cs) => some (String.ofList cs)
  | _ => none

mutual

/-- The anchored nodes, in the order of the text. -/
def marked : Yaml → List (Nat × Yaml)
  | .scalar _ => []
  | .seq _ items => markedItems items
  | .map _ entries => markedEntries entries
  | .anchored id y => (id, y) :: marked y
  | .reference _ => []

/-- The anchored nodes among the items of a list. -/
def markedItems : List Yaml → List (Nat × Yaml)
  | [] => []
  | y :: rest => marked y ++ markedItems rest

/-- The anchored nodes among the entries of a mapping. -/
def markedEntries : List (Yaml × Yaml) → List (Nat × Yaml)
  | [] => []
  | (k, y) :: rest => marked k ++ marked y ++ markedEntries rest

end

mutual

/-- The scalars and aliases, and the beginnings and the ends of lists and mappings. -/
def size : Yaml → Nat
  | .scalar _ => 1
  | .seq _ items => sizeItems items + 2
  | .map _ entries => sizeEntries entries + 2
  | .anchored _ y => size y
  | .reference _ => 1

/-- The size of the items of a list. -/
def sizeItems : List Yaml → Nat
  | [] => 0
  | y :: rest => size y + sizeItems rest

/-- The size of the entries of a mapping. -/
def sizeEntries : List (Yaml × Yaml) → Nat
  | [] => 0
  | (k, y) :: rest => size k + size y + sizeEntries rest

end

end Yaml

end EntityQuery
