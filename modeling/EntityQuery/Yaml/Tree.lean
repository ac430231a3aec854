import EntityQuery.Yaml.Basic

/-!
# Nodes of YAML tokens

* `Yaml.Tree`: reading from a list of tokens, with the anchors and the handles that are known;
* `Yaml.Tree.node`: the node at the head of the tokens;
* `Yaml.Tree.document`: the only document of the tokens.

Nodes are read with an explicit number of steps; each step takes a token or leads from a node to
the collection that it opens.
-/

namespace EntityQuery.Yaml

/-- The tokens that are left, and what the ones before have defined. -/
structure Tree.State where
  tokens : List Token
  /-- The numbers of the anchors. -/
  anchors : List (String × Nat)
  /-- What the handles of tags stand for. -/
  handles : List (String × String)

/-- Reading from tokens. -/
abbrev Tree := StateT Tree.State Option

namespace Tree

/-- The next token. -/
def peek : Tree (Option Token) := return (← get).tokens.head?

/-- Skips a token. -/
def skip : Tree Unit := modify fun s => { s with tokens := s.tokens.tail }

/-- A new number for an anchor: that of the names that were known before. -/
def define (name : String) : Tree Nat := do
  let s ← get
  let id := s.anchors.length
  set { s with anchors := (name, id) :: s.anchors.filter (·.1 ≠ name) }
  return id

/-- The number of an anchor that is known. -/
def lookUp (name : String) : Tree Nat := do
  match (← get).anchors.find? (·.1 = name) with
  | some a => return a.2
  | none => failure

/-- The tag of a handle that is known. -/
def resolve (handle suffix : String) : Tree String := do
  if handle = "" then return suffix
  match (← get).handles.find? (·.1 = handle) with
  | some h => return h.2 ++ suffix
  | none => failure

/-- The number of the anchor that comes next. -/
def anchor : Tree (Option Nat) := do
  match ← peek with
  | some (.anchor name) =>
    skip
    return some (← define name)
  | _ => return none

/-- The tag that comes next. -/
def tag : Tree (Option String) := do
  match ← peek with
  | some (.tag handle suffix) =>
    skip
    return some (← resolve handle suffix)
  | _ => return none

/-- The anchor and the tag in front of a node, in either order. -/
def properties : Tree (Option Nat × Option String) := do
  match ← anchor with
  | some id => return (some id, ← tag)
  | none =>
    match ← tag with
    | some t => return (← anchor, some t)
    | none => return (none, none)

/-- A lone exclamation mark says nothing of a scalar. -/
def scalarTag (tag : Option String) : Option String := tag.filter (· ≠ "!")

mutual

/-- A node.  Outside of brackets it may be an indented collection, and as part of a mapping a list
at the indentation of that mapping. -/
def node : Nat → Bool → Bool → Tree Yaml
  | 0, _, _ => failure
  | n + 1, inBlock, inMapping => do
    match ← peek with
    | some (.reference name) =>
      skip
      return .reference (← lookUp name)
    | _ =>
      let (id, tag) ← properties
      let y ← content n inBlock inMapping id.isSome tag
      return id.elim y (.anchored · y)

/-- A node behind its anchor and its tag; one that has either may be empty. -/
def content : Nat → Bool → Bool → Bool → Option String → Tree Yaml
  | 0, _, _, _, _ => failure
  | n + 1, inBlock, inMapping, isAnchored, tag => do
    match ← peek with
    | some (.scalar style text) =>
      skip
      return .scalar ⟨scalarTag tag, style, text⟩
    | some .flowSeqStart =>
      skip
      return .seq tag (← flowItems n true)
    | some .flowMapStart =>
      skip
      return .map tag (← flowEntries n true)
    | some .blockSeqStart =>
      if inBlock then
        skip
        return .seq tag (← blockItems n)
      else empty? isAnchored tag
    | some .blockMapStart =>
      if inBlock then
        skip
        return .map tag (← blockEntries n)
      else empty? isAnchored tag
    | some .blockEntry =>
      if inMapping then return .seq tag (← dashedItems n) else empty? isAnchored tag
    | _ => empty? isAnchored tag
where
  /-- An empty node, which has an anchor or a tag. -/
  empty? (isAnchored : Bool) (tag : Option String) : Tree Yaml :=
    if isAnchored || tag.isSome then return .scalar ⟨tag, .plain, ""⟩ else failure

/-- The items of an indented list. -/
def blockItems : Nat → Tree (List Yaml)
  | 0 => failure
  | n + 1 => do
    match ← peek with
    | some .blockEntry =>
      skip
      let y ← match ← peek with
        | some .blockEntry => pure nothing
        | some .blockEnd => pure nothing
        | _ => node n true false
      return y :: (← blockItems n)
    | some .blockEnd =>
      skip
      return []
    | _ => failure

/-- The items of a list at the indentation of its mapping. -/
def dashedItems : Nat → Tree (List Yaml)
  | 0 => failure
  | n + 1 => do
    match ← peek with
    | some .blockEntry =>
      skip
      let y ← match ← peek with
        | some .blockEntry => pure nothing
        | some .key => pure nothing
        | some .value => pure nothing
        | some .blockEnd => pure nothing
        | _ => node n true false
      return y :: (← dashedItems n)
    | _ => return []

/-- The entries of an indented mapping. -/
def blockEntries : Nat → Tree (List (Yaml × Yaml))
  | 0 => failure
  | n + 1 => do
    match ← peek with
    | some .key =>
      skip
      let k ← blockPart n
      let y ← match ← peek with
        | some .value =>
          skip
          blockPart n
        | _ => pure nothing
      return (k, y) :: (← blockEntries n)
    | some .blockEnd =>
      skip
      return []
    | _ => failure

/-- A key or a value of an indented mapping. -/
def blockPart : Nat → Tree Yaml
  | 0 => failure
  | n + 1 => do
    match ← peek with
    | some .key => return nothing
    | some .value => return nothing
    | some .blockEnd => return nothing
    | _ => node n true true

/-- The items up to the closing bracket; behind the first one a comma comes before each.  A pair
among them is a mapping of one entry. -/
def flowItems : Nat → Bool → Tree (List Yaml)
  | 0, _ => failure
  | n + 1, first => do
    match ← peek with
    | some .flowSeqEnd =>
      skip
      return []
    | t =>
      if !first then
        match t with
        | some .flowEntry => skip
        | _ => failure
      match ← peek with
      | some .flowSeqEnd =>
        skip
        return []
      | some .key =>
        skip
        let pair ← flowPair n
        return .map none [pair] :: (← flowItems n false)
      | _ =>
        let y ← node n false false
        return y :: (← flowItems n false)

/-- A pair among the items of a list.  What follows an empty key is taken for its colon. -/
def flowPair : Nat → Tree (Yaml × Yaml)
  | 0 => failure
  | n + 1 => do
    let k ← match ← peek with
      | some .value =>
        skip
        pure nothing
      | some .flowEntry =>
        skip
        pure nothing
      | some .flowSeqEnd =>
        skip
        pure nothing
      | _ => node n false false
    return (k, ← flowValue n .flowSeqEnd)

/-- The value behind a colon, or nothing. -/
def flowValue : Nat → Token → Tree Yaml
  | 0, _ => failure
  | n + 1, closing => do
    match ← peek with
    | some .value =>
      skip
      match closing, ← peek with
      | _, some .flowEntry => return nothing
      | .flowSeqEnd, some .flowSeqEnd => return nothing
      | .flowMapEnd, some .flowMapEnd => return nothing
      | _, _ => node n false false
    | _ => return nothing

/-- The entries up to the closing bracket; behind the first one a comma comes before each. -/
def flowEntries : Nat → Bool → Tree (List (Yaml × Yaml))
  | 0, _ => failure
  | n + 1, first => do
    match ← peek with
    | some .flowMapEnd =>
      skip
      return []
    | t =>
      if !first then
        match t with
        | some .flowEntry => skip
        | _ => failure
      match ← peek with
      | some .flowMapEnd =>
        skip
        return []
      | some .key =>
        skip
        let k ← match ← peek with
          | some .value => pure nothing
          | some .flowEntry => pure nothing
          | some .flowMapEnd => pure nothing
          | _ => node n false false
        let y ← flowValue n .flowMapEnd
        return (k, y) :: (← flowEntries n false)
      | _ =>
        let k ← node n false false
        return (k, nothing) :: (← flowEntries n false)

end

/-! ### Documents -/

/-- The directives in front of a document: the version at most once, and each handle at most once.
They give what the handles stand for. -/
def directives (hasVersion : Bool) (handles : List (String × String)) :
    List Token → Option (List (String × String) × List Token)
  | .directive (.version major minor) :: rest =>
    if !hasVersion && major = 1 && (minor = 1 || minor = 2) then directives true handles rest
    else none
  | .directive (.handle h lead) :: rest =>
    if handles.any (·.1 = h) then none else directives hasVersion (handles ++ [(h, lead)]) rest
  | rest => some (handles, rest)

/-- What the handles stand for when nothing else is said. -/
def defaultHandles : List (String × String) := [("!", "!"), ("!!", "tag:yaml.org,2002:")]

/-- The tokens begin with directives or with the mark of a document. -/
def isExplicit : List Token → Bool
  | .directive _ :: _ => true
  | .documentStart :: _ => true
  | _ => false

/-- Nothing of a document comes next. -/
def isEmptyDocument : List Token → Bool
  | [] => true
  | .documentEnd :: _ => true
  | rest => isExplicit rest

/-- The tokens of the marks behind a document. -/
def isDocumentEnd : Token → Bool
  | .documentEnd => true
  | _ => false

/-- The node of a document, of which nothing but closing marks is left behind. -/
def body (handles : List (String × String)) (tokens : List Token) : Option Yaml :=
  let state : State := ⟨tokens, [], handles ++ defaultHandles⟩
  match (node (3 * tokens.length + 3) true false).run state with
  | some (y, s) => if (s.tokens.dropWhile isDocumentEnd).isEmpty then some y else none
  | none => none

/-- The only document of the tokens; without any it is empty. -/
def document (tokens : List Token) : Option Yaml :=
  if tokens.isEmpty then some nothing
  else if isExplicit tokens then
    match directives false [] tokens with
    | some (handles, .documentStart :: rest) =>
      if isEmptyDocument rest then
        if (rest.dropWhile isDocumentEnd).isEmpty then some nothing else none
      else body handles rest
    | _ => none
  else body [] tokens

end Tree

end EntityQuery.Yaml
