import EntityQuery.Json.Basic

/-!
# Settled documents

A document whose scalars have been read as what they look like, whichever format it was written in.

* `Settled`: a settled document; the keys of its mappings are documents too;
* `Settled.ofJson`, `Settled.json?`: JSON values are the settled documents whose keys are texts.
-/

namespace EntityQuery

/-- A document whose scalars have been read. -/
inductive Settled
  | null
  | bool (b : Bool)
  /-- A whole number without a minus sign. -/
  | nat (n : Nat)
  /-- A whole number behind a minus sign. -/
  | neg (i : Int)
  | float (x : Float)
  | text (s : String)
  | list (items : List Settled)
  | map (entries : List (Settled × Settled))

namespace Settled

instance : Inhabited Settled := ⟨.null⟩

/-- The document is this text. -/
def isText (s : String) : Settled → Bool
  | .text t => t = s
  | _ => false

/-- Nothing is listed: a list without items, or any mapping. -/
def isBare : Settled → Bool
  | .map _ => true
  | .list [] => true
  | _ => false

/-- The document of a number. -/
def ofNumber : Json.Number → Settled
  | .int i => if 0 ≤ i then .nat i.toNat else .neg i
  | .float x => .float x

mutual

/-- The document of a JSON value. -/
def ofJson : Json → Settled
  | .null => .null
  | .bool b => .bool b
  | .num n => ofNumber n
  | .str s => .text s
  | .arr items => .list (ofItems items)
  | .obj members => .map (ofMembers members)

/-- The documents of the items of an array. -/
def ofItems : List Json → List Settled
  | [] => []
  | j :: rest => ofJson j :: ofItems rest

/-- The documents of the members of an object. -/
def ofMembers : List (String × Json) → List (Settled × Settled)
  | [] => []
  | (k, j) :: rest => (.text k, ofJson j) :: ofMembers rest

end

mutual

/-- The JSON value of a document whose keys are texts. -/
def json? : Settled → Option Json
  | .null => some .null
  | .bool b => some (.bool b)
  | .nat n => some (.int n)
  | .neg i => some (.int i)
  | .float x => some (.num (.float x))
  | .text s => some (.str s)
  | .list items => (items? items).map .arr
  | .map entries => (members? entries).map .obj

/-- The JSON values of the items of a list. -/
def items? : List Settled → Option (List Json)
  | [] => some []
  | d :: rest =>
    match json? d, items? rest with
    | some j, some js => some (j :: js)
    | _, _ => none

/-- The members that the entries of a mapping stand for. -/
def members? : List (Settled × Settled) → Option (List (String × Json))
  | [] => some []
  | (.text k, d) :: rest =>
    match json? d, members? rest with
    | some j, some ms => some ((k, j) :: ms)
    | _, _ => none
  | _ => none

end

mutual

/-- A JSON value is read back from its document. -/
theorem json?_ofJson (j : Json) : json? (ofJson j) = some j := by
  cases j with
  | num n =>
    cases n with
    | float x => rfl
    | int i =>
      by_cases h : 0 ≤ i
      · simp [ofJson, ofNumber, h, json?, Int.toNat_of_nonneg h]
      · simp [ofJson, ofNumber, h, json?]
  | arr items => simp [ofJson, json?, items?_ofItems items]
  | obj members => simp [ofJson, json?, members?_ofMembers members]
  | _ => rfl

theorem items?_ofItems (js : List Json) : items? (ofItems js) = some js := by
  cases js with
  | nil => rfl
  | cons j rest => simp [ofItems, items?, json?_ofJson j, items?_ofItems rest]

theorem members?_ofMembers (ms : List (String × Json)) : members? (ofMembers ms) = some ms := by
  cases ms with
  | nil => rfl
  | cons m rest =>
    obtain ⟨k, j⟩ := m
    simp [ofMembers, members?, json?_ofJson j, members?_ofMembers rest]

end

end Settled

end EntityQuery
