import EntityQuery.Config
import EntityQuery.Plan.Error
import EntityQuery.Predicate

/-!
# Ids

An id is given as it is stored, or behind the tag of its entity and a colon.

* `splitTag?`: the tag and the rest of a text;
* `Entity.parseId`: the stored form of an id;
* `Predicate.forId`: a predicate on a column of ids, its operands in stored form.
-/

namespace EntityQuery

/-- The characters before and behind the first colon. -/
def splitColon? : List Char → Option (List Char × List Char)
  | [] => none
  | c :: rest =>
    if c = ':' then some ([], rest) else (splitColon? rest).map fun r => (c :: r.1, r.2)

/-- The tag and the rest of an id that has a tag. -/
def splitTag? (s : String) : Option (String × String) :=
  (splitColon? s.toList).map fun r => (String.ofList r.1, String.ofList r.2)

/-- The name of an id type in messages. -/
def IdType.label : IdType → String
  | .int => "Int"
  | .uuid => "Uuid"
  | .untaggedString => "UntaggedString"

/-- A value that is no id of an entity, and why. -/
def invalidId (v : Value) (reason : String) : Except PlanError α :=
  .error (.invalidId v.display reason)

/-- The stored form of an id of the given type, its tag removed; `v` is the id as it was given.  What is
wrong with a text that is no uuid is not told: `<uuid>` stands for the message. -/
def parseUntagged (idType : IdType) (v : Value) (s : String) : Except PlanError Value :=
  match idType with
  | .int =>
    match Integer.parse64 s with
    | .ok i => .ok (.int i)
    | .error e => invalidId v e.message
  | _ =>
    match Uuid.parse? s with
    | some u => .ok (.text u.text)
    | none => invalidId v "<uuid>"

namespace Entity

/-- The id without the entity's tag. -/
def untag (e : Entity) (v : Value) (s : String) : Except PlanError String :=
  match splitTag? s with
  | none => .ok s
  | some (tag, rest) =>
    if tag = e.tag then .ok rest
    else invalidId v
      ("tag `" ++ tag ++ "` does not match " ++ e.typeName ++ " (`" ++ e.tag ++ "`)")

/-- The stored form of an id of the entity; a reference to an unsaved entity is the nil id. -/
def parseId (e : Entity) (nil : NilIds) (v : Value) : Except PlanError Value :=
  match v, e.idType with
  | .null, _ => .ok .null
  | .newEntity _, idType => .ok (nil.forType idType)
  | .int i, .int => .ok (.int i)
  | .int i, .untaggedString => .ok (.text (toString i.toInt))
  | .text s, .untaggedString => .ok (.text s)
  | .text s, idType => do parseUntagged idType v (← e.untag v s)
  | v, idType => invalidId v ("not a valid " ++ idType.label ++ " id")

end Entity

/-- The predicate on a column of ids of an entity, before null is told apart. -/
def Predicate.mapId (e : Entity) (nil : NilIds) (columnText : String) :
    Predicate → Except PlanError Predicate
  | .compare op v => do return .compare op (← e.parseId nil v)
  | .isIn vs => do return .isIn (← vs.mapM (e.parseId nil))
  | .notIn vs => do return .notIn (← vs.mapM (e.parseId nil))
  | .between low high => do return .between (← e.parseId nil low) (← e.parseId nil high)
  | .isNull => .ok .isNull
  | .notNull => .ok .notNull
  | p => .error (.unsupportedPredicate p.kind columnText)

/-- The predicate on a column of ids of an entity, its operands in stored form. -/
def Predicate.forId (e : Entity) (nil : NilIds) (columnText : String) (p : Predicate) :
    Except PlanError Predicate := (p.mapId e nil columnText).map Predicate.normalize

end EntityQuery
