import EntityQuery.Proofs.Precedence.Text
import EntityQuery.Proofs.Rendering.Erasure
import EntityQuery.Proofs.Rendering.Throughout

/-!
# Placeholders and bindings

The question marks in the text of a plan are its placeholders, and the first one is the place of the
first binding, and so on: when each is replaced by its value, the text is the one of the plan with the
values written where they belong.

* `filled?`: a text with its question marks replaced, from left to right, and `isSome_filled?_iff`;
* `Plan.inlined`: a plan with its operands written out;
* `Plan.Balanced`: a plan whose names have no question marks, and whose fragments have one for each of
  their bindings;
* `Filled`: pieces that become others when their placeholders are replaced;
* `Plan.filled_render`: the text of a plan in which nothing is asked of a path.
-/

namespace EntityQuery

/-! ### Texts with placeholders -/

/-- The text with its question marks replaced, from left to right, if there is one for each. -/
def filled? : List Char → List String → Option (List Char)
  | [], [] => some []
  | [], _ :: _ => none
  | '?' :: _, [] => none
  | '?' :: cs, t :: ts => (filled? cs ts).map (t.toList ++ ·)
  | c :: cs, ts => (filled? cs ts).map (c :: ·)

/-- The text has no question mark. -/
def Unmarked (s : String) : Prop := '?' ∉ s.toList

section

variable {cs cs' out out' : List Char} {ts ts' : List String} {c : Char}

theorem filled?_cons_of_ne (h : c ≠ '?') : filled? (c :: cs) ts = (filled? cs ts).map (c :: ·) := by
  rw [filled?] <;> intros <;> contradiction

theorem filled?_append (h : filled? cs ts = some out) (h' : filled? cs' ts' = some out') :
    filled? (cs ++ cs') (ts ++ ts') = some (out ++ out') := by
  induction cs generalizing ts out with
  | nil =>
    cases ts with
    | nil =>
      obtain rfl := Option.some.inj h
      exact h'
    | cons t ts => cases h
  | cons c cs ih =>
    by_cases hc : c = '?'
    · subst hc
      cases ts with
      | nil => cases h
      | cons t ts =>
        obtain ⟨rest, hrest, rfl⟩ := Option.map_eq_some_iff.1 h
        show (filled? (cs ++ cs') (ts ++ ts')).map _ = _
        rw [ih hrest, Option.map_some, List.append_assoc]
    · rw [filled?_cons_of_ne hc] at h
      obtain ⟨rest, hrest, rfl⟩ := Option.map_eq_some_iff.1 h
      rw [List.cons_append, filled?_cons_of_ne hc, ih hrest]
      rfl

theorem filled?_of_not_mem (h : '?' ∉ cs) : filled? cs [] = some cs := by
  induction cs with
  | nil => rfl
  | cons c cs ih =>
    rw [List.mem_cons, not_or] at h
    rw [filled?_cons_of_ne (Ne.symm h.1), ih h.2]
    rfl

/-- Replacing succeeds if there are as many texts as question marks. -/
theorem isSome_filled?_iff : (filled? cs ts).isSome = true ↔ cs.count '?' = ts.length := by
  induction cs generalizing ts with
  | nil => cases ts <;> simp [filled?]
  | cons c cs ih =>
    by_cases hc : c = '?'
    · subst hc
      cases ts with
      | nil => simp [filled?]
      | cons t ts => simp [filled?, ih]
    · rw [filled?_cons_of_ne hc, Option.isSome_map, ih, List.count_cons_of_ne hc]

end

/-! ### Operands written out -/

/-- The fragment with its values in the places of its question marks. -/
def fragmentText (lit : Value → String) (sql : String) (bindings : List Value) : String :=
  match filled? sql.toList (bindings.map lit) with
  | some cs => String.ofList cs
  | none => sql

/-- The predicate on the column, with its operands written out. -/
def Predicate.spelled (lit : Value → String) (column : String) : Predicate → String
  | .compare op v => column ++ " " ++ op.sql ++ " " ++ lit v
  | .isIn [] => "FALSE"
  | .isIn vs => column ++ " IN (" ++ ", ".intercalate (vs.map lit) ++ ")"
  | .notIn [] => "TRUE"
  | .notIn vs => column ++ " NOT IN (" ++ ", ".intercalate (vs.map lit) ++ ")"
  | .between low high => column ++ " BETWEEN " ++ lit low ++ " AND " ++ lit high
  | .isNull => column ++ " IS NULL"
  | .notNull => column ++ " IS NOT NULL"
  | .pattern op s => column ++ " " ++ op.sql ++ " " ++ lit (.text s)
  | .containment op vs => column ++ " " ++ op.sql ++ " " ++ lit (.array vs)

/-- The predicate as a fragment. -/
def ColumnCondition.inlined (lit : Value → String) (c : ColumnCondition) : RawCondition :=
  ⟨[c.aliasName], c.predicate.spelled lit c.columnText, [], c.pruneable⟩

def RawCondition.inlined (lit : Value → String) (r : RawCondition) : RawCondition :=
  { r with sql := fragmentText lit r.sql r.bindings, bindings := [] }

def Cte.inlined (lit : Value → String) (c : Cte) : Cte :=
  { c with sql := fragmentText lit c.sql c.bindings, bindings := [] }

mutual

/-- The plan with its operands and those of the plans inside it written out. -/
def Plan.inlined (lit : Value → String) : Plan → Plan
  | ⟨selects, tables, condition, sortKeys, groupBys, ctes⟩ =>
    ⟨Select.inlinedAll lit selects, Table.inlinedAll lit tables, Group.inlinedTop lit condition,
      sortKeys, groupBys, ctes.map (·.map (Cte.inlined lit))⟩

def Select.inlinedAll (lit : Value → String) : List Select → List Select
  | [] => []
  | s :: rest => s.inlined lit :: Select.inlinedAll lit rest

def Select.inlined (lit : Value → String) : Select → Select
  | .boolOr condition name => .boolOr (condition.inlined lit) name
  | s => s

def Table.inlinedAll (lit : Value → String) : List Table → List Table
  | [] => []
  | t :: rest => t.inlined lit :: Table.inlinedAll lit rest

def Table.inlined (lit : Value → String) : Table → Table
  | .lateral aliasName fromAlias query => .lateral aliasName fromAlias (query.inlined lit)
  | t => t

def Group.inlinedTop (lit : Value → String) : Option Group → Option Group
  | none => none
  | some g => some (g.inlined lit)

def Group.inlined (lit : Value → String) : Group → Group
  | ⟨op, conditions⟩ => ⟨op, Condition.inlinedAll lit conditions⟩

def Condition.inlinedAll (lit : Value → String) : List Condition → List Condition
  | [] => []
  | c :: rest => c.inlined lit :: Condition.inlinedAll lit rest

def Condition.inlined (lit : Value → String) : Condition → Condition
  | .group g => .group (g.inlined lit)
  | .column c => .raw (c.inlined lit)
  | .raw r => .raw (r.inlined lit)
  | .existence query negate outerAliases => .existence (query.inlined lit) negate outerAliases

end

/-! ### Plans whose question marks are placeholders -/

def ColumnRef.Unmarked (c : ColumnRef) : Prop :=
  EntityQuery.Unmarked c.aliasName ∧ EntityQuery.Unmarked c.column

/-- The text has a question mark for each of the values. -/
def BoundBy (bindings : List Value) (sql : String) : Prop :=
  sql.toList.count '?' = bindings.length

mutual

/-- The names in the plan and in the plans inside it have no question marks, and its fragments and
named queries have one for each value that they bind. -/
def Plan.Balanced : Plan → Prop
  | ⟨selects, tables, condition, sortKeys, groupBys, ctes⟩ =>
    Select.AllBalanced selects ∧ Table.AllBalanced tables ∧ Group.TopBalanced condition ∧
      (∀ k ∈ sortKeys, Unmarked k.aliasName ∧ Unmarked k.column) ∧
      (∀ c ∈ groupBys.getD [], c.Unmarked) ∧
      ∀ c ∈ ctes.getD [], Unmarked c.aliasName ∧ BoundBy c.bindings c.sql

def Table.AllBalanced : List Table → Prop
  | [] => True
  | t :: rest => t.Balanced ∧ Table.AllBalanced rest

def Table.Balanced : Table → Prop
  | .primary aliasName table => Unmarked aliasName ∧ Unmarked table
  | .join j => Unmarked j.aliasName ∧ Unmarked j.table ∧ j.parent.Unmarked ∧ j.own.Unmarked
  | .cross aliasName table => Unmarked aliasName ∧ Unmarked table
  | .lateral aliasName _ query => Unmarked aliasName ∧ query.Balanced

def Select.AllBalanced : List Select → Prop
  | [] => True
  | s :: rest => s.Balanced ∧ Select.AllBalanced rest

def Select.Balanced : Select → Prop
  | .star aliasName => Unmarked aliasName
  | .column c name => c.Unmarked ∧ ∀ n ∈ name, Unmarked n
  | .discriminator cases defaultType name =>
    (∀ c ∈ cases, Unmarked c.aliasName ∧ Unmarked c.typeName) ∧ Unmarked defaultType ∧ Unmarked name
  | .boolOr condition name => condition.Balanced ∧ Unmarked name
  | .countIsZero name => Unmarked name
  | .raw sql _ name => Unmarked sql ∧ ∀ n ∈ name, Unmarked n

def Group.TopBalanced : Option Group → Prop
  | none => True
  | some g => g.Balanced

def Group.Balanced : Group → Prop
  | ⟨_, conditions⟩ => Condition.AllBalanced conditions

def Condition.AllBalanced : List Condition → Prop
  | [] => True
  | c :: rest => c.Balanced ∧ Condition.AllBalanced rest

def Condition.Balanced : Condition → Prop
  | .group g => g.Balanced
  | .column c => Unmarked c.aliasName ∧ Unmarked c.column
  | .raw r => BoundBy r.bindings r.sql
  | .existence query _ _ => query.Balanced

end

/-! ### Texts without placeholders -/

namespace Unmarked

variable {s s' name : String}

instance : Decidable (Unmarked s) := inferInstanceAs (Decidable ('?' ∉ s.toList))

theorem append (h : Unmarked s) (h' : Unmarked s') : Unmarked (s ++ s') := by
  rw [Unmarked, String.toList_append, List.mem_append, not_or]
  exact ⟨h, h'⟩

theorem intercalate {texts : List String} (hs : Unmarked s) (h : ∀ t ∈ texts, Unmarked t) :
    Unmarked (s.intercalate texts) := by
  induction texts with
  | nil => exact show Unmarked "" by decide
  | cons t texts ih =>
    obtain ⟨ht, htexts⟩ := List.forall_mem_cons.1 h
    cases texts with
    | nil => exact ht
    | cons t' texts =>
      rw [String.intercalate_cons_cons]
      exact (ht.append hs).append (ih htexts)

theorem dotted (h : Unmarked s) (h' : Unmarked s') : Unmarked (s ++ "." ++ s') :=
  (h.append (by decide)).append h'

theorem columnRef {c : ColumnRef} (h : c.Unmarked) : Unmarked c.text := h.1.dotted h.2

theorem named {name : Option String} (h : Unmarked s) (hname : ∀ n ∈ name, Unmarked n) :
    Unmarked (named name s) := by
  cases name with
  | none => exact h
  | some name => exact (h.append (by decide)).append (hname name rfl)

theorem tableText {table aliasName : String} (htable : Unmarked table) (halias : Unmarked aliasName) :
    Unmarked (tableText table aliasName) :=
  ((append (by decide) htable).append (by decide)).append halias

theorem join {j : Join} (h : (Table.join j).Balanced) : Unmarked j.text := by
  obtain ⟨halias, htable, hparent, hown⟩ := h
  unfold Join.text
  refine ((((append ?_ (htable.tableText halias)).append (by decide)).append
    (columnRef hparent)).append (by decide)).append (columnRef hown)
  cases j.kind <;> decide

theorem discriminator {cases : List DiscriminatorCase} {defaultType : String}
    (hcases : ∀ c ∈ cases, Unmarked c.aliasName ∧ Unmarked c.typeName)
    (hdefault : Unmarked defaultType) (hname : Unmarked name) :
    Unmarked (discriminatorText cases defaultType name) := by
  have hwhens : Unmarked (" ".intercalate (cases.map fun c =>
      "WHEN " ++ c.aliasName ++ ".id IS NOT NULL THEN '" ++ c.typeName ++ "'")) := by
    refine intercalate (by decide) fun text htext => ?_
    obtain ⟨c, hc, rfl⟩ := List.mem_map.1 htext
    obtain ⟨halias, htype⟩ := hcases c hc
    exact (((append (by decide) halias).append (by decide)).append htype).append (by decide)
  exact ((((append (by decide) hwhens).append (by decide)).append hdefault).append
    (by decide)).append hname

end Unmarked

/-! ### Pieces with their placeholders replaced -/

/-- The first pieces become the others, which bind nothing, when the values that they bind are put in
the places of their placeholders. -/
structure Filled (lit : Value → String) (ps qs : List Piece) : Prop where
  filled : filled? (lettersOf ps) ((ps.flatMap Piece.bindings).map lit) = some (lettersOf qs)
  unbound : qs.flatMap Piece.bindings = []

namespace Filled

variable {lit : Value → String} {ps qs ps' qs' : List Piece} {pss qss : List (List Piece)} {s : String}

theorem nil : Filled lit [] [] := ⟨rfl, rfl⟩

theorem append (h : Filled lit ps qs) (h' : Filled lit ps' qs') :
    Filled lit (ps ++ ps') (qs ++ qs') where
  filled := by
    rw [lettersOf_append, lettersOf_append, List.flatMap_append, List.map_append]
    exact filled?_append h.filled h'.filled
  unbound := by rw [List.flatMap_append, h.unbound, h'.unbound, List.append_nil]

theorem text (hs : Unmarked s) : Filled lit [.text s] [.text s] :=
  ⟨by simpa [lettersOf, Piece.bindings] using filled?_of_not_mem hs, rfl⟩

theorem text_append (hs : Unmarked s) (h : Filled lit ps qs) :
    Filled lit (.text s :: ps) (.text s :: qs) := (text hs).append h

theorem append_text (hs : Unmarked s) (h : Filled lit ps qs) :
    Filled lit (ps ++ [.text s]) (qs ++ [.text s]) := h.append (text hs)

theorem operand (v : Value) : Filled lit [.operand v] [.text (lit v)] :=
  ⟨by simp [lettersOf, Piece.written, Piece.bindings, filled?], rfl⟩

theorem fragment {bindings : List Value} (h : BoundBy bindings s) :
    Filled lit [.fragment s bindings] [.fragment (fragmentText lit s bindings) []] := by
  obtain ⟨out, hout⟩ : ∃ out, filled? s.toList (bindings.map lit) = some out :=
    Option.isSome_iff_exists.1 (isSome_filled?_iff.2 (by rw [List.length_map]; exact h))
  exact ⟨by simp [lettersOf, Piece.written, Piece.bindings, fragmentText, hout], rfl⟩

/-- Only the text of the pieces matters that bind nothing. -/
theorem congr (h : Filled lit ps qs) (htext : lettersOf qs = lettersOf qs')
    (hbound : qs'.flatMap Piece.bindings = []) : Filled lit ps qs' :=
  ⟨htext ▸ h.filled, hbound⟩

theorem separated (hs : Unmarked s) (h : List.Forall₂ (Filled lit) pss qss) :
    Filled lit (separated s pss) (separated s qss) := by
  induction h with
  | nil => exact .nil
  | cons h h' ih =>
    cases h' with
    | nil => exact h
    | cons => exact h.append (ih.text_append hs)

/-- Another text may stand in the place of nothing. -/
theorem separated_or {empty : String} (hs : Unmarked s) (hempty : Unmarked empty)
    (h : List.Forall₂ (Filled lit) pss qss) :
    Filled lit (if pss.isEmpty then [.text empty] else EntityQuery.separated s pss)
      (if qss.isEmpty then [.text empty] else EntityQuery.separated s qss) := by
  cases h with
  | nil => exact text hempty
  | cons h h' => exact separated hs (.cons h h')

end Filled

/-- Where the first step succeeds, the other one does, and the results are related. -/
def Matched {ε α β : Type} (R : α → β → Prop) (x : Except ε α) (y : Except ε β) : Prop :=
  ∀ a, x = .ok a → ∃ b, y = .ok b ∧ R a b

namespace Matched

variable {ε α β α' β' : Type} {R : α → β → Prop} {S : α' → β' → Prop} {x : Except ε α} {y : Except ε β}
  {f : α → Except ε α'} {g : β → Except ε β'}

theorem ok {a : α} {b : β} (h : R a b) : Matched (ε := ε) R (.ok a) (.ok b) := by
  intro a' ha'
  obtain rfl := Except.ok.inj ha'
  exact ⟨b, rfl, h⟩

theorem bind (h : Matched R x y) (hfg : ∀ a b, R a b → Matched S (f a) (g b)) :
    Matched S (x >>= f) (y >>= g) := by
  intro a' ha'
  obtain ⟨a, ha, ha'⟩ := exists_of_bind_eq_ok ha'
  obtain ⟨b, hb, hR⟩ := h a ha
  obtain ⟨b', hb', hS⟩ := hfg a b hR a' ha'
  exact ⟨b', by rw [hb]; exact hb', hS⟩

end Matched

/-! ### Predicates -/

theorem lettersOf_separated {s : String} {texts : List String} :
    lettersOf (separated s (texts.map fun t => [.text t])) = (s.intercalate texts).toList := by
  induction texts with
  | nil => rfl
  | cons t texts ih =>
    cases texts with
    | nil => simp [separated, lettersOf]
    | cons t' texts =>
      rw [String.intercalate_cons_cons, String.toList_append, String.toList_append, ← ih]
      simp [separated, lettersOf]

namespace ColumnCondition

variable {lit : Value → String} {c : ColumnCondition} {ts : List Token} {v : Value} {p : Piece}

theorem eq_operand (h : c.operand v = .ok p) : p = .operand v := by
  unfold operand at h
  split at h
  · cases h
  · exact (Except.ok.inj h).symm

/-- The predicate does not ask whether there is something at a path. -/
def AsksNoPath (c : ColumnCondition) : Prop := ∀ s, c.predicate ≠ .pattern .pathExists s

/-- The pieces become the text. -/
def FilledAs (lit : Value → String) (ts : List Token) (sql : String) : Prop :=
  Filled lit (ts.flatMap Token.pieces) [.fragment sql []]

theorem filledAs_binary {op : String} (hc : Unmarked c.columnText) (hop : Unmarked op)
    (h : c.binary op v = .ok ts) :
    FilledAs lit ts (c.columnText ++ " " ++ op ++ " " ++ lit v) := by
  obtain ⟨p, hp, h⟩ := exists_of_bind_eq_ok h
  obtain rfl := Except.ok.inj h
  obtain rfl := eq_operand hp
  have htext : Unmarked (c.columnText ++ " " ++ op ++ " ") :=
    ((hc.append (by decide)).append hop).append (by decide)
  exact ((Filled.operand v).text_append htext).congr (by simp [lettersOf, Piece.written]) rfl

theorem filledAs_membership {op call : String} {empty : Bool} {vs : List Value}
    (hc : Unmarked c.columnText) (hop : Unmarked op) (hcall : call = " " ++ op ++ " (")
    (h : c.membership op empty (v :: vs) = .ok ts) :
    FilledAs lit ts (c.columnText ++ call ++ ", ".intercalate ((v :: vs).map lit) ++ ")") := by
  obtain ⟨operands, hoperands, h⟩ := exists_of_bind_eq_ok h
  obtain rfl := Except.ok.inj h
  have hall : List.Forall₂ (Filled lit) (operands.map fun p => [p])
      (((v :: vs).map lit).map fun t => [.text t]) := by
    rw [List.forall₂_map_left_iff, List.forall₂_map_right_iff, List.forall₂_map_right_iff]
    refine (forall₂_of_mapM_eq_ok hoperands).flip.imp fun p w hw => ?_
    obtain rfl := eq_operand hw
    exact .operand w
  have htext : Unmarked (c.columnText ++ " " ++ op ++ " (") :=
    ((hc.append (by decide)).append hop).append (by decide)
  have hcomma : Unmarked ", " := by decide
  have hclosing : Unmarked ")" := by decide
  have hlist := ((Filled.separated hcomma hall).text_append htext).append_text hclosing
  refine Filled.congr (by rwa [List.flatMap_singleton]) ?_ rfl
  rw [lettersOf_append, lettersOf_cons, lettersOf_separated, hcall]
  simp [lettersOf, Piece.written]

/-- A predicate is written as it is with its operands written out, unless its operator has a question
mark. -/
theorem filledAs_tokens (halias : Unmarked c.aliasName) (hcolumn : Unmarked c.column)
    (hpath : c.AsksNoPath) (h : c.tokens = .ok ts) :
    FilledAs lit ts (c.predicate.spelled lit c.columnText) := by
  have hc : Unmarked c.columnText := halias.dotted hcolumn
  unfold tokens at h
  cases hp : c.predicate with
  | compare op v =>
    rw [hp] at h
    exact filledAs_binary hc (by cases op <;> decide) h
  | isIn vs =>
    rw [hp] at h
    cases vs with
    | nil =>
      obtain rfl := Except.ok.inj h
      exact (Filled.text (show Unmarked "FALSE" by decide)).congr rfl rfl
    | cons v vs => exact filledAs_membership hc (show Unmarked "IN" by decide) rfl h
  | notIn vs =>
    rw [hp] at h
    cases vs with
    | nil =>
      obtain rfl := Except.ok.inj h
      exact (Filled.text (show Unmarked "TRUE" by decide)).congr rfl rfl
    | cons v vs => exact filledAs_membership hc (show Unmarked "NOT IN" by decide) rfl h
  | between low high =>
    rw [hp] at h
    obtain ⟨p, hlow, h⟩ := exists_of_bind_eq_ok h
    obtain ⟨q, hhigh, h⟩ := exists_of_bind_eq_ok h
    obtain rfl := Except.ok.inj h
    obtain rfl := eq_operand hlow
    obtain rfl := eq_operand hhigh
    have hand : Unmarked " AND " := by decide
    refine Filled.congr (((Filled.operand low).append ((Filled.operand high).text_append
      hand)).text_append (hc.append (show Unmarked " BETWEEN " by decide))) ?_ rfl
    simp [lettersOf, Piece.written, Predicate.spelled]
  | isNull =>
    rw [hp] at h
    obtain rfl := Except.ok.inj h
    exact (Filled.text (hc.append (by decide))).congr rfl rfl
  | notNull =>
    rw [hp] at h
    obtain rfl := Except.ok.inj h
    exact (Filled.text (hc.append (by decide))).congr rfl rfl
  | pattern op s =>
    rw [hp] at h
    -- the other operators on texts have no question mark
    have hop : op ≠ .pathExists := fun he => hpath s (he ▸ hp)
    exact filledAs_binary hc (by cases op <;> first | decide | exact absurd rfl hop) h
  | containment op vs =>
    rw [hp] at h
    exact filledAs_binary hc (by cases op <;> decide) h

end ColumnCondition

/-! ### Plans -/

/-- No predicate of the plan asks for a path, since that operator has a question mark. -/
def Plan.Pathless (p : Plan) : Prop := p.Throughout (fun _ => True) ColumnCondition.AsksNoPath

theorem Table.allBalanced_iff {ts : List Table} : Table.AllBalanced ts ↔ ∀ t ∈ ts, t.Balanced := by
  induction ts with
  | nil => simp [Table.AllBalanced]
  | cons t ts ih => simp [Table.AllBalanced, ih]

/-- The primary table has no operands. -/
theorem Table.find?_isPrimary_inlinedAll {lit : Value → String} : ∀ ts : List Table,
    (Table.inlinedAll lit ts).find? Table.isPrimary = ts.find? Table.isPrimary
  | [] => rfl
  | t :: ts => by
    rw [Table.inlinedAll]
    cases t with
    | primary a table => rfl
    | _ => exact Table.find?_isPrimary_inlinedAll ts

namespace Filled

variable {lit : Value → String}

theorem ctePieces {ctes : Option (List Cte)}
    (h : ∀ c ∈ ctes.getD [], Unmarked c.aliasName ∧ BoundBy c.bindings c.sql) :
    Filled lit (Cte.piecesOf ctes) (Cte.piecesOf (ctes.map (·.map (Cte.inlined lit)))) := by
  have hall : ∀ cs : List Cte, (∀ c ∈ cs, Unmarked c.aliasName ∧ BoundBy c.bindings c.sql) →
      List.Forall₂ (Filled lit)
        (cs.map fun c => [.text (c.aliasName ++ " AS ("), .fragment c.sql c.bindings, .text ")"])
        ((cs.map (Cte.inlined lit)).map fun c =>
          [.text (c.aliasName ++ " AS ("), .fragment c.sql c.bindings, .text ")"]) := by
    intro cs hcs
    rw [List.forall₂_map_left_iff, List.forall₂_map_right_iff, List.forall₂_map_right_iff,
      List.forall₂_same]
    intro c hc
    obtain ⟨halias, hsql⟩ := hcs c hc
    have has : Unmarked (c.aliasName ++ " AS (") := halias.append (by decide)
    exact ((fragment hsql).append_text (show Unmarked ")" by decide)).text_append has
  match ctes with
  | none => exact .nil
  | some [] => exact .nil
  | some (c :: cs) =>
    exact ((separated (by decide) (hall (c :: cs) h)).text_append (by decide)).append_text (by decide)

theorem groupByPieces {columns : Option (List ColumnRef)} (h : ∀ c ∈ columns.getD [], c.Unmarked) :
    Filled lit (groupByPieces columns) (groupByPieces columns) := by
  match columns with
  | none => exact .nil
  | some [] => exact .nil
  | some (c :: cs) =>
    refine text (Unmarked.append (by decide) (.intercalate (by decide) fun t ht => ?_))
    obtain ⟨c', hc', rfl⟩ := List.mem_map.1 ht
    exact .columnRef (h c' hc')

theorem sortPieces {keys : List SortKey}
    (h : ∀ k ∈ keys, Unmarked k.aliasName ∧ Unmarked k.column) :
    Filled lit (sortPieces keys) (sortPieces keys) := by
  cases keys with
  | nil => exact .nil
  | cons k ks =>
    refine text (Unmarked.append (by decide) (.intercalate (by decide) fun t ht => ?_))
    obtain ⟨k', hk', rfl⟩ := List.mem_map.1 ht
    obtain ⟨halias, hcolumn⟩ := h k' hk'
    refine ((halias.dotted hcolumn).append (by decide)).append ?_
    cases k'.direction <;> decide

end Filled

section

variable (lit : Value → String)

mutual

/-- The pieces of a plan become those of the plan with its operands written out. -/
theorem Plan.filled_pieces : ∀ p : Plan, p.Balanced → p.Pathless →
    Matched (Filled lit) p.pieces (p.inlined lit).pieces
  | ⟨selects, tables, condition, sortKeys, groupBys, ctes⟩, hbalanced, hpaths => by
    obtain ⟨hselects, htables, htop, hsort, hgroup, hctes⟩ := hbalanced
    obtain ⟨-, hinTables, hinTop, hinSelects⟩ := hpaths
    rw [Plan.inlined, Plan.pieces, Plan.pieces]
    refine (Select.filled_piecesOf selects hselects hinSelects).bind fun columns columns' hcolumns => ?_
    have hshown := Filled.separated_or (show Unmarked ", " by decide) (show Unmarked "*" by decide)
      hcolumns
    rw [Table.find?_isPrimary_inlinedAll]
    dsimp only
    -- both plans show columns or a star; which of them plays no part in what follows
    generalize ite (columns.isEmpty = true) _ _ = shown at hshown ⊢
    generalize ite (columns'.isEmpty = true) _ _ = shown' at hshown ⊢
    split
    · next a table hfind =>
      obtain ⟨halias, htable⟩ : Unmarked a ∧ Unmarked table :=
        Table.allBalanced_iff.1 htables _ (List.mem_of_find?_eq_some hfind)
      have hfrom : Unmarked (" FROM " ++ tableText table a) :=
        .append (by decide) (htable.tableText halias)
      refine (Table.filled_piecesOf tables htables hinTables).bind fun joins joins' hjoins => ?_
      refine (Group.filled_piecesOf condition htop hinTop).bind fun filter filter' hfilter => .ok ?_
      have hselect : Unmarked "SELECT " := by decide
      have hbody := ((Filled.ctePieces hctes).append (hshown.text_append hselect)).append
        (hjoins.text_append hfrom)
      exact ((hbody.append hfilter).append (.groupByPieces hgroup)).append (.sortPieces hsort)
    · exact fun _ h => nomatch h

theorem Table.filled_piecesOf : ∀ ts : List Table, Table.AllBalanced ts →
    Table.ThroughoutAll (fun _ => True) ColumnCondition.AsksNoPath ts →
    Matched (Filled lit) (Table.piecesOf ts) (Table.piecesOf (Table.inlinedAll lit ts))
  | [], _, _ => .ok .nil
  | .primary _ _ :: ts, hts, hpaths => Table.filled_piecesOf ts hts.2 hpaths
  | .join j :: ts, hts, hpaths => (Table.filled_piecesOf ts hts.2 hpaths).bind fun _ _ h =>
      .ok (h.text_append (.append (by decide) (.join hts.1)))
  | .cross a table :: ts, hts, hpaths => (Table.filled_piecesOf ts hts.2 hpaths).bind fun _ _ h =>
      .ok (h.text_append (.append (by decide) (hts.1.2.tableText hts.1.1)))
  | .lateral a _ query :: ts, hts, hpaths => by
    refine (Plan.filled_pieces query hts.1.2 hpaths.1).bind fun inner inner' hinner => ?_
    refine (Table.filled_piecesOf ts hts.2 hpaths.2).bind fun joins joins' hjoins => .ok ?_
    have has : Unmarked (") AS " ++ a) := .append (by decide) hts.1.1
    exact (hinner.text_append (by decide)).append (hjoins.text_append has)

theorem Select.filled_piecesOf : ∀ ss : List Select, Select.AllBalanced ss →
    Select.ThroughoutAll (fun _ => True) ColumnCondition.AsksNoPath ss →
    Matched (List.Forall₂ (Filled lit)) (Select.piecesOf ss) (Select.piecesOf (Select.inlinedAll lit ss))
  | [], _, _ => .ok .nil
  | s :: ss, hss, hpaths => by
    obtain ⟨hhere, hrest⟩ := List.forall_mem_cons.1 (Select.throughoutAll_iff.1 hpaths)
    refine (Select.filled_pieces s hss.1 hhere).bind fun ps ps' hps => ?_
    exact (Select.filled_piecesOf ss hss.2 (Select.throughoutAll_iff.2 hrest)).bind
      fun pss pss' hpss => .ok (.cons hps hpss)

theorem Select.filled_pieces : ∀ s : Select, s.Balanced →
    s.Throughout (fun _ => True) ColumnCondition.AsksNoPath →
    Matched (Filled lit) s.pieces (s.inlined lit).pieces
  | .star a, hs, _ => .ok (.text (hs.append (by decide)))
  | .column c name, hs, _ => .ok (.text (.named (.columnRef hs.1) hs.2))
  | .discriminator cases defaultType name, hs, _ => .ok (.text (.discriminator hs.1 hs.2.1 hs.2.2))
  | .boolOr condition name, hs, hpaths =>
    (Group.filled_tokens condition hs.1 hpaths).bind fun _ _ h =>
      .ok ((h.text_append (by decide)).append_text (.append (by decide) hs.2))
  | .countIsZero name, hs, _ => .ok (.text (.append (by decide) hs))
  | .raw sql _ name, hs, _ => .ok (.text (.named hs.1 hs.2))

theorem Group.filled_piecesOf : ∀ g : Option Group, Group.TopBalanced g →
    Group.ThroughoutTop (fun _ => True) ColumnCondition.AsksNoPath g →
    Matched (Filled lit) (Group.piecesOf g) (Group.piecesOf (Group.inlinedTop lit g))
  | none, _, _ => .ok .nil
  | some ⟨_, []⟩, _, _ => .ok .nil
  | some ⟨op, c :: cs⟩, hg, hpaths =>
    (Condition.filled_tokensOf op (c :: cs) hg hpaths).bind fun _ _ h =>
      .ok (h.text_append (by decide))

theorem Group.filled_tokens : ∀ g : Group, g.Balanced →
    g.Throughout (fun _ => True) ColumnCondition.AsksNoPath →
    Matched (fun ts us => Filled lit (ts.flatMap Token.pieces) (us.flatMap Token.pieces)) g.tokens
      (g.inlined lit).tokens
  | ⟨op, []⟩, _, _ => .ok (by cases op <;> exact .text (by decide))
  | ⟨op, c :: cs⟩, hg, hpaths => Condition.filled_tokensOf op (c :: cs) hg hpaths

theorem Condition.filled_tokensOf (op : Connective) : ∀ cs : List Condition,
    Condition.AllBalanced cs →
    Condition.ThroughoutAll (fun _ => True) ColumnCondition.AsksNoPath cs →
    Matched (fun ts us => Filled lit (ts.flatMap Token.pieces) (us.flatMap Token.pieces))
      (Condition.tokensOf op cs) (Condition.tokensOf op (Condition.inlinedAll lit cs))
  | [], _, _ => .ok .nil
  | [c], hcs, hpaths => (Condition.filled_tokens c hcs.1 hpaths.1).bind fun _ _ h => .ok h
  | c :: c' :: cs, hcs, hpaths => by
    refine (Condition.filled_tokens c hcs.1 hpaths.1).bind fun ts ts' hts => ?_
    refine (Condition.filled_tokensOf op (c' :: cs) hcs.2 hpaths.2).bind fun us us' hus => .ok ?_
    rw [List.flatMap_append, List.flatMap_append]
    refine hts.append ?_
    cases op <;> exact hus.text_append (by decide)

theorem Condition.filled_tokens : ∀ c : Condition, c.Balanced →
    c.Throughout (fun _ => True) ColumnCondition.AsksNoPath →
    Matched (fun ts us => Filled lit (ts.flatMap Token.pieces) (us.flatMap Token.pieces)) c.tokens
      (c.inlined lit).tokens
  | .group ⟨op, []⟩, _, _ => .ok (by cases op <;> exact .text (by decide))
  | .group ⟨op, [c]⟩, hg, hpaths => Condition.filled_tokensOf op [c] hg hpaths
  | .group ⟨op, c :: c' :: cs⟩, hg, hpaths => by
    refine (Condition.filled_tokensOf op (c :: c' :: cs) hg hpaths).bind fun ts ts' hts => .ok ?_
    rw [List.flatMap_append, List.flatMap_append]
    exact (hts.text_append (by decide)).append_text (by decide)
  | .column c, hc, hpath => fun _ h => ⟨_, rfl, c.filledAs_tokens hc.1 hc.2 hpath h⟩
  | .raw r, hr, _ => .ok (show Filled lit [.fragment r.sql r.bindings] _ from .fragment hr)
  | .existence query negate _, hquery, hpaths => by
    refine (Plan.filled_pieces query hquery hpaths).bind fun inner inner' hinner => .ok ?_
    rw [List.flatMap_singleton, List.flatMap_singleton]
    refine (hinner.text_append ?_).append_text (by decide)
    cases negate <;> decide

end

end

/-- A plan in which no predicate asks for a path has a placeholder for each value, and when each is
replaced by its value, from left to right, the text is the one of the plan with its operands written
out. -/
theorem Plan.filled_render {p : Plan} {r : Rendered} (hbalanced : p.Balanced) (hpaths : p.Pathless)
    (h : p.render = .ok r) : r.sql.toList.count '?' = r.bindings.length ∧ r.bindings = p.bound ∧
      ∀ lit : Value → String, ∃ cs, filled? r.sql.toList (r.bindings.map lit) = some cs ∧
        (p.inlined lit).render = .ok ⟨String.ofList cs, []⟩ := by
  obtain ⟨ps, hps, rfl⟩ := exists_of_map_eq_ok h
  have hfilled : ∀ lit : Value → String, ∃ qs, (p.inlined lit).pieces = .ok qs ∧ Filled lit ps qs :=
    fun lit => Plan.filled_pieces lit p hbalanced hpaths ps hps
  refine ⟨?_, ?_, fun lit => ?_⟩
  · obtain ⟨qs, -, hqs⟩ := hfilled fun _ => ""
    have hcount := isSome_filled?_iff.1 (Option.isSome_iff_exists.2 ⟨_, hqs.filled⟩)
    rw [toList_ofPieces, hcount, List.length_map]
    rfl
  · -- the values that are bound are those that the plan without its operands leaves out
    have hbound := p.alike_erased
    rw [hps] at hbound
    generalize p.erased.pieces = x at hbound
    cases hbound with
    | ok hbound => exact hbound.bindings
  · obtain ⟨qs, hqs, hps⟩ := hfilled lit
    refine ⟨lettersOf qs, ?_, ?_⟩
    · rw [toList_ofPieces]
      exact hps.filled
    · have hrendered : Rendered.ofPieces qs = ⟨String.ofList (lettersOf qs), []⟩ := by
        rw [← toList_ofPieces, String.ofList_toList, ← hps.unbound]
        rfl
      rw [render, hqs, ← hrendered]
      rfl

theorem Plan.filled_render_chosenBooks : ∃ r : Rendered,
    (chosenBooks (.int 7) (.int 1990, .int 2000) "Preface" [.int 1, .int 2] []).render = .ok r ∧
    r.sql.toList.count '?' = 8 ∧
    r.bindings = [.int 7, .array [], .int 1, .int 2, .int 1990, .int 2000, .int 3,
      .text "Preface"] ∧
    ∀ lit : Value → String, ∃ cs, filled? r.sql.toList (r.bindings.map lit) = some cs ∧
      ((chosenBooks (.int 7) (.int 1990, .int 2000) "Preface" [.int 1, .int 2] []).inlined lit).render =
        .ok ⟨String.ofList cs, []⟩ := by
  have hbalanced : (chosenBooks (.int 7) (.int 1990, .int 2000) "Preface" [.int 1, .int 2]
      []).Balanced := by
    simp only [chosenBooks, Plan.Balanced, Table.AllBalanced, Table.Balanced, Select.AllBalanced,
      Select.Balanced, Group.TopBalanced, Group.Balanced, Condition.AllBalanced, Condition.Balanced,
      BoundBy, Group.all, Condition.any, Group.any, ColumnCondition.asked, ColumnRef.Unmarked]
    decide +kernel
  have hpaths : (chosenBooks (.int 7) (.int 1990, .int 2000) "Preface" [.int 1, .int 2]
      []).Pathless := by
    simp [chosenBooks, Plan.Pathless, Plan.Throughout, Table.ThroughoutAll, Select.ThroughoutAll,
      Group.ThroughoutTop, Group.Throughout, Condition.ThroughoutAll, Condition.Throughout, Group.all,
      Condition.any, Group.any, ColumnCondition.asked, ColumnCondition.AsksNoPath]
  obtain ⟨r, hr⟩ : ∃ r, (chosenBooks (.int 7) (.int 1990, .int 2000) "Preface" [.int 1, .int 2]
    []).render = .ok r := ⟨_, rfl⟩
  obtain ⟨hcount, hbound, hlit⟩ := filled_render hbalanced hpaths hr
  refine ⟨r, hr, ?_, hbound, hlit⟩
  rw [hcount, hbound]
  rfl

/-- Authors with something at a path. -/
def pathed : Plan :=
  ⟨[], [.primary "a" "authors"],
    some (.all [.column (.asked "a" "c" "jsonb" (.pattern .pathExists "$.x"))]), [], none, none⟩

/-- The operator has a question mark of its own, in front of the placeholder. -/
theorem Plan.not_filled_render_pathed : pathed.Balanced ∧ ∃ r, pathed.render = .ok r ∧
    r.sql = "SELECT * FROM \"authors\" AS a WHERE a.c @? ?" ∧ r.bindings.length = 1 ∧
    r.sql.toList.count '?' ≠ r.bindings.length := by
  refine ⟨⟨trivial, ⟨⟨by decide, by decide⟩, trivial⟩, ⟨⟨by decide, by decide⟩, trivial⟩, nofun,
    nofun, nofun⟩, _, rfl, rfl, rfl, ?_⟩
  decide +kernel

end EntityQuery
