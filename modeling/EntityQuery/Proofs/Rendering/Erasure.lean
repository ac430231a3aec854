import EntityQuery.Sql.Render

/-!
# Operands and text

Every operand of a plan becomes a placeholder, so the text depends on the shape of the plan and on
which operands are null, and not on their values otherwise.

* `Plan.erased`: a plan without the values of its operands;
* `Plan.bound`: the values that its placeholders are bound to, in the order of the text;
* `Alike`: steps that fail alike or have results that are related;
* `Outlined`: pieces with the same text and as many placeholders;
* `Plan.alike_erased`: plans are written as they are without their operands;
* `Plan.alike_render`: the renderings of plans that are the same without their operands.
-/

namespace EntityQuery

/-! ### Operands -/

/-- Null, or some value in the place of another one. -/
def Value.erased (v : Value) : Value := if v.isNull then .null else .bool true

namespace Predicate

/-- The predicate without its operands: it is left how many a list has and which of them are null.
A pattern or a list that is bound as one array has no part that shows. -/
def erased : Predicate → Predicate
  | .compare op v => .compare op v.erased
  | .isIn vs => .isIn (vs.map Value.erased)
  | .notIn vs => .notIn (vs.map Value.erased)
  | .between low high => .between low.erased high.erased
  | .isNull => .isNull
  | .notNull => .notNull
  | .pattern op _ => .pattern op ""
  | .containment op _ => .containment op []

/-- The values that the placeholders of the predicate are bound to. -/
def bound : Predicate → List Value
  | .compare _ v => [v]
  | .isIn vs => vs
  | .notIn vs => vs
  | .between low high => [low, high]
  | .isNull => []
  | .notNull => []
  | .pattern _ s => [.text s]
  | .containment _ vs => [.array vs]

end Predicate

/-- The predicate on the column without its operands. -/
def ColumnCondition.erased (c : ColumnCondition) : ColumnCondition :=
  { c with predicate := c.predicate.erased }

/-- The fragment with as many bindings. -/
def RawCondition.erased (r : RawCondition) : RawCondition :=
  { r with bindings := r.bindings.map fun _ => .null }

/-- The named query with as many bindings. -/
def Cte.erased (c : Cte) : Cte := { c with bindings := c.bindings.map fun _ => .null }

mutual

/-- The plan without its operands and those of the plans inside it. -/
def Plan.erased : Plan → Plan
  | ⟨selects, tables, condition, sortKeys, groupBys, ctes⟩ =>
    ⟨Select.erasedAll selects, Table.erasedAll tables, Group.erasedTop condition, sortKeys,
      groupBys, ctes.map (·.map Cte.erased)⟩

/-- The result columns without operands. -/
def Select.erasedAll : List Select → List Select
  | [] => []
  | s :: rest => s.erased :: Select.erasedAll rest

/-- The result column without operands. -/
def Select.erased : Select → Select
  | .boolOr condition name => .boolOr condition.erased name
  | s => s

/-- The tables without operands. -/
def Table.erasedAll : List Table → List Table
  | [] => []
  | t :: rest => t.erased :: Table.erasedAll rest

/-- The table without operands. -/
def Table.erased : Table → Table
  | .lateral aliasName fromAlias query => .lateral aliasName fromAlias query.erased
  | t => t

/-- What is at the top of a plan without operands. -/
def Group.erasedTop : Option Group → Option Group
  | none => none
  | some g => some g.erased

/-- The group without operands. -/
def Group.erased : Group → Group
  | ⟨op, conditions⟩ => ⟨op, Condition.erasedAll conditions⟩

/-- The conditions without operands. -/
def Condition.erasedAll : List Condition → List Condition
  | [] => []
  | c :: rest => c.erased :: Condition.erasedAll rest

/-- The condition without operands. -/
def Condition.erased : Condition → Condition
  | .group g => .group g.erased
  | .column c => .column c.erased
  | .raw r => .raw r.erased
  | .existence query negate outerAliases => .existence query.erased negate outerAliases

end

mutual

/-- The values that the placeholders of the plan are bound to: named queries come first, and result
columns before tables and the condition. -/
def Plan.bound : Plan → List Value
  | ⟨selects, tables, condition, _, _, ctes⟩ =>
    (ctes.getD []).flatMap Cte.bindings ++ Select.boundOf selects ++ Table.boundOf tables ++
      Group.boundTop condition

/-- The values that are bound in result columns. -/
def Select.boundOf : List Select → List Value
  | [] => []
  | s :: rest => s.bound ++ Select.boundOf rest

/-- The values that are bound in a result column. -/
def Select.bound : Select → List Value
  | .boolOr condition _ => condition.bound
  | _ => []

/-- The values that are bound in tables. -/
def Table.boundOf : List Table → List Value
  | [] => []
  | t :: rest => t.bound ++ Table.boundOf rest

/-- The values that are bound in a table. -/
def Table.bound : Table → List Value
  | .lateral _ _ query => query.bound
  | _ => []

/-- The values that are bound at the top of a plan. -/
def Group.boundTop : Option Group → List Value
  | none => []
  | some g => g.bound

/-- The values that are bound in a group. -/
def Group.bound : Group → List Value
  | ⟨_, conditions⟩ => Condition.boundOf conditions

/-- The values that are bound in conditions. -/
def Condition.boundOf : List Condition → List Value
  | [] => []
  | c :: rest => c.bound ++ Condition.boundOf rest

/-- The values that are bound in a condition. -/
def Condition.bound : Condition → List Value
  | .group g => g.bound
  | .column c => c.predicate.bound
  | .raw r => r.bindings
  | .existence query _ _ => query.bound

end

/-! ### Steps that go alike -/

/-- Both steps fail for the same reason, or their results are related. -/
inductive Alike {ε α β : Type} (R : α → β → Prop) : Except ε α → Except ε β → Prop
  | ok {a : α} {b : β} (h : R a b) : Alike R (.ok a) (.ok b)
  | error (err : ε) : Alike R (.error err) (.error err)

/-- Steps that go on alike from related results go alike. -/
theorem Alike.bind {ε α β α' β' : Type} {R : α → β → Prop} {S : α' → β' → Prop} {x : Except ε α}
    {y : Except ε β} {f : α → Except ε α'} {g : β → Except ε β'} (h : Alike R x y)
    (hfg : ∀ a b, R a b → Alike S (f a) (g b)) : Alike S (x >>= f) (y >>= g) := by
  cases h with
  | ok h => exact hfg _ _ h
  | error err => exact .error err

/-! ### Outlines -/

/-- What shows of a piece besides the values: its text, and how many values it binds. -/
def Piece.outline (p : Piece) : String × Nat := (p.written, p.bindings.length)

/-- The pieces have the same text and as many placeholders, and the values are those that the first
ones bind. -/
structure Outlined (vs : List Value) (ps qs : List Piece) : Prop where
  outline : ps.map Piece.outline = qs.map Piece.outline
  bindings : ps.flatMap Piece.bindings = vs

/-- The lists of pieces have the same texts and as many placeholders, one by one. -/
inductive OutlinedAll : List Value → List (List Piece) → List (List Piece) → Prop
  | nil : OutlinedAll [] [] []
  | cons {vs ws : List Value} {ps qs : List Piece} {pss qss : List (List Piece)}
      (h : Outlined vs ps qs) (h' : OutlinedAll ws pss qss) :
      OutlinedAll (vs ++ ws) (ps :: pss) (qs :: qss)

section

variable {vs ws : List Value} {ps qs ps' qs' : List Piece} {pss qss : List (List Piece)}

namespace Outlined

theorem nil : Outlined [] [] [] := ⟨rfl, rfl⟩

theorem append (h : Outlined vs ps qs) (h' : Outlined ws ps' qs') :
    Outlined (vs ++ ws) (ps ++ ps') (qs ++ qs') where
  outline := by rw [List.map_append, List.map_append, h.outline, h'.outline]
  bindings := by rw [List.flatMap_append, h.bindings, h'.bindings]

/-- Fixed text binds nothing. -/
theorem text (s : String) : Outlined [] [.text s] [.text s] := ⟨rfl, rfl⟩

theorem text_append (s : String) (h : Outlined vs ps qs) :
    Outlined vs (.text s :: ps) (.text s :: qs) := (text s).append h

theorem append_text (s : String) (h : Outlined vs ps qs) :
    Outlined vs (ps ++ [.text s]) (qs ++ [.text s]) := by
  simpa only [List.append_nil] using h.append (text s)

/-- What binds nothing may stand behind. -/
theorem append_unbound (h : Outlined vs ps qs) (h' : Outlined [] ps' ps') :
    Outlined vs (ps ++ ps') (qs ++ ps') := by
  simpa only [List.append_nil] using h.append h'

/-- There are as many values as placeholders. -/
theorem length_bindings (h : Outlined vs ps qs) :
    (qs.flatMap Piece.bindings).length = vs.length := by
  have hlength : ∀ ps : List Piece,
      (ps.flatMap Piece.bindings).length = ((ps.map Piece.outline).map Prod.snd).sum := fun ps => by
    rw [List.length_flatMap, List.map_map]
    rfl
  rw [hlength, ← h.outline, ← hlength, h.bindings]

theorem written (h : Outlined vs ps qs) : ps.map Piece.written = qs.map Piece.written := by
  have hwritten : ∀ ps : List Piece,
      ps.map Piece.written = (ps.map Piece.outline).map Prod.fst := fun ps => by
    rw [List.map_map]
    rfl
  rw [hwritten, h.outline, ← hwritten]

end Outlined

namespace OutlinedAll

/-- A text between them binds nothing. -/
theorem separated (s : String) (h : OutlinedAll vs pss qss) :
    Outlined vs (EntityQuery.separated s pss) (EntityQuery.separated s qss) := by
  induction h with
  | nil => exact .nil
  | cons h h' ih =>
    cases h' with
    | nil =>
      rw [List.append_nil]
      exact h
    | cons => exact h.append (ih.text_append s)

/-- Another text may stand in the place of nothing. -/
theorem separated_or (s empty : String) (h : OutlinedAll vs pss qss) :
    Outlined vs (if pss.isEmpty then [.text empty] else EntityQuery.separated s pss)
      (if qss.isEmpty then [.text empty] else EntityQuery.separated s qss) := by
  cases h with
  | nil => exact .text empty
  | cons h h' => exact (OutlinedAll.cons h h').separated s

end OutlinedAll

end

/-! ### Predicates -/

theorem Value.isNull_erased (v : Value) : v.erased.isNull = v.isNull := by
  cases v <;> rfl

theorem Predicate.kind_erased (p : Predicate) : p.erased.kind = p.kind := by
  cases p <;> rfl

namespace ColumnCondition

variable {c : ColumnCondition}

/-- Operands are written alike when both are null or both are not. -/
theorem alike_operand {v w : Value} (h : w.isNull = v.isNull) :
    Alike (fun p q => Outlined [v] [p] [q]) (c.operand v) (c.erased.operand w) := by
  unfold operand
  rw [h, show c.erased.predicate.kind = c.predicate.kind from c.predicate.kind_erased]
  cases v.isNull with
  | true => exact .error _
  | false => exact .ok ⟨rfl, rfl⟩

theorem alike_mapM_operand : ∀ vs : List Value,
    Alike (fun ps qs => OutlinedAll vs (ps.map fun p => [p]) (qs.map fun q => [q]))
      (vs.mapM c.operand) ((vs.map Value.erased).mapM c.erased.operand)
  | [] => .ok .nil
  | v :: vs => by
    rw [List.map_cons, List.mapM_cons, List.mapM_cons]
    refine (alike_operand v.isNull_erased).bind fun p q hpq => ?_
    exact (alike_mapM_operand vs).bind fun ps qs hps => .ok (.cons hpq hps)

theorem alike_binary (op : String) {v w : Value} (h : w.isNull = v.isNull) :
    Alike (fun ts us => Outlined [v] (ts.flatMap Token.pieces) (us.flatMap Token.pieces))
      (c.binary op v) (c.erased.binary op w) :=
  (alike_operand h).bind fun _ _ hpq => .ok (hpq.text_append _)

theorem alike_membership (op : String) (empty : Bool) : ∀ vs : List Value,
    Alike (fun ts us => Outlined vs (ts.flatMap Token.pieces) (us.flatMap Token.pieces))
      (c.membership op empty vs) (c.erased.membership op empty (vs.map Value.erased))
  | [] => .ok (by cases empty <;> exact .text _)
  | v :: vs => by
    refine (alike_mapM_operand (v :: vs)).bind fun ps qs hps => .ok ?_
    rw [List.flatMap_singleton, List.flatMap_singleton]
    exact ((hps.separated ", ").text_append _).append_text ")"

/-- A predicate is written as it is without its operands. -/
theorem alike_erased (c : ColumnCondition) :
    Alike (fun ts us => Outlined c.predicate.bound (ts.flatMap Token.pieces)
      (us.flatMap Token.pieces)) c.tokens c.erased.tokens := by
  unfold tokens
  rw [show c.erased.predicate = c.predicate.erased from rfl]
  cases c.predicate with
  | compare op v => exact alike_binary _ v.isNull_erased
  | isIn vs => exact alike_membership _ _ vs
  | notIn vs => exact alike_membership _ _ vs
  | between low high =>
    refine (alike_operand low.isNull_erased).bind fun p q hlow => ?_
    refine (alike_operand high.isNull_erased).bind fun p' q' hhigh => .ok ?_
    exact (hlow.append (hhigh.text_append " AND ")).text_append _
  | isNull => exact .ok (.text _)
  | notNull => exact .ok (.text _)
  | pattern op s => exact alike_binary _ rfl
  | containment op vs => exact alike_binary _ rfl

end ColumnCondition

/-! ### Plans -/

theorem Cte.outlined_erased (ctes : Option (List Cte)) :
    Outlined ((ctes.getD []).flatMap Cte.bindings) (Cte.piecesOf ctes)
      (Cte.piecesOf (ctes.map (·.map Cte.erased))) := by
  have hall : ∀ cs : List Cte, OutlinedAll (cs.flatMap Cte.bindings)
      (cs.map fun c => [.text (c.aliasName ++ " AS ("), .fragment c.sql c.bindings, .text ")"])
      ((cs.map Cte.erased).map fun c =>
        [.text (c.aliasName ++ " AS ("), .fragment c.sql c.bindings, .text ")"]) := by
    intro cs
    induction cs with
    | nil => exact .nil
    | cons c cs ih =>
      refine .cons ⟨?_, ?_⟩ ih
      · simp [Piece.outline, Piece.written, Piece.bindings, Cte.erased]
      · simp [Piece.bindings]
  match ctes with
  | none => exact .nil
  | some [] => exact .nil
  | some (c :: cs) => exact (((hall (c :: cs)).separated ", ").text_append "WITH ").append_text " "

theorem outlined_groupByPieces (columns : Option (List ColumnRef)) :
    Outlined [] (groupByPieces columns) (groupByPieces columns) := by
  match columns with
  | none => exact .nil
  | some [] => exact .nil
  | some (_ :: _) => exact .text _

theorem outlined_sortPieces (keys : List SortKey) :
    Outlined [] (sortPieces keys) (sortPieces keys) := by
  cases keys with
  | nil => exact .nil
  | cons => exact .text _

/-- The primary table has no operands. -/
theorem Table.find?_isPrimary_erasedAll : ∀ ts : List Table,
    (Table.erasedAll ts).find? Table.isPrimary = ts.find? Table.isPrimary
  | [] => rfl
  | t :: ts => by
    rw [Table.erasedAll]
    cases t with
    | primary a table => rfl
    | _ => exact Table.find?_isPrimary_erasedAll ts

mutual

/-- A plan is written as it is without its operands. -/
theorem Plan.alike_erased : ∀ p : Plan, Alike (Outlined p.bound) p.pieces p.erased.pieces
  | ⟨selects, tables, condition, sortKeys, groupBys, ctes⟩ => by
    rw [Plan.erased, Plan.bound, Plan.pieces, Plan.pieces]
    refine (Select.alike_erasedAll selects).bind fun columns columns' hcolumns => ?_
    have hselects := hcolumns.separated_or ", " "*"
    rw [Table.find?_isPrimary_erasedAll]
    dsimp only
    generalize ite (columns.isEmpty = true) _ _ = shown at hselects ⊢
    generalize ite (columns'.isEmpty = true) _ _ = shown' at hselects ⊢
    split
    · next a table _ =>
      refine (Table.alike_erasedAll tables).bind fun joins joins' hjoins => ?_
      refine (Group.alike_erasedTop condition).bind fun filter filter' hfilter => .ok ?_
      have hfrom := ((Cte.outlined_erased ctes).append (hselects.text_append "SELECT ")).append
        (hjoins.text_append (" FROM " ++ tableText table a))
      exact ((hfrom.append hfilter).append_unbound (outlined_groupByPieces groupBys)).append_unbound
        (outlined_sortPieces sortKeys)
    · exact .error _

theorem Table.alike_erasedAll : ∀ ts : List Table,
    Alike (Outlined (Table.boundOf ts)) (Table.piecesOf ts) (Table.piecesOf (Table.erasedAll ts))
  | [] => .ok .nil
  | .primary _ _ :: ts => Table.alike_erasedAll ts
  | .join _ :: ts => (Table.alike_erasedAll ts).bind fun _ _ h => .ok (h.text_append _)
  | .cross _ _ :: ts => (Table.alike_erasedAll ts).bind fun _ _ h => .ok (h.text_append _)
  | .lateral _ _ query :: ts => by
    refine query.alike_erased.bind fun inner inner' hinner => ?_
    refine (Table.alike_erasedAll ts).bind fun joins joins' hjoins => .ok ?_
    exact (hinner.text_append _).append (hjoins.text_append _)

theorem Select.alike_erasedAll : ∀ ss : List Select,
    Alike (OutlinedAll (Select.boundOf ss)) (Select.piecesOf ss)
      (Select.piecesOf (Select.erasedAll ss))
  | [] => .ok .nil
  | s :: ss => by
    refine (Select.alike_erased s).bind fun ps ps' hps => ?_
    exact (Select.alike_erasedAll ss).bind fun pss pss' hpss => .ok (.cons hps hpss)

theorem Select.alike_erased : ∀ s : Select,
    Alike (Outlined s.bound) s.pieces s.erased.pieces
  | .star _ => .ok (.text _)
  | .column _ _ => .ok (.text _)
  | .discriminator _ _ _ => .ok (.text _)
  | .boolOr condition _ => condition.alike_erased.bind fun _ _ h =>
      .ok ((h.text_append _).append_text _)
  | .countIsZero _ => .ok (.text _)
  | .raw _ _ _ => .ok (.text _)

theorem Group.alike_erasedTop : ∀ g : Option Group,
    Alike (Outlined (Group.boundTop g)) (Group.piecesOf g) (Group.piecesOf (Group.erasedTop g))
  | none => .ok .nil
  | some ⟨_, []⟩ => .ok .nil
  | some ⟨op, c :: cs⟩ => (Condition.alike_erasedAll op (c :: cs)).bind fun _ _ h =>
      .ok (h.text_append _)

theorem Group.alike_erased : ∀ g : Group,
    Alike (fun ts us => Outlined g.bound (ts.flatMap Token.pieces) (us.flatMap Token.pieces))
      g.tokens g.erased.tokens
  | ⟨op, []⟩ => .ok (by cases op <;> exact .text _)
  | ⟨op, c :: cs⟩ => Condition.alike_erasedAll op (c :: cs)

theorem Condition.alike_erasedAll (op : Connective) : ∀ cs : List Condition,
    Alike (fun ts us => Outlined (Condition.boundOf cs) (ts.flatMap Token.pieces)
      (us.flatMap Token.pieces)) (Condition.tokensOf op cs)
      (Condition.tokensOf op (Condition.erasedAll cs))
  | [] => .ok .nil
  | [c] => c.alike_erased.bind fun _ _ h => .ok (by simpa [Condition.boundOf] using h)
  | c :: c' :: cs => by
    refine c.alike_erased.bind fun ts ts' hts => ?_
    refine (Condition.alike_erasedAll op (c' :: cs)).bind fun us us' hus => .ok ?_
    rw [List.flatMap_append, List.flatMap_append]
    refine hts.append ?_
    cases op <;> exact hus.text_append _

theorem Condition.alike_erased : ∀ c : Condition,
    Alike (fun ts us => Outlined c.bound (ts.flatMap Token.pieces) (us.flatMap Token.pieces))
      c.tokens c.erased.tokens
  | .group ⟨op, []⟩ => .ok (by cases op <;> exact .text _)
  | .group ⟨op, [c]⟩ => Condition.alike_erasedAll op [c]
  | .group ⟨op, c :: c' :: cs⟩ => by
    refine (Condition.alike_erasedAll op (c :: c' :: cs)).bind fun ts ts' hts => .ok ?_
    rw [List.flatMap_append, List.flatMap_append]
    exact (hts.text_append "(").append_text ")"
  | .column c => c.alike_erased
  | .raw r => .ok ⟨by simp [Token.pieces, Piece.outline, Piece.written, Piece.bindings,
      RawCondition.erased], by simp [Token.pieces, Piece.bindings, Condition.bound]⟩
  | .existence query _ _ => by
    refine query.alike_erased.bind fun inner inner' hinner => .ok ?_
    rw [List.flatMap_singleton, List.flatMap_singleton]
    exact (hinner.text_append _).append_text ")"

end

/-- Plans that are the same without their operands cannot be rendered for the same reason, or they
have the same text and as many bindings, each its own values in the order of its placeholders. -/
theorem Plan.alike_render {p p' : Plan} (h : p.erased = p'.erased) :
    Alike (fun r r' : Rendered => r.sql = r'.sql ∧ r.bindings.length = r'.bindings.length ∧
      r.bindings = p.bound ∧ r'.bindings = p'.bound) p.render p'.render := by
  -- The two plans are never compared with each other: both are written as the one without operands.
  have hp := p.alike_erased
  have hp' := p'.alike_erased
  rw [← h] at hp'
  unfold render
  generalize p.erased.pieces = x at hp hp'
  generalize p.pieces = y at hp
  generalize p'.pieces = y' at hp'
  cases hp with
  | ok hps =>
    cases hp' with
    | ok hps' =>
      refine .ok ⟨?_, ?_, hps.bindings, hps'.bindings⟩
      · exact congrArg String.join (hps.written.trans hps'.written.symm)
      · exact (congrArg List.length hps.bindings).trans (hps.length_bindings.symm.trans
          (hps'.length_bindings.trans (congrArg List.length hps'.bindings).symm))
  | error err =>
    cases hp' with
    | error _ => exact .error err

/-- Books in a range of years that are liked or have a chapter of a name, each with one of its
editors by id; what is liked is a query of its own. -/
def chosenBooks (reader : Value) (years : Value × Value) (chapter : String) (editors : List Value)
    (tags : List Value) : Plan :=
  ⟨[.star "b", .boolOr (.all [.column (.asked "b" "tags" "text[]" (.containment .overlaps tags))])
      "tagged"],
    [.primary "b" "books", .lateral "l" "b"
      ⟨[], [.primary "e" "editors"],
        some (.all [.column (.asked "e" "id" "int" (.isIn editors))]), [], none, none⟩],
    some (.all [.column (.asked "b" "year" "int" (.between years.1 years.2)),
      .any [.raw ⟨["b"], "b.id IN (SELECT id FROM liked WHERE score > ?)", [.int 3], false⟩,
        .existence ⟨[], [.primary "c" "chapters"],
          some (.all [.column (.asked "c" "name" "text" (.pattern .ilike chapter))]), [],
          none, none⟩ false ["b"]]]),
    [], none, some [⟨"liked", "SELECT * FROM likes WHERE reader = ?", [reader]⟩]⟩

/-- Whatever is put in the place of its operands, the query is the same, text of SQL in a pattern
included. -/
theorem Plan.alike_render_chosenBooks : ∃ r r' : Rendered,
    (chosenBooks (.int 7) (.int 1990, .int 2000) "Preface" [.int 1, .int 2] []).render = .ok r ∧
    (chosenBooks .null (.text "1", .bool true) "') OR TRUE --" [.int 8, .int 9] [.null]).render =
      .ok r' ∧ r.sql = r'.sql ∧
    r.bindings = [.int 7, .array [], .int 1, .int 2, .int 1990, .int 2000, .int 3,
      .text "Preface"] ∧
    r'.bindings = [.null, .array [.null], .int 8, .int 9, .text "1", .bool true, .int 3,
      .text "') OR TRUE --"] := by
  have herased : (chosenBooks (.int 7) (.int 1990, .int 2000) "Preface" [.int 1, .int 2]
      []).erased =
    (chosenBooks .null (.text "1", .bool true) "') OR TRUE --" [.int 8, .int 9]
      [.null]).erased := rfl
  have h := alike_render herased
  obtain ⟨r, hr⟩ : ∃ r, (chosenBooks (.int 7) (.int 1990, .int 2000) "Preface" [.int 1, .int 2]
    []).render = .ok r := ⟨_, rfl⟩
  rw [hr] at h
  rw [hr]
  cases h with
  | ok hsame => exact ⟨r, _, rfl, rfl, hsame.1, hsame.2.2⟩

end EntityQuery
