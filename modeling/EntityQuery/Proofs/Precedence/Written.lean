import EntityQuery.Sql.Render
import EntityQuery.Proofs.Failure.Basic
import EntityQuery.Proofs.Precedence.Segment

/-!
# The texts of plans

What a plan is written as closes the parentheses and quotation marks that it opens, if its names and
fragments do.

* `lettersOf`: the text of pieces;
* `Closed`: a name or a fragment whose parentheses and quotation marks match;
* `IsTail`: what stands behind the column of a predicate;
* `ColumnCondition.exists_tail`: a predicate on a column is decided, or a column with a tail;
* `Plan.Tidy`, `Plan.enclosed_pieces`: a plan whose names and fragments are closed, and its text.
-/

namespace EntityQuery

/-! ### Closed texts -/

/-- The text of pieces. -/
def lettersOf (ps : List Piece) : List Char := ps.flatMap (·.written.toList)

@[simp]
theorem Piece.written_text {s : String} : (text s).written = s := rfl

theorem lettersOf_append {ps qs : List Piece} :
    lettersOf (ps ++ qs) = lettersOf ps ++ lettersOf qs := List.flatMap_append

theorem lettersOf_cons {p : Piece} {ps : List Piece} :
    lettersOf (p :: ps) = p.written.toList ++ lettersOf ps := List.flatMap_cons

/-- The parentheses and quotation marks of the text match. -/
def Closed (s : String) : Prop := Enclosed s.toList

namespace Closed

variable {s s' : String}

/-- Text without marks. -/
theorem of_all (h : s.toList.all (!isMark ·) = true) : Closed s := Enclosed.of_all h

theorem append (h : Closed s) (h' : Closed s') : Closed (s ++ s') := by
  rw [Closed, String.toList_append]
  exact Enclosed.append h h'

theorem intercalate {texts : List String} (hs : Closed s) (h : ∀ t ∈ texts, Closed t) :
    Closed (s.intercalate texts) := by
  induction texts with
  | nil => exact Enclosed.nil
  | cons t texts ih =>
    obtain ⟨ht, htexts⟩ := List.forall_mem_cons.1 h
    cases texts with
    | nil => exact ht
    | cons t' texts =>
      rw [String.intercalate_cons_cons]
      exact (ht.append hs).append (ih htexts)

end Closed

namespace Enclosed

variable {ps qs : List Piece} {pss : List (List Piece)} {s s' : String}

theorem pieces_append (h : Enclosed (lettersOf ps)) (h' : Enclosed (lettersOf qs)) :
    Enclosed (lettersOf (ps ++ qs)) := by
  rw [lettersOf_append]
  exact h.append h'

theorem pieces_cons {p : Piece} (hp : Closed p.written) (h : Enclosed (lettersOf ps)) :
    Enclosed (lettersOf (p :: ps)) := by
  rw [lettersOf_cons]
  exact Enclosed.append hp h

theorem piece {p : Piece} (hp : Closed p.written) : Enclosed (lettersOf [p]) :=
  pieces_cons hp .nil

theorem separated (hs : Closed s) (h : ∀ ps ∈ pss, Enclosed (lettersOf ps)) :
    Enclosed (lettersOf (separated s pss)) := by
  induction pss with
  | nil => exact .nil
  | cons ps pss ih =>
    obtain ⟨hps, hpss⟩ := List.forall_mem_cons.1 h
    cases pss with
    | nil => exact hps
    | cons qs pss => exact hps.pieces_append (pieces_cons hs (ih hpss))

/-- Pieces in parentheses, with text on both sides. -/
theorem wrapped {left right : String} (before : List Char) {behind : List Char}
    (hleft : left.toList = before ++ ['(']) (hright : right.toList = ')' :: behind)
    (hbefore : Enclosed before) (h : Enclosed (lettersOf ps)) (hbehind : Enclosed behind) :
    Enclosed (lettersOf (.text left :: (ps ++ [.text right]))) := by
  rw [lettersOf_cons, lettersOf_append, lettersOf_cons, Piece.written_text, Piece.written_text,
    hleft, hright]
  simpa [lettersOf] using (hbefore.append (.parentheses h)).append hbehind

end Enclosed

/-! ### Predicates on columns -/

/-- The text is made of words, without a connective and without `BETWEEN`. -/
def isPlainText (t : List Char) : Bool :=
  t.all (!isMark ·) &&
    match chunks? t with
    | some cs => !cs.isEmpty && cs.all Chunk.isPlain
    | none => false

theorem exists_of_isPlainText {t : List Char} (h : isPlainText t = true) :
    Enclosed t ∧ ∃ cs, chunks? t = some cs ∧ cs ≠ [] ∧ ∀ c ∈ cs, c.isPlain = true := by
  unfold isPlainText at h
  obtain ⟨hmarks, hchunks⟩ := Bool.and_eq_true_iff.1 h
  refine ⟨.of_all hmarks, ?_⟩
  cases hcs : chunks? t with
  | none =>
    rw [hcs] at hchunks
    cases hchunks
  | some cs =>
    rw [hcs] at hchunks
    obtain ⟨hne, hplain⟩ := Bool.and_eq_true_iff.1 hchunks
    exact ⟨cs, rfl, by simpa using hne, List.all_eq_true.1 hplain⟩

/-- Words in front of parentheses. -/
theorem exists_of_call {op : String} {t : List Char} (hop : isPlainText op.toList = true)
    (h : Enclosed t) : Enclosed (op.toList ++ ' ' :: '(' :: (t ++ [')'])) ∧
      ∃ cs, chunks? (op.toList ++ ' ' :: '(' :: (t ++ [')'])) = some cs ∧ 2 ≤ cs.length ∧
        ∀ c ∈ cs, c.isPlain = true := by
  obtain ⟨hwords, cs, hcs, hne, hplain⟩ := exists_of_isPlainText hop
  obtain ⟨inner, hinner⟩ := h.exists_chunks
  refine ⟨hwords.append (.cons rfl (.parentheses h)), _,
    chunks?_spaced hcs (chunks?_parentheses hinner), ?_, ?_⟩
  · rw [List.length_append]
    exact Nat.succ_le_succ (List.length_pos_of_ne_nil hne)
  · exact List.forall_mem_append.2 ⟨hplain, List.forall_mem_singleton.2 rfl⟩

/-- What stands behind the column of a predicate: with a name in front of it, it is one
predicate. -/
structure IsTail (t : List Char) : Prop where
  enclosed : Enclosed t
  reads : ∃ cs, chunks? t = some cs ∧ ∀ c : Chunk, c.isPlain = true →
    segmentsOf? (c :: cs) = some [.predicate (c :: cs)]

namespace IsTail

variable {t : List Char}

/-- Chunks that are no keywords. -/
theorem of_chunks {cs : List Chunk} (h : Enclosed t) (hcs : chunks? t = some cs) (hne : cs ≠ [])
    (hplain : ∀ c ∈ cs, c.isPlain = true) : IsTail t := by
  refine ⟨h, cs, hcs, fun c hc => segmentsOf?_predicate (fun c' hc' => ?_) ?_⟩
  · rcases List.mem_cons.1 hc' with rfl | hc'
    · exact hc
    · exact hplain c' hc'
  · exact Nat.succ_le_succ (List.length_pos_of_ne_nil hne)

theorem of_isPlainText (h : isPlainText t = true) : IsTail t := by
  obtain ⟨henclosed, cs, hcs, hne, hplain⟩ := exists_of_isPlainText h
  exact of_chunks henclosed hcs hne hplain

theorem of_call {op : String} (hop : isPlainText op.toList = true) (h : Enclosed t) :
    IsTail (op.toList ++ ' ' :: '(' :: (t ++ [')'])) := by
  obtain ⟨henclosed, cs, hcs, hlength, hplain⟩ := exists_of_call hop h
  exact of_chunks henclosed hcs (List.ne_nil_of_length_pos (by omega)) hplain

/-- The `AND` of a `BETWEEN` is part of the predicate. -/
theorem between : IsTail "BETWEEN ? AND ?".toList := by
  refine ⟨.of_all rfl, ["BETWEEN", "?", "AND", "?"].map fun w => .word w.toList, rfl,
    fun c hc => ?_⟩
  rw [segmentsOf?, Splitter.run, Splitter.step_pending hc]
  cases c <;> rfl

end IsTail

/-- The truth value of membership in the empty list. -/
def Predicate.decided? : Predicate → Option Bool
  | .isIn [] => some false
  | .notIn [] => some true
  | _ => none

namespace ColumnCondition

variable {c : ColumnCondition} {ts : List Token}

theorem written_operand {v : Value} {p : Piece} (h : c.operand v = .ok p) : p.written = "?" := by
  unfold operand at h
  split at h
  · cases h
  · obtain rfl := Except.ok.inj h
    rfl

/-- The predicate is written as the column with a tail. -/
def HasTail (c : ColumnCondition) (ts : List Token) : Prop :=
  ∃ ps t, ts = [.leaf ps] ∧ lettersOf ps = c.columnText.toList ++ ' ' :: t ∧ IsTail t

theorem hasTail_binary {op : String} {v : Value} (hop : isPlainText (op ++ " ?").toList = true)
    (h : c.binary op v = .ok ts) : c.HasTail ts := by
  obtain ⟨p, hp, h⟩ := exists_of_bind_eq_ok h
  obtain rfl := Except.ok.inj h
  refine ⟨_, _, rfl, ?_, .of_isPlainText hop⟩
  simp [lettersOf, written_operand hp]

theorem hasTail_membership {op : String} {empty : Bool} {v : Value} {vs : List Value}
    (hop : isPlainText op.toList = true) (h : c.membership op empty (v :: vs) = .ok ts) :
    c.HasTail ts := by
  obtain ⟨operands, hoperands, h⟩ := exists_of_bind_eq_ok h
  obtain rfl := Except.ok.inj h
  have hlist : Enclosed (lettersOf (separated ", " (operands.map fun p => [p]))) := by
    refine .separated (.of_all rfl) fun ps hps => ?_
    obtain ⟨p, hp, rfl⟩ := List.mem_map.1 hps
    obtain ⟨w, -, hw⟩ := exists_of_forall₂ (forall₂_of_mapM_eq_ok hoperands) p hp
    exact .piece (written_operand hw ▸ .of_all rfl)
  refine ⟨_, _, rfl, ?_, .of_call hop hlist⟩
  rw [List.cons_append, lettersOf_cons, lettersOf_append]
  simp [lettersOf]

/-- A predicate on a column is decided, or written as the column with a tail. -/
theorem exists_tail (h : c.tokens = .ok ts) :
    (∃ b, c.predicate.decided? = some b ∧ ts = [.constant b]) ∨
      c.predicate.decided? = none ∧ c.HasTail ts := by
  unfold tokens at h
  cases hp : c.predicate with
  | compare op v =>
    rw [hp] at h
    exact .inr ⟨rfl, hasTail_binary (by cases op <;> rfl) h⟩
  | isIn vs =>
    rw [hp] at h
    cases vs with
    | nil => exact .inl ⟨false, rfl, (Except.ok.inj h).symm⟩
    | cons v vs => exact .inr ⟨rfl, hasTail_membership rfl h⟩
  | notIn vs =>
    rw [hp] at h
    cases vs with
    | nil => exact .inl ⟨true, rfl, (Except.ok.inj h).symm⟩
    | cons v vs => exact .inr ⟨rfl, hasTail_membership rfl h⟩
  | between low high =>
    rw [hp] at h
    obtain ⟨p, hlow, h⟩ := exists_of_bind_eq_ok h
    obtain ⟨q, hhigh, h⟩ := exists_of_bind_eq_ok h
    obtain rfl := Except.ok.inj h
    refine .inr ⟨rfl, _, _, rfl, ?_, .between⟩
    simp [lettersOf, written_operand hlow, written_operand hhigh]
  | isNull =>
    rw [hp] at h
    obtain rfl := Except.ok.inj h
    refine .inr ⟨rfl, _, "IS NULL".toList, rfl, ?_, .of_isPlainText rfl⟩
    simp [lettersOf]
  | notNull =>
    rw [hp] at h
    obtain rfl := Except.ok.inj h
    refine .inr ⟨rfl, _, "IS NOT NULL".toList, rfl, ?_, .of_isPlainText rfl⟩
    simp [lettersOf]
  | pattern op s =>
    rw [hp] at h
    exact .inr ⟨rfl, hasTail_binary (by cases op <;> rfl) h⟩
  | containment op vs =>
    rw [hp] at h
    exact .inr ⟨rfl, hasTail_binary (by cases op <;> rfl) h⟩

end ColumnCondition

/-! ### Names and fragments -/

/-- The names of the column are closed. -/
def ColumnRef.Tidy (c : ColumnRef) : Prop := Closed c.aliasName ∧ Closed c.column

/-- The names in the join are closed, and the name of the table stands in quotation marks. -/
def Join.Tidy (j : Join) : Prop :=
  '"' ∉ j.table.toList ∧ Closed j.aliasName ∧ j.parent.Tidy ∧ j.own.Tidy

/-- The names of the types stand in quotation marks. -/
def DiscriminatorCase.Tidy (c : DiscriminatorCase) : Prop :=
  Closed c.aliasName ∧ '\'' ∉ c.typeName.toList

/-- The name and the text of the query are closed. -/
def Cte.Tidy (c : Cte) : Prop := Closed c.aliasName ∧ Closed c.sql

/-- The names in the key are closed. -/
def SortKey.Tidy (k : SortKey) : Prop := Closed k.aliasName ∧ Closed k.column

mutual

/-- The names and fragments of the plan and of the plans inside it close the parentheses and
quotation marks that they open; where a name is written in quotation marks, it has none. -/
def Plan.Tidy : Plan → Prop
  | ⟨selects, tables, condition, sortKeys, groupBys, ctes⟩ =>
    Select.AllTidy selects ∧ Table.AllTidy tables ∧ Group.TopTidy condition ∧
      (∀ k ∈ sortKeys, k.Tidy) ∧ (∀ c ∈ groupBys.getD [], c.Tidy) ∧ ∀ c ∈ ctes.getD [], c.Tidy

def Table.AllTidy : List Table → Prop
  | [] => True
  | t :: rest => t.Tidy ∧ Table.AllTidy rest

/-- The names of the table are closed. -/
def Table.Tidy : Table → Prop
  | .primary aliasName table => '"' ∉ table.toList ∧ Closed aliasName
  | .join j => j.Tidy
  | .cross aliasName table => '"' ∉ table.toList ∧ Closed aliasName
  | .lateral aliasName _ query => Closed aliasName ∧ query.Tidy

def Select.AllTidy : List Select → Prop
  | [] => True
  | s :: rest => s.Tidy ∧ Select.AllTidy rest

/-- The names of the result column are closed. -/
def Select.Tidy : Select → Prop
  | .star aliasName => Closed aliasName
  | .column c name => c.Tidy ∧ ∀ n ∈ name, Closed n
  | .discriminator cases defaultType name =>
    (∀ c ∈ cases, c.Tidy) ∧ '\'' ∉ defaultType.toList ∧ Closed name
  | .boolOr condition name => condition.Tidy ∧ Closed name
  | .countIsZero name => Closed name
  | .raw sql _ name => Closed sql ∧ ∀ n ∈ name, Closed n

def Group.TopTidy : Option Group → Prop
  | none => True
  | some g => g.Tidy

/-- The names and fragments in the group are closed. -/
def Group.Tidy : Group → Prop
  | ⟨_, conditions⟩ => Condition.AllTidy conditions

def Condition.AllTidy : List Condition → Prop
  | [] => True
  | c :: rest => c.Tidy ∧ Condition.AllTidy rest

/-- The names and fragments in the condition are closed. -/
def Condition.Tidy : Condition → Prop
  | .group g => g.Tidy
  | .column c => Closed c.aliasName ∧ Closed c.column
  | .raw r => Closed r.sql
  | .existence query _ _ => query.Tidy

end

theorem Table.allTidy_iff {ts : List Table} : Table.AllTidy ts ↔ ∀ t ∈ ts, t.Tidy := by
  induction ts with
  | nil => simp [Table.AllTidy]
  | cons t ts ih => simp [Table.AllTidy, ih]

/-! ### Parts of plans -/

namespace Closed

variable {name : String}

theorem dotted {s s' : String} (h : Closed s) (h' : Closed s') : Closed (s ++ "." ++ s') :=
  (h.append (.of_all rfl)).append h'

theorem columnRef {c : ColumnRef} (h : c.Tidy) : Closed c.text := h.1.dotted h.2

theorem named {name : Option String} {sql : String} (h : Closed sql)
    (hname : ∀ n ∈ name, Closed n) : Closed (named name sql) := by
  cases name with
  | none => exact h
  | some name => exact (h.append (.of_all rfl)).append (hname name rfl)

theorem tableText {table aliasName : String} (htable : '"' ∉ table.toList)
    (halias : Closed aliasName) : Closed (tableText table aliasName) := by
  have has : Closed " AS " := .of_all rfl
  simpa [Closed, EntityQuery.tableText] using
    (Enclosed.quoted rfl htable).append (Enclosed.append has halias)

theorem join {j : Join} (h : j.Tidy) : Closed j.text := by
  obtain ⟨htable, halias, hparent, hown⟩ := h
  unfold Join.text
  refine ((((append ?_ (tableText htable halias)).append (.of_all rfl)).append
    (columnRef hparent)).append (.of_all rfl)).append (columnRef hown)
  cases j.kind <;> exact .of_all rfl

theorem discriminator {cases : List DiscriminatorCase} {defaultType : String}
    (hcases : ∀ c ∈ cases, c.Tidy) (hdefault : '\'' ∉ defaultType.toList) (hname : Closed name) :
    Closed (discriminatorText cases defaultType name) := by
  have hcase : ∀ c : DiscriminatorCase, c.Tidy →
      Closed ("WHEN " ++ c.aliasName ++ ".id IS NOT NULL THEN '" ++ c.typeName ++ "'") := by
    rintro c ⟨halias, htype⟩
    have hwhen : Closed "WHEN " := .of_all rfl
    have hthen : Closed ".id IS NOT NULL THEN " := .of_all rfl
    simpa [Closed] using (Enclosed.append hwhen halias).append
      (Enclosed.append hthen (.quoted rfl htype))
  have hwhens : Closed (" ".intercalate (cases.map fun c =>
      "WHEN " ++ c.aliasName ++ ".id IS NOT NULL THEN '" ++ c.typeName ++ "'")) := by
    refine intercalate (.of_all rfl) fun text htext => ?_
    obtain ⟨c, hc, rfl⟩ := List.mem_map.1 htext
    exact hcase c (hcases c hc)
  have hcaseOf : Closed "CASE " := .of_all rfl
  have helse : Closed " ELSE " := .of_all rfl
  have hend : Closed " END AS " := .of_all rfl
  simpa [Closed, discriminatorText] using (Enclosed.append hcaseOf hwhens).append
    ((Enclosed.append helse (.quoted rfl hdefault)).append (Enclosed.append hend hname))

end Closed

namespace Enclosed

theorem ctePieces {ctes : Option (List Cte)} (h : ∀ c ∈ ctes.getD [], c.Tidy) :
    Enclosed (lettersOf (Cte.piecesOf ctes)) := by
  have hcte : ∀ c : Cte, c.Tidy → Enclosed (lettersOf
      [.text (c.aliasName ++ " AS ("), .fragment c.sql c.bindings, .text ")"]) := by
    rintro c ⟨halias, hsql⟩
    have has : Closed " AS " := .of_all rfl
    simpa [lettersOf, Piece.written] using
      (Enclosed.append halias has).append (.parentheses hsql)
  match ctes with
  | none => exact .nil
  | some [] => exact .nil
  | some (c :: cs) =>
    refine pieces_append (pieces_cons (.of_all rfl) ?_) (piece (.of_all rfl))
    refine separated (.of_all rfl) fun ps hps => ?_
    obtain ⟨c', hc', rfl⟩ := List.mem_map.1 hps
    exact hcte c' (h c' hc')

theorem groupByPieces {columns : Option (List ColumnRef)} (h : ∀ c ∈ columns.getD [], c.Tidy) :
    Enclosed (lettersOf (groupByPieces columns)) := by
  match columns with
  | none => exact .nil
  | some [] => exact .nil
  | some (c :: cs) =>
    refine piece (Closed.append (.of_all rfl) (.intercalate (.of_all rfl) fun text htext => ?_))
    obtain ⟨c', hc', rfl⟩ := List.mem_map.1 htext
    exact .columnRef (h c' hc')

theorem sortPieces {keys : List SortKey} (h : ∀ k ∈ keys, k.Tidy) :
    Enclosed (lettersOf (sortPieces keys)) := by
  cases keys with
  | nil => exact .nil
  | cons k ks =>
    refine piece (Closed.append (.of_all rfl) (.intercalate (.of_all rfl) fun text htext => ?_))
    obtain ⟨k', hk', rfl⟩ := List.mem_map.1 htext
    obtain ⟨halias, hcolumn⟩ := h k' hk'
    refine (Closed.append (.dotted halias hcolumn) (.of_all rfl)).append ?_
    cases k'.direction <;> exact .of_all rfl

theorem column {c : ColumnCondition} {ts : List Token} (halias : Closed c.aliasName)
    (hcolumn : Closed c.column) (h : c.tokens = .ok ts) :
    Enclosed (lettersOf (ts.flatMap Token.pieces)) := by
  rcases c.exists_tail h with ⟨b, -, rfl⟩ | ⟨-, ps, t, rfl, hps, htail⟩
  · cases b <;> exact piece (.of_all rfl)
  · rw [List.flatMap_singleton, Token.pieces, hps]
    exact Enclosed.append (Closed.dotted halias hcolumn) (.cons rfl htail.enclosed)

end Enclosed

/-! ### Plans -/

mutual

/-- The text of a tidy plan closes what it opens. -/
theorem Plan.enclosed_pieces : ∀ {p : Plan} {ps : List Piece}, p.Tidy → p.pieces = .ok ps →
    Enclosed (lettersOf ps)
  | ⟨selects, tables, condition, sortKeys, groupBys, ctes⟩, ps, ht, h => by
    obtain ⟨hselects, htables, htop, hsort, hgroup, hctes⟩ := ht
    rw [Plan.pieces] at h
    obtain ⟨columns, hcolumns, h⟩ := exists_of_bind_eq_ok h
    have hshown : Enclosed (lettersOf
        (if columns.isEmpty then [.text "*"] else separated ", " columns)) := by
      split
      · exact .piece (.of_all rfl)
      · exact .separated (.of_all rfl) (Select.enclosed_piecesOf hselects hcolumns)
    dsimp only at h
    generalize ite (columns.isEmpty = true) _ _ = shown at hshown h
    split at h
    · next aliasName table hfind =>
      obtain ⟨joins, hjoins, h⟩ := exists_of_bind_eq_ok h
      obtain ⟨filter, hfilter, h⟩ := exists_of_bind_eq_ok h
      obtain rfl := Except.ok.inj h
      obtain ⟨htable, halias⟩ : '"' ∉ table.toList ∧ Closed aliasName :=
        Table.allTidy_iff.1 htables _ (List.mem_of_find?_eq_some hfind)
      refine .pieces_append (.pieces_append (.pieces_append (.pieces_append (.pieces_append ?_ ?_)
        ?_) ?_) ?_) ?_
      · exact .ctePieces hctes
      · exact .pieces_cons (.of_all rfl) hshown
      · exact .pieces_cons (Closed.append (.of_all rfl) (.tableText htable halias))
          (Table.enclosed_piecesOf htables hjoins)
      · exact Group.enclosed_piecesOf htop hfilter
      · exact .groupByPieces hgroup
      · exact .sortPieces hsort
    · cases h

theorem Table.enclosed_piecesOf : ∀ {ts : List Table} {ps : List Piece}, Table.AllTidy ts →
    Table.piecesOf ts = .ok ps → Enclosed (lettersOf ps)
  | [], ps, _, h => by
    obtain rfl := Except.ok.inj h
    exact .nil
  | .primary _ _ :: ts, ps, ht, h => Table.enclosed_piecesOf ht.2 h
  | .join j :: ts, ps, ht, h => by
    obtain ⟨rest, hrest, h⟩ := exists_of_bind_eq_ok h
    obtain rfl := Except.ok.inj h
    exact .pieces_cons (Closed.append (.of_all rfl) (.join ht.1))
      (Table.enclosed_piecesOf ht.2 hrest)
  | .cross a table :: ts, ps, ht, h => by
    obtain ⟨rest, hrest, h⟩ := exists_of_bind_eq_ok h
    obtain rfl := Except.ok.inj h
    exact .pieces_cons (Closed.append (.of_all rfl) (.tableText ht.1.1 ht.1.2))
      (Table.enclosed_piecesOf ht.2 hrest)
  | .lateral a _ query :: ts, ps, ht, h => by
    obtain ⟨inner, hinner, h⟩ := exists_of_bind_eq_ok h
    obtain ⟨rest, hrest, h⟩ := exists_of_bind_eq_ok h
    obtain rfl := Except.ok.inj h
    have has : Closed " AS " := .of_all rfl
    -- The parentheses stand in the texts around the subquery, and match only together.
    have hquery : Enclosed (lettersOf
        (.text " CROSS JOIN LATERAL (" :: (inner ++ [.text (") AS " ++ a)]))) :=
      .wrapped " CROSS JOIN LATERAL ".toList rfl String.toList_append (.of_all rfl)
        (Plan.enclosed_pieces ht.1.2 hinner) (Enclosed.append has ht.1.1)
    have hall := hquery.pieces_append (Table.enclosed_piecesOf ht.2 hrest)
    rwa [← List.cons_append, List.append_assoc] at hall

theorem Select.enclosed_piecesOf : ∀ {ss : List Select} {pss : List (List Piece)},
    Select.AllTidy ss → Select.piecesOf ss = .ok pss → ∀ ps ∈ pss, Enclosed (lettersOf ps)
  | [], pss, _, h => by
    obtain rfl := Except.ok.inj h
    exact nofun
  | s :: ss, pss, ht, h => by
    obtain ⟨ps, hps, h⟩ := exists_of_bind_eq_ok h
    obtain ⟨rest, hrest, h⟩ := exists_of_bind_eq_ok h
    obtain rfl := Except.ok.inj h
    exact List.forall_mem_cons.2
      ⟨Select.enclosed_pieces ht.1 hps, Select.enclosed_piecesOf ht.2 hrest⟩

theorem Select.enclosed_pieces : ∀ {s : Select} {ps : List Piece}, s.Tidy → s.pieces = .ok ps →
    Enclosed (lettersOf ps)
  | .star a, ps, ht, h => by
    obtain rfl := Except.ok.inj h
    exact .piece (Closed.append ht (.of_all rfl))
  | .column c name, ps, ht, h => by
    obtain rfl := Except.ok.inj h
    exact .piece (.named (.columnRef ht.1) ht.2)
  | .discriminator cases defaultType name, ps, ht, h => by
    obtain rfl := Except.ok.inj h
    exact .piece (.discriminator ht.1 ht.2.1 ht.2.2)
  | .boolOr condition name, ps, ht, h => by
    obtain ⟨ts, hts, h⟩ := exists_of_bind_eq_ok h
    obtain rfl := Except.ok.inj h
    have has : Closed " AS " := .of_all rfl
    exact .wrapped "bool_or".toList rfl String.toList_append (.of_all rfl)
      (Group.enclosed_tokens ht.1 hts) (Enclosed.append has ht.2)
  | .countIsZero name, ps, ht, h => by
    obtain rfl := Except.ok.inj h
    have hcount : Enclosed "count".toList := .of_all rfl
    have hzero : Enclosed " = 0 AS ".toList := .of_all rfl
    have hcall := (hcount.append (.parentheses (.of_all rfl : Enclosed ['*']))).append hzero
    exact .piece (Closed.append hcall ht)
  | .raw sql _ name, ps, ht, h => by
    obtain rfl := Except.ok.inj h
    exact .piece (.named ht.1 ht.2)

theorem Group.enclosed_piecesOf : ∀ {g : Option Group} {ps : List Piece}, Group.TopTidy g →
    Group.piecesOf g = .ok ps → Enclosed (lettersOf ps)
  | none, ps, _, h => by
    obtain rfl := Except.ok.inj h
    exact .nil
  | some ⟨_, []⟩, ps, _, h => by
    obtain rfl := Except.ok.inj h
    exact .nil
  | some ⟨op, c :: cs⟩, ps, ht, h => by
    obtain ⟨ts, hts, h⟩ := exists_of_bind_eq_ok h
    obtain rfl := Except.ok.inj h
    exact .pieces_cons (.of_all rfl) (Condition.enclosed_tokensOf op ht hts)

theorem Group.enclosed_tokens : ∀ {g : Group} {ts : List Token}, g.Tidy → g.tokens = .ok ts →
    Enclosed (lettersOf (ts.flatMap Token.pieces))
  | ⟨op, []⟩, ts, _, h => by
    obtain rfl := Except.ok.inj h
    cases op <;> exact .piece (.of_all rfl)
  | ⟨op, c :: cs⟩, ts, ht, h => Condition.enclosed_tokensOf op ht h

theorem Condition.enclosed_tokensOf (op : Connective) : ∀ {cs : List Condition} {ts : List Token},
    Condition.AllTidy cs → Condition.tokensOf op cs = .ok ts →
      Enclosed (lettersOf (ts.flatMap Token.pieces))
  | [], ts, _, h => by
    obtain rfl := Except.ok.inj h
    exact .nil
  | [c], ts, ht, h => by
    obtain ⟨ts', hts, h⟩ := exists_of_bind_eq_ok h
    obtain rfl := Except.ok.inj h
    exact Condition.enclosed_tokens ht.1 hts
  | c :: c' :: cs, ts, ht, h => by
    obtain ⟨first, hfirst, h⟩ := exists_of_bind_eq_ok h
    obtain ⟨others, hothers, h⟩ := exists_of_bind_eq_ok h
    obtain rfl := Except.ok.inj h
    rw [List.flatMap_append, List.flatMap_cons]
    refine .pieces_append (Condition.enclosed_tokens ht.1 hfirst) (.pieces_append ?_ ?_)
    · cases op <;> exact .piece (.of_all rfl)
    · exact Condition.enclosed_tokensOf op ht.2 hothers

theorem Condition.enclosed_tokens : ∀ {c : Condition} {ts : List Token}, c.Tidy →
    c.tokens = .ok ts → Enclosed (lettersOf (ts.flatMap Token.pieces))
  | .group ⟨op, []⟩, ts, _, h => by
    obtain rfl := Except.ok.inj h
    cases op <;> exact .piece (.of_all rfl)
  | .group ⟨op, [c]⟩, ts, ht, h => Condition.enclosed_tokensOf op ht h
  | .group ⟨op, c :: c' :: cs⟩, ts, ht, h => by
    obtain ⟨inner, hinner, h⟩ := exists_of_bind_eq_ok h
    obtain rfl := Except.ok.inj h
    rw [List.flatMap_append]
    exact .wrapped [] rfl rfl .nil (Condition.enclosed_tokensOf op ht hinner) .nil
  | .column c, ts, ht, h => .column ht.1 ht.2 h
  | .raw r, ts, ht, h => by
    obtain rfl := Except.ok.inj h
    exact .piece ht
  | .existence query negate _, ts, ht, h => by
    obtain ⟨inner, hinner, h⟩ := exists_of_bind_eq_ok h
    obtain rfl := Except.ok.inj h
    have hquery := Plan.enclosed_pieces ht hinner
    rw [List.flatMap_singleton]
    cases negate
    · exact .wrapped "EXISTS ".toList rfl rfl (.of_all rfl) hquery .nil
    · exact .wrapped "NOT EXISTS ".toList rfl rfl (.of_all rfl) hquery .nil

end

end EntityQuery
