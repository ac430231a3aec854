import EntityQuery.Proofs.Precedence.Where
import EntityQuery.Proofs.Precedence.Written

/-!
# Conditions are read back

The text of a condition is read with `AND` before `OR`, and has the truth value of the condition,
whatever the truth values of its leaves are.

* `Group.truthOf`: the truth value of a group, given those of its leaves;
* `Group.Legible`: the leaves of a group are single predicates when they stand alone;
* `Segment.Shows`: a leaf, and the predicate that its text is read as;
* `Spells`: tokens whose text is read with a truth value;
* `Condition.spells`: a condition that is legible and can be written;
* `Group.reads_render`: the text of a group is read with the truth value of the group.
-/

namespace EntityQuery

/-! ### Trees -/

section

variable (value : Condition → Option Bool)

mutual

/-- The truth value of the group when its leaves have these. -/
def Group.truthOf : Group → Option Bool
  | ⟨op, conditions⟩ => op.combine (Condition.truthsOf conditions)

/-- The truth values of conditions. -/
def Condition.truthsOf : List Condition → List (Option Bool)
  | [] => []
  | c :: rest => c.truthOf :: Condition.truthsOf rest

/-- The truth value of the condition; membership in the empty list is no leaf. -/
def Condition.truthOf : Condition → Option Bool
  | .group g => g.truthOf
  | .column c => (c.predicate.decided?.map some).getD (value (.column c))
  | .raw r => value (.raw r)
  | .existence query negate outerAliases => value (.existence query negate outerAliases)

end

end

/-- The name has no blanks, no parentheses and no quotation marks. -/
def IsName (s : String) : Prop := ∀ c ∈ s.toList, c.isWhitespace = false ∧ isMark c = false

mutual

/-- The leaves of the group can be read. -/
def Group.Legible : Group → Prop
  | ⟨_, conditions⟩ => Condition.AllLegible conditions

def Condition.AllLegible : List Condition → Prop
  | [] => True
  | c :: rest => c.Legible ∧ Condition.AllLegible rest

/-- The leaves of the condition can be read: columns by their names, and a fragment is one predicate
when it stands alone.  A subquery closes the parentheses and quotation marks that it opens. -/
def Condition.Legible : Condition → Prop
  | .group g => g.Legible
  | .column c => IsName c.aliasName ∧ IsName c.column
  | .raw r => ∃ cs, segments? r.sql.toList = some [.predicate cs]
  | .existence query _ _ => query.Tidy

end

/-- The group as it is written alone. -/
def Group.render (g : Group) : Except SqlError Rendered :=
  g.tokens.map fun ts => Rendered.ofPieces (ts.flatMap Token.pieces)

/-- The text of tokens. -/
def textOf (ts : List Token) : List Char := lettersOf (ts.flatMap Token.pieces)

/-- What has been read stands for this: a predicate for the leaf whose text is read as the
predicate, anything else for itself. -/
inductive Segment.Shows : Segment Condition → Segment (List Chunk) → Prop
  | predicate {c : Condition} {ts : List Token} {cs : List Chunk} (h : c.tokens = .ok ts)
      (hread : segments? (textOf ts) = some [.predicate cs]) : Shows (.predicate c) (.predicate cs)
  | constant (b : Bool) : Shows (.constant b) (.constant b)
  | connective (op : Connective) : Shows (.connective op) (.connective op)
  | opening : Shows .opening .opening
  | closing : Shows .closing .closing

/-- The text of the tokens is read as a phrase of leaves with this truth value. -/
def Spells (p : Phrase) (ts : List Token) (truth : (Condition → Option Bool) → Option Bool) :
    Prop :=
  ∃ segments leaves, segments? (textOf ts) = some segments ∧
    List.Forall₂ Segment.Shows leaves segments ∧
    ∀ value, Reads p (leaves.map (·.lexeme value)) (truth value)

/-! ### Texts of tokens -/

section

variable {ts ts' : List Token} {op : Connective} {c : Condition} {cs : List Chunk}
  {truth truth' : (Condition → Option Bool) → Option Bool}

theorem toList_ofPieces {ps : List Piece} : (Rendered.ofPieces ps).sql.toList = lettersOf ps := by
  rw [Rendered.ofPieces, String.toList_join, lettersOf, List.flatMap_map]

theorem textOf_connective : textOf (ts ++ .connective op :: ts') =
    textOf ts ++ ' ' :: (op.letters ++ ' ' :: textOf ts') := by
  rw [textOf, List.flatMap_append, lettersOf_append, List.flatMap_cons, lettersOf_append]
  cases op <;> rfl

theorem textOf_parentheses :
    textOf (.opening :: ts ++ [.closing]) = '(' :: (textOf ts ++ [')']) := by
  rw [textOf, List.flatMap_append, lettersOf_append]
  rfl

/-- A leaf that is one predicate. -/
theorem Spells.leaf (h : c.tokens = .ok ts) (hread : segments? (textOf ts) = some [.predicate cs]) :
    Spells .term ts fun value => value c :=
  ⟨_, [.predicate c], hread, .cons (.predicate h hread) .nil, fun _ => .factor (.value _)⟩

theorem Spells.constant (b : Bool) : Spells .term [.constant b] fun _ => some b :=
  ⟨[.constant b], [.constant b], by cases b <;> rfl, .cons (.constant b) .nil,
    fun _ => .factor (.value _)⟩

theorem Spells.parentheses (h : Spells .expression ts truth) :
    Spells .term (.opening :: ts ++ [.closing]) truth := by
  obtain ⟨segments, leaves, hread, hshows, hvalue⟩ := h
  have htext := segments?_parentheses hread
  rw [← textOf_parentheses] at htext
  refine ⟨_, .opening :: (leaves ++ [.closing]), htext, ?_, fun value => ?_⟩
  · exact .cons .opening (List.rel_append hshows (.cons .closing .nil))
  · rw [List.map_cons, List.map_append]
    exact .factor (.parentheses (hvalue value))

theorem Spells.phrase (h : Spells .term ts truth) (op : Connective) :
    Spells op.phrase ts truth := by
  obtain ⟨segments, leaves, hread, hshows, hvalue⟩ := h
  exact ⟨segments, leaves, hread, hshows, fun value => Condition.reads_phrase (hvalue value)⟩

theorem Spells.expression (h : Spells op.phrase ts truth) : Spells .expression ts truth := by
  obtain ⟨segments, leaves, hread, hshows, hvalue⟩ := h
  exact ⟨segments, leaves, hread, hshows, fun value => (hvalue value).of_phrase⟩

theorem Spells.connective (h : Spells .term ts truth) (h' : Spells op.phrase ts' truth') :
    Spells op.phrase (ts ++ .connective op :: ts')
      fun value => op.combine [truth value, truth' value] := by
  obtain ⟨segments, leaves, hread, hshows, hvalue⟩ := h
  obtain ⟨segments', leaves', hread', hshows', hvalue'⟩ := h'
  have htext := segments?_connective op hread hread'
  rw [← textOf_connective] at htext
  refine ⟨_, leaves ++ .connective op :: leaves', htext, ?_, fun value => ?_⟩
  · exact List.rel_append hshows (.cons (.connective op) hshows')
  · rw [List.map_append, List.map_cons]
    exact Condition.reads_connective (hvalue value) (hvalue' value)

end

/-! ### Leaves -/

/-- A name with a dot in it is no keyword. -/
theorem Chunk.isPlain_dotted {letters : List Char} (h : '.' ∈ letters) :
    (Chunk.word letters).isPlain = true := by
  have hkeyword : ∀ keyword : String, '.' ∉ keyword.toList →
      (Chunk.word letters).isKeyword keyword = false := by
    intro keyword hdot
    refine decide_eq_false fun heq => hdot ?_
    rw [← heq]
    exact List.mem_map_of_mem (f := Char.toUpper) h
  simp [isPlain, connective?, hkeyword]

/-- The name of a column is a word. -/
theorem ColumnCondition.chunks?_columnText {c : ColumnCondition} (halias : IsName c.aliasName)
    (hcolumn : IsName c.column) :
    chunks? c.columnText.toList = some [.word c.columnText.toList] ∧ '.' ∈ c.columnText.toList := by
  have htext : c.columnText.toList = c.aliasName.toList ++ '.' :: c.column.toList := by
    simp [columnText]
  rw [htext]
  refine ⟨chunks?_word (by simp) fun letter hletter => ?_, by simp⟩
  rcases List.mem_append.1 hletter with hletter | hletter
  · exact halias letter hletter
  · rcases List.mem_cons.1 hletter with rfl | hletter
    · exact ⟨by decide, by decide⟩
    · exact hcolumn letter hletter

/-- A predicate on a column with legible names is decided, or one predicate. -/
theorem ColumnCondition.spells {c : ColumnCondition} {ts : List Token}
    (hl : (Condition.column c).Legible) (h : c.tokens = .ok ts) :
    Spells .term ts (Condition.truthOf · (.column c)) := by
  obtain ⟨hname, hdot⟩ := chunks?_columnText hl.1 hl.2
  rcases c.exists_tail h with ⟨b, hb, rfl⟩ | ⟨hb, ps, t, rfl, hps, htail⟩
  · simp only [Condition.truthOf, hb]
    exact .constant b
  · simp only [Condition.truthOf, hb]
    obtain ⟨cs, hcs, hread⟩ := htail.reads
    have htext : segments? (textOf [.leaf ps]) =
        some [.predicate (.word c.columnText.toList :: cs)] := by
      rw [textOf, List.flatMap_singleton, Token.pieces, hps, segments?, chunks?_spaced hname hcs]
      exact hread _ (Chunk.isPlain_dotted hdot)
    exact .leaf (c := .column c) h htext

/-- A tidy subquery is one predicate. -/
theorem Condition.spells_existence {query : Plan} {negate : Bool} {outerAliases : List String}
    {ts : List Token} (ht : query.Tidy)
    (h : (existence query negate outerAliases).tokens = .ok ts) :
    Spells .term ts fun value => value (existence query negate outerAliases) := by
  obtain ⟨inner, hinner, hts⟩ := exists_of_bind_eq_ok h
  obtain rfl := Except.ok.inj hts
  have hcall : ∀ op : String, isPlainText op.toList = true → ∃ cs,
      segments? (op.toList ++ ' ' :: '(' :: (lettersOf inner ++ [')'])) = some [.predicate cs] := by
    intro op hop
    obtain ⟨-, cs, hcs, hlength, hplain⟩ := exists_of_call hop (Plan.enclosed_pieces ht hinner)
    rw [segments?, hcs]
    exact ⟨cs, segmentsOf?_predicate hplain hlength⟩
  cases negate with
  | false =>
    obtain ⟨cs, hread⟩ := hcall "EXISTS" rfl
    exact .leaf h (by simpa [textOf, Token.pieces, lettersOf] using hread)
  | true =>
    obtain ⟨cs, hread⟩ := hcall "NOT EXISTS" rfl
    exact .leaf h (by simpa [textOf, Token.pieces, lettersOf] using hread)

mutual

/-- Conditions are read one by one. -/
theorem Condition.spells_tokensOf {op : Connective} : ∀ {cs : List Condition} {ts : List Token},
    cs ≠ [] → AllLegible cs → tokensOf op cs = .ok ts →
      Spells op.phrase ts fun value => op.combine (truthsOf value cs)
  | [], _, hne, _, _ => absurd rfl hne
  | [c], ts, _, hl, h => by
    rw [tokensOf_singleton] at h
    simp only [truthsOf, Connective.combine_singleton]
    exact (Condition.spells hl.1 h).phrase op
  | c :: c' :: cs, ts, _, hl, h => by
    rw [tokensOf_cons] at h
    obtain ⟨first, hfirst, h⟩ := exists_of_bind_eq_ok h
    obtain ⟨others, hothers, h⟩ := exists_of_bind_eq_ok h
    obtain rfl := Except.ok.inj h
    have hall := (Condition.spells hl.1 hfirst).connective
      (Condition.spells_tokensOf (List.cons_ne_nil c' cs) hl.2 hothers)
    simpa only [truthsOf, ← Connective.combine_cons] using hall

/-- A legible condition that can be written is read as a term with its truth value. -/
theorem Condition.spells : ∀ {c : Condition} {ts : List Token}, c.Legible → c.tokens = .ok ts →
    Spells .term ts (truthOf · c)
  | .column c, ts, hl, h => ColumnCondition.spells hl h
  | .raw r, ts, ⟨cs, hcs⟩, h => by
    obtain rfl := Except.ok.inj h
    have htext : textOf [.leaf [.fragment r.sql r.bindings]] = r.sql.toList := by
      simp [textOf, Token.pieces, lettersOf, Piece.written]
    exact .leaf (c := .raw r) h (htext ▸ hcs)
  | .existence _ _ _, ts, hl, h => Condition.spells_existence hl h
  | .group ⟨op, []⟩, ts, _, h => by
    obtain rfl := Except.ok.inj h
    exact .constant _
  -- Without parentheses of its own, a group of one is the term that its condition is.
  | .group ⟨op, [c]⟩, ts, hl, h => by
    change tokensOf op [c] = .ok ts at h
    rw [tokensOf_singleton] at h
    simp only [truthOf, Group.truthOf, truthsOf, Connective.combine_singleton]
    exact Condition.spells hl.1 h
  | .group ⟨op, c :: c' :: cs⟩, ts, hl, h => by
    obtain ⟨inner, hinner, h⟩ := exists_of_bind_eq_ok h
    obtain rfl := Except.ok.inj h
    have hall := Condition.spells_tokensOf (List.cons_ne_nil c (c' :: cs)) hl hinner
    exact hall.expression.parentheses

end

/-- The text of a group is read with its truth value, whatever the truth values of its leaves. -/
theorem Group.reads_render {g : Group} {r : Rendered} (hl : g.Legible) (h : g.render = .ok r) :
    ∃ segments leaves, segments? r.sql.toList = some segments ∧
      List.Forall₂ Segment.Shows leaves segments ∧
      ∀ value w, Reads .expression (leaves.map (·.lexeme value)) w ↔ w = g.truthOf value := by
  obtain ⟨ts, hts, rfl⟩ := exists_of_map_eq_ok h
  -- At the top nothing stands around the group, so it has no parentheses and is an expression.
  have hspells : Spells .expression ts (Group.truthOf · g) := by
    match g with
    | ⟨op, []⟩ =>
      obtain rfl := Except.ok.inj hts
      exact ((Spells.constant _).phrase op).expression
    | ⟨op, c :: cs⟩ =>
      exact (Condition.spells_tokensOf (List.cons_ne_nil c cs) hl hts).expression
  obtain ⟨segments, leaves, hread, hshows, hvalue⟩ := hspells
  refine ⟨segments, leaves, ?_, hshows, fun value w => ⟨fun hw => ?_, ?_⟩⟩
  · rw [toList_ofPieces]
    exact hread
  · exact hw.unique (hvalue value)
  · rintro rfl
    exact hvalue value

/-- Books of a length, of a title or with long chapters, that have no chapter left to write. -/
def finishedBooks : Group :=
  .all [.column (.asked "b" "pages" "int" (.between (.int 100) (.int 300))),
    .any [.column (.asked "b" "title" "text" (.eq (.text "Emma"))), .any [],
      .all [.raw ⟨["b"], "b.pages > 9 * (b.chapters + 1)", [], false⟩]],
    .existence ⟨[], [.primary "c" "chapters"],
      some (.all [.raw (.correlation ⟨"c", "book_id"⟩ ⟨"b", "id"⟩),
        .any [.column (.asked "c" "pages" "int" .isNull),
          .column (.asked "c" "pages" "int" (.eq (.int 0)))]]), [], none, none⟩ true ["b"],
    .column (.asked "b" "year" "int" (.notIn []))]

/-- Nothing leaks out of the subquery, out of the group of one or out of the empty one. -/
theorem Group.reads_render_finishedBooks : finishedBooks.Legible ∧
    ∃ r segments leaves, finishedBooks.render = .ok r ∧
      r.sql = "b.pages BETWEEN ? AND ? AND (b.title = ? OR FALSE OR " ++
        "b.pages > 9 * (b.chapters + 1)) AND NOT EXISTS (SELECT * FROM \"chapters\" AS c " ++
        "WHERE c.book_id = b.id AND (c.pages IS NULL OR c.pages = ?)) AND TRUE" ∧
      segments? r.sql.toList = some segments ∧ List.Forall₂ Segment.Shows leaves segments ∧
      ∀ value w, Reads .expression (leaves.map (·.lexeme value)) w ↔
        w = finishedBooks.truthOf value := by
  have hletters : ∀ s : String, s.toList.all (fun c => !c.isWhitespace && !isMark c) = true →
      IsName s := by
    intro s h c hc
    simpa using List.all_eq_true.1 h c hc
  have hquery : Plan.Tidy ⟨[], [.primary "c" "chapters"],
      some (.all [.raw (.correlation ⟨"c", "book_id"⟩ ⟨"b", "id"⟩),
        .any [.column (.asked "c" "pages" "int" .isNull),
          .column (.asked "c" "pages" "int" (.eq (.int 0)))]]), [], none, none⟩ :=
    ⟨trivial, ⟨⟨by decide, .of_all rfl⟩, trivial⟩,
      ⟨.of_all rfl, ⟨⟨.of_all rfl, .of_all rfl⟩, ⟨.of_all rfl, .of_all rfl⟩, trivial⟩, trivial⟩,
      nofun, nofun, nofun⟩
  have hlegible : finishedBooks.Legible :=
    ⟨⟨hletters _ rfl, hletters _ rfl⟩,
      ⟨⟨hletters _ rfl, hletters _ rfl⟩, trivial, ⟨⟨_, rfl⟩, trivial⟩, trivial⟩,
      hquery, ⟨hletters _ rfl, hletters _ rfl⟩, trivial⟩
  obtain ⟨r, hr⟩ : ∃ r, finishedBooks.render = .ok r := ⟨_, rfl⟩
  obtain ⟨segments, leaves, hread, hshows, hvalue⟩ := reads_render hlegible hr
  refine ⟨hlegible, r, segments, leaves, hr, ?_, hread, hshows, hvalue⟩
  obtain rfl := Except.ok.inj hr
  decide +kernel

end EntityQuery
