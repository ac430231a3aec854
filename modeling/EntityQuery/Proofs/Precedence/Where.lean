import EntityQuery.Sql.Render
import EntityQuery.Proofs.Draft.Tree
import EntityQuery.Proofs.Precedence.Grammar

/-!
# WHERE clauses as they are read

The condition of a plan is written without more parentheses than it needs, and fragments are written
as they were given.  If no fragment has an `OR` outside parentheses, every condition is read as one
term, so a WHERE clause is true where its conditions are.

* `Interpretation`: how the leaves of conditions are read for a row;
* `Condition.Tight`: the fragments of a condition are terms;
* `Condition.ReadsAs`: a condition as it is written and read;
* `Plan.WhereHolds`: the WHERE clause of a plan can be written and is true;
* `Plan.WhereHolds.of_mem`, `Plan.whereHolds_of_topConditions`: it is, where the conditions at the top
  are true.
-/

namespace EntityQuery

/-- How leaves are read for a row: a predicate has a truth value, a fragment is read with what stands
around it. -/
structure Interpretation where
  predicate : List Piece → Option Bool
  fragment : (sql : String) → (bindings : List Value) → List Lexeme

namespace Interpretation

/-- A token as it is read. -/
def lexemes (I : Interpretation) : Token → List Lexeme
  | .leaf [.fragment sql bindings] => I.fragment sql bindings
  | .leaf ps => [.value (I.predicate ps)]
  | .connective op => [.connective op]
  | .opening => [.opening]
  | .closing => [.closing]
  | .constant b => [.value (some b)]

/-- Tokens as they are read. -/
def read (I : Interpretation) (ts : List Token) : List Lexeme := ts.flatMap I.lexemes

variable {I : Interpretation}

theorem read_append {ts ts' : List Token} : I.read (ts ++ ts') = I.read ts ++ I.read ts' :=
  List.flatMap_append

theorem read_connective {op : Connective} {ts ts' : List Token} :
    I.read (ts ++ .connective op :: ts') = I.read ts ++ .connective op :: I.read ts' := read_append

theorem read_parentheses {ts : List Token} :
    I.read (.opening :: ts ++ [.closing]) = .opening :: (I.read ts ++ [.closing]) := by
  rw [read_append]
  rfl

end Interpretation

/-- The phrase that conditions with the connective between them are. -/
def Connective.phrase : Connective → Phrase
  | .and => .term
  | .or => .expression

mutual

/-- Every fragment in the group is a term. -/
def Group.Tight (I : Interpretation) : Group → Prop
  | ⟨_, conditions⟩ => Condition.AllTight I conditions

def Condition.AllTight (I : Interpretation) : List Condition → Prop
  | [] => True
  | c :: rest => c.Tight I ∧ Condition.AllTight I rest

/-- Every fragment in the condition is a term: none has an `OR` outside parentheses. -/
def Condition.Tight (I : Interpretation) : Condition → Prop
  | .group g => g.Tight I
  | .raw r => ∃ v, Reads .term (I.fragment r.sql r.bindings) v
  | _ => True

end

/-- The condition can be written, and is read as a term of that truth value. -/
def Condition.ReadsAs (I : Interpretation) (c : Condition) (v : Option Bool) : Prop :=
  ∃ ts, c.tokens = .ok ts ∧ Reads .term (I.read ts) v

section

variable {I : Interpretation} {op : Connective} {ts : List Token} {v v' : Option Bool}

theorem Reads.of_phrase {ls : List Lexeme} (h : Reads op.phrase ls v) : Reads .expression ls v := by
  cases op with
  | and => exact .term h
  | or => exact h

/-! ### Conditions -/

namespace Condition

variable {c : Condition} {cs : List Condition}

theorem allTight_iff : AllTight I cs ↔ ∀ c ∈ cs, c.Tight I := by
  induction cs with
  | nil => simp [AllTight]
  | cons c cs ih => simp [AllTight, ih]

theorem ReadsAs.unique (h : c.ReadsAs I v) (h' : c.ReadsAs I v') : v = v' := by
  obtain ⟨ts, hts, hread⟩ := h
  obtain ⟨ts', hts', hread'⟩ := h'
  obtain rfl := Except.ok.inj (hts.symm.trans hts')
  exact (Reads.term hread).unique (.term hread')

theorem tokensOf_singleton : tokensOf op [c] = c.tokens := by
  rw [tokensOf]
  cases c.tokens <;> rfl

theorem tokensOf_cons {c' : Condition} : tokensOf op (c :: c' :: cs) = do
    return (← c.tokens) ++ .connective op :: (← tokensOf op (c' :: cs)) := by
  rw [tokensOf]

/-- A predicate on a column is one leaf, or decided. -/
theorem exists_column {c : ColumnCondition} (h : c.tokens = .ok ts) :
    ∃ v, Reads .factor (I.read ts) v := by
  have hbinary : ∀ {op : String} {v : Value}, c.binary op v = .ok ts →
      ∃ v, Reads .factor (I.read ts) v := by
    intro op v h
    obtain ⟨piece, -, h⟩ := exists_of_bind_eq_ok h
    exact Except.ok.inj h ▸ ⟨_, .value _⟩
  have hmembership : ∀ {op : String} {empty : Bool} {vs : List Value},
      c.membership op empty vs = .ok ts → ∃ v, Reads .factor (I.read ts) v := by
    intro op empty vs h
    cases vs with
    | nil => exact Except.ok.inj h ▸ ⟨_, .value _⟩
    | cons v vs =>
      obtain ⟨operands, -, h⟩ := exists_of_bind_eq_ok h
      exact Except.ok.inj h ▸ ⟨_, .value _⟩
  unfold ColumnCondition.tokens at h
  split at h
  · exact hbinary h
  · exact hmembership h
  · exact hmembership h
  · obtain ⟨low, -, h⟩ := exists_of_bind_eq_ok h
    obtain ⟨high, -, h⟩ := exists_of_bind_eq_ok h
    exact Except.ok.inj h ▸ ⟨_, .value _⟩
  · exact Except.ok.inj h ▸ ⟨_, .value _⟩
  · exact Except.ok.inj h ▸ ⟨_, .value _⟩
  · exact hbinary h
  · exact hbinary h

/-- Phrases with a connective between them are a phrase. -/
theorem reads_connective {ls ls' : List Lexeme} (h : Reads .term ls v) (h' : Reads op.phrase ls' v') :
    Reads op.phrase (ls ++ .connective op :: ls') (Connective.combine op [v, v']) := by
  cases op with
  | and => exact h.and_term h'
  | or => exact (Reads.term h).or_expression h'

theorem reads_phrase {ls : List Lexeme} (h : Reads .term ls v) : Reads op.phrase ls v := by
  cases op with
  | and => exact h
  | or => exact .term h

mutual

/-- Conditions with a connective between them are read one by one. -/
theorem exists_tokensOf : ∀ {cs : List Condition} {op : Connective} {ts : List Token}, cs ≠ [] →
    tokensOf op cs = .ok ts → AllTight I cs → ∃ vs, List.Forall₂ (ReadsAs I) cs vs ∧
      Reads op.phrase (I.read ts) (Connective.combine op vs)
  | [], _, _, hne, _, _ => absurd rfl hne
  | [c], op, _, _, h, ht => by
    rw [tokensOf_singleton] at h
    obtain ⟨v, hv⟩ := exists_tokens h ht.1
    refine ⟨[v], .cons ⟨_, h, hv⟩ .nil, ?_⟩
    rw [Connective.combine_singleton]
    exact reads_phrase hv
  | c :: c' :: cs, op, _, _, h, ht => by
    rw [tokensOf_cons] at h
    obtain ⟨first, hfirst, h⟩ := exists_of_bind_eq_ok h
    obtain ⟨others, hothers, h⟩ := exists_of_bind_eq_ok h
    obtain rfl := Except.ok.inj h
    obtain ⟨v, hv⟩ := exists_tokens hfirst ht.1
    obtain ⟨vs, hvs, hread⟩ := exists_tokensOf (List.cons_ne_nil c' cs) hothers ht.2
    refine ⟨v :: vs, .cons ⟨_, hfirst, hv⟩ hvs, ?_⟩
    rw [Connective.combine_cons, Interpretation.read_connective]
    exact reads_connective hv hread

/-- A condition that can be written is a term. -/
theorem exists_tokens : ∀ {c : Condition} {ts : List Token}, c.tokens = .ok ts → c.Tight I →
    ∃ v, Reads .term (I.read ts) v
  | .column _, _, h, _ => by
    obtain ⟨v, hv⟩ := exists_column h
    exact ⟨v, .factor hv⟩
  | .raw r, _, h, ⟨v, hv⟩ => by
    obtain rfl := Except.ok.inj h
    exact ⟨v, by simpa [Interpretation.read, Interpretation.lexemes] using hv⟩
  | .existence _ _ _, _, h, _ => by
    obtain ⟨inner, -, h⟩ := exists_of_bind_eq_ok h
    exact Except.ok.inj h ▸ ⟨_, .factor (.value _)⟩
  | .group ⟨_, []⟩, _, h, _ => Except.ok.inj h ▸ ⟨_, .factor (.value _)⟩
  | .group ⟨op, [c]⟩, _, h, ht => by
    change tokensOf op [c] = _ at h
    rw [tokensOf_singleton] at h
    exact exists_tokens h ht.1
  | .group ⟨op, c :: c' :: cs⟩, _, h, ht => by
    obtain ⟨ts, hts, h⟩ := exists_of_bind_eq_ok h
    obtain rfl := Except.ok.inj h
    obtain ⟨vs, -, hread⟩ := exists_tokensOf (List.cons_ne_nil c (c' :: cs)) hts ht
    rw [Interpretation.read_parentheses]
    exact ⟨_, .factor (.parentheses hread.of_phrase)⟩

end

/-- A group is read as what it is made of, with or without parentheses. -/
theorem readsAs_group_iff (hne : cs ≠ []) (ht : AllTight I cs) : (group ⟨op, cs⟩).ReadsAs I v ↔
    ∃ ts, tokensOf op cs = .ok ts ∧ Reads .expression (I.read ts) v := by
  match cs with
  | [] => exact absurd rfl hne
  | [c] =>
    have htokens : (group ⟨op, [c]⟩).tokens = tokensOf op [c] := rfl
    rw [ReadsAs, htokens, tokensOf_singleton]
    constructor
    · rintro ⟨ts, hts, hread⟩
      exact ⟨ts, hts, .term hread⟩
    · rintro ⟨ts, hts, hread⟩
      obtain ⟨w, hw⟩ := exists_tokens hts ht.1
      exact ⟨ts, hts, hread.unique (.term hw) ▸ hw⟩
  | c :: c' :: cs =>
    have hparentheses : ∀ {ts : List Token} {v : Option Bool}, Reads .expression (I.read ts) v →
        Reads .term (I.read (.opening :: ts ++ [.closing])) v := fun h => by
      rw [Interpretation.read_parentheses]
      exact .factor (.parentheses h)
    constructor
    · rintro ⟨_, htokens, hread⟩
      obtain ⟨ts, hts, h⟩ := exists_of_bind_eq_ok htokens
      obtain rfl := Except.ok.inj h
      obtain ⟨vs, -, hall⟩ := exists_tokensOf hne hts ht
      exact ⟨ts, hts,
        (Reads.term (hparentheses hall.of_phrase)).unique (.term hread) ▸ hall.of_phrase⟩
    · rintro ⟨ts, hts, hread⟩
      refine ⟨_, ?_, hparentheses hread⟩
      show (tokensOf op (c :: c' :: cs) >>= _) = _
      rw [hts]
      rfl

/-- The conditions of a conjunction that is true are true. -/
theorem readsAs_of_combine {vs : List (Option Bool)} (h : List.Forall₂ (ReadsAs I) cs vs)
    (htrue : Connective.combine .and vs = some true) : ∀ c ∈ cs, c.ReadsAs I (some true) := by
  rw [Connective.combine_and_eq_true_iff] at htrue
  induction h with
  | nil => exact nofun
  | cons hc _ ih =>
    obtain ⟨hv, hvs⟩ := List.forall_mem_cons.1 htrue
    exact List.forall_mem_cons.2 ⟨hv ▸ hc, ih hvs⟩

theorem ReadsAs.of_mem_all (h : (group ⟨.and, cs⟩).ReadsAs I (some true)) (ht : AllTight I cs)
    (hc : c ∈ cs) : c.ReadsAs I (some true) := by
  obtain ⟨ts, hts, hread⟩ := (readsAs_group_iff (List.ne_nil_of_mem hc) ht).1 h
  obtain ⟨vs, hvs, hall⟩ := exists_tokensOf (List.ne_nil_of_mem hc) hts ht
  exact readsAs_of_combine hvs ((Reads.term hall).unique hread) c hc

/-- Conditions that are true are written and true with `AND` between them. -/
theorem exists_tokensOf_and (hne : cs ≠ []) (h : ∀ c ∈ cs, c.ReadsAs I (some true)) :
    ∃ ts, tokensOf .and cs = .ok ts ∧ Reads .term (I.read ts) (some true) := by
  induction cs with
  | nil => exact absurd rfl hne
  | cons c cs ih =>
    obtain ⟨ts, hts, hread⟩ := h c List.mem_cons_self
    cases cs with
    | nil => exact ⟨ts, tokensOf_singleton.trans hts, hread⟩
    | cons c' cs =>
      obtain ⟨others, hothers, hrest⟩ :=
        ih (List.cons_ne_nil _ _) fun c hc => h c (List.mem_cons_of_mem _ hc)
      refine ⟨ts ++ .connective .and :: others, ?_, ?_⟩
      · rw [tokensOf_cons, hts, hothers]
        rfl
      · rw [Interpretation.read_connective]
        exact hread.and_term hrest

end Condition

/-! ### WHERE clauses -/

/-- The tokens of the WHERE clause, if there is one. -/
def Group.whereTokens : Option Group → Except SqlError (Option (List Token))
  | none => .ok none
  | some ⟨_, []⟩ => .ok none
  | some ⟨op, conditions⟩ => (Condition.tokensOf op conditions).map some

/-- The WHERE clause is written from its tokens. -/
theorem Group.piecesOf_eq {g : Option Group} : Group.piecesOf g = (Group.whereTokens g).map
    (Option.elim · [] fun ts => .text " WHERE " :: ts.flatMap Token.pieces) := by
  cases g with
  | none => rfl
  | some g =>
    obtain ⟨op, _ | ⟨c, cs⟩⟩ := g
    · rfl
    · show (Condition.tokensOf op (c :: cs) >>= _) =
        ((Condition.tokensOf op (c :: cs)).map some).map _
      cases Condition.tokensOf op (c :: cs) <;> rfl

namespace Plan

variable {p : Plan} {c : Condition}

/-- The WHERE clause can be written and is true; without one every row is selected. -/
def WhereHolds (I : Interpretation) (p : Plan) : Prop :=
  ∃ ts?, Group.whereTokens p.condition = .ok ts? ∧
    ∀ ts ∈ ts?, Reads .expression (I.read ts) (some true)

/-- Where the WHERE clause is true, so are the conditions at the top of a conjunction. -/
theorem WhereHolds.of_mem (h : p.WhereHolds I) (hp : p.isDisjunctive = false)
    (ht : ∀ c ∈ p.topConditions, c.Tight I) (hc : c ∈ p.topConditions) :
    c.ReadsAs I (some true) := by
  obtain ⟨ts?, hts, hread⟩ := h
  unfold topConditions at ht hc
  unfold isDisjunctive at hp
  match hcondition : p.condition with
  | none =>
    rw [hcondition] at hc
    cases hc
  | some ⟨.or, cs⟩ =>
    rw [hcondition] at hp
    cases hp
  | some ⟨.and, []⟩ =>
    rw [hcondition] at hc
    cases hc
  | some ⟨.and, c' :: cs⟩ =>
    rw [hcondition] at hc ht hts
    obtain ⟨ts, htokens, rfl⟩ := exists_of_map_eq_ok hts
    have htight := Condition.allTight_iff.2 ht
    have hgroup := (Condition.readsAs_group_iff (List.cons_ne_nil c' cs) htight).2
      ⟨ts, htokens, hread ts rfl⟩
    exact hgroup.of_mem_all htight hc

/-- The WHERE clause is true where the conditions at the top are. -/
theorem whereHolds_of_topConditions (ht : ∀ c ∈ p.topConditions, c.Tight I)
    (h : ∀ c ∈ p.topConditions, c.ReadsAs I (some true)) : p.WhereHolds I := by
  have written : ∀ {op : Connective} {c : Condition} {cs : List Condition},
      (∃ ts, Condition.tokensOf op (c :: cs) = .ok ts ∧ Reads .expression (I.read ts) (some true)) →
        ∃ ts?, Group.whereTokens (some ⟨op, c :: cs⟩) = .ok ts? ∧
          ∀ ts ∈ ts?, Reads .expression (I.read ts) (some true) := by
    rintro op c cs ⟨ts, hts, hread⟩
    refine ⟨some ts, ?_, fun _ hm => Option.some.inj hm ▸ hread⟩
    show (Condition.tokensOf op (c :: cs)).map some = _
    rw [hts]
    rfl
  unfold topConditions at ht h
  unfold WhereHolds
  match hp : p.condition with
  | none => exact ⟨none, rfl, nofun⟩
  | some ⟨_, []⟩ => exact ⟨none, rfl, nofun⟩
  | some ⟨.and, c :: cs⟩ =>
    rw [hp] at h
    obtain ⟨ts, hts, hread⟩ := Condition.exists_tokensOf_and (List.cons_ne_nil c cs) h
    exact written ⟨ts, hts, .term hread⟩
  | some ⟨.or, c :: cs⟩ =>
    rw [hp] at h ht
    have hgroup := h _ (List.mem_singleton_self _)
    exact written ((Condition.readsAs_group_iff (List.cons_ne_nil c cs)
      (ht _ (List.mem_singleton_self _))).1 hgroup)

end Plan

end

end EntityQuery
