import EntityQuery.Proofs.Evaluation.Truth

/-!
# Conditions as they are read

A condition is read from its text: `AND` binds tighter than `OR`, parentheses hold together.  A
predicate is read as its truth value for the row under consideration.

* `Lexeme`: what a condition is written with;
* `Reads`: the grammar, each phrase with its truth value;
* `Reads.and_term`, `Reads.or_expression`: phrases with a connective between them;
* `Reader.step`, `Reads.unique`: a reader with a stack; a text has one truth value.
-/

namespace EntityQuery

/-- What a condition is written with; of a predicate only its truth value matters. -/
inductive Lexeme
  | value (v : Option Bool)
  | connective (op : Connective)
  | opening
  | closing
  deriving DecidableEq

/-- The phrases of conditions: a predicate or an expression in parentheses, factors with `AND`
between them, terms with `OR` between them. -/
inductive Phrase
  | factor
  | term
  | expression

/-- The lexemes are a phrase of the kind, and this is its truth value. -/
inductive Reads : Phrase → List Lexeme → Option Bool → Prop
  | value (v : Option Bool) : Reads .factor [.value v] v
  | parentheses {ls : List Lexeme} {v : Option Bool} (h : Reads .expression ls v) :
      Reads .factor (.opening :: (ls ++ [.closing])) v
  | factor {ls : List Lexeme} {v : Option Bool} (h : Reads .factor ls v) : Reads .term ls v
  | and {ls ls' : List Lexeme} {v v' : Option Bool} (h : Reads .term ls v)
      (h' : Reads .factor ls' v') :
      Reads .term (ls ++ .connective .and :: ls') (Connective.combine .and [v, v'])
  | term {ls : List Lexeme} {v : Option Bool} (h : Reads .term ls v) : Reads .expression ls v
  | or {ls ls' : List Lexeme} {v v' : Option Bool} (h : Reads .expression ls v)
      (h' : Reads .term ls' v') :
      Reads .expression (ls ++ .connective .or :: ls') (Connective.combine .or [v, v'])

/-! ### Phrases with a connective between them -/

section

variable {ls ls' : List Lexeme} {v v' : Option Bool}

/-- The second of two terms may have several factors. -/
theorem Reads.and_term (h : Reads .term ls v) (h' : Reads .term ls' v') :
    Reads .term (ls ++ .connective .and :: ls') (Connective.combine .and [v, v']) := by
  generalize hp : Phrase.term = p at h'
  induction h' with
  | factor h' => exact h.and h'
  | and _ h₂ ih =>
    have hread := (ih hp).and h₂
    rw [Connective.combine_assoc, List.append_assoc] at hread
    exact hread
  | _ => cases hp

/-- The second of two expressions may have several terms. -/
theorem Reads.or_expression (h : Reads .expression ls v) (h' : Reads .expression ls' v') :
    Reads .expression (ls ++ .connective .or :: ls') (Connective.combine .or [v, v']) := by
  generalize hp : Phrase.expression = p at h'
  induction h' with
  | term h' => exact h.or h'
  | or _ h₂ ih =>
    have hread := (ih hp).or h₂
    rw [Connective.combine_assoc, List.append_assoc] at hread
    exact hread
  | _ => cases hp

end

/-! ### A reader -/

/-- What has been read of an expression: its complete terms, and the factors of the next one. -/
structure Frame where
  sum : Option (Option Bool)
  product : Option (Option Bool)

/-- A value behind those that have been joined by the connective. -/
def Frame.join (op : Connective) : Option (Option Bool) → Option Bool → Option Bool
  | none, v => v
  | some u, v => Connective.combine op [u, v]

/-- The truth value of the expression when it ends with the operand. -/
def Frame.close (f : Frame) (v : Option Bool) : Option Bool := join .or f.sum (join .and f.product v)

/-- The expressions that are open, the innermost one first, and the operand that was just read. -/
structure Reader where
  outer : List Frame
  frame : Frame
  operand : Option (Option Bool)

namespace Reader

/-- Reads one lexeme, if it can stand there. -/
def step : Reader → Lexeme → Option Reader
  | ⟨outer, f, none⟩, .value v => some ⟨outer, f, some v⟩
  | ⟨outer, f, none⟩, .opening => some ⟨f :: outer, ⟨none, none⟩, none⟩
  | ⟨outer, f, some v⟩, .connective .and =>
    some ⟨outer, { f with product := some (Frame.join .and f.product v) }, none⟩
  | ⟨outer, f, some v⟩, .connective .or => some ⟨outer, ⟨some (f.close v), none⟩, none⟩
  | ⟨g :: outer, f, some v⟩, .closing => some ⟨outer, g, some (f.close v)⟩
  | _, _ => none

/-- Reads lexemes. -/
def run (r : Reader) (ls : List Lexeme) : Option Reader := ls.foldlM step r

theorem run_append {r : Reader} {ls ls' : List Lexeme} :
    r.run (ls ++ ls') = (r.run ls).bind (·.run ls') := List.foldlM_append

theorem run_cons {r : Reader} {l : Lexeme} {ls : List Lexeme} :
    r.run (l :: ls) = (r.step l).bind (·.run ls) := List.foldlM_cons

/-- A phrase leaves the open expressions alone: a factor becomes the operand, a term the product of
its factors, an expression the sum of its terms. -/
def Accepts (ls : List Lexeme) (v : Option Bool) : Phrase → Prop
  | .factor => ∀ outer f, run ⟨outer, f, none⟩ ls = some ⟨outer, f, some v⟩
  | .term => ∀ outer sum, ∃ product w, Frame.join .and product w = v ∧
      run ⟨outer, ⟨sum, none⟩, none⟩ ls = some ⟨outer, ⟨sum, product⟩, some w⟩
  | .expression => ∀ outer, ∃ (f : Frame) (w : Option Bool), f.close w = v ∧
      run ⟨outer, ⟨none, none⟩, none⟩ ls = some ⟨outer, f, some w⟩

end Reader

open Reader in
/-- The reader agrees with the grammar. -/
theorem Reads.accepts {p : Phrase} {ls : List Lexeme} {v : Option Bool} (h : Reads p ls v) :
    Accepts ls v p := by
  induction h with
  | value v => exact fun _ _ => rfl
  | parentheses _ ih =>
    intro outer f
    obtain ⟨f', w, rfl, hrun⟩ := ih (f :: outer)
    rw [run_cons]
    show Reader.run _ _ = _
    rw [run_append, hrun]
    rfl
  | factor _ ih => exact fun outer sum => ⟨none, _, rfl, ih outer ⟨sum, none⟩⟩
  | and _ _ ih ih' =>
    intro outer sum
    obtain ⟨product, w, rfl, hrun⟩ := ih outer sum
    refine ⟨some _, _, rfl, ?_⟩
    rw [run_append, hrun]
    exact ih' outer ⟨sum, some _⟩
  | term _ ih =>
    intro outer
    obtain ⟨product, w, hw, hrun⟩ := ih outer none
    exact ⟨⟨none, product⟩, w, hw, hrun⟩
  | or _ _ ih ih' =>
    intro outer
    obtain ⟨f, w, rfl, hrun⟩ := ih outer
    obtain ⟨product, w', rfl, hrun'⟩ := ih' outer (some (f.close w))
    refine ⟨⟨some (f.close w), product⟩, w', rfl, ?_⟩
    rw [run_append, hrun]
    exact hrun'

/-- A text has one truth value. -/
theorem Reads.unique {ls : List Lexeme} {v v' : Option Bool} (h : Reads .expression ls v)
    (h' : Reads .expression ls v') : v = v' := by
  obtain ⟨f, w, rfl, hrun⟩ := h.accepts []
  obtain ⟨f', w', rfl, hrun'⟩ := h'.accepts []
  rw [hrun] at hrun'
  obtain ⟨-, rfl, hw⟩ := Reader.mk.inj (Option.some.inj hrun')
  rw [Option.some.inj hw]

end EntityQuery
