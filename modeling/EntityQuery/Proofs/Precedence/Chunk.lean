import Mathlib.Data.List.Basic
import EntityQuery.Proofs.Failure.Basic

/-!
# Words and parentheses of a text

A text is made of words and of parentheses with a text inside; quotation marks keep blanks and
parentheses in a word.

* `Chunk`: a word, or what stands in parentheses;
* `Lexer.step`, `chunks?`: the chunks of a text, if its parentheses match;
* `Lexer.Under`, `Lexer.exists_run`: a text has the same chunks wherever it stands;
* `chunks?_spaced`, `chunks?_parentheses`: texts with a blank between them, and in parentheses;
* `Enclosed`: texts that have chunks, by what they are made of.
-/

namespace EntityQuery

/-- A word, or what stands in parentheses. -/
inductive Chunk
  | word (letters : List Char)
  | parentheses (inner : List Chunk)

/-- What has been read of a text. -/
structure Lexer where
  /-- What stands before each parenthesis that is open, the innermost one first. -/
  outer : List (List Chunk)
  /-- What stands behind the last one. -/
  chunks : List Chunk
  /-- The beginning of a word. -/
  word : List Char
  /-- The quotation mark that is open. -/
  quote : Option Char

/-- Text in these marks is not looked at. -/
def isQuotation (c : Char) : Bool := c = '\'' || c = '"'

/-- Parentheses and quotation marks. -/
def isMark (c : Char) : Bool := c = '(' || c = ')' || isQuotation c

namespace Lexer

/-- Nothing has been read. -/
def start : Lexer := ⟨[], [], [], none⟩

/-- The chunks when the word ends, if one has begun. -/
def flushed (s : Lexer) : List Chunk :=
  if s.word = [] then s.chunks else s.chunks ++ [.word s.word]

/-- The word ends. -/
def flush (s : Lexer) : Lexer := { s with chunks := s.flushed, word := [] }

/-- Reads one letter, if it can stand there. -/
def step (s : Lexer) (c : Char) : Option Lexer :=
  match s.quote with
  -- A doubled mark closes the quotation and opens the next one in the same word.
  | some q => some { s with word := s.word ++ [c], quote := if c = q then none else some q }
  | none =>
    if c = '(' then some ⟨s.flushed :: s.outer, [], [], none⟩
    else if c = ')' then
      match s.outer with
      | [] => none
      | before :: outer => some ⟨outer, before ++ [.parentheses s.flushed], [], none⟩
    else if c.isWhitespace then some s.flush
    else some { s with word := s.word ++ [c], quote := if isQuotation c then some c else none }

/-- Reads letters. -/
def run (s : Lexer) (t : List Char) : Option Lexer := t.foldlM step s

/-- The chunks of a text that ends here. -/
def finish (s : Lexer) : Option (List Chunk) :=
  match s.outer, s.quote with
  | [], none => some s.flushed
  | _, _ => none

end Lexer

/-- The chunks of a text, if its parentheses and quotation marks match. -/
def chunks? (t : List Char) : Option (List Chunk) := (Lexer.start.run t).bind Lexer.finish

namespace Lexer

variable {s s' : Lexer} {t t' : List Char} {cs cs' : List Chunk} {outer : List (List Chunk)}
  {before : List Chunk}

theorem run_append : s.run (t ++ t') = (s.run t).bind (·.run t') := List.foldlM_append

theorem run_cons {c : Char} : s.run (c :: t) = (s.step c).bind (·.run t) := List.foldlM_cons

theorem finish_eq_some_iff :
    s.finish = some cs ↔ s.outer = [] ∧ s.quote = none ∧ s.flushed = cs := by
  unfold finish
  split
  · simp_all
  · next h =>
    constructor
    · exact nofun
    · rintro ⟨houter, hquote, -⟩
      exact absurd hquote (h houter)

/-! ### Texts inside of others -/

/-- The second lexer reads what the first one does inside of another text: there are open
parentheses around it, and chunks before it. -/
inductive Under (outer : List (List Chunk)) (before : List Chunk) : Lexer → Lexer → Prop
  | base (chunks : List Chunk) (word : List Char) (quote : Option Char) :
      Under outer before ⟨[], chunks, word, quote⟩ ⟨outer, before ++ chunks, word, quote⟩
  | inside {outer₁ outer₂ : List (List Chunk)} {first second : List Chunk}
      (h : Under outer before ⟨outer₁, first, [], none⟩ ⟨outer₂, second, [], none⟩)
      (chunks : List Chunk) (word : List Char) (quote : Option Char) :
      Under outer before ⟨first :: outer₁, chunks, word, quote⟩
        ⟨second :: outer₂, chunks, word, quote⟩

/-- One more chunk, and another word. -/
theorem Under.append (h : Under outer before s s') (cs : List Chunk) (word : List Char)
    (quote : Option Char) : Under outer before ⟨s.outer, s.chunks ++ cs, word, quote⟩
      ⟨s'.outer, s'.chunks ++ cs, word, quote⟩ := by
  cases h with
  | base chunks _ _ =>
    show Under _ _ _ ⟨outer, before ++ chunks ++ cs, word, quote⟩
    rw [List.append_assoc]
    exact .base _ _ _
  | inside h chunks _ _ => exact .inside h _ _ _

theorem Under.word_eq (h : Under outer before s s') : s'.word = s.word := by cases h <;> rfl

theorem Under.quote_eq (h : Under outer before s s') : s'.quote = s.quote := by cases h <;> rfl

/-- The chunks are as they were, and the word is another one. -/
theorem Under.rest (h : Under outer before s s') (word : List Char) (quote : Option Char) :
    Under outer before { s with word := word, quote := quote }
      { s' with word := word, quote := quote } := by
  simpa only [List.append_nil] using h.append [] word quote

theorem Under.flush (h : Under outer before s s') : Under outer before s.flush s'.flush := by
  unfold Lexer.flush flushed
  rw [h.word_eq, h.quote_eq]
  split
  · simpa only [List.append_nil, h.quote_eq] using h.append [] [] s.quote
  · exact h.append [.word s.word] [] s.quote

/-- Letters are read alike inside of another text. -/
theorem Under.exists_step (h : Under outer before s s') {c : Char} {s₁ : Lexer}
    (hstep : s.step c = some s₁) : ∃ s₂, s'.step c = some s₂ ∧ Under outer before s₁ s₂ := by
  have hflush := h.flush
  unfold Lexer.flush at hflush
  unfold step at hstep ⊢
  rw [h.quote_eq, h.word_eq]
  rw [h.quote_eq] at hflush
  cases hq : s.quote with
  | some q =>
    rw [hq] at hstep
    obtain rfl := Option.some.inj hstep
    exact ⟨_, rfl, h.rest _ _⟩
  | none =>
    rw [hq] at hstep hflush
    dsimp only at hstep ⊢
    generalize ite (isQuotation c = true) (some c) none = quote at hstep ⊢
    split_ifs at hstep ⊢ with hopening hclosing hblank
    · obtain rfl := Option.some.inj hstep
      exact ⟨_, rfl, .inside hflush [] [] none⟩
    · cases h with
      -- The first lexer has nothing to close, so the second one never closes what is around it.
      | base chunks word quote => cases hstep
      | inside h chunks word quote =>
        obtain rfl := Option.some.inj hstep
        exact ⟨_, rfl, h.append _ _ _⟩
    · obtain rfl := Option.some.inj hstep
      exact ⟨_, rfl, h.flush⟩
    · obtain rfl := Option.some.inj hstep
      exact ⟨_, rfl, h.rest _ _⟩

theorem Under.exists_run (h : Under outer before s s') {s₁ : Lexer} (hrun : s.run t = some s₁) :
    ∃ s₂, s'.run t = some s₂ ∧ Under outer before s₁ s₂ := by
  induction t generalizing s s' with
  | nil =>
    obtain rfl := Option.some.inj hrun
    exact ⟨s', rfl, h⟩
  | cons c t ih =>
    rw [run_cons] at hrun ⊢
    obtain ⟨s₂, hstep, hrun⟩ := Option.bind_eq_some_iff.1 hrun
    obtain ⟨s₃, hstep', h'⟩ := h.exists_step hstep
    rw [hstep']
    exact ih h' hrun

/-- A text has the same chunks wherever it stands. -/
theorem exists_run (h : chunks? t = some cs) (outer : List (List Chunk)) (before : List Chunk) :
    ∃ s, run ⟨outer, before, [], none⟩ t = some s ∧ s.outer = outer ∧ s.quote = none ∧
      s.flushed = before ++ cs := by
  obtain ⟨s₁, hrun, hfinish⟩ := Option.bind_eq_some_iff.1 h
  obtain ⟨houter, hquote, rfl⟩ := finish_eq_some_iff.1 hfinish
  have hstart : Under outer before start ⟨outer, before, [], none⟩ := by
    have hbase : Under outer before start ⟨outer, before ++ [], [], none⟩ := .base [] [] none
    rwa [List.append_nil] at hbase
  obtain ⟨s₂, hrun', hunder⟩ := hstart.exists_run hrun
  have hflush := hunder.flush
  rw [flush, houter, hquote] at hflush
  have hall : s₂.flush = ⟨outer, before ++ s₁.flushed, [], none⟩ := by
    generalize s₂.flush = s at hflush ⊢
    cases hflush
    rfl
  exact ⟨s₂, hrun', congrArg Lexer.outer hall, congrArg quote hall, congrArg chunks hall⟩

end Lexer

/-! ### Texts of several parts -/

section

variable {t t' : List Char} {cs cs' : List Chunk}

open Lexer

/-- Where no quotation mark is open, a blank ends the word. -/
theorem Lexer.step_blank {s : Lexer} (h : s.quote = none) : s.step ' ' = some s.flush := by
  unfold step
  rw [h]
  rfl

theorem chunks?_spaced (h : chunks? t = some cs) (h' : chunks? t' = some cs') :
    chunks? (t ++ ' ' :: t') = some (cs ++ cs') := by
  obtain ⟨s, hrun, houter, hquote, hflushed⟩ := exists_run h [] []
  obtain ⟨s', hrun', hend⟩ := exists_run h' [] cs
  have hblank : s.step ' ' = some ⟨[], cs, [], none⟩ := by
    rw [step_blank hquote, flush, houter, hquote, hflushed, List.nil_append]
  rw [chunks?, run_append, start, hrun, Option.bind_some, run_cons, hblank, Option.bind_some, hrun',
    Option.bind_some, finish_eq_some_iff]
  exact hend

theorem chunks?_parentheses (h : chunks? t = some cs) :
    chunks? ('(' :: (t ++ [')'])) = some [.parentheses cs] := by
  obtain ⟨s, hrun, houter, hquote, hflushed⟩ := exists_run h [[]] []
  have hopening : start.step '(' = some ⟨[[]], [], [], none⟩ := rfl
  have hclosing : s.step ')' = some ⟨[], [.parentheses cs], [], none⟩ := by
    unfold step
    rw [hquote, houter, hflushed]
    rfl
  rw [chunks?, run_cons, hopening, Option.bind_some, run_append, hrun, Option.bind_some, run_cons,
    hclosing]
  rfl

/-- A name without blanks and marks is a word. -/
theorem chunks?_word (hne : t ≠ []) (h : ∀ c ∈ t, c.isWhitespace = false ∧ isMark c = false) :
    chunks? t = some [.word t] := by
  have hrun : ∀ {t : List Char}, (∀ c ∈ t, c.isWhitespace = false ∧ isMark c = false) →
      ∀ word, run ⟨[], [], word, none⟩ t = some ⟨[], [], word ++ t, none⟩ := by
    intro t h
    induction t with
    | nil => exact fun word => by rw [List.append_nil]; rfl
    | cons c t ih =>
      intro word
      obtain ⟨⟨hblank, hmark⟩, ht⟩ := List.forall_mem_cons.1 h
      simp only [isMark, Bool.or_eq_false_iff, decide_eq_false_iff_not] at hmark
      obtain ⟨⟨hopening, hclosing⟩, hquote⟩ := hmark
      have hstep : step ⟨[], [], word, none⟩ c = some ⟨[], [], word ++ [c], none⟩ := by
        simp [step, hopening, hclosing, hblank, hquote]
      rw [run_cons, hstep, Option.bind_some, ih ht, List.append_assoc]
      rfl
  rw [chunks?, start, hrun h, List.nil_append, Option.bind_some, finish_eq_some_iff]
  exact ⟨rfl, rfl, by simp [flushed, hne]⟩

end

/-! ### Texts with matching parentheses -/

/-- The parentheses and quotation marks of the text match. -/
inductive Enclosed : List Char → Prop
  | nil : Enclosed []
  | letter {c : Char} (h : isMark c = false) : Enclosed [c]
  | quoted {q : Char} {t : List Char} (hq : isQuotation q = true) (h : q ∉ t) :
      Enclosed (q :: (t ++ [q]))
  | parentheses {t : List Char} (h : Enclosed t) : Enclosed ('(' :: (t ++ [')']))
  | append {t t' : List Char} (h : Enclosed t) (h' : Enclosed t') : Enclosed (t ++ t')

namespace Enclosed

variable {t : List Char}

theorem cons {c : Char} (hc : isMark c = false) (h : Enclosed t) : Enclosed (c :: t) :=
  (letter hc).append h

/-- Text without marks. -/
theorem of_all (h : t.all (!isMark ·) = true) : Enclosed t := by
  induction t with
  | nil => exact .nil
  | cons c t ih =>
    simp only [List.all_cons, Bool.and_eq_true, Bool.not_eq_true'] at h
    exact cons h.1 (ih h.2)

open Lexer

/-- Letters in quotation marks are part of the word. -/
theorem exists_run_quoted {q : Char} (h : q ∉ t) (s : Lexer) (hs : s.quote = some q) :
    ∃ word, s.run t = some { s with word := word } := by
  induction t generalizing s with
  | nil => exact ⟨s.word, rfl⟩
  | cons c t ih =>
    obtain ⟨hc, ht⟩ := not_or.1 (List.mem_cons.not.1 h)
    have hstep : s.step c = some { s with word := s.word ++ [c] } := by
      rw [step, hs]
      simp [Ne.symm hc]
    rw [run_cons, hstep]
    exact ih ht _ hs

/-- A text with matching parentheses leaves those around it alone. -/
theorem exists_run (h : Enclosed t) : ∀ s : Lexer, s.quote = none →
    ∃ s', s.run t = some s' ∧ s'.outer = s.outer ∧ s'.quote = none := by
  induction h with
  | nil => exact fun s hs => ⟨s, rfl, rfl, hs⟩
  | @letter c hc =>
    intro s hs
    simp only [isMark, Bool.or_eq_false_iff, decide_eq_false_iff_not] at hc
    obtain ⟨⟨hopening, hclosing⟩, hquote⟩ := hc
    have hrun : s.run [c] = if c.isWhitespace then some s.flush else
        some { s with word := s.word ++ [c], quote := none } := by
      rw [run_cons, step, hs]
      dsimp only
      rw [if_neg hopening, if_neg hclosing, hquote]
      split <;> rfl
    rw [hrun]
    split
    · exact ⟨_, rfl, rfl, hs⟩
    · exact ⟨_, rfl, rfl, rfl⟩
  | @quoted q t hq ht =>
    intro s hs
    have hne : q ≠ '(' ∧ q ≠ ')' ∧ q.isWhitespace = false := by
      rcases Bool.or_eq_true_iff.1 hq with h | h <;>
      · obtain rfl := of_decide_eq_true h
        exact ⟨by decide, by decide, by decide⟩
    have hopen : s.step q = some { s with word := s.word ++ [q], quote := some q } := by
      rw [step, hs]
      simp [hne.1, hne.2.1, hne.2.2, hq]
    obtain ⟨word, hrun⟩ :=
      exists_run_quoted ht { s with word := s.word ++ [q], quote := some q } rfl
    refine ⟨{ s with word := word ++ [q], quote := none }, ?_, rfl, rfl⟩
    rw [run_cons, hopen, Option.bind_some, run_append, hrun, Option.bind_some, run_cons, step]
    simp [run]
  | @parentheses t _ ih =>
    intro s hs
    have hopen : s.step '(' = some ⟨s.flushed :: s.outer, [], [], none⟩ := by
      rw [step, hs]
      rfl
    obtain ⟨s', hrun, houter, hquote⟩ := ih ⟨s.flushed :: s.outer, [], [], none⟩ rfl
    refine ⟨⟨s.outer, s.flushed ++ [.parentheses s'.flushed], [], none⟩, ?_, rfl, rfl⟩
    rw [run_cons, hopen, Option.bind_some, run_append, hrun, Option.bind_some, run_cons, step,
      hquote, houter]
    rfl
  | append _ _ ih ih' =>
    intro s hs
    obtain ⟨s₁, hrun, houter, hquote⟩ := ih s hs
    obtain ⟨s₂, hrun', houter', hquote'⟩ := ih' s₁ hquote
    refine ⟨s₂, ?_, houter'.trans houter, hquote'⟩
    rw [run_append, hrun]
    exact hrun'

/-- A text with matching parentheses has chunks. -/
theorem exists_chunks (h : Enclosed t) : ∃ cs, chunks? t = some cs := by
  obtain ⟨s, hrun, houter, hquote⟩ := h.exists_run start rfl
  refine ⟨s.flushed, ?_⟩
  rw [chunks?, hrun]
  exact finish_eq_some_iff.2 ⟨houter, hquote, rfl⟩

end Enclosed

end EntityQuery
