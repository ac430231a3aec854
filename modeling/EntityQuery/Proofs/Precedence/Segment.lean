import EntityQuery.Proofs.Precedence.Chunk
import EntityQuery.Proofs.Precedence.Grammar

/-!
# The text of a condition

A text is read as predicates and constants with connectives and parentheses between them.  A
predicate goes on until the next connective.  The `AND` of a `BETWEEN` is part of it, and so are
parentheses, unless they are all there is.

* `Segment`: what a condition is written with, predicates as what stands for them;
* `Splitter.step`, `segments?`: the segments of a text;
* `Splitter.exists_run`: chunks have the same segments whatever stands before them;
* `segments?_connective`, `segments?_parentheses`: texts with a connective between them, and in
  parentheses;
* `segmentsOf?_predicate`: chunks without a connective are one predicate.
-/

namespace EntityQuery

/-- What a condition is written with. -/
inductive Segment (α : Type)
  | predicate (a : α)
  | constant (b : Bool)
  | connective (op : Connective)
  | opening
  | closing

namespace Segment

/-- What is read when the predicates have these truth values. -/
def lexeme {α : Type} (value : α → Option Bool) : Segment α → Lexeme
  | .predicate a => .value (value a)
  | .constant b => .value (some b)
  | .connective op => .connective op
  | .opening => .opening
  | .closing => .closing

end Segment

namespace Chunk

/-- The chunk is the keyword, in any case. -/
def isKeyword (keyword : String) : Chunk → Bool
  | .word letters => letters.map Char.toUpper = keyword.toList
  | .parentheses _ => false

/-- The connective that the chunk is. -/
def connective? (c : Chunk) : Option Connective :=
  if c.isKeyword "AND" then some .and else if c.isKeyword "OR" then some .or else none

/-- The constant that the chunk is. -/
def constant? (c : Chunk) : Option Bool :=
  if c.isKeyword "TRUE" then some true else if c.isKeyword "FALSE" then some false else none

/-- The chunk is neither a connective nor `BETWEEN`. -/
def isPlain (c : Chunk) : Bool := c.connective?.isNone && !c.isKeyword "BETWEEN"

theorem isPlain_iff {c : Chunk} :
    c.isPlain = true ↔ c.connective? = none ∧ c.isKeyword "BETWEEN" = false := by
  simp [isPlain]

end Chunk

/-- What has been read of chunks. -/
structure Splitter where
  segments : List (Segment (List Chunk))
  /-- The chunks behind the last connective. -/
  pending : List Chunk
  /-- What the last of them is read as, if it is in parentheses. -/
  inside : Option (List (Segment (List Chunk)))
  /-- A `BETWEEN` waits for its `AND`. -/
  between : Bool

namespace Splitter

/-- Nothing has been read. -/
def start : Splitter := ⟨[], [], none, false⟩

/-- The segments of the chunks behind the last connective, if they end here. -/
def close (s : Splitter) : Option (List (Segment (List Chunk))) :=
  match s.between, s.pending with
  | true, _ => none
  | false, [] => none
  | false, [.parentheses _] => s.inside.map fun ss => .opening :: (ss ++ [.closing])
  | false, [c] => some [(c.constant?.map .constant).getD (.predicate [c])]
  | false, pending => some [.predicate pending]

/-- All segments, if the chunks end here. -/
def finish (s : Splitter) : Option (List (Segment (List Chunk))) := s.close.map (s.segments ++ ·)

/-- Reads one chunk, given what it is read as if it is in parentheses. -/
def step (s : Splitter) (c : Chunk) (inside : Option (List (Segment (List Chunk)))) :
    Option Splitter :=
  match c.connective?, s.between with
  -- The `AND` that a `BETWEEN` waits for joins no predicates.
  | some .and, true => some ⟨s.segments, s.pending ++ [c], inside, false⟩
  | some op, _ => s.close.map fun ss => ⟨s.segments ++ ss ++ [.connective op], [], none, false⟩
  | none, between =>
    some ⟨s.segments, s.pending ++ [c], inside, between || c.isKeyword "BETWEEN"⟩

end Splitter

mutual

/-- Reads chunks. -/
def Splitter.run : Splitter → List Chunk → Option Splitter
  | s, [] => some s
  | s, c :: cs => (s.step c c.inside).bind fun s' => Splitter.run s' cs

/-- What the inside of parentheses is read as. -/
def Chunk.inside : Chunk → Option (List (Segment (List Chunk)))
  | .word _ => none
  | .parentheses cs => (Splitter.run .start cs).bind Splitter.finish

end

/-- The segments of chunks. -/
def segmentsOf? (cs : List Chunk) : Option (List (Segment (List Chunk))) :=
  (Splitter.start.run cs).bind Splitter.finish

/-- The segments of a text, if it has any. -/
def segments? (t : List Char) : Option (List (Segment (List Chunk))) :=
  (chunks? t).bind segmentsOf?

/-! ### Segments inside of others -/

namespace Splitter

variable {s s' : Splitter} {c : Chunk} {cs cs' : List Chunk}
  {ss before : List (Segment (List Chunk))}

theorem run_append : s.run (cs ++ cs') = (s.run cs).bind (·.run cs') := by
  induction cs generalizing s with
  | nil => rw [List.nil_append, run, Option.bind_some]
  | cons c cs ih =>
    rw [List.cons_append, run, run, Option.bind_assoc]
    exact Option.bind_congr fun s' _ => ih

/-- The segments stand behind others. -/
def behind (before : List (Segment (List Chunk))) (s : Splitter) : Splitter :=
  { s with segments := before ++ s.segments }

theorem step_behind {inside : Option (List (Segment (List Chunk)))} :
    (s.behind before).step c inside = (s.step c inside).map (behind before) := by
  have hclose : (s.behind before).close = s.close := rfl
  unfold step
  rw [hclose, show (s.behind before).between = s.between from rfl]
  split
  · rfl
  · cases s.close with
    | none => rfl
    | some ss => simp [behind]
  · rfl

theorem run_behind : (s.behind before).run cs = (s.run cs).map (behind before) := by
  induction cs generalizing s with
  | nil => rfl
  | cons c cs ih =>
    rw [run, run, step_behind]
    cases s.step c c.inside with
    | none => rfl
    | some s' => exact ih

/-- Chunks have the same segments whatever stands before them. -/
theorem exists_run (h : segmentsOf? cs = some ss) (before : List (Segment (List Chunk))) :
    ∃ s last, run ⟨before, [], none, false⟩ cs = some s ∧ s.close = some last ∧
      s.segments ++ last = before ++ ss := by
  obtain ⟨s, hrun, hfinish⟩ := Option.bind_eq_some_iff.1 h
  obtain ⟨last, hlast, rfl⟩ := Option.map_eq_some_iff.1 hfinish
  have hstart : start.behind before = ⟨before, [], none, false⟩ := by
    rw [behind, start, List.append_nil]
  refine ⟨s.behind before, last, ?_, hlast, List.append_assoc _ _ _⟩
  rw [← hstart, run_behind, hrun, Option.map_some]

/-- A connective ends what could end there. -/
theorem step_connective {op : Connective} (hc : c.connective? = some op) (h : s.close = some ss)
    (inside : Option (List (Segment (List Chunk)))) :
    s.step c inside = some ⟨s.segments ++ ss ++ [.connective op], [], none, false⟩ := by
  have hbetween : s.between = false := by
    cases hb : s.between with
    | false => rfl
    | true =>
      rw [close, hb] at h
      cases h
  unfold step
  rw [hc, hbetween, h]
  cases op <;> rfl

/-- What is no keyword is part of a predicate. -/
theorem step_pending (hc : c.isPlain = true) (inside : Option (List (Segment (List Chunk)))) :
    s.step c inside = some ⟨s.segments, s.pending ++ [c], inside, s.between⟩ := by
  obtain ⟨hconnective, hbetween⟩ := Chunk.isPlain_iff.1 hc
  unfold step
  rw [hconnective, hbetween]
  dsimp only
  rw [Bool.or_false]

theorem exists_run_pending (h : ∀ c ∈ cs, c.isPlain = true)
    (pending : List Chunk) (inside : Option (List (Segment (List Chunk)))) (between : Bool) :
    ∃ inside', run ⟨before, pending, inside, between⟩ cs =
      some ⟨before, pending ++ cs, inside', between⟩ := by
  induction cs generalizing pending inside with
  | nil => exact ⟨inside, by rw [run, List.append_nil]⟩
  | cons c cs ih =>
    obtain ⟨inside', hrun⟩ :=
      ih (fun c' hc' => h c' (List.mem_cons_of_mem c hc')) (pending ++ [c]) c.inside
    refine ⟨inside', ?_⟩
    rw [List.append_assoc] at hrun
    rw [run, step_pending (h c List.mem_cons_self)]
    exact hrun

end Splitter

/-! ### Texts of several parts -/

section

variable {t t' : List Char} {cs cs' : List Chunk} {c : Chunk}
  {ss ss' : List (Segment (List Chunk))} {op : Connective}

open Splitter

theorem segmentsOf?_connective (hc : c.connective? = some op) (h : segmentsOf? cs = some ss)
    (h' : segmentsOf? cs' = some ss') :
    segmentsOf? (cs ++ c :: cs') = some (ss ++ .connective op :: ss') := by
  obtain ⟨s, last, hrun, hlast, hss⟩ := exists_run h []
  obtain ⟨s', last', hrun', hlast', hss'⟩ := exists_run h' (ss ++ [.connective op])
  have hstep : s.step c c.inside = some ⟨ss ++ [.connective op], [], none, false⟩ := by
    rw [step_connective hc hlast, hss, List.nil_append]
  rw [segmentsOf?, run_append, start, hrun, Option.bind_some, run, hstep, Option.bind_some, hrun',
    Option.bind_some, finish, hlast', Option.map_some, hss', List.append_assoc]
  rfl

theorem segmentsOf?_parentheses (h : segmentsOf? cs = some ss) :
    segmentsOf? [.parentheses cs] = some (.opening :: (ss ++ [.closing])) := by
  have hinside : (Chunk.parentheses cs).inside = some ss := by
    rw [Chunk.inside]
    exact h
  rw [segmentsOf?, run, hinside]
  rfl

/-- Several chunks without a connective are one predicate. -/
theorem segmentsOf?_predicate (h : ∀ c ∈ cs, c.isPlain = true) (hlength : 2 ≤ cs.length) :
    segmentsOf? cs = some [.predicate cs] := by
  obtain ⟨inside, hrun⟩ := exists_run_pending h [] none false
  rw [segmentsOf?, start, hrun, Option.bind_some, List.nil_append]
  match cs, hlength with
  | c :: c' :: cs, _ => cases c <;> rfl

/-- The connective as it is written. -/
def Connective.letters : Connective → List Char
  | .and => ['A', 'N', 'D']
  | .or => ['O', 'R']

theorem segments?_connective (op : Connective) (h : segments? t = some ss)
    (h' : segments? t' = some ss') :
    segments? (t ++ ' ' :: (op.letters ++ ' ' :: t')) = some (ss ++ .connective op :: ss') := by
  obtain ⟨cs, hcs, hss⟩ := Option.bind_eq_some_iff.1 h
  obtain ⟨cs', hcs', hss'⟩ := Option.bind_eq_some_iff.1 h'
  have hop : chunks? op.letters = some [.word op.letters] := by cases op <;> rfl
  have hkeyword : (Chunk.word op.letters).connective? = some op := by cases op <;> decide
  rw [segments?, chunks?_spaced hcs (chunks?_spaced hop hcs'), Option.bind_some]
  exact segmentsOf?_connective hkeyword hss hss'

theorem segments?_parentheses (h : segments? t = some ss) :
    segments? ('(' :: (t ++ [')'])) = some (.opening :: (ss ++ [.closing])) := by
  obtain ⟨cs, hcs, hss⟩ := Option.bind_eq_some_iff.1 h
  rw [segments?, chunks?_parentheses hcs, Option.bind_some]
  exact segmentsOf?_parentheses hss

end

end EntityQuery
