import EntityQuery.Proofs.Evaluation.Truth
import EntityQuery.Proofs.Precedence.Where

/-!
# WHERE clauses and truth values

If the leaves of a condition are read as what they are true of, so is the condition, and a WHERE clause
is true where the condition of its plan is.

* `Condition.Told`: leaves that are read as their truth values;
* `Condition.ReadsAs.eq_eval`: conditions are read as theirs;
* `Plan.whereHolds_iff`: a WHERE clause that can be written is true where the conditions at the top
  hold, unless it is left out for a disjunction of nothing.
-/

namespace EntityQuery

section

variable (I : Interpretation) (db : Database) (σ : Assignment)

mutual

/-- The leaves of the group are read as their truth values. -/
def Group.Told : Group → Prop
  | ⟨_, conditions⟩ => Condition.AllTold conditions

def Condition.AllTold : List Condition → Prop
  | [] => True
  | c :: rest => c.Told ∧ Condition.AllTold rest

/-- The leaves of the condition are read as their truth values. -/
def Condition.Told : Condition → Prop
  | .group g => g.Told
  | .raw r => Reads .term (I.fragment r.sql r.bindings) (db.fragment r σ)
  | c => ∀ v, c.ReadsAs I v → v = c.eval db σ

end

end

section

variable {I : Interpretation} {db : Database} {σ : Assignment} {op : Connective}
  {cs : List Condition} {v : Option Bool}

namespace Condition

theorem allTold_iff : AllTold I db σ cs ↔ ∀ c ∈ cs, c.Told I db σ := by
  induction cs with
  | nil => simp [AllTold]
  | cons c cs ih => simp [AllTold, ih]

mutual

theorem AllTold.tight : ∀ {cs : List Condition}, AllTold I db σ cs → AllTight I cs
  | [], _ => trivial
  | _ :: _, h => ⟨Told.tight h.1, AllTold.tight h.2⟩

/-- Fragments that are read as truth values are terms. -/
theorem Told.tight : ∀ {c : Condition}, c.Told I db σ → c.Tight I
  | .group ⟨_, _⟩, h => AllTold.tight h
  | .raw _, h => ⟨_, h⟩
  | .column _, _ => trivial
  | .existence .., _ => trivial

end

mutual

theorem eq_evalAll : ∀ {cs : List Condition} {vs : List (Option Bool)}, AllTold I db σ cs →
    List.Forall₂ (ReadsAs I) cs vs → vs = evalAll db cs σ
  | [], _, _, h => by
    cases h
    rw [evalAll]
  | _ :: _, _, ht, h => by
    cases h with
    | cons hc hcs => rw [evalAll, ReadsAs.eq_eval ht.1 hc, eq_evalAll ht.2 hcs]

/-- A condition is read as its truth value. -/
theorem ReadsAs.eq_eval : ∀ {c : Condition} {v : Option Bool}, c.Told I db σ → c.ReadsAs I v →
    v = c.eval db σ
  | .group ⟨op, []⟩, v, _, h => by
    obtain ⟨ts, hts, hread⟩ := h
    obtain rfl := Except.ok.inj hts
    rw [eval, Group.eval, evalAll]
    exact (Reads.term hread).unique (.term (.factor (.value _)))
  | .group ⟨op, c :: cs⟩, v, ht, h => by
    obtain ⟨ts, hts, hread⟩ :=
      (readsAs_group_iff (List.cons_ne_nil c cs) (AllTold.tight ht)).1 h
    obtain ⟨vs, hvs, hall⟩ := exists_tokensOf (List.cons_ne_nil c cs) hts (AllTold.tight ht)
    rw [eval, Group.eval, ← eq_evalAll ht hvs]
    exact hread.unique hall.of_phrase
  | .raw r, v, ht, h => by
    obtain ⟨ts, hts, hread⟩ := h
    obtain rfl := Except.ok.inj hts
    have hfragment : Reads .term (I.fragment r.sql r.bindings) v := by
      simpa [Interpretation.read, Interpretation.lexemes] using hread
    rw [eval]
    exact (Reads.term hfragment).unique (.term ht)
  | .column _, v, ht, h => ht v h
  | .existence .., v, ht, h => ht v h

end

end Condition

/-- A WHERE clause that can be written is true exactly where all conditions at the top hold.  A
disjunction of nothing would hold nowhere, and is not written. -/
theorem Plan.whereHolds_iff {p : Plan} {ts? : Option (List Token)}
    (hts : Group.whereTokens p.condition = .ok ts?) (hne : p.condition ≠ some ⟨.or, []⟩)
    (ht : ∀ c ∈ p.topConditions, c.Told I db σ) :
    p.WhereHolds I ↔ ∀ c ∈ p.topConditions, c.Holds db σ := by
  have hholds : p.WhereHolds I ↔ ∀ ts ∈ ts?, Reads .expression (I.read ts) (some true) := by
    constructor
    · rintro ⟨ts?', hts', h⟩
      rwa [Except.ok.inj (hts.symm.trans hts')]
    · exact fun h => ⟨ts?, hts, h⟩
  rw [hholds, ← evalTop_condition_iff]
  unfold topConditions at ht
  match hp : p.condition with
  | none =>
    rw [hp] at hts
    obtain rfl := Except.ok.inj hts
    exact ⟨fun _ => rfl, fun _ => nofun⟩
  | some ⟨.and, []⟩ =>
    rw [hp] at hts
    obtain rfl := Except.ok.inj hts
    refine ⟨fun _ => ?_, fun _ => nofun⟩
    rw [Group.evalTop, Group.eval, Condition.evalAll]
    rfl
  | some ⟨.or, []⟩ => exact absurd hp hne
  | some ⟨op, c :: cs⟩ =>
    rw [hp] at hts ht
    have htold : Condition.AllTold I db σ (c :: cs) := by
      cases op with
      | and => exact Condition.allTold_iff.2 ht
      | or => exact ht _ (List.mem_singleton_self _)
    obtain ⟨ts, htokens, rfl⟩ := exists_of_map_eq_ok (f := some)
      (x := Condition.tokensOf op (c :: cs)) (by cases op <;> exact hts)
    obtain ⟨vs, hvs, hread⟩ :=
      Condition.exists_tokensOf (List.cons_ne_nil c cs) htokens htold.tight
    rw [Group.evalTop, Group.eval, ← Condition.eq_evalAll htold hvs]
    constructor
    · exact fun h => hread.of_phrase.unique (h ts rfl)
    · intro h ts' hts'
      obtain rfl := Option.some.inj hts'
      exact h ▸ hread.of_phrase

end

end EntityQuery
