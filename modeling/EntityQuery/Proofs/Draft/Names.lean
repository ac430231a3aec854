import EntityQuery.Plan.AliasSupply
import EntityQuery.Schema.Lookup
import EntityQuery.Proofs.Lateral.Tables
import Mathlib

/-!
# Names of tables

A name that a supply gives is a stem of small letters with a number.  The names of base and subtype
tables extend such a name behind an underscore, so a table and its bases share what stands before the
first underscore, and no other table does.

* `Worded`: names of tables whose abbreviations are small letters;
* `trunk`: what stands before the first underscore;
* `AliasSupply.underscore_not_mem_next`: a name that is given has no underscore;
* `AliasSupply.Gave`: the names that have been given;
* `AliasSupply.not_gave_next`: the next name has not been given.
-/

namespace EntityQuery

/-! ### Abbreviations -/

/-- A name of small letters. -/
structure Lettered (name : String) : Prop where
  nonempty : name.toList ≠ []
  letters : ∀ c ∈ name.toList, AliasSupply.isSmallLetter c = true

/-- A name with words in it, all of which start with a letter. -/
structure Worded (name : String) : Prop where
  nonempty : ∃ w ∈ words name.toList, w ≠ []
  letters : ∀ w ∈ words name.toList, ∀ c ∈ w.head?, c.isAlpha = true

instance {name : String} : Decidable (Worded name) :=
  decidable_of_iff (((words name.toList).any (!·.isEmpty) &&
    (words name.toList).all fun w => w.head?.all Char.isAlpha) = true) <| by
    rw [Bool.and_eq_true, List.any_eq_true, List.all_eq_true]
    constructor
    · rintro ⟨⟨w, hw, hne⟩, hall⟩
      exact ⟨⟨w, hw, by simpa using hne⟩, fun w hw => (Option.all_eq_true _ _).1 (hall w hw)⟩
    · rintro ⟨⟨w, hw, hne⟩, hall⟩
      exact ⟨⟨w, hw, by simpa using hne⟩, fun w hw => (Option.all_eq_true _ _).2 (hall w hw)⟩

theorem lowercase_letters : ∀ i : Fin 26,
    lowercase (Char.ofNat (65 + i)) = [Char.ofNat (97 + i)] ∧
      lowercase (Char.ofNat (97 + i)) = [Char.ofNat (97 + i)] ∧
      AliasSupply.isSmallLetter (Char.ofNat (97 + i)) = true := by
  decide +kernel

/-- A letter is the one at some place of the alphabet, large or small. -/
theorem eq_letter_of_isAlpha {c : Char} (h : c.isAlpha = true) :
    ∃ i : Fin 26, c = Char.ofNat (65 + i) ∨ c = Char.ofNat (97 + i) := by
  have hrange : (65 ≤ c.toNat ∧ c.toNat ≤ 90) ∨ (97 ≤ c.toNat ∧ c.toNat ≤ 122) := by
    simpa [Char.isAlpha, Char.isUpper, Char.isLower, UInt32.le_iff_toNat_le] using h
  rcases hrange with ⟨hlow, hhigh⟩ | ⟨hlow, hhigh⟩
  · refine ⟨⟨c.toNat - 65, by omega⟩, .inl ?_⟩
    rw [Nat.add_sub_cancel' hlow, Char.ofNat_toNat]
  · refine ⟨⟨c.toNat - 97, by omega⟩, .inr ?_⟩
    rw [Nat.add_sub_cancel' hlow, Char.ofNat_toNat]

theorem lowercase_of_isAlpha {c : Char} (h : c.isAlpha = true) :
    ∃ l, lowercase c = [l] ∧ AliasSupply.isSmallLetter l = true := by
  obtain ⟨i, hc⟩ := eq_letter_of_isAlpha h
  obtain ⟨hupper, hlower, hsmall⟩ := lowercase_letters i
  rcases hc with rfl | rfl
  · exact ⟨_, hupper, hsmall⟩
  · exact ⟨_, hlower, hsmall⟩

theorem lettered_abbreviation {table : String} (h : Worded table) :
    Lettered (abbreviation table) := by
  have hletter : ∀ w ∈ words table.toList, w ≠ [] → ∃ l,
      (w.take 1).flatMap lowercase = [l] ∧ AliasSupply.isSmallLetter l = true := by
    intro w hw hne
    obtain ⟨first, rest, rfl⟩ := List.exists_cons_of_ne_nil hne
    obtain ⟨l, hl, hsmall⟩ := lowercase_of_isAlpha (h.letters _ hw first rfl)
    refine ⟨l, ?_, hsmall⟩
    rw [List.take_succ_cons, List.take_zero, List.flatMap_singleton, hl]
  constructor
  · obtain ⟨w, hw, hne⟩ := h.nonempty
    obtain ⟨l, hl, -⟩ := hletter w hw hne
    rw [abbreviation, String.toList_ofList]
    exact List.ne_nil_of_mem (List.mem_flatMap.2 ⟨w, hw, by rw [hl]; exact List.mem_singleton_self l⟩)
  · intro c hc
    rw [abbreviation, String.toList_ofList] at hc
    obtain ⟨w, hw, hc⟩ := List.mem_flatMap.1 hc
    by_cases hne : w = []
    · rw [hne] at hc
      cases hc
    · obtain ⟨l, hl, hsmall⟩ := hletter w hw hne
      rw [hl, List.mem_singleton] at hc
      rw [hc]
      exact hsmall

/-! ### Names without underscores -/

theorem lowercase_runs : ∀ run ∈ Lowercase.runs, 95 < (run.first : Int) + run.distance := by
  decide +kernel

theorem underscore_not_mem_lowercase {c : Char} (h : c ≠ '_') : '_' ∉ lowercase c := by
  unfold lowercase
  split_ifs
  · decide
  · split
    · next run hrun =>
      have hlow := lowercase_runs run (List.mem_of_find?_eq_some hrun)
      have hhas := List.find?_some hrun
      simp only [Lowercase.Run.has, Bool.and_eq_true, decide_eq_true_iff] at hhas
      intro hm
      have hcode : 95 = (run.move c.toNat).toNat := congrArg Char.toNat (List.mem_singleton.1 hm)
      rw [Lowercase.Run.move, Char.toNat_ofNat] at hcode
      split_ifs at hcode
      omega
    · exact fun hm => h (List.mem_singleton.1 hm).symm

theorem underscore_not_mem_words {cs w : List Char} (h : w ∈ words cs) : '_' ∉ w := by
  unfold words at h
  induction cs generalizing w with
  | nil =>
    rw [List.splitOn_nil, List.mem_singleton] at h
    rw [h]
    exact List.not_mem_nil
  | cons c cs ih =>
    rw [List.splitOn_cons_eq_if_modifyHead] at h
    split_ifs at h with hc
    · rcases List.mem_cons.1 h with rfl | h
      · exact List.not_mem_nil
      · exact ih h
    · cases hs : cs.splitOn '_' with
      | nil => simp [hs] at h
      | cons first rest =>
        rw [hs, List.modifyHead_cons] at h
        rcases List.mem_cons.1 h with rfl | h
        · rw [List.mem_cons, not_or]
          exact ⟨fun he => hc (by rw [← he]; rfl), ih (hs ▸ List.mem_cons_self)⟩
        · exact ih (hs ▸ List.mem_cons_of_mem _ h)

/-! ### Stems and numbers -/

theorem toString_nat_injective {m n : Nat} (h : toString m = toString n) : m = n := by
  have hdigits := congrArg String.toList h
  rw [Nat.toString_eq_repr, Nat.toString_eq_repr, Nat.toList_repr, Nat.toList_repr] at hdigits
  have hvalue := congrArg (Nat.ofDigitChars 10 · 0) hdigits
  simpa using hvalue

theorem isDigit_of_mem_toString {n : Nat} {c : Char} (h : c ∈ (toString n).toList) :
    c.isDigit = true := by
  rw [Nat.toString_eq_repr, Nat.toList_repr] at h
  exact Nat.isDigit_of_mem_toDigits (by decide) (by decide) h

namespace AliasSupply

theorem isSmallLetter_of_isDigit {c : Char} (h : c.isDigit = true) : isSmallLetter c = false := by
  have hrange : 48 ≤ c.toNat ∧ c.toNat ≤ 57 := by
    simpa [Char.isDigit, UInt32.le_iff_toNat_le] using h
  have hlow : ¬ ('a' ≤ c) := fun hle => by
    have : 97 ≤ c.toNat := by simpa [Char.le_def, UInt32.le_iff_toNat_le] using hle
    omega
  simp [isSmallLetter, hlow]

theorem isSmallLetter_underscore : isSmallLetter '_' = false := by decide

/-- The digits behind a stem. -/
def digits : Nat → List Char
  | 0 => []
  | n + 1 => (toString (n + 1)).toList

theorem toList_numbered (stem : String) (n : Nat) :
    (numbered stem n).toList = stem.toList ++ digits n := by
  cases n with
  | zero => simp [numbered, digits]
  | succ n => simp [numbered, digits]

theorem isDigit_of_mem_digits {n : Nat} {c : Char} (h : c ∈ digits n) : c.isDigit = true := by
  cases n with
  | zero => cases h
  | succ n => exact isDigit_of_mem_toString h

theorem digits_injective {m n : Nat} (h : digits m = digits n) : m = n := by
  have hne : ∀ k, digits (k + 1) ≠ [] := fun k hk => by
    have : (toString (k + 1)).toList = [] := hk
    simp at this
  cases m with
  | zero =>
    cases n with
    | zero => rfl
    | succ n => exact absurd h.symm (hne n)
  | succ m =>
    cases n with
    | zero => exact absurd h (hne m)
    | succ n => exact toString_nat_injective (String.toList_inj.1 h)

/-- The letters in front are the stem. -/
theorem takeWhile_numbered {stem : String} (h : Lettered stem) (n : Nat) :
    (numbered stem n).toList.takeWhile isSmallLetter = stem.toList := by
  rw [toList_numbered, List.takeWhile_append_of_pos h.letters]
  have hdigits : (digits n).takeWhile isSmallLetter = [] := by
    cases hd : digits n with
    | nil => rfl
    | cons c rest =>
      have hc : c.isDigit = true := isDigit_of_mem_digits (hd ▸ List.mem_cons_self)
      rw [List.takeWhile_cons_of_neg (by simp [isSmallLetter_of_isDigit hc])]
  rw [hdigits, List.append_nil]

theorem numbered_injective {stem stem' : String} {n n' : Nat} (h : Lettered stem)
    (h' : Lettered stem') (he : numbered stem n = numbered stem' n') : stem = stem' ∧ n = n' := by
  have hstem : stem = stem' := by
    rw [← String.toList_inj, ← takeWhile_numbered h n, ← takeWhile_numbered h' n', he]
  subst hstem
  have hdigits := congrArg String.toList he
  rw [toList_numbered, toList_numbered, List.append_cancel_left_eq] at hdigits
  exact ⟨rfl, digits_injective hdigits⟩

end AliasSupply

/-! ### Trunks -/

/-- What stands before the first underscore. -/
def trunk (aliasName : String) : List Char := aliasName.toList.takeWhile (· ≠ '_')

theorem trunk_eq {a : String} (h : '_' ∉ a.toList) : trunk a = a.toList :=
  List.takeWhile_eq_self_iff.2 fun _ hc => decide_eq_true fun he => h (he ▸ hc)

theorem trunk_append {a s : String} (h : s.toList.head? = some '_') : trunk (a ++ s) = trunk a := by
  obtain ⟨rest, hs⟩ := List.head?_eq_some_iff.1 h
  rw [trunk, trunk, String.toList_append, hs, List.takeWhile_append,
    List.takeWhile_cons_of_neg (by simp), List.append_nil]
  split_ifs with hlength
  · exact ((List.takeWhile_prefix _).eq_of_length hlength).symm
  · rfl

theorem trunk_baseAlias (a : String) (i : Nat) : trunk (baseAlias a i) = trunk a := by
  rw [baseAlias, String.append_assoc]
  exact trunk_append (by simp)

theorem trunk_subAlias (a : String) (i : Nat) : trunk (subAlias a i) = trunk a := by
  rw [subAlias, String.append_assoc]
  exact trunk_append (by simp)

theorem trunk_underscore (a : String) : trunk ("_" ++ a) = [] := by
  simp [trunk]

theorem append_toString_injective {a : String} {i k : Nat} (h : a ++ toString i = a ++ toString k) :
    i = k := by
  have hlist := congrArg String.toList h
  rw [String.toList_append, String.toList_append, List.append_cancel_left_eq] at hlist
  exact toString_nat_injective (String.toList_inj.1 hlist)

theorem baseAlias_injective {a : String} {i k : Nat} (h : baseAlias a i = baseAlias a k) : i = k :=
  append_toString_injective h

theorem subAlias_injective {a : String} {i k : Nat} (h : subAlias a i = subAlias a k) : i = k :=
  append_toString_injective h

theorem baseAlias_ne (a : String) (i : Nat) : baseAlias a i ≠ a := by
  intro h
  have hlength := congrArg (fun s => s.toList.length) h
  simp [baseAlias] at hlength

theorem subAlias_ne (a : String) (i : Nat) : subAlias a i ≠ a := by
  intro h
  have hlength := congrArg (fun s => s.toList.length) h
  simp [subAlias] at hlength

theorem underscore_mem_baseAlias {a : String} {i : Nat} : '_' ∈ (baseAlias a i).toList := by
  simp [baseAlias]

theorem subAlias_ne_baseAlias (a : String) (i k : Nat) : subAlias a i ≠ baseAlias a k := by
  intro h
  have hlist := congrArg String.toList h
  simp [subAlias, baseAlias] at hlist

/-! ### Names that have been given -/

namespace AliasSupply

/-- The supply has given the name. -/
def Gave (s : AliasSupply) (name : List Char) : Prop :=
  ∃ stem n, Lettered stem ∧ n < s.count stem ∧ name = (numbered stem n).toList

variable {s : AliasSupply} {table : String}

theorem gave_next (h : Worded table) : (s.next table).2.Gave (s.next table).1.toList := by
  refine ⟨abbreviation table, s.count (abbreviation table), lettered_abbreviation h, ?_, rfl⟩
  show _ < (s.withCount _ _).count _
  rw [count_withCount_self]
  exact Nat.lt_succ_self _

/-- What is named next is new. -/
theorem not_gave_next (h : Worded table) : ¬ s.Gave (s.next table).1.toList := by
  rintro ⟨stem, n, hstem, hn, he⟩
  obtain ⟨rfl, rfl⟩ := numbered_injective (lettered_abbreviation h) hstem (String.toList_inj.1 he)
  exact Nat.lt_irrefl _ hn

/-- The name that a supply gives has no underscore, whatever the table is called. -/
theorem underscore_not_mem_next :
    '_' ∉ (s.next table).1.toList := by
  show '_' ∉ (numbered (abbreviation table) _).toList
  rw [toList_numbered, List.mem_append, not_or, abbreviation, String.toList_ofList]
  refine ⟨fun hm => ?_, fun hm => absurd (isDigit_of_mem_digits hm) (by decide)⟩
  obtain ⟨w, hw, hm⟩ := List.mem_flatMap.1 hm
  obtain ⟨c, hc, hm⟩ := List.mem_flatMap.1 hm
  have hne : c ≠ '_' := fun he => underscore_not_mem_words hw (he ▸ List.mem_of_mem_take hc)
  exact underscore_not_mem_lowercase hne hm

theorem trunk_next : trunk (s.next table).1 = (s.next table).1.toList :=
  trunk_eq underscore_not_mem_next

/-- What has been given stays so. -/
theorem Gave.literal {name : List Char} (h : s.Gave name) (other : String) :
    (s.literal other).2.Gave name := by
  obtain ⟨stem, n, hstem, hn, he⟩ := h
  refine ⟨stem, n, hstem, ?_, he⟩
  show n < (s.withCount _ _).count _
  by_cases hother : stem = other
  · rw [hother, count_withCount_self]
    rw [hother] at hn
    omega
  · rwa [count_withCount_of_ne hother]

theorem Gave.next {name : List Char} (h : s.Gave name) : (s.next table).2.Gave name :=
  h.literal _

theorem Gave.ne_nil {name : List Char} (h : s.Gave name) : name ≠ [] := by
  obtain ⟨stem, n, hstem, -, rfl⟩ := h
  rw [toList_numbered]
  exact List.append_ne_nil_of_left_ne_nil hstem.nonempty _

/-- Only names of small letters have been counted. -/
def Stemmed (s : AliasSupply) : Prop := ∀ name, s.count name ≠ 0 → Lettered name

theorem Stemmed.next (h : s.Stemmed) (hw : Worded table) : (s.next table).2.Stemmed := by
  intro name hname
  by_cases he : name = abbreviation table
  · rw [he]
    exact lettered_abbreviation hw
  · refine h name fun hzero => hname ?_
    show (s.withCount _ _).count _ = 0
    rw [count_withCount_of_ne he, hzero]

theorem Stemmed.count_underscore (h : s.Stemmed) (a : String) : s.count ("_" ++ a) = 0 := by
  by_contra hne
  have hmem : '_' ∈ ("_" ++ a).toList := by simp
  have hsmall := (h _ hne).letters _ hmem
  rw [isSmallLetter_underscore] at hsmall
  cases hsmall

end AliasSupply

end EntityQuery
