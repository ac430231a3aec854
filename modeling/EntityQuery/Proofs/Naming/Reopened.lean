import EntityQuery.Proofs.Agreement.Binding
import EntityQuery.Proofs.Draft.Names
import EntityQuery.Proofs.Naming.Nested
import EntityQuery.Proofs.Scoping.Leaves

/-!
# New names for a plan

A supply that is made for a plan reads the names of its tables: the letters of a name, and the number
behind them, which says how often the letters have been given.  Other names are passed over, because
a supply never gives such a name.

* `AliasSupply.names`: names for some tables, one after the other;
* `AliasSupply.serial?_numbered`: a name that a supply could give is read as it was made;
* `AliasSupply.Heeds`: a supply that will not give a name again;
* `AliasSupply.names_ofPlan`: the names that are given for a plan are new, and no two are the same.
-/

namespace EntityQuery

namespace AliasSupply

/-- The names that are given for tables, one after the other. -/
def names : AliasSupply → List String → List String
  | _, [] => []
  | s, table :: rest => (s.next table).1 :: (s.next table).2.names rest

/-! ### Reading a name -/

theorem not_isDecimalDigit_of_isSmallLetter {c : Char} (h : isSmallLetter c = true) :
    isDecimalDigit c = false := by
  have hrange : 97 ≤ c.toNat ∧ c.toNat ≤ 122 := by
    simpa [isSmallLetter, Char.le_def, UInt32.le_iff_toNat_le] using h
  -- the digits of all other scripts lie above the small letters
  have hzeros : ∀ z ∈ digitZeros, z = 48 ∨ 1632 ≤ z := by decide +kernel
  rw [isDecimalDigit, List.any_eq_false]
  intro z hz hdigit
  simp only [Bool.and_eq_true, decide_eq_true_iff] at hdigit
  rcases hzeros z hz with rfl | hlarge <;> omega

variable {stem name : String} {n : Nat} {s : AliasSupply} {tables : List String}

theorem splitDigits_numbered (h : Lettered stem) :
    splitDigits (numbered stem n) = (stem.toList, digits n) := by
  have hdigits : ∀ c ∈ (digits n).reverse, isDecimalDigit c = true := fun c hc =>
    isDecimalDigit_of_isDigit (isDigit_of_mem_digits (List.mem_reverse.1 hc))
  have hletters : ∀ h : 0 < stem.toList.reverse.length,
      ¬ isDecimalDigit stem.toList.reverse[0] = true := fun hl => by
    rw [not_isDecimalDigit_of_isSmallLetter
      (h.letters _ (List.mem_reverse.1 (List.getElem_mem hl)))]
    exact Bool.false_ne_true
  simp only [splitDigits, toList_numbered, List.reverse_append]
  rw [List.dropWhile_append_of_pos hdigits, List.takeWhile_append_of_pos hdigits,
    List.dropWhile_eq_self_iff.2 hletters, List.takeWhile_eq_nil_iff.2 hletters, List.append_nil,
    List.reverse_reverse, List.reverse_reverse]

/-- The name of a base or subtype table has an underscore in front of its last letter. -/
theorem isInherited_numbered (h : Lettered stem) : isInherited (numbered stem n) = false := by
  have hunderscore : '_' ∉ stem.toList.reverse := fun hm => by
    have := h.letters _ (List.mem_reverse.1 hm)
    rw [isSmallLetter_underscore] at this
    cases this
  unfold isInherited
  rw [splitDigits_numbered h]
  split
  · rfl
  · next heq =>
    obtain ⟨rfl, -⟩ := Prod.mk.inj heq
    split
    · next hr => exact absurd (hr ▸ by simp) hunderscore
    · rfl

theorem isStem_of_lettered (h : Lettered stem) : isStem stem.toList = true := by
  have hhead : stem.toList.head? ≠ some '_' := fun he => by
    have := h.letters _ (List.mem_of_head? he)
    rw [isSmallLetter_underscore] at this
    cases this
  unfold isStem
  rw [if_neg hhead]
  simpa [h.nonempty] using h.letters

theorem number?_digits (hn : n + 1 ≤ Word.natMax) : number? (digits (n + 1)) = some (n + 1) := by
  have hall : (digits (n + 1)).all Char.isDigit = true :=
    List.all_eq_true.2 fun c hc => isDigit_of_mem_digits hc
  have hne : (digits (n + 1)).isEmpty = false := by
    rw [List.isEmpty_eq_false_iff]
    exact fun he => absurd (digits_injective (he.trans (show [] = digits 0 from rfl))) (by simp)
  have hvalue : (digits (n + 1)).foldl (fun n c => n * 10 + (c.toNat - 48)) 0 = n + 1 := calc
    _ = Nat.ofDigitChars 10 (Nat.toDigits 10 (n + 1)) 0 := by
      simp only [digits, Nat.toString_eq_repr, Nat.toList_repr, Nat.ofDigitChars, Nat.mul_comm]
      rfl
    _ = n + 1 := Nat.ofDigitChars_ten_toDigits
  simp only [number?, hall, hne, hvalue]
  simp [hn]

/-- A name that a supply could give is read as it was made. -/
theorem serial?_numbered (h : Lettered stem) (hn : n ≤ Word.natMax) :
    serial? (numbered stem n) = some (stem, n + 1) := by
  unfold serial?
  rw [isInherited_numbered h, if_neg Bool.false_ne_true, splitDigits_numbered h]
  simp only [isStem_of_lettered h, if_true, String.ofList_toList]
  cases n with
  | zero => rfl
  | succ n => rw [number?_digits hn]

/-! ### Supplies that know a name -/

theorem le_count_learn : s.count stem ≤ (s.learn name).count stem := by
  unfold learn
  split
  · exact Nat.le_refl _
  · next other n _ =>
    by_cases he : stem = other
    · rw [he, count_withCount_self]
      exact Nat.le_max_left _ _
    · rw [count_withCount_of_ne he]

/-- If a supply could give the name, it has given it. -/
def Heeds (s : AliasSupply) (name : String) : Prop :=
  ∀ stem n, Lettered stem → n ≤ Word.natMax → name = numbered stem n → n < s.count stem

theorem heeds_learn : (s.learn name).Heeds name := by
  rintro stem n hstem hn rfl
  rw [learn, serial?_numbered hstem hn]
  show n < (s.withCount _ _).count _
  rw [count_withCount_self]
  exact Nat.lt_of_lt_of_le (Nat.lt_succ_self n) (Nat.le_max_right _ _)

theorem Heeds.learn (h : s.Heeds name) (other : String) : (s.learn other).Heeds name :=
  fun stem n hstem hn he => Nat.lt_of_lt_of_le (h stem n hstem hn he) le_count_learn

theorem heeds_foldl_learn {known : List String} (h : s.Heeds name ∨ name ∈ known) :
    (known.foldl learn s).Heeds name := by
  induction known generalizing s with
  | nil => exact h.resolve_right List.not_mem_nil
  | cons first known ih =>
    refine ih ?_
    rcases h with h | h
    · exact .inl (h.learn first)
    · rcases List.mem_cons.1 h with rfl | h
      · exact .inl heeds_learn
      · exact .inr h

/-- The supply of a plan knows all of its tables. -/
theorem heeds_ofPlan {p : Plan} (h : name ∈ p.allAliases) : (ofPlan p).Heeds name :=
  heeds_foldl_learn (.inr h)

/-! ### Names one after the other -/

/-- No name is given that had been given before. -/
theorem not_gave_of_mem_names (hw : ∀ table ∈ tables, Worded table) (h : name ∈ s.names tables) :
    ¬ s.Gave name.toList := by
  induction tables generalizing s with
  | nil => cases h
  | cons table rest ih =>
    obtain ⟨hfirst, hrest⟩ := List.forall_mem_cons.1 hw
    rcases List.mem_cons.1 h with rfl | h
    · exact not_gave_next hfirst
    · exact fun hgave => ih hrest h hgave.next

theorem nodup_names (hw : ∀ table ∈ tables, Worded table) : (s.names tables).Nodup := by
  induction tables generalizing s with
  | nil => exact List.nodup_nil
  | cons table rest ih =>
    obtain ⟨hfirst, hrest⟩ := List.forall_mem_cons.1 hw
    exact List.nodup_cons.2 ⟨fun h => not_gave_of_mem_names hrest h (gave_next hfirst), ih hrest⟩

/-- No number is reached that a name could not be read with. -/
theorem exists_numbered_of_mem_names (hw : ∀ table ∈ tables, Worded table)
    (hroom : ∀ stem, s.count stem + tables.length ≤ Word.natMax) (h : name ∈ s.names tables) :
    ∃ stem n, Lettered stem ∧ n ≤ Word.natMax ∧ name = numbered stem n := by
  induction tables generalizing s with
  | nil => cases h
  | cons table rest ih =>
    obtain ⟨hfirst, hrest⟩ := List.forall_mem_cons.1 hw
    rcases List.mem_cons.1 h with rfl | h
    · exact ⟨_, _, lettered_abbreviation hfirst, (Nat.le_add_right _ _).trans (hroom _), rfl⟩
    · -- one name takes one number, of one stem, so there is room for the rest
      refine ih hrest (fun stem => ?_) h
      have hstep : (s.next table).2.count stem ≤ s.count stem + 1 := by
        show (s.withCount _ _).count _ ≤ _
        by_cases he : stem = abbreviation table
        · rw [he, count_withCount_self]
        · rw [count_withCount_of_ne he]
          exact Nat.le_succ _
      have hbound := hroom stem
      rw [List.length_cons] at hbound
      omega

/-- A name that the supply knows is not given. -/
theorem Heeds.not_mem_names (hname : s.Heeds name) (hw : ∀ table ∈ tables, Worded table)
    (hroom : ∀ stem, s.count stem + tables.length ≤ Word.natMax) : name ∉ s.names tables := by
  intro h
  obtain ⟨stem, n, hstem, hn, rfl⟩ := exists_numbered_of_mem_names hw hroom h
  exact not_gave_of_mem_names hw h ⟨stem, n, hstem, hname stem n hstem hn rfl, rfl⟩

end AliasSupply

/-- What holds of all names of a plan holds of the tables of each plan inside it. -/
theorem Plan.everywhere_of_allAliases {P : String → Prop} {p : Plan} (h : ∀ a ∈ p.allAliases, P a) :
    p.Everywhere fun q => ∀ t ∈ q.tables, P t.aliasName := by
  have hplans : p.Everywhere fun _ => True := Plan.everywhere_of_forall (fun _ => trivial) p
  induction hplans with
  | intro _ _ ih =>
    refine .intro (fun t ht => h _ ?_) fun q hq =>
      ih q hq fun a ha => h a ((Plan.sublist_allAliases_of_nested hq).subset ha)
    rw [Plan.allAliases_eq_nested]
    exact List.mem_append_left _ (List.mem_map_of_mem ht)

/-- The names that are given for a plan are new, and no two of them are the same. -/
theorem AliasSupply.names_ofPlan {p : Plan} {tables : List String}
    (hw : ∀ table ∈ tables, Worded table)
    (hroom : ∀ stem, (ofPlan p).count stem + tables.length ≤ Word.natMax) :
    ((ofPlan p).names tables).Nodup ∧
      p.Everywhere fun q => ∀ t ∈ q.tables, t.aliasName ∉ (ofPlan p).names tables :=
  ⟨nodup_names hw, Plan.everywhere_of_allAliases fun _ ha => (heeds_ofPlan ha).not_mem_names hw hroom⟩

/-- Books with one that has been translated, and whether some book is reviewed. -/
def reopened : Plan :=
  let inside (name : String) : Plan := ⟨[], [.primary name "books"], none, [], none, none⟩
  { selects := [.boolOr (.all [.existence (inside "br") false ["b"]]) "reviewed"]
    tables := [.primary "b" "books", .cross "b01" "books", .cross "b_b0" "works",
      .lateral "_b" "b" (inside "b99999999999999999999")]
    condition := some (.all [.existence (inside "b3") false ["b"]])
    sortKeys := []
    groupBys := none
    ctes := none }

theorem AliasSupply.names_ofPlan_reopened :
    (ofPlan reopened).names ["books", "Books", "book_reviews"] = ["b4", "b5", "br1"] ∧
      ["b4", "b5", "br1"].Nodup ∧
      reopened.Everywhere fun q => ∀ t ∈ q.tables, t.aliasName ∉ ["b4", "b5", "br1"] := by
  have hcounts : ofPlan reopened = ⟨[("br", 1), ("b", 4), ("_b", 1)]⟩ := by decide +kernel
  have hnames : (ofPlan reopened).names ["books", "Books", "book_reviews"] = ["b4", "b5", "br1"] := by
    decide +kernel
  have hw : ∀ table ∈ ["books", "Books", "book_reviews"], Worded table := by decide +kernel
  have hroom : ∀ stem, (ofPlan reopened).count stem + 3 ≤ Word.natMax := by
    intro stem
    rw [hcounts]
    unfold count Word.natMax
    simp only [List.find?_cons, List.find?_nil]
    split
    · decide
    · split
      · decide
      · split <;> decide
  have hnew := names_ofPlan hw hroom
  rw [hnames] at hnew
  exact ⟨hnames, hnew⟩

end EntityQuery
