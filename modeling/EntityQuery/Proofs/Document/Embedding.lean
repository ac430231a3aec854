import EntityQuery.Document.Basic
import Mathlib.Data.List.Nodup

/-!
# Documents of JSON values

A JSON value is given as a document of some format.  Whatever the format, a decoder is answered as
the value itself would answer.

* `Document.Embeds`: a format in which JSON values are given;
* `Document.embeds_json`, `Document.embeds_settled`: JSON values as they are, and settled ones;
* `Embeds.record?_obj`, `Embeds.tagged?_obj`: the members of an object;
* `Embeds.list?_arr`: the items of an array, each read by what reads the items;
* `Json.depth_le_itemsDepth`: no item is deeper than the deepest.
-/

namespace EntityQuery

/-! ### Settled values -/

namespace Settled

theorem ofItems_eq_map (js : List Json) : ofItems js = js.map .ofJson := by
  induction js with
  | nil => rfl
  | cons j js ih => rw [ofItems, ih, List.map_cons]

theorem ofMembers_eq_map (ms : List (String × Json)) :
    ofMembers ms = ms.map fun m => (.text m.1, .ofJson m.2) := by
  induction ms with
  | nil => rfl
  | cons m ms ih => rw [ofMembers, ih, List.map_cons]

theorem int?_ofJson_int (i : Int) : (ofJson (.int i)).int? = some i := by
  rw [ofJson, ofNumber]
  split
  · next h => rw [int?, Int.toNat_of_nonneg h]
  · rfl

theorem isNull_ofJson (j : Json) : (ofJson j).isNull = j.isNull := by
  cases j with
  | num n =>
    cases n with
    | float x => rfl
    | int i =>
      rw [ofJson, ofNumber]
      split <;> rfl
  | _ => rfl

theorem labelledMembers?_ofMembers (ms : List (String × Json)) :
    labelledMembers? (.map (ofMembers ms)) = some (ms.map fun m => (.name m.1, ofJson m.2)) := by
  rw [labelledMembers?, ofMembers_eq_map]
  induction ms with
  | nil => rfl
  | cons m ms ih =>
    rw [List.map_cons, List.mapM_cons, ih]
    rfl

end Settled

namespace Document

/-- Members of which none has the name. -/
theorem filter_ne_of_not_mem {tag : String} {ms : List (String × α)} (h : tag ∉ ms.map Prod.fst) :
    ms.filter (·.1 = tag) = [] ∧ ms.filter (·.1 ≠ tag) = ms := by
  have hne : ∀ m ∈ ms, m.1 ≠ tag := fun m hm he => h (he ▸ List.mem_map_of_mem hm)
  exact ⟨List.filter_eq_nil_iff.2 fun m hm => by simpa using hne m hm,
    List.filter_eq_self.2 fun m hm => by simpa using hne m hm⟩

/-! ### Formats -/

/-- A format in which JSON values are given: what the document of each kind of value answers. -/
structure Embeds (δ : Type) [Document δ] (embed : Json → δ) : Prop where
  bool? (b : Bool) : bool? (embed (.bool b)) = some b
  int64? (n : Int64) : int64? (embed (.int n.toInt)) = some n
  text? (s : String) : text? (embed (.str s)) = some s
  items? (js : List Json) : items? (embed (.arr js)) = some (js.map embed)
  members? (ms : List (String × Json)) :
    members? (embed (.obj ms)) = some (ms.map fun m => (.name m.1, embed m.2))
  positional? (ms : List (String × Json)) : positional? (embed (.obj ms)) = none
  isAbsent? (j : Json) : isAbsent? (embed j) = some j.isNull
  variant?_str (s : String) : variant? (embed (.str s)) = some (s, none)
  variant?_obj (k : String) (j : Json) : variant? (embed (.obj [(k, j)])) = some (k, some (embed j))
  settled? (j : Json) : settled? (embed j) = some (.ofJson j)
  labelled? {tag : String} {ms : List (String × Json)} (name : String) (h : tag ∉ ms.map Prod.fst) :
    labelled? tag (embed (.obj ((tag, .str name) :: ms))) = some (.name name, .ofJson (.obj ms))

/-- A JSON value is a document as it is. -/
theorem embeds_json : Embeds Json id where
  bool? _ := rfl
  int64? n := Word.int64?_toInt n
  text? _ := rfl
  items? js := congrArg some js.map_id.symm
  members? _ := rfl
  positional? _ := rfl
  isAbsent? _ := rfl
  variant?_str _ := rfl
  variant?_obj _ _ := rfl
  settled? _ := rfl
  labelled? {tag ms} name h := by
    obtain ⟨hnone, hall⟩ := filter_ne_of_not_mem h
    show Json.labelled? tag (.obj ((tag, .str name) :: ms)) = _
    rw [Json.labelled?, List.filter_cons_of_pos (by simp), List.filter_cons_of_neg (by simp), hnone,
      hall]
    rfl

/-- A settled JSON value is a document. -/
theorem embeds_settled : Embeds Settled .ofJson where
  bool? _ := rfl
  int64? n := by
    show (Settled.ofJson (.int n.toInt)).int?.bind Word.int64? = _
    rw [Settled.int?_ofJson_int]
    exact Word.int64?_toInt n
  text? _ := rfl
  items? js := congrArg some (Settled.ofItems_eq_map js)
  members? ms := Settled.labelledMembers?_ofMembers ms
  positional? _ := rfl
  isAbsent? j := congrArg some (Settled.isNull_ofJson j)
  variant?_str _ := rfl
  variant?_obj _ _ := rfl
  settled? _ := rfl
  labelled? {tag ms} name h := by
    have hne : ∀ e ∈ Settled.ofMembers ms, e.1.isText tag = false := by
      intro e he
      rw [Settled.ofMembers_eq_map] at he
      obtain ⟨m, hm, rfl⟩ := List.mem_map.1 he
      have hm : m.1 ≠ tag := fun he => h (he ▸ List.mem_map_of_mem hm)
      simpa [Settled.isText] using hm
    have hself : (Settled.text tag).isText tag = true := by simp [Settled.isText]
    have hnone : (Settled.ofMembers ms).filter (·.1.isText tag) = [] :=
      List.filter_eq_nil_iff.2 fun e he => by simp [hne e he]
    have hall : (Settled.ofMembers ms).filter (!·.1.isText tag) = Settled.ofMembers ms :=
      List.filter_eq_self.2 fun e he => by simp [hne e he]
    show Settled.labelled? tag (.map ((.text tag, .text name) :: Settled.ofMembers ms)) = _
    simp only [Settled.labelled?, List.filter_cons, hself, hnone, hall]
    rfl

/-! ### Records and lists -/

namespace Embeds

variable {δ : Type} [Document δ] {embed : Json → δ} {ms : List (String × Json)}

omit [Document δ] in
/-- The member of a name, where no name occurs twice. -/
theorem member?_map (hms : (ms.map Prod.fst).Nodup) (key : String) (place : Nat) :
    member? key place (ms.map fun m => (Label.name m.1, embed m.2)) =
      some ((Json.find? key ms).map embed) := by
  induction ms with
  | nil => rfl
  | cons m ms ih =>
    obtain ⟨k, j⟩ := m
    obtain ⟨hk, hms⟩ := List.nodup_cons.1 hms
    by_cases he : k = key
    · subst he
      have hnone : (ms.map fun m => (Label.name m.1, embed m.2)).filter
          (fun m => decide (m.1 = .name k) || decide (m.1 = .index place)) = [] := by
        refine List.filter_eq_nil_iff.2 (List.forall_mem_map.2 fun m hm => ?_)
        have hne : m.1 ≠ k := fun he => hk (List.mem_map.2 ⟨m, hm, he⟩)
        simp [hne]
      simp [member?, Json.find?, hnone]
    · rw [Json.find?, if_neg he, ← ih hms]
      simp [member?, he]

/-- The members of an object, by their names. -/
theorem record?_obj (E : Embeds δ embed) (hms : (ms.map Prod.fst).Nodup) (keys : List String)
    (least : Nat) : record? keys least (embed (.obj ms)) =
      some (keys.map fun k => (Json.find? k ms).map embed) := by
  rw [record?, E.positional?]
  show (Document.members? (embed (.obj ms))).bind _ = _
  rw [E.members?]
  show ((keys.zipIdx 0).mapM fun k => member? k.1 k.2 (ms.map fun m => (.name m.1, embed m.2))) = _
  generalize 0 = place
  induction keys generalizing place with
  | nil => rfl
  | cons key keys ih =>
    rw [List.zipIdx_cons, List.mapM_cons, member?_map hms, ih]
    rfl

theorem tagged?_obj (E : Embeds δ embed) {tag : String} (name : String)
    (h : tag ∉ ms.map Prod.fst) (names : List String) :
    tagged? tag names (embed (.obj ((tag, .str name) :: ms))) = some (name, .ofJson (.obj ms)) := by
  rw [tagged?, E.labelled? name h]
  rfl

/-- The items of an array are read one by one. -/
theorem list?_arr (E : Embeds δ embed) {write : α → Json} {read : δ → Option α} {xs : List α}
    (h : ∀ x ∈ xs, read (embed (write x)) = some x) :
    list? read (embed (.arr (xs.map write))) = some xs := by
  rw [list?, E.items?]
  show ((xs.map write).map embed).mapM read = _
  induction xs with
  | nil => rfl
  | cons x xs ih =>
    rw [List.map_cons, List.map_cons, List.mapM_cons, h x List.mem_cons_self,
      ih fun x hx => h x (List.mem_cons_of_mem _ hx)]
    rfl

theorem nullable_ofOption (E : Embeds δ embed) {write : α → Json} {read : δ → Option α} {x? : Option α}
    (h : ∀ x, x? = some x → (write x).isNull = false ∧ read (embed (write x)) = some x) :
    nullable read (embed (.ofOption write x?)) = some x? := by
  rw [nullable, E.isAbsent?]
  cases x? with
  | none => rfl
  | some x =>
    obtain ⟨hnull, hread⟩ := h x rfl
    simp only [Json.ofOption, hnull, hread]
    rfl

theorem name?_str (E : Embeds δ embed) (s : String) : name? (embed (.str s)) = some s := by
  rw [name?, E.variant?_str]

end Embeds

end Document

/-! ### Depth -/

namespace Json

theorem depth_le_itemsDepth {j : Json} {js : List Json} (h : j ∈ js) : j.depth ≤ itemsDepth js := by
  induction js with
  | nil => cases h
  | cons i js ih =>
    rw [itemsDepth]
    rcases List.mem_cons.1 h with rfl | h
    · exact Nat.le_max_left _ _
    · exact Nat.le_trans (ih h) (Nat.le_max_right _ _)

end Json

end EntityQuery
