import EntityQuery.Proofs.Draft.Match
import Mathlib.Data.List.Basic

/-!
# Spellings of an id

An id is read behind the tag of its entity or without it, and its stored form is read as itself.

* `Uuid.parse?_text`: the text of a UUID spells it;
* `splitTag?_tagged`, `splitTag?_untagged`: texts with a tag and texts without one;
* `Entity.parseId_tagged_iff`, `Entity.parseId_otherTag`: the tag of the entity, and other tags;
* `Entity.parseId_parseId`: the stored form of an id is read as itself.
-/

namespace EntityQuery

/-! ### UUIDs -/

theorem toLower_of_isLowerHex {c : Char} (h : isLowerHex c = true) : c.toLower = c := by
  have hupper : ¬ (c.val ≥ 'A'.val ∧ c.val ≤ 'Z'.val) := by
    rintro ⟨hlow, hhigh⟩
    simp only [isLowerHex, Char.isDigit, Bool.or_eq_true, Bool.and_eq_true, decide_eq_true_iff,
      Char.le_def, ge_iff_le, UInt32.le_iff_toNat_le] at h hlow hhigh
    simp at h hlow hhigh
    omega
  rw [Char.toLower, dif_neg hupper]

namespace Uuid

variable {a b c d e : List Char}

theorem ofDigits?_digits (u : Uuid) : ofDigits? u.digits = some u := by
  have hlower : u.digits.map Char.toLower = u.digits :=
    (List.map_congr_left fun c hc => toLower_of_isLowerHex
      (List.all_eq_true.1 u.isLowerHex_digits c hc)).trans (List.map_id _)
  unfold ofDigits?
  simp only [hlower]
  exact dif_pos ⟨u.length_digits, u.isLowerHex_digits⟩

/-- Five groups of digits are read as one. -/
theorem ofHyphenated?_groups (ha : a.length = 8) (hb : b.length = 4) (hc : c.length = 4)
    (hd : d.length = 4) (he : e.length = 12) :
    ofHyphenated? (a ++ '-' :: (b ++ '-' :: (c ++ '-' :: (d ++ '-' :: e)))) =
      ofDigits? (a ++ b ++ c ++ d ++ e) := by
  unfold ofHyphenated?
  rw [if_pos (by simp [ha, hb, hc, hd, he])]
  simp [List.drop_append, List.drop_eq_nil_of_le, ha, hb, hc, hd]

theorem toList_text (u : Uuid) : u.text.toList = u.digits.take 8 ++ '-' ::
    ((u.digits.drop 8).take 4 ++ '-' :: ((u.digits.drop 12).take 4 ++ '-' ::
      ((u.digits.drop 16).take 4 ++ '-' :: u.digits.drop 20))) := by
  simp [text, groups, List.intercalate]

theorem digits_eq (u : Uuid) : u.digits.take 8 ++ (u.digits.drop 8).take 4 ++
    (u.digits.drop 12).take 4 ++ (u.digits.drop 16).take 4 ++ u.digits.drop 20 = u.digits := by
  have hjoin : ∀ m n, (u.digits.drop m).take n ++ u.digits.drop (m + n) = u.digits.drop m :=
    fun m n => by rw [← List.drop_drop, List.take_append_drop]
  simp only [List.append_assoc]
  rw [hjoin 16 4, hjoin 12 4, hjoin 8 4, List.take_append_drop]

/-- The text of a UUID spells it. -/
theorem parse?_text (u : Uuid) : parse? u.text = some u := by
  have hlength := u.length_digits
  have hlong : u.text.toList.length = 36 := by
    rw [toList_text]
    simp [hlength]
  have hread : ofHyphenated? u.text.toList = some u := by
    rw [toList_text, ofHyphenated?_groups (by simp [hlength]) (by simp [hlength]) (by simp [hlength])
      (by simp [hlength]) (by simp [hlength]), digits_eq, ofDigits?_digits]
  unfold parse?
  simp only [hlong, hread]

/-- No UUID is written with a colon. -/
theorem colon_not_mem_text (u : Uuid) : ':' ∉ u.text.toList := by
  have hdigits : ':' ∉ u.digits := fun hm =>
    absurd (List.all_eq_true.1 u.isLowerHex_digits _ hm) (by decide)
  have htake : ∀ n ds, ds ⊆ u.digits → ':' ∉ ds.take n := fun n ds hds hm =>
    hdigits (hds (List.mem_of_mem_take hm))
  have hdrop : ∀ n, u.digits.drop n ⊆ u.digits := fun n => List.drop_subset n _
  have hhyphen : ':' ≠ '-' := by decide
  rw [toList_text]
  simp only [List.mem_append, List.mem_cons, not_or]
  exact ⟨htake 8 _ (List.Subset.refl _), hhyphen, htake 4 _ (hdrop 8), hhyphen, htake 4 _ (hdrop 12),
    hhyphen, htake 4 _ (hdrop 16), hhyphen, fun hm => hdigits (hdrop 20 hm)⟩

end Uuid

/-! ### Tags -/

theorem splitColon?_append {cs rest : List Char} (h : ':' ∉ cs) :
    splitColon? (cs ++ ':' :: rest) = some (cs, rest) := by
  induction cs with
  | nil => rfl
  | cons c cs ih =>
    simp only [List.mem_cons, not_or] at h
    rw [List.cons_append, splitColon?, if_neg (Ne.symm h.1), ih h.2]
    rfl

theorem splitColon?_eq_none {cs : List Char} (h : ':' ∉ cs) : splitColon? cs = none := by
  induction cs with
  | nil => rfl
  | cons c cs ih =>
    simp only [List.mem_cons, not_or] at h
    rw [splitColon?, if_neg (Ne.symm h.1), ih h.2]
    rfl

theorem splitTag?_tagged {tag s : String} (h : ':' ∉ tag.toList) :
    splitTag? (tag ++ ":" ++ s) = some (tag, s) := by
  have htext : (tag ++ ":" ++ s).toList = tag.toList ++ ':' :: s.toList := by simp
  rw [splitTag?, htext, splitColon?_append h, Option.map_some, String.ofList_toList,
    String.ofList_toList]

theorem splitTag?_untagged {s : String} (h : ':' ∉ s.toList) : splitTag? s = none := by
  rw [splitTag?, splitColon?_eq_none h]
  rfl

namespace Entity

variable {e : Entity} {nil : NilIds} {v w : Value} {s tag : String}

theorem parseId_text (htype : e.idType ≠ .untaggedString) : e.parseId nil (.text s) =
    (do parseUntagged e.idType (.text s) (← e.untag (.text s) s)) := by
  unfold parseId
  cases hty : e.idType with
  | untaggedString => exact absurd hty htype
  | _ => rfl

/-- The id as it was given is mentioned in errors alone. -/
theorem parseUntagged_eq_ok_iff {idType : IdType} {v v' : Value} :
    parseUntagged idType v s = .ok w ↔ parseUntagged idType v' s = .ok w := by
  unfold parseUntagged
  split
  · split
    · rfl
    · exact iff_of_false nofun nofun
  · split
    · rfl
    · exact iff_of_false nofun nofun

/-- The tag of the entity makes no difference in front of an id. -/
theorem parseId_tagged_iff (htype : e.idType ≠ .untaggedString) (htag : ':' ∉ e.tag.toList)
    (hs : ':' ∉ s.toList) :
    e.parseId nil (.text (e.tag ++ ":" ++ s)) = .ok w ↔ e.parseId nil (.text s) = .ok w := by
  have htagged : ∀ v, e.untag v (e.tag ++ ":" ++ s) = .ok s := fun v => by
    simp only [untag, splitTag?_tagged htag, if_true]
  have huntagged : ∀ v, e.untag v s = .ok s := fun v => by
    simp only [untag, splitTag?_untagged hs]
  rw [parseId_text htype, parseId_text htype, htagged, huntagged, ok_bind, ok_bind]
  exact parseUntagged_eq_ok_iff

/-- No id has another tag. -/
theorem parseId_otherTag (htype : e.idType ≠ .untaggedString) (htag : ':' ∉ tag.toList)
    (hne : tag ≠ e.tag) : e.parseId nil (.text (tag ++ ":" ++ s)) ≠ .ok w := by
  intro h
  rw [parseId_text htype] at h
  obtain ⟨rest, hrest, -⟩ := exists_of_bind_eq_ok h
  simp only [untag, splitTag?_tagged htag, if_neg hne] at hrest
  cases hrest

/-- An id is stored as a number or as the text of a UUID. -/
theorem stored_of_parseUntagged {idType : IdType} (h : parseUntagged idType v s = .ok w) :
    (idType = .int ∧ ∃ i, w = .int i) ∨ (idType ≠ .int ∧ ∃ u : Uuid, w = .text u.text) := by
  unfold parseUntagged at h
  split at h
  · split at h
    · exact .inl ⟨rfl, _, (Except.ok.inj h).symm⟩
    · cases h
  · next hint =>
    split at h
    · exact .inr ⟨hint, _, (Except.ok.inj h).symm⟩
    · cases h

/-- The text of a UUID is read as itself. -/
theorem parseId_uuid (hint : e.idType ≠ .int) (htype : e.idType ≠ .untaggedString) (u : Uuid) :
    e.parseId nil (.text u.text) = .ok (.text u.text) := by
  have huntag : e.untag (.text u.text) u.text = .ok u.text := by
    simp only [untag, splitTag?_untagged u.colon_not_mem_text]
  rw [parseId_text htype, huntag, ok_bind]
  cases hty : e.idType with
  | int => exact absurd hty hint
  | _ => simp only [parseUntagged, u.parse?_text]

/-- The stored form of an id is read as itself. -/
theorem parseId_parseId (hv : ∀ typeName, v ≠ .newEntity typeName) (h : e.parseId nil v = .ok w) :
    e.parseId nil w = .ok w := by
  unfold parseId at h
  split at h
  · obtain rfl := Except.ok.inj h
    rfl
  · exact absurd rfl (hv _)
  · next i hty =>
    obtain rfl := Except.ok.inj h
    simp only [parseId, hty]
  · next i hty =>
    obtain rfl := Except.ok.inj h
    simp only [parseId, hty]
  · next s hty =>
    obtain rfl := Except.ok.inj h
    simp only [parseId, hty]
  · next s htype =>
    obtain ⟨rest, -, h⟩ := exists_of_bind_eq_ok h
    obtain ⟨hty, i, rfl⟩ | ⟨hint, u, rfl⟩ := stored_of_parseUntagged h
    · simp only [parseId, hty]
    · exact parseId_uuid hint htype u
  · cases h

end Entity

end EntityQuery
