/-!
# Integers of 64 bits

The bounds of the integers that documents and texts can hold.

* `Word.intMin`, `Word.intMax`: the least and the greatest integer with a sign;
* `Word.natMax`: the greatest integer without one;
* `Word.wideMin`, `Word.wideMax`: the bounds of integers of 128 bits, with a sign and without;
* `Word.int64?`, `Word.nat64?`: an integer, if it keeps the bounds.
-/

namespace EntityQuery.Word

/-- The least integer of 64 bits. -/
def intMin : Int := -9223372036854775808

/-- The greatest integer of 64 bits. -/
def intMax : Int := 9223372036854775807

/-- The greatest integer of 64 bits without a sign. -/
def natMax : Nat := 18446744073709551615

/-- The least integer of 128 bits. -/
def wideMin : Int := -170141183460469231731687303715884105728

/-- The greatest integer of 128 bits without a sign. -/
def wideMax : Nat := 340282366920938463463374607431768211455

/-- The integer, if 64 bits hold it. -/
def int64? (i : Int) : Option Int64 :=
  if intMin ≤ i ∧ i ≤ intMax then some (Int64.ofInt i) else none

/-- The integer, if it has no sign and 64 bits hold it. -/
def nat64? (i : Int) : Option Nat := if 0 ≤ i ∧ i ≤ natMax then some i.toNat else none

theorem int64?_eq_some_iff {i : Int} {n : Int64} :
    int64? i = some n ↔ (intMin ≤ i ∧ i ≤ intMax) ∧ Int64.ofInt i = n := by
  simp [int64?]

/-- An integer of 64 bits is held by them. -/
theorem int64?_toInt (n : Int64) : int64? n.toInt = some n := by
  have least := n.le_toInt
  have greatest := n.toInt_lt
  rw [int64?_eq_some_iff]
  refine ⟨⟨?_, ?_⟩, Int64.ofInt_toInt n⟩
  · simpa [intMin] using least
  · have : n.toInt < 9223372036854775808 := by simpa using greatest
    simp only [intMax]
    omega

end EntityQuery.Word
