import Mathlib

/-!
# Bitmaps

A bitmap is a sequence of machine words of `w` bits; bit `i` of the map is bit `i % w` of word
`i / w`.  Places past the last word read as unset.

* `Bitmap.testBit_setBit`, `Bitmap.testBit_clearBit` : setting or clearing one bit of one word
  changes exactly that bit of the map.
* `Bitmap.testBit_append_zeros` : zero words at the end change no bit.
-/

namespace Il2Cpp

/-- A sequence of words of `w` bits. -/
abbrev Bitmap (w : ℕ) := List (BitVec w)

namespace Bitmap

variable {w : ℕ}

/-- Bit `i` of the map. -/
def testBit (b : Bitmap w) (i : ℕ) : Bool := (b.getD (i / w) 0).getLsbD (i % w)

/-- `b[k] |= 1 << i`. -/
def setBit (b : Bitmap w) (k i : ℕ) : Bitmap w := b.modify k (· ||| 1#w <<< i)

/-- `b[k] &= ~(1 << i)`. -/
def clearBit (b : Bitmap w) (k i : ℕ) : Bitmap w := b.modify k (· &&& ~~~(1#w <<< i))

@[simp] theorem length_setBit (b : Bitmap w) (k i : ℕ) : (b.setBit k i).length = b.length :=
  List.length_modify ..

@[simp] theorem length_clearBit (b : Bitmap w) (k i : ℕ) : (b.clearBit k i).length = b.length :=
  List.length_modify ..

theorem testBit_of_length_le {b : Bitmap w} {i : ℕ} (h : b.length ≤ i / w) :
    b.testBit i = false := by
  simp [testBit, List.getD_eq_getElem?_getD, List.getElem?_eq_none h]

theorem testBit_append_zeros (b : Bitmap w) (n i : ℕ) :
    testBit (b ++ List.replicate n 0#w) i = b.testBit i := by
  rw [testBit, testBit, List.getD_eq_getElem?_getD, List.getD_eq_getElem?_getD]
  rcases Nat.lt_or_ge (i / w) b.length with h | h
  · rw [List.getElem?_append_left h]
  · rw [List.getElem?_append_right h, List.getElem?_replicate, List.getElem?_eq_none h]
    split_ifs <;> rfl

/-- The word that a mask test looks at is the bit of the map. -/
theorem and_mask_ne_zero_iff {x : BitVec w} {i : ℕ} (hi : i < w) :
    x &&& 1#w <<< i ≠ 0#w ↔ x.getLsbD i = true := by
  rw [← BitVec.twoPow_eq, BitVec.and_twoPow]
  cases x.getLsbD i
  · simp
  · simp only [if_true, ne_eq, iff_true]
    intro h
    have := congrArg (BitVec.getLsbD · i) h
    simp [hi] at this

theorem getLsbD_mask {i : ℕ} (hi : i < w) (j : ℕ) :
    (1#w <<< i).getLsbD j = decide (i = j) := by
  rw [← BitVec.twoPow_eq, BitVec.getLsbD_twoPow, decide_eq_true hi, Bool.true_and]

/-- One word of a map is changed; the bits of the other words stay. -/
theorem testBit_modify (b : Bitmap w) (k : ℕ) (f : BitVec w → BitVec w) (j : ℕ) :
    testBit (b.modify k f) j =
      if j / w = k ∧ k < b.length then (f (b.getD k 0)).getLsbD (j % w) else b.testBit j := by
  rw [testBit, testBit, List.getD_eq_getElem?_getD, List.getD_eq_getElem?_getD,
    List.getD_eq_getElem?_getD, List.getElem?_modify]
  by_cases hjk : j / w = k
  · subst hjk
    by_cases hlt : j / w < b.length
    · simp [hlt]
    · simp [hlt]
  · simp [hjk, Ne.symm hjk]

theorem div_mod_eq_iff {j k i : ℕ} (hi : i < w) : j / w = k ∧ j % w = i ↔ j = k * w + i := by
  constructor
  · rintro ⟨rfl, rfl⟩
    rw [Nat.mul_comm]
    exact (Nat.div_add_mod j w).symm
  · rintro rfl
    rw [Nat.mul_comm, Nat.mul_add_div (by omega), Nat.mul_add_mod, Nat.mod_eq_of_lt hi,
      Nat.div_eq_of_lt hi]
    exact ⟨rfl, rfl⟩

/-- **Setting a bit.** -/
theorem testBit_setBit {b : Bitmap w} {k i : ℕ} (hk : k < b.length) (hi : i < w) (j : ℕ) :
    (b.setBit k i).testBit j = true ↔ b.testBit j = true ∨ j = k * w + i := by
  rw [setBit, testBit_modify, ← div_mod_eq_iff hi]
  by_cases hjk : j / w = k
  · subst hjk
    simp [hk, testBit, getLsbD_mask hi, eq_comm (a := i)]
  · simp [hjk]

/-- **Clearing a bit.** -/
theorem testBit_clearBit {b : Bitmap w} {k i : ℕ} (hk : k < b.length) (hi : i < w) (j : ℕ) :
    (b.clearBit k i).testBit j = true ↔ b.testBit j = true ∧ j ≠ k * w + i := by
  rw [clearBit, testBit_modify, ne_eq, ← div_mod_eq_iff hi]
  by_cases hjk : j / w = k
  · subst hjk
    have hj : j % w < w := Nat.mod_lt _ (by omega)
    simp only [hk, and_self, if_true, true_and, testBit, BitVec.getLsbD_and, BitVec.getLsbD_not,
      hj, getLsbD_mask hi, decide_true, Bool.true_and, Bool.and_eq_true, Bool.not_eq_true',
      decide_eq_false_iff_not, eq_comm (a := i)]
  · simp [hjk]

end Bitmap

end Il2Cpp
