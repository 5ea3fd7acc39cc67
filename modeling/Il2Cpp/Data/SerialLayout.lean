import Mathlib

/-!
# Placing items one after another

Items with a size and an alignment are placed in a row: each one at the first multiple of its
alignment behind the one before it.

* `alignUp` : the first multiple of an alignment from a position on, and the way machine code finds
  it for a power of two (`toNat_alignUp_mask`).
* `offsets`, `extent` : where the items of a list go, and where the last one ends.

The items lie on multiples of their alignments (`dvd_of_mem_zip_offsets`), between the start and the
end (`le_of_mem_zip_offsets`, `add_size_le_extent`), and do not overlap (`pairwise_offsets`).
-/

namespace Il2Cpp.SerialLayout

/-! ### Alignment -/

/-- The first multiple of `a` from `n` on. -/
def alignUp (n a : ℕ) : ℕ := (n + (a - 1)) / a * a

theorem dvd_alignUp (n a : ℕ) : a ∣ alignUp n a := Nat.dvd_mul_left a _

theorem le_alignUp (n : ℕ) {a : ℕ} (ha : 0 < a) : n ≤ alignUp n a := by
  have hmod := Nat.mod_lt (n + (a - 1)) ha
  have hdiv := Nat.div_add_mod' (n + (a - 1)) a
  rw [alignUp]
  omega

theorem alignUp_lt (n : ℕ) {a : ℕ} (ha : 0 < a) : alignUp n a < n + a := by
  have hle := Nat.div_mul_le_self (n + (a - 1)) a
  rw [alignUp]
  omega

theorem alignUp_of_dvd {n a : ℕ} (h : a ∣ n) : alignUp n a = n := by
  obtain ⟨q, rfl⟩ := h
  rcases Nat.eq_zero_or_pos a with rfl | ha
  · simp [alignUp]
  · rw [alignUp, Nat.mul_add_div ha, Nat.div_eq_of_lt (by omega), Nat.add_zero, Nat.mul_comm]

/-- Clearing the bits below a power of two. -/
theorem toNat_and_not_mask (x : UInt64) {a : UInt64} (ha : a.toNat.isPowerOfTwo) :
    (x &&& ~~~(a - 1)).toNat = x.toNat / a.toNat * a.toNat := by
  obtain ⟨k, hk⟩ := ha
  have hmask : (a - 1).toNat = 2 ^ k - 1 := by
    rw [UInt64.toNat_sub_of_le, hk]
    · rfl
    · rw [UInt64.le_iff_toNat_le, hk]
      exact Nat.one_le_two_pow
  rw [hk, ← Nat.shiftRight_eq_div_pow, ← Nat.shiftLeft_eq]
  apply Nat.eq_of_testBit_eq
  intro i
  rw [UInt64.toNat_and, Nat.testBit_and, Nat.testBit_shiftLeft, Nat.testBit_shiftRight,
    ← UInt64.toNat_toBitVec (~~~_), UInt64.toBitVec_not, BitVec.testBit_toNat, BitVec.getLsbD_not,
    ← BitVec.testBit_toNat, UInt64.toNat_toBitVec, hmask, Nat.testBit_two_pow_sub_one]
  by_cases hi : k ≤ i
  · rw [Nat.add_sub_cancel' hi]
    by_cases hi' : i < 64
    · simp [hi, hi']
    · have hout : x.toNat.testBit i = false :=
        Nat.testBit_lt_two_pow
          (x.toNat_lt.trans_le (Nat.pow_le_pow_right Nat.zero_lt_two (not_lt.1 hi')))
      simp [hout]
  · have hlt : i < k := Nat.lt_of_not_le hi
    simp [hlt, hi]

/-- The bits below a power of two. -/
theorem toNat_and_mask (x : UInt64) {a : UInt64} (ha : a.toNat.isPowerOfTwo) :
    (x &&& (a - 1)).toNat = x.toNat % a.toNat := by
  obtain ⟨k, hk⟩ := ha
  rw [UInt64.toNat_and, UInt64.toNat_sub_of_le, hk]
  · exact Nat.and_two_pow_sub_one_eq_mod _ k
  · rw [UInt64.le_iff_toNat_le, hk]
    exact Nat.one_le_two_pow

/-- Aligning by adding the mask and clearing its bits. -/
theorem toNat_alignUp_mask {x a : UInt64} (ha : a.toNat.isPowerOfTwo)
    (hfit : x.toNat + a.toNat ≤ 2 ^ 64) :
    ((x + (a - 1)) &&& ~~~(a - 1)).toNat = alignUp x.toNat a.toNat := by
  have hpos : 0 < a.toNat := Nat.pos_of_isPowerOfTwo ha
  have hmask : (a - 1).toNat = a.toNat - 1 := by
    rw [UInt64.toNat_sub_of_le]
    · rfl
    · rw [UInt64.le_iff_toNat_le]
      exact hpos
  rw [toNat_and_not_mask _ ha, UInt64.toNat_add, hmask, Nat.mod_eq_of_lt (by omega), alignUp]

/-! ### Rows of items -/

/-- What is placed. -/
structure Item where
  size : ℕ
  alignment : ℕ
  deriving DecidableEq, Repr

/-- Where the items go, the first one at or behind `start`. -/
def offsets (start : ℕ) : List Item → List ℕ
  | [] => []
  | item :: items =>
    alignUp start item.alignment :: offsets (alignUp start item.alignment + item.size) items

/-- Where the last item ends. -/
def extent (start : ℕ) : List Item → ℕ
  | [] => start
  | item :: items => extent (alignUp start item.alignment + item.size) items

variable {start : ℕ} {items : List Item}

theorem length_offsets : (offsets start items).length = items.length := by
  induction items generalizing start with
  | nil => rfl
  | cons item items ih => rw [offsets, List.length_cons, List.length_cons, ih]

theorem dvd_of_mem_zip_offsets {item : Item} {offset : ℕ}
    (h : (item, offset) ∈ items.zip (offsets start items)) : item.alignment ∣ offset := by
  induction items generalizing start with
  | nil => cases h
  | cons first items ih =>
    rw [offsets, List.zip_cons_cons, List.mem_cons] at h
    rcases h with h | h
    · cases h
      exact dvd_alignUp _ _
    · exact ih h

theorem le_of_mem_offsets (hpos : ∀ item ∈ items, 0 < item.alignment) {offset : ℕ}
    (h : offset ∈ offsets start items) : start ≤ offset := by
  induction items generalizing start with
  | nil => cases h
  | cons first items ih =>
    obtain ⟨hfirst, hitems⟩ := List.forall_mem_cons.1 hpos
    have hle := le_alignUp start hfirst
    rw [offsets, List.mem_cons] at h
    rcases h with rfl | h
    · exact hle
    · exact hle.trans ((Nat.le_add_right _ _).trans (ih hitems h))

theorem le_extent (hpos : ∀ item ∈ items, 0 < item.alignment) : start ≤ extent start items := by
  induction items generalizing start with
  | nil => exact Nat.le_refl _
  | cons first items ih =>
    obtain ⟨hfirst, hitems⟩ := List.forall_mem_cons.1 hpos
    exact (le_alignUp start hfirst).trans ((Nat.le_add_right _ _).trans (ih hitems))

theorem add_size_le_extent (hpos : ∀ item ∈ items, 0 < item.alignment) {item : Item} {offset : ℕ}
    (h : (item, offset) ∈ items.zip (offsets start items)) :
    offset + item.size ≤ extent start items := by
  induction items generalizing start with
  | nil => cases h
  | cons first items ih =>
    obtain ⟨hfirst, hitems⟩ := List.forall_mem_cons.1 hpos
    rw [offsets, List.zip_cons_cons, List.mem_cons] at h
    rcases h with h | h
    · cases h
      exact le_extent hitems
    · exact ih hitems h

/-- Each item ends before the later ones begin. -/
theorem pairwise_offsets (start : ℕ) (hpos : ∀ item ∈ items, 0 < item.alignment) :
    (items.zip (offsets start items)).Pairwise fun p q => p.2 + p.1.size ≤ q.2 := by
  induction items generalizing start with
  | nil => exact .nil
  | cons first items ih =>
    obtain ⟨-, hitems⟩ := List.forall_mem_cons.1 hpos
    rw [offsets, List.zip_cons_cons, List.pairwise_cons]
    refine ⟨fun q hq => ?_, ih _ hitems⟩
    exact le_of_mem_offsets hitems (List.of_mem_zip hq).2

/-- A row is no longer than its items and the gaps in front of them. -/
theorem extent_le (start : ℕ) (hpos : ∀ item ∈ items, 0 < item.alignment) :
    extent start items ≤ start + (items.map fun item => item.size + item.alignment).sum := by
  induction items generalizing start with
  | nil => exact Nat.le_add_right _ _
  | cons first items ih =>
    obtain ⟨hfirst, hitems⟩ := List.forall_mem_cons.1 hpos
    have hlt := alignUp_lt start hfirst
    have hle := ih (alignUp start first.alignment + first.size) hitems
    rw [extent, List.map_cons, List.sum_cons]
    omega

end Il2Cpp.SerialLayout
