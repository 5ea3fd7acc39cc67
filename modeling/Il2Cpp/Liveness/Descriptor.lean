import Il2Cpp.Data.Bitmap
import Il2Cpp.Liveness.Layout

/-!
# GC descriptors

A GC descriptor says which words of an object are references.  A small bitmap lies in the
descriptor itself, a larger one in the table of the descriptors, of which the descriptor has the
place.

* `setupGCDescriptor`, `makeDescriptor` : the descriptor of a class.
* `traverseGCDescriptor` : the places that `TraverseGCDescriptor` reads.
* `mem_traverseGCDescriptor` : these are the places of the class's bitmap.
-/

namespace Il2Cpp

namespace Liveness

open Il2CppClass

/-- The word that a field at `offset` begins in. -/
def wordIndex (offset : ℤ) : ℕ := (offset / sizeOfPointer).toNat

/-- `Class::GetBitmapSize`, in words. -/
def bitmapSize (instanceSize : ℕ) : ℕ := 1 + instanceSize / 8 / 64

/-- `set_bit` for a field, in the bitmap whose last bit is `r.2`. -/
def setFieldBit (r : Bitmap 64 × ℕ) (offset : ℤ) : Bitmap 64 × ℕ :=
  (r.1.setBit (wordIndex offset / 64) (wordIndex offset % 64), max r.2 (wordIndex offset))

/-- `GetBitmapNoInit`: the bitmap and its last bit. -/
def getBitmapNoInit (klass : Il2CppClass) (instanceSize : ℕ) : Bitmap 64 × ℕ :=
  (bitmapOffsets 0 klass).foldl setFieldBit (List.replicate (bitmapSize instanceSize) 0#64, 0)

/-- The number of words of the table (`s_DescriptorTableCount`). -/
def descriptorTableCount : ℕ := 60 * 1024

/-- `GC_MAX_BITMAP_LEN`. -/
def maxBitmapLen : ℕ := 16

/-- `GC_DS_BITMAP` -/
def dsBitmap : BitVec 64 := 1

/-- The sign bit of a word. -/
def signBit : BitVec 64 := 1#64 <<< 63

/-- The descriptor of a bitmap in the table, of `bitLen` words from `index` on. -/
def tableDescr (bitLen index : ℕ) : BitVec 64 :=
  BitVec.ofNat 64 bitLen <<< 24 ||| BitVec.ofNat 64 index <<< 2 ||| dsBitmap

/-- `GC_add_bitmap_descriptor`, with the table up to `GC_bitmap_index`. -/
def addBitmapDescriptor (table bm : Bitmap 64) (nbits : ℕ) : Bitmap 64 × BitVec 64 :=
  let bitLen := (nbits + 64) / 64
  if table.length + bitLen > descriptorTableCount then (table, 0)
  else if bitLen > maxBitmapLen then (table, 0)
  else (table ++ (List.range bitLen).map (bm.getD · 0), tableDescr bitLen table.length)

/-- The last bit that is set among the first `len`. -/
def lastSetBit (bm : Bitmap 64) : ℕ → Option ℕ
  | 0 => none
  | len + 1 => if bm.testBit len then some len else lastSetBit bm len

/-- `GC_make_descriptor`.  When the table is full, or the bitmap is too large for it, the descriptor
is a length, whose tag `GC_DS_LENGTH` is 0. -/
def makeDescriptor (table bm : Bitmap 64) (len : ℕ) : Bitmap 64 × BitVec 64 :=
  match lastSetBit bm len with
  | none => (table, 0)
  | some last =>
    if last < 61 then (table, signBit ||| bm.getD 0 0 <<< 2 ||| dsBitmap)
    else
      let result := addBitmapDescriptor table bm (last + 1)
      if result.2 = 0 then (table, BitVec.ofNat 64 (8 * (last + 1))) else result

/-- `SetupGCDescriptor`. -/
def setupGCDescriptor (table : Bitmap 64) (isStringOrArray : Bool) (klass : Il2CppClass)
    (instanceSize : ℕ) : Bitmap 64 × BitVec 64 :=
  if isStringOrArray then (table, 0)
  else
    let (bitmap, maxSetBit) := getBitmapNoInit klass instanceSize
    if maxSetBit = 0 then (table, 0) else makeDescriptor table bitmap (maxSetBit + 1)

/-- `while (mask != 0) { if (mask & 1) …; mask >>= 1; ++descIdx; }`: the values of `descIdx` at the
bits that are set.  A mask has at most `n` bits. -/
def maskPlaces : ℕ → BitVec 64 → ℤ → List ℤ
  | 0, _, _ => []
  | n + 1, mask, descIdx =>
    if mask = 0 then []
    else (if mask.getLsbD 0 then [descIdx] else []) ++ maskPlaces n (mask >>> 1) (descIdx + 1)

/-- The words that `TraverseGCDescriptor` reads, counted from `object`; in an array there is no
object header before the fields of an element. -/
def traverseGCDescriptor (descTable : Bitmap 64) (objDesc : BitVec 64) (isArray : Bool) : List ℤ :=
  if objDesc &&& signBit ≠ 0 then
    maskPlaces 64 ((objDesc &&& ~~~signBit) >>> 4) (if isArray then 0 else 2)
  else
    let bitmapCnt := (objDesc >>> 24).toNat
    let bitmapIdx := (objDesc >>> 2 &&& 0x3fffff).toNat
    (List.range bitmapCnt).flatMap fun idx =>
      let descMask := descTable.getD (bitmapIdx + idx) 0
      if idx = 0 then maskPlaces 64 (descMask >>> 2) (if isArray then 0 else 2)
      else maskPlaces 64 descMask (idx * 64 + if isArray then -2 else 0)

/-! ### The bits of a mask -/

theorem mem_maskPlaces {n : ℕ} {mask : BitVec 64} {i w : ℤ}
    (hn : ∀ j, mask.getLsbD j = true → j < n) :
    w ∈ maskPlaces n mask i ↔ ∃ j : ℕ, mask.getLsbD j = true ∧ w = i + j := by
  induction n generalizing mask i with
  | zero =>
    constructor
    · intro h
      cases h
    · rintro ⟨j, hj, -⟩
      exact absurd (hn j hj) (by omega)
  | succ n ih =>
    rw [maskPlaces]
    split
    · rename_i h0
      subst h0
      simp
    · have ih' := @ih (mask >>> 1) (i + 1) fun j hj => by
        have := hn (1 + j) (by simpa using hj)
        omega
      rw [List.mem_append, ih']
      constructor
      · rintro (h | ⟨j, hj, rfl⟩)
        · split_ifs at h with h0
          · exact ⟨0, h0, by simpa using h⟩
          · cases h
        · exact ⟨1 + j, by simpa using hj, by push_cast; omega⟩
      · rintro ⟨j, hj, rfl⟩
        cases j with
        | zero => exact .inl (by simp [hj])
        | succ j => exact .inr ⟨j, by simpa [Nat.add_comm] using hj, by push_cast; omega⟩

/-! ### Making a descriptor and reading it -/

theorem lastSetBit_eq_some {bm : Bitmap 64} {len last : ℕ} (h : lastSetBit bm len = some last) :
    last < len ∧ ∀ i < len, bm.testBit i = true → i ≤ last := by
  induction len with
  | zero => cases h
  | succ len ih =>
    rw [lastSetBit] at h
    split at h
    · cases h
      exact ⟨Nat.lt_succ_self _, fun i hi _ => by omega⟩
    · rename_i hb
      obtain ⟨hlt, hle⟩ := ih h
      refine ⟨by omega, fun i hi hbi => hle i ?_ hbi⟩
      have : i ≠ len := by
        rintro rfl
        exact hb hbi
      omega

/-- What `TraverseGCDescriptor` should read: the words of the bits of the bitmap, those of the
object header apart. -/
def Reads (bm : Bitmap 64) (isArray : Bool) (w : ℤ) : Prop :=
  ∃ i : ℕ, 2 ≤ i ∧ bm.testBit i = true ∧ w = i - if isArray then 2 else 0

theorem testBit_lt {bm : Bitmap 64} {i : ℕ} (hi : i < 64) :
    bm.testBit i = (bm.getD 0 0).getLsbD i := by
  rw [Bitmap.testBit, Nat.div_eq_of_lt hi, Nat.mod_eq_of_lt hi]

theorem getLsbD_signBit (j : ℕ) : signBit.getLsbD j = decide (j = 63) := by
  rw [signBit, Bitmap.getLsbD_mask (by omega)]
  exact decide_eq_decide.2 eq_comm

theorem getLsbD_dsBitmap (j : ℕ) : dsBitmap.getLsbD j = decide (j = 0) := by
  cases j <;> simp [dsBitmap]

theorem mem_traverse_inline {table bm : Bitmap 64} {isArray : Bool} {w : ℤ}
    (hbm : ∀ i, bm.testBit i = true → i < 61) :
    w ∈ traverseGCDescriptor table (signBit ||| bm.getD 0 0 <<< 2 ||| dsBitmap) isArray ↔
      Reads bm isArray w := by
  have hsign : (signBit ||| bm.getD 0 0 <<< 2 ||| dsBitmap) &&& signBit ≠ 0 := by
    intro h
    have hbit := congrArg (BitVec.getLsbD · 63) h
    simp only [BitVec.getLsbD_and, BitVec.getLsbD_or, getLsbD_signBit] at hbit
    simp at hbit
  -- the mask is the bitmap without the bits of the object header
  have hmask (j : ℕ) :
      (((signBit ||| bm.getD 0 0 <<< 2 ||| dsBitmap) &&& ~~~signBit) >>> 4).getLsbD j =
        bm.testBit (j + 2) := by
    rw [BitVec.getLsbD_ushiftRight, BitVec.getLsbD_and, BitVec.getLsbD_not, BitVec.getLsbD_or,
      BitVec.getLsbD_or, BitVec.getLsbD_shiftLeft, getLsbD_signBit, getLsbD_dsBitmap]
    by_cases hj : j + 2 < 61
    · rw [testBit_lt (by omega)]
      simp [show 4 + j < 64 by omega, show 4 + j ≠ 63 by omega, show 4 + j - 2 = j + 2 by omega,
        show ¬ 4 + j < 2 by omega]
    · have hnot : bm.testBit (j + 2) = false := by
        by_contra h
        exact hj (hbm _ (by simpa using h))
      rw [hnot]
      by_cases h63 : 4 + j = 63
      · simp [h63]
      · simp [show ¬ 4 + j < 64 by omega]
  rw [traverseGCDescriptor, if_pos hsign, mem_maskPlaces fun j hj => ?_]
  · simp only [hmask]
    constructor
    · rintro ⟨j, hj, rfl⟩
      exact ⟨j + 2, by omega, hj, by split_ifs <;> omega⟩
    · rintro ⟨i, hi, hb, rfl⟩
      obtain ⟨j, rfl⟩ := Nat.exists_eq_add_of_le' hi
      exact ⟨j, hb, by split_ifs <;> omega⟩
  · have := hbm _ ((hmask j).symm.trans hj)
    omega

theorem toNat_tableDescr {bitLen index : ℕ} (hl : bitLen < 2 ^ 39) (hi : index < 2 ^ 22) :
    (tableDescr bitLen index).toNat = bitLen * 2 ^ 24 + (index * 4 + 1) := by
  have h1 : index * 4 ||| 1 = index * 4 + 1 := by
    rw [← Nat.shiftLeft_eq index 2, ← Nat.shiftLeft_add_eq_or_of_lt (by omega)]
  have h2 : bitLen * 2 ^ 24 ||| (index * 4 + 1) = bitLen * 2 ^ 24 + (index * 4 + 1) := by
    rw [← Nat.shiftLeft_eq bitLen 24, ← Nat.shiftLeft_add_eq_or_of_lt (by omega)]
  have hbits : (BitVec.ofNat 64 bitLen <<< 24).toNat = bitLen * 2 ^ 24 := by
    rw [BitVec.toNat_shiftLeft, BitVec.toNat_ofNat, Nat.shiftLeft_eq]
    omega
  have hindex : (BitVec.ofNat 64 index <<< 2).toNat = index * 4 := by
    rw [BitVec.toNat_shiftLeft, BitVec.toNat_ofNat, Nat.shiftLeft_eq]
    omega
  have hds : dsBitmap.toNat = 1 := rfl
  rw [tableDescr, BitVec.toNat_or, BitVec.toNat_or, hbits, hindex, hds, Nat.or_assoc, h1, h2]

theorem tableDescr_fields {bitLen index : ℕ} (hl : bitLen < 2 ^ 39) (hi : index < 2 ^ 22) :
    tableDescr bitLen index &&& signBit = 0 ∧
      (tableDescr bitLen index >>> 24).toNat = bitLen ∧
      (tableDescr bitLen index >>> 2 &&& 0x3fffff).toNat = index := by
  have h := toNat_tableDescr hl hi
  refine ⟨?_, ?_, ?_⟩
  · by_contra hne
    rw [signBit, ← ne_eq] at hne
    have hbit := (Bitmap.and_mask_ne_zero_iff (by omega)).1 hne
    rw [← BitVec.testBit_toNat, Nat.testBit_lt_two_pow (by omega)] at hbit
    cases hbit
  · rw [BitVec.toNat_ushiftRight, Nat.shiftRight_eq_div_pow, h]
    omega
  · rw [BitVec.toNat_and, BitVec.toNat_ushiftRight, Nat.shiftRight_eq_div_pow, h]
    have hmask : (0x3fffff : BitVec 64).toNat = 2 ^ 22 - 1 := rfl
    rw [hmask, Nat.and_two_pow_sub_one_eq_mod]
    omega

theorem mem_word {bm : Bitmap 64} {isArray : Bool} {w : ℤ} {idx : ℕ} :
    w ∈ (if idx = 0 then maskPlaces 64 (bm.getD idx 0 >>> 2) (if isArray then 0 else 2)
        else maskPlaces 64 (bm.getD idx 0) (idx * 64 + if isArray then -2 else 0)) ↔
      ∃ i : ℕ, i / 64 = idx ∧ 2 ≤ i ∧ bm.testBit i = true ∧ w = i - if isArray then 2 else 0 := by
  split
  · rename_i h0
    subst h0
    rw [mem_maskPlaces fun j hj => BitVec.lt_of_getLsbD hj]
    simp only [BitVec.getLsbD_ushiftRight]
    constructor
    · rintro ⟨j, hj, rfl⟩
      have hlt := BitVec.lt_of_getLsbD hj
      exact ⟨2 + j, Nat.div_eq_of_lt hlt, by omega, by rwa [testBit_lt hlt],
        by split_ifs <;> omega⟩
    · rintro ⟨i, h64, h2, hb, rfl⟩
      obtain ⟨j, rfl⟩ := Nat.exists_eq_add_of_le h2
      exact ⟨j, by rwa [testBit_lt (by omega)] at hb, by split_ifs <;> omega⟩
  · rename_i h0
    rw [mem_maskPlaces fun j hj => BitVec.lt_of_getLsbD hj]
    constructor
    · rintro ⟨j, hj, rfl⟩
      have hlt := BitVec.lt_of_getLsbD hj
      refine ⟨idx * 64 + j, by omega, by omega, ?_, by split_ifs <;> omega⟩
      rw [Bitmap.testBit, show (idx * 64 + j) / 64 = idx by omega,
        show (idx * 64 + j) % 64 = j by omega, hj]
    · rintro ⟨i, rfl, h2, hb, rfl⟩
      exact ⟨i % 64, hb, by split_ifs <;> omega⟩

theorem mem_traverse_table {table bm : Bitmap 64} {isArray : Bool} {w : ℤ} {bitLen index : ℕ}
    (hl : bitLen < 2 ^ 39) (hi : index < 2 ^ 22)
    (hbm : ∀ i, bm.testBit i = true → i / 64 < bitLen)
    (htable : ∀ idx < bitLen, table.getD (index + idx) 0 = bm.getD idx 0) :
    w ∈ traverseGCDescriptor table (tableDescr bitLen index) isArray ↔ Reads bm isArray w := by
  obtain ⟨hsign, hcnt, hidx⟩ := tableDescr_fields hl hi
  rw [traverseGCDescriptor, if_neg (by simp [hsign]), hcnt, hidx]
  simp only [List.mem_flatMap, List.mem_range]
  constructor
  · rintro ⟨idx, hlt, hw⟩
    rw [htable idx hlt] at hw
    obtain ⟨i, -, h2, hb, rfl⟩ := mem_word.1 hw
    exact ⟨i, h2, hb, rfl⟩
  · rintro ⟨i, h2, hb, rfl⟩
    refine ⟨i / 64, hbm i hb, ?_⟩
    rw [htable _ (hbm i hb)]
    exact mem_word.2 ⟨i, rfl, h2, hb, rfl⟩

theorem addBitmapDescriptor_eq {table bm : Bitmap 64} {nbits : ℕ}
    (h : (addBitmapDescriptor table bm nbits).2 ≠ 0) :
    table.length + (nbits + 64) / 64 ≤ 61440 ∧ (nbits + 64) / 64 ≤ 16 ∧
      addBitmapDescriptor table bm nbits =
        (table ++ (List.range ((nbits + 64) / 64)).map (bm.getD · 0),
          tableDescr ((nbits + 64) / 64) table.length) := by
  rw [addBitmapDescriptor] at h ⊢
  split_ifs at h ⊢ with hfull hmax
  · exact absurd rfl h
  · exact absurd rfl h
  · rw [descriptorTableCount] at hfull
    rw [maxBitmapLen] at hmax
    exact ⟨by omega, by omega, rfl⟩

/-- **Reading a descriptor.**  A bitmap descriptor says what the bitmap says, also when the table
has grown since. -/
theorem mem_traverse_makeDescriptor {table₀ table bm : Bitmap 64} {len : ℕ} {isArray : Bool} {w : ℤ}
    (hbm : ∀ i, bm.testBit i = true → i < len)
    (hpre : (makeDescriptor table₀ bm len).1 <+: table)
    (hd : (makeDescriptor table₀ bm len).2.getLsbD 0 = true) :
    w ∈ traverseGCDescriptor table (makeDescriptor table₀ bm len).2 isArray ↔
      Reads bm isArray w := by
  rw [makeDescriptor] at hpre hd ⊢
  rcases hlast : lastSetBit bm len with _ | last
  · simp [hlast] at hd
  obtain ⟨-, hle⟩ := lastSetBit_eq_some hlast
  have hbm' (i : ℕ) (hi : bm.testBit i = true) : i ≤ last := hle i (hbm i hi) hi
  simp only [hlast] at hpre hd ⊢
  split at hpre
  · rename_i h61
    rw [if_pos h61]
    exact mem_traverse_inline fun i hi => by
      have := hbm' i hi
      omega
  · rename_i h61
    rw [if_neg h61] at hd ⊢
    split at hpre
    · -- a length
      rename_i h0
      rw [if_pos h0, BitVec.getLsbD_ofNat, Nat.testBit_zero] at hd
      simp [Nat.mul_mod] at hd
    · rename_i h0
      rw [if_neg h0]
      obtain ⟨hlen, hmax, heq⟩ := addBitmapDescriptor_eq h0
      rw [heq] at hpre ⊢
      refine mem_traverse_table (by omega) (by omega) (fun i hi => ?_) fun idx hidx => ?_
      · have := hbm' i hi
        omega
      · obtain ⟨rest, rfl⟩ := hpre
        rw [List.getD_eq_getElem?_getD, List.append_assoc, List.getElem?_append_right (by omega),
          List.getElem?_append_left (by simp; omega), Nat.add_sub_cancel_left, List.getElem?_map,
          List.getElem?_range hidx]
        rfl

theorem foldl_setFieldBit {n : ℕ} (offsets : List ℤ) :
    ∀ r : Bitmap 64 × ℕ, r.1.length = n → (∀ offset ∈ offsets, wordIndex offset / 64 < n) →
      (∀ i, (offsets.foldl setFieldBit r).1.testBit i = true ↔
        r.1.testBit i = true ∨ ∃ offset ∈ offsets, wordIndex offset = i) ∧
      r.2 ≤ (offsets.foldl setFieldBit r).2 ∧
      ∀ offset ∈ offsets, wordIndex offset ≤ (offsets.foldl setFieldBit r).2 := by
  induction offsets with
  | nil => simp
  | cons offset offsets ih =>
    intro r hlen hlt
    obtain ⟨hbits, hmax, hle⟩ := ih (setFieldBit r offset) (by simpa [setFieldBit] using hlen)
      fun o ho => hlt o (.tail _ ho)
    have hset := Bitmap.testBit_setBit (b := r.1) (by rw [hlen]; exact hlt offset (.head _))
      (Nat.mod_lt (wordIndex offset) (by omega : 0 < 64))
    have hr : (setFieldBit r offset).2 = max r.2 (wordIndex offset) := rfl
    rw [hr] at hmax
    rw [List.foldl_cons]
    refine ⟨fun i => ?_, by omega, fun o ho => ?_⟩
    · rw [hbits, setFieldBit, hset, Nat.div_add_mod', or_assoc, @eq_comm _ i]
      simp only [List.mem_cons, exists_eq_or_imp]
    · rcases List.mem_cons.1 ho with rfl | ho
      · omega
      · exact hle o ho

/-- The references of a class are aligned (`GetBitmapNoInit` asserts it) and lie in the instance. -/
structure Il2CppClass.Laid (k : Il2CppClass) (instanceSize : ℕ) : Prop where
  aligned : ∀ offset ∈ bitmapOffsets 0 k, sizeOfPointer ∣ offset
  le_instanceSize : ∀ offset ∈ bitmapOffsets 0 k, offset + sizeOfPointer ≤ instanceSize

theorem sizeOfObject_le_of_mem {k : Il2CppClass} {offset : ℤ} (h : offset ∈ bitmapOffsets 0 k) :
    sizeOfObject ≤ offset := by
  obtain ⟨f, hf, -⟩ := mem_bitmapOffsets.1 h
  exact hf.header_le

theorem Il2CppClass.Laid.wordIndex_mul {k : Il2CppClass} {instanceSize : ℕ} {offset : ℤ}
    (hk : k.Laid instanceSize) (h : offset ∈ bitmapOffsets 0 k) :
    (wordIndex offset : ℤ) * sizeOfPointer = offset := by
  have ha := hk.aligned offset h
  have hheader := sizeOfObject_le_of_mem h
  simp only [wordIndex, sizeOfPointer, sizeOfObject] at ha hheader ⊢
  omega

theorem getBitmapNoInit_spec {k : Il2CppClass} {instanceSize : ℕ} (hk : k.Laid instanceSize) :
    (∀ i, (getBitmapNoInit k instanceSize).1.testBit i = true ↔
      ∃ offset ∈ bitmapOffsets 0 k, wordIndex offset = i) ∧
    ∀ offset ∈ bitmapOffsets 0 k, wordIndex offset ≤ (getBitmapNoInit k instanceSize).2 := by
  have h := foldl_setFieldBit (bitmapOffsets 0 k) (List.replicate (bitmapSize instanceSize) 0#64, 0)
    List.length_replicate fun offset ho => by
      have := hk.le_instanceSize offset ho
      simp only [wordIndex, bitmapSize, sizeOfPointer] at this ⊢
      omega
  refine ⟨fun i => ?_, h.2.2⟩
  have hzero := Bitmap.testBit_append_zeros (w := 64) [] (bitmapSize instanceSize) i
  rw [List.nil_append] at hzero
  rw [getBitmapNoInit, h.1, hzero]
  simp [Bitmap.testBit]

/-- **The descriptor of a class.**  `TraverseGCDescriptor` reads the places of the bitmap. -/
theorem mem_traverseGCDescriptor {table₀ table : Bitmap 64} {b : Bool} {k : Il2CppClass}
    {instanceSize : ℕ} (isArray : Bool) (w : ℤ) (hk : k.Laid instanceSize)
    (hpre : (setupGCDescriptor table₀ b k instanceSize).1 <+: table)
    (hd : (setupGCDescriptor table₀ b k instanceSize).2.getLsbD 0 = true) :
    w ∈ traverseGCDescriptor table (setupGCDescriptor table₀ b k instanceSize).2 isArray ↔
      w * sizeOfPointer + (if isArray then sizeOfObject else 0) ∈ bitmapOffsets 0 k := by
  cases b with
  | true => simp [setupGCDescriptor] at hd
  | false =>
    by_cases h0 : (getBitmapNoInit k instanceSize).2 = 0
    · simp [setupGCDescriptor, h0] at hd
    have hsetup : setupGCDescriptor table₀ false k instanceSize =
        makeDescriptor table₀ (getBitmapNoInit k instanceSize).1
          ((getBitmapNoInit k instanceSize).2 + 1) := by
      simp [setupGCDescriptor, h0]
    obtain ⟨hbits, hle⟩ := getBitmapNoInit_spec hk
    rw [hsetup] at hpre hd ⊢
    rw [mem_traverse_makeDescriptor (fun i hi => ?_) hpre hd]
    · constructor
      · rintro ⟨i, -, hi, rfl⟩
        obtain ⟨offset, ho, rfl⟩ := (hbits i).1 hi
        have hoff := hk.wordIndex_mul ho
        convert ho using 1
        simp only [sizeOfPointer, sizeOfObject] at hoff ⊢
        split_ifs <;> omega
      · intro ho
        have hoff := hk.wordIndex_mul ho
        have hheader := sizeOfObject_le_of_mem ho
        simp only [sizeOfPointer, sizeOfObject] at hoff hheader ho
        refine ⟨_, ?_, (hbits _).2 ⟨_, ho, rfl⟩, ?_⟩
        · omega
        · split_ifs at hoff ⊢ <;> omega
    · obtain ⟨offset, ho, rfl⟩ := (hbits i).1 hi
      exact Nat.lt_succ_of_le (hle offset ho)

end Liveness

end Il2Cpp
