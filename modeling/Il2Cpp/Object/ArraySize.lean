import Il2Cpp.Data.MachineInt

/-!
# The sizes of arrays

`Array::NewSpecific` and `Array::NewFull` compute the number of bytes of a new array, and
`Object::GetSize` computes it again from the array.

* `newSpecific`, `newFull`, `getSize` : the functions, for 32-bit and 64-bit pointers.  None of the
  products and sums is checked.
* `exactSize` : the size as an integer, with the padding in front of the bounds.
* `allocated_eq`, `getSize_eq` : the computed sizes are the exact ones, but `getSize` pads to four
  bytes, and all are narrowed to their types.
* `getSize_eq_iff` : when the size of an array is the number of bytes that were allocated for it.
* `newFull_allocates_iff` : when the bytes that are allocated are enough.
-/

namespace Il2Cpp

namespace ArrayObject

open IntType

inductive Arch
  | bits32
  | bits64
  deriving DecidableEq

/-- `IL2CPP_SIZEOF_VOID_P`. -/
def Arch.sizeofVoidP : Arch → ℕ
  | bits32 => 4
  | bits64 => 8

/-- `uintptr_t`, which is `il2cpp_array_size_t`, and `size_t`. -/
def Arch.uintptr (a : Arch) : IntType := unsigned (8 * a.sizeofVoidP)

/-- `kIl2CppSizeOfArray`: the class, the monitor, the bounds and the length. -/
def Arch.sizeOfArray (a : Arch) : ℤ := 4 * a.sizeofVoidP

/-- `sizeof(Il2CppArrayBounds)`: a length, and a lower bound with its padding. -/
def Arch.sizeOfArrayBounds (a : Arch) : ℤ := 2 * a.sizeofVoidP

/-- `IL2CPP_ARRAY_MAX_INDEX`. -/
def arrayMaxIndex : ℕ := 0x7fffffff

/-- The class of an array. -/
structure ArrayClass where
  rank : ℕ
  rank_pos : 0 < rank
  /-- Whether the type is `IL2CPP_TYPE_SZARRAY`; it is `IL2CPP_TYPE_ARRAY` otherwise. -/
  szarray : Bool
  elementSize : ℤ
  hasReferences : Bool
  elementValuetype : Bool
  /-- Whether the element class has a GC descriptor. -/
  elementGCDesc : Bool
  deriving DecidableEq

/-- `Array::GetElementSize` and `il2cpp_array_element_size`, which is `-1` for an element that has
no size. -/
def ArrayClass.getElementSize (klass : ArrayClass) : ℤ := int32.wrap klass.elementSize

/-- The functions of `Object` that allocate an array. -/
inductive Allocator
  | allocatePtrFree
  | allocateArray
  | allocate
  deriving DecidableEq

def ArrayClass.allocator (klass : ArrayClass) (len : ℤ) : Allocator :=
  if !klass.hasReferences || len = 0 then .allocatePtrFree
  else if klass.elementValuetype && klass.elementGCDesc then .allocateArray
  else .allocate

structure Il2CppArrayBounds where
  length : ℤ
  lowerBound : ℤ
  deriving DecidableEq

/-- An array, and how it has been allocated. -/
structure Il2CppArray where
  klass : ArrayClass
  bounds : Option (List Il2CppArrayBounds)
  maxLength : ℤ
  allocator : Allocator
  byteLen : ℤ
  deriving DecidableEq

/-- The exception that the functions raise. -/
inductive Exception
  | overflow
  deriving DecidableEq

/-- `x & ~(n - 1)`, for a power of two `n`. -/
def maskDown (x n : ℤ) : ℤ := x / n * n

def newSpecific (a : Arch) (klass : ArrayClass) (n : ℕ) : Except Exception Il2CppArray :=
  if n > arrayMaxIndex then .error .overflow
  else
    let elemSize := uint32.wrap klass.getElementSize
    let byteLen := a.uintptr.wrap (n * elemSize)
    let byteLen := a.uintptr.wrap (byteLen + a.sizeOfArray)
    .ok ⟨klass, none, n, klass.allocator n, byteLen⟩

/-- The loop over the lengths of the dimensions. -/
def multiplyLengths (a : Arch) (lengths : ℕ → ℕ) : List ℕ → ℤ → Except Exception ℤ
  | [], len => .ok len
  | i :: dimensions, len =>
    if lengths i > arrayMaxIndex then .error .overflow
    else multiplyLengths a lengths dimensions (a.uintptr.wrap (len * lengths i))

/-- A single dimensional array with a 0 lower bound is the same as an szarray. -/
def ArrayClass.isVector (klass : ArrayClass) (lowerBounds : Option (ℕ → ℕ)) : Bool :=
  klass.rank = 1 && (klass.szarray || lowerBounds.any fun lowerBounds => lowerBounds 0 = 0)

/-- The second half of `NewFull`, from the length on. -/
def allocateFull (a : Arch) (klass : ArrayClass) (lengths : ℕ → ℕ)
    (lowerBounds : Option (ℕ → ℕ)) (len boundsSize : ℤ) : Il2CppArray :=
  let byteLen := a.uintptr.wrap klass.getElementSize
  let byteLen := a.uintptr.wrap (byteLen * len)
  let byteLen := a.uintptr.wrap (byteLen + a.sizeOfArray)
  if boundsSize = 0 then ⟨klass, none, len, klass.allocator len, byteLen⟩
  else
    -- align
    let byteLen := maskDown (a.uintptr.wrap (byteLen + (a.sizeofVoidP - 1))) a.sizeofVoidP
    let byteLen := a.uintptr.wrap (byteLen + boundsSize)
    let bounds := (List.range klass.rank).map fun i =>
      ⟨lengths i, (lowerBounds.map fun lowerBounds => int32.wrap (lowerBounds i)).getD 0⟩
    ⟨klass, some bounds, len, klass.allocator len, byteLen⟩

/-- `NewFull`.  `lengths` and `lowerBounds` point to as many numbers as there are dimensions. -/
def newFull (a : Arch) (klass : ArrayClass) (lengths : ℕ → ℕ) (lowerBounds : Option (ℕ → ℕ)) :
    Except Exception Il2CppArray :=
  if klass.isVector lowerBounds then
    let len := lengths 0
    if len > arrayMaxIndex then .error .overflow
    else .ok (allocateFull a klass lengths lowerBounds len 0)
  else do
    let boundsSize := a.sizeOfArrayBounds * klass.rank
    let len ← multiplyLengths a lengths (List.range klass.rank) 1
    .ok (allocateFull a klass lengths lowerBounds len boundsSize)

/-- `Array::GetLength`. -/
def Il2CppArray.getLength (array : Il2CppArray) : ℤ := uint32.wrap (int32.wrap array.maxLength)

/-- `Object::GetSize`, for an array. -/
def getSize (a : Arch) (array : Il2CppArray) : ℤ :=
  let size := a.uintptr.wrap
    (a.sizeOfArray + uint32.wrap (uint32.wrap array.klass.getElementSize * array.getLength))
  let size :=
    if array.bounds.isSome then
      let size := maskDown (a.uintptr.wrap (size + 3)) 4
      a.uintptr.wrap (size + a.sizeOfArrayBounds * array.klass.rank)
    else size
  uint32.wrap size

/-! ### The exact sizes -/

/-- A call that creates an array. -/
inductive Request
  | specific (n : ℕ)
  | full (lengths : ℕ → ℕ) (lowerBounds : Option (ℕ → ℕ))

def create (a : Arch) (klass : ArrayClass) : Request → Except Exception Il2CppArray
  | .specific n => newSpecific a klass n
  | .full lengths lowerBounds => newFull a klass lengths lowerBounds

/-- The dimensions of the new array. -/
def Request.dimensions (klass : ArrayClass) : Request → List ℕ
  | .specific n => [n]
  | .full lengths _ => (List.range klass.rank).map lengths

/-- The number of elements of the new array. -/
def Request.numElements (klass : ArrayClass) (r : Request) : ℕ := (r.dimensions klass).prod

/-- Whether the new array has bounds. -/
def Request.hasBounds (klass : ArrayClass) : Request → Bool
  | .specific _ => false
  | .full _ lowerBounds => !klass.isVector lowerBounds

/-- The element size as the function has it: `NewSpecific` takes it for an `uint32_t`. -/
def Request.elementSize (klass : ArrayClass) : Request → ℤ
  | .specific _ => uint32.wrap klass.getElementSize
  | .full _ _ => klass.getElementSize

/-- `x` bytes, up to a multiple of `n`. -/
def padTo (n x : ℤ) : ℤ := (x + (n - 1)) / n * n

/-- The number of bytes of the bounds. -/
def Request.boundsSize (a : Arch) (klass : ArrayClass) (r : Request) : ℤ :=
  if r.hasBounds klass then a.sizeOfArrayBounds * klass.rank else 0

/-- **The size of the new array**, computed over the integers, when the data is padded to a multiple
of `n` in front of the bounds. -/
def Request.exactSize (a : Arch) (klass : ArrayClass) (r : Request) (n : ℤ) : ℤ :=
  let data := a.sizeOfArray + r.elementSize klass * r.numElements klass
  (if r.hasBounds klass then padTo n data else data) + r.boundsSize a klass

/-! ### Narrowed operations -/

@[simp] theorem wrap_uint32 (x : ℤ) : uint32.wrap x = x % 4294967296 := rfl

theorem wrap_uintptr (a : Arch) (x : ℤ) : a.uintptr.wrap x = x % 2 ^ (8 * a.sizeofVoidP) := rfl

theorem wrap_wrap_mul (a : Arch) (x y : ℤ) :
    a.uintptr.wrap (a.uintptr.wrap x * y) = a.uintptr.wrap (x * y) := by
  rw [wrap_uintptr, wrap_uintptr, wrap_uintptr, Int.mul_emod, Int.emod_emod_of_dvd _ dvd_rfl,
    ← Int.mul_emod]

theorem wrap_mul_wrap (a : Arch) (x y : ℤ) :
    a.uintptr.wrap (x * a.uintptr.wrap y) = a.uintptr.wrap (x * y) := by
  rw [mul_comm, wrap_wrap_mul, mul_comm]

theorem wrap_add_wrap (a : Arch) (x y : ℤ) :
    a.uintptr.wrap (x + a.uintptr.wrap y) = a.uintptr.wrap (x + y) := by
  simp only [wrap_uintptr, Int.add_emod_emod]

theorem wrap_wrap_add (a : Arch) (x y : ℤ) :
    a.uintptr.wrap (a.uintptr.wrap x + y) = a.uintptr.wrap (x + y) := by
  simp only [wrap_uintptr, Int.emod_add_emod]

theorem wrap_of_le_arrayMaxIndex (a : Arch) {n : ℕ} (h : n ≤ arrayMaxIndex) :
    a.uintptr.wrap n = n := by
  rw [arrayMaxIndex] at h
  cases a with
  | bits32 => exact wrap_of_fits (t := unsigned 32) ⟨by omega, by omega⟩
  | bits64 => exact wrap_of_fits (t := unsigned 64) ⟨by omega, by omega⟩

theorem wrap_padTo_add (a : Arch) (x y : ℤ) :
    a.uintptr.wrap (maskDown (a.uintptr.wrap (a.uintptr.wrap x + (a.sizeofVoidP - 1)))
      a.sizeofVoidP + y) = a.uintptr.wrap (padTo a.sizeofVoidP x + y) := by
  cases a <;> simp only [wrap_uintptr, maskDown, padTo, Arch.sizeofVoidP] <;> omega

theorem wrap_padTo_four_add (a : Arch) (x y : ℤ) :
    uint32.wrap (a.uintptr.wrap (maskDown (a.uintptr.wrap (a.uintptr.wrap x + 3)) 4 + y)) =
      uint32.wrap (padTo 4 x + y) := by
  cases a <;> simp only [wrap_uint32, wrap_uintptr, maskDown, padTo, Arch.sizeofVoidP] <;> omega

theorem wrap_uint32_wrap (a : Arch) (x : ℤ) : uint32.wrap (a.uintptr.wrap x) = uint32.wrap x := by
  cases a <;> simp only [wrap_uint32, wrap_uintptr, Arch.sizeofVoidP] <;> omega

/-! ### The functions compute the exact sizes -/

theorem multiplyLengths_error {a : Arch} {lengths : ℕ → ℕ} {dimensions : List ℕ} {i : ℕ}
    (hi : i ∈ dimensions) (h : lengths i > arrayMaxIndex) (len : ℤ) :
    multiplyLengths a lengths dimensions len = .error .overflow := by
  induction dimensions generalizing len with
  | nil => cases hi
  | cons j dimensions ih =>
    rw [multiplyLengths]
    split_ifs with hj
    · rfl
    · refine ih ?_ _
      rcases List.mem_cons.1 hi with rfl | hi
      · exact absurd h hj
      · exact hi

theorem multiplyLengths_ok {a : Arch} {lengths : ℕ → ℕ} {dimensions : List ℕ}
    (h : ∀ i ∈ dimensions, lengths i ≤ arrayMaxIndex) (len : ℤ) :
    multiplyLengths a lengths dimensions (a.uintptr.wrap len) =
      .ok (a.uintptr.wrap (len * (dimensions.map lengths).prod)) := by
  induction dimensions generalizing len with
  | nil => rw [multiplyLengths, List.map_nil, List.prod_nil, Nat.cast_one, mul_one]
  | cons i dimensions ih =>
    obtain ⟨hi, hdimensions⟩ := List.forall_mem_cons.1 h
    rw [multiplyLengths, if_neg (Nat.not_lt.2 hi), wrap_wrap_mul, ih hdimensions, List.map_cons,
      List.prod_cons, Nat.cast_mul, mul_assoc]

/-- The dimensions are small enough for the functions not to raise an exception. -/
def Request.Indexable (klass : ArrayClass) (r : Request) : Prop :=
  ∀ n ∈ r.dimensions klass, n ≤ arrayMaxIndex

/-- What the new array has. -/
structure Created (a : Arch) (klass : ArrayClass) (r : Request) (array : Il2CppArray) : Prop where
  klass_eq : array.klass = klass
  bounds : array.bounds.isSome = r.hasBounds klass
  maxLength : array.maxLength = a.uintptr.wrap (r.numElements klass)
  byteLen : array.byteLen = a.uintptr.wrap (r.exactSize a klass a.sizeofVoidP)

theorem boundsSize_ne_zero (a : Arch) (klass : ArrayClass) :
    a.sizeOfArrayBounds * klass.rank ≠ 0 := by
  have := klass.rank_pos
  cases a <;> simp only [Arch.sizeOfArrayBounds, Arch.sizeofVoidP] <;> omega

theorem isVector_rank {klass : ArrayClass} {lowerBounds : Option (ℕ → ℕ)}
    (h : klass.isVector lowerBounds) : klass.rank = 1 := by
  rw [ArrayClass.isVector, Bool.and_eq_true] at h
  exact of_decide_eq_true h.1

theorem wrap_data (a : Arch) (e len : ℤ) :
    a.uintptr.wrap (a.uintptr.wrap (a.uintptr.wrap e * a.uintptr.wrap len) + a.sizeOfArray) =
      a.uintptr.wrap (a.sizeOfArray + e * len) := by
  rw [wrap_wrap_add, add_comm, ← wrap_add_wrap, wrap_wrap_mul, wrap_mul_wrap, wrap_add_wrap]

theorem create_specific {a : Arch} {klass : ArrayClass} {n : ℕ} (h : n ≤ arrayMaxIndex) :
    ∃ array, create a klass (.specific n) = .ok array ∧ Created a klass (.specific n) array := by
  refine ⟨_, if_neg (Nat.not_lt.2 h), rfl, rfl, ?_, ?_⟩
  · rw [Request.numElements, Request.dimensions, List.prod_singleton, wrap_of_le_arrayMaxIndex a h]
  · rw [wrap_wrap_add]
    simp [Request.exactSize, Request.hasBounds, Request.boundsSize, Request.elementSize,
      Request.numElements, Request.dimensions, add_comm, mul_comm]

theorem created_vector (a : Arch) {klass : ArrayClass} {lengths : ℕ → ℕ}
    {lowerBounds : Option (ℕ → ℕ)} (hvector : klass.isVector lowerBounds)
    (h : lengths 0 ≤ arrayMaxIndex) :
    Created a klass (.full lengths lowerBounds)
      (allocateFull a klass lengths lowerBounds (lengths 0) 0) := by
  have hrank := isVector_rank hvector
  have hnum : (Request.full lengths lowerBounds).numElements klass = lengths 0 := by
    simp [Request.numElements, Request.dimensions, hrank]
  have hbounds : (Request.full lengths lowerBounds).hasBounds klass = false := by
    rw [Request.hasBounds, hvector]
    rfl
  have hdata := wrap_data a klass.getElementSize (lengths 0)
  rw [wrap_of_le_arrayMaxIndex a h] at hdata
  rw [allocateFull, if_pos rfl]
  refine ⟨rfl, hbounds.symm, ?_, ?_⟩
  · rw [hnum, wrap_of_le_arrayMaxIndex a h]
  · rw [Request.exactSize, Request.boundsSize, hbounds, hnum]
    simpa [Request.elementSize] using hdata

theorem created_bounds (a : Arch) {klass : ArrayClass} {lengths : ℕ → ℕ}
    {lowerBounds : Option (ℕ → ℕ)} (hvector : ¬ klass.isVector lowerBounds) :
    Created a klass (.full lengths lowerBounds)
      (allocateFull a klass lengths lowerBounds
        (a.uintptr.wrap ((Request.full lengths lowerBounds).numElements klass))
        (a.sizeOfArrayBounds * klass.rank)) := by
  have hbounds : (Request.full lengths lowerBounds).hasBounds klass = true := by
    rw [Request.hasBounds, Bool.eq_false_iff.2 hvector]
    rfl
  rw [allocateFull, if_neg (boundsSize_ne_zero a klass)]
  refine ⟨rfl, hbounds.symm, rfl, ?_⟩
  rw [wrap_data, Request.exactSize, Request.boundsSize, hbounds]
  exact wrap_padTo_add a _ _

/-- **A call raises an exception or creates an array** with the exact size, narrowed. -/
theorem create_of_indexable (a : Arch) {klass : ArrayClass} {r : Request} (h : r.Indexable klass) :
    ∃ array, create a klass r = .ok array ∧ Created a klass r array := by
  cases r with
  | specific n => exact create_specific (h n (List.mem_singleton_self n))
  | full lengths lowerBounds =>
    have hdimensions : ∀ i ∈ List.range klass.rank, lengths i ≤ arrayMaxIndex := fun i hi =>
      h _ (List.mem_map_of_mem hi)
    rw [create, newFull]
    by_cases hvector : klass.isVector lowerBounds
    · have h₀ : lengths 0 ≤ arrayMaxIndex :=
        hdimensions 0 (List.mem_range.2 klass.rank_pos)
      rw [if_pos hvector]
      exact ⟨_, if_neg (Nat.not_lt.2 h₀), created_vector a hvector h₀⟩
    · have hloop := multiplyLengths_ok (a := a) hdimensions 1
      have hone := wrap_of_le_arrayMaxIndex a (n := 1) (by decide)
      rw [Nat.cast_one] at hone
      rw [one_mul, hone] at hloop
      rw [if_neg hvector]
      simp only [hloop]
      exact ⟨_, rfl, created_bounds a hvector⟩

theorem create_of_not_indexable (a : Arch) {klass : ArrayClass} {r : Request}
    (h : ¬ r.Indexable klass) : create a klass r = .error .overflow := by
  simp only [Request.Indexable, not_forall, Nat.not_le] at h
  obtain ⟨n, hn, hlarge⟩ := h
  cases r with
  | specific m =>
    obtain rfl := List.mem_singleton.1 hn
    exact if_pos hlarge
  | full lengths lowerBounds =>
    obtain ⟨i, hi, rfl⟩ := List.mem_map.1 hn
    rw [create, newFull]
    by_cases hvector : klass.isVector lowerBounds
    · rw [isVector_rank hvector, List.mem_range, Nat.lt_one_iff] at hi
      rw [if_pos hvector]
      subst hi
      exact if_pos hlarge
    · rw [if_neg hvector]
      simp only [multiplyLengths_error hi hlarge]
      rfl

theorem created_of_create {a : Arch} {klass : ArrayClass} {r : Request} {array : Il2CppArray}
    (h : create a klass r = .ok array) : Created a klass r array := by
  by_cases hr : r.Indexable klass
  · obtain ⟨array', hcreate, hcreated⟩ := create_of_indexable a hr
    obtain rfl := Except.ok.inj (h.symm.trans hcreate)
    exact hcreated
  · rw [create_of_not_indexable a hr] at h
    cases h

/-! ### The size of an array -/

theorem wrap_uint32_add (x y : ℤ) : uint32.wrap (x + uint32.wrap y) = uint32.wrap (x + y) :=
  Int.add_emod_emod ..

theorem wrap_uint32_int32 (x : ℤ) : uint32.wrap (int32.wrap x) = uint32.wrap x := by
  have hint32 : int32.wrap x = (x + 2147483648) % 4294967296 - 2147483648 := rfl
  rw [hint32, wrap_uint32, wrap_uint32]
  omega

theorem wrap_uint32_mul (a : Arch) (x n : ℤ) :
    uint32.wrap (uint32.wrap x * uint32.wrap (int32.wrap (a.uintptr.wrap n))) =
      uint32.wrap (x * n) := by
  rw [wrap_uint32_int32, wrap_uint32_wrap, wrap_uint32, wrap_uint32, wrap_uint32, wrap_uint32,
    ← Int.mul_emod]

theorem wrap_uint32_elementSize (klass : ArrayClass) (r : Request) (n : ℤ) :
    uint32.wrap (klass.getElementSize * n) = uint32.wrap (r.elementSize klass * n) := by
  cases r with
  | specific _ =>
    rw [Request.elementSize, wrap_uint32, wrap_uint32, wrap_uint32, Int.mul_emod (_ % _),
      Int.emod_emod_of_dvd _ dvd_rfl, ← Int.mul_emod]
  | full _ _ => rfl

theorem padTo_four_wrap (x y z : ℤ) :
    uint32.wrap (padTo 4 (x + uint32.wrap y) + z) = uint32.wrap (padTo 4 (x + y) + z) := by
  simp only [wrap_uint32, padTo]
  omega

theorem getSize_eq {a : Arch} {klass : ArrayClass} {r : Request} {array : Il2CppArray}
    (h : Created a klass r array) : getSize a array = uint32.wrap (r.exactSize a klass 4) := by
  rw [getSize, Il2CppArray.getLength, h.klass_eq, h.maxLength, h.bounds, wrap_uint32_mul,
    wrap_uint32_elementSize klass r, Request.exactSize, Request.boundsSize]
  cases r.hasBounds klass with
  | false =>
    simp only [Bool.false_eq_true, if_false, add_zero]
    rw [wrap_uint32_wrap, wrap_uint32_add]
  | true =>
    simp only [if_true]
    rw [wrap_padTo_four_add, padTo_four_wrap]

/-- The data needs no more padding for 64-bit pointers than to four bytes. -/
def Request.Padded (a : Arch) (klass : ArrayClass) (r : Request) : Prop :=
  r.hasBounds klass → a = .bits64 →
    let data := r.elementSize klass * r.numElements klass
    data % 8 = 0 ∨ 4 < data % 8

theorem padTo_eq_iff (a : Arch) (x y : ℤ) :
    uint32.wrap (padTo 4 (a.sizeOfArray + x) + y) =
        uint32.wrap (padTo a.sizeofVoidP (a.sizeOfArray + x) + y) ↔
      (a = .bits64 → x % 8 = 0 ∨ 4 < x % 8) := by
  cases a with
  | bits32 =>
    simp [Arch.sizeofVoidP]
  | bits64 =>
    simp only [wrap_uint32, padTo, Arch.sizeOfArray, Arch.sizeofVoidP, true_imp_iff]
    omega

/-- **The size of an array** is the number of bytes that were allocated for it if and only if this
number fits `uint32_t`, and the padding in front of the bounds is the same. -/
theorem getSize_eq_iff {a : Arch} {klass : ArrayClass} {r : Request} {array : Il2CppArray}
    (h : create a klass r = .ok array) :
    getSize a array = array.byteLen ↔
      r.exactSize a klass a.sizeofVoidP % 2 ^ (8 * a.sizeofVoidP) < 2 ^ 32 ∧ r.Padded a klass := by
  have hcreated := created_of_create h
  rw [getSize_eq hcreated, hcreated.byteLen, ← wrap_uintptr]
  have hbytes := Int.emod_nonneg (r.exactSize a klass a.sizeofVoidP)
    (b := 2 ^ (8 * a.sizeofVoidP)) (by positivity)
  rw [← wrap_uintptr] at hbytes
  have hsizes : uint32.wrap (r.exactSize a klass 4) =
      uint32.wrap (r.exactSize a klass a.sizeofVoidP) ↔ r.Padded a klass := by
    rw [Request.exactSize, Request.exactSize, Request.Padded]
    cases r.hasBounds klass with
    | false => simp
    | true => simpa using padTo_eq_iff a _ _
  rw [← hsizes, ← wrap_uint32_wrap a (r.exactSize a klass a.sizeofVoidP)]
  generalize a.uintptr.wrap (r.exactSize a klass a.sizeofVoidP) = bytes at *
  simp only [wrap_uint32]
  omega

/-- An array of bytes with two dimensions. -/
def bytes : ArrayClass := ⟨2, by decide, false, 1, false, true, false⟩

/-- Three by two bytes. -/
theorem getSize_eq_iff_six :
    ∃ array, create .bits64 bytes (.full (fun i => 3 - i) none) = .ok array ∧
      getSize .bits64 array = array.byteLen := by
  have h := @getSize_eq_iff .bits64 bytes (.full (fun i => 3 - i) none) _ rfl
  exact ⟨_, rfl, h.2 ⟨by decide, fun _ _ => .inr (by decide)⟩⟩

/-- One by one byte: 72 bytes are allocated, and the size is 68. -/
theorem getSize_one :
    ∃ array, create .bits64 bytes (.full (fun _ => 1) none) = .ok array ∧
      array.byteLen = 72 ∧ getSize .bits64 array = 68 :=
  ⟨_, rfl, by decide, by decide⟩

/-! ### The bytes of an array -/

/-- The bytes that the header, the elements and the bounds need. -/
def Request.needed (a : Arch) (klass : ArrayClass) (r : Request) : ℤ :=
  a.sizeOfArray + r.elementSize klass * r.numElements klass + r.boundsSize a klass

theorem needed_le_exactSize (a : Arch) (klass : ArrayClass) (r : Request) :
    r.needed a klass ≤ r.exactSize a klass a.sizeofVoidP ∧
      r.exactSize a klass a.sizeofVoidP ≤ r.needed a klass + 7 := by
  rw [Request.needed, Request.exactSize]
  generalize a.sizeOfArray + r.elementSize klass * r.numElements klass = data
  cases r.hasBounds klass with
  | false => simp
  | true => cases a <;> simp only [if_true, padTo, Arch.sizeofVoidP] <;> omega

theorem needed_le_wrap_iff (a : Arch) (klass : ArrayClass) (r : Request) :
    r.needed a klass ≤ a.uintptr.wrap (r.exactSize a klass a.sizeofVoidP) ↔
      r.exactSize a klass a.sizeofVoidP < 2 ^ (8 * a.sizeofVoidP) := by
  obtain ⟨hle, hge⟩ := needed_le_exactSize a klass r
  generalize r.exactSize a klass a.sizeofVoidP = size at *
  rw [wrap_uintptr]
  cases a <;> simp only [Arch.sizeofVoidP] <;> omega

/-- **What `NewFull` allocates is enough** for the header, the elements and the bounds, or an
exception is raised, if and only if a length is too large or the exact size fits `uintptr_t`. -/
theorem newFull_allocates_iff (a : Arch) (klass : ArrayClass) (lengths : ℕ → ℕ)
    (lowerBounds : Option (ℕ → ℕ)) :
    (newFull a klass lengths lowerBounds = .error .overflow ∨
      ∃ array, newFull a klass lengths lowerBounds = .ok array ∧
        (Request.full lengths lowerBounds).needed a klass ≤ array.byteLen) ↔
      (∃ i < klass.rank, lengths i > arrayMaxIndex) ∨
        (Request.full lengths lowerBounds).exactSize a klass a.sizeofVoidP <
          2 ^ (8 * a.sizeofVoidP) := by
  have hindexable : (∃ i < klass.rank, lengths i > arrayMaxIndex) ↔
      ¬ (Request.full lengths lowerBounds).Indexable klass := by
    simp [Request.Indexable, Request.dimensions]
  rw [hindexable]
  by_cases h : (Request.full lengths lowerBounds).Indexable klass
  · obtain ⟨array, hcreate, hcreated⟩ := create_of_indexable a h
    have hfull : newFull a klass lengths lowerBounds = .ok array := hcreate
    rw [hfull, ← needed_le_wrap_iff, ← hcreated.byteLen]
    simp [h]
  · have herror : newFull a klass lengths lowerBounds = .error .overflow :=
      create_of_not_indexable a h
    simp [herror, h]

/-- An array of bytes with three dimensions. -/
def cube : ArrayClass := ⟨3, by decide, false, 1, false, true, false⟩

/-- The `2 ^ 22` by `2 ^ 21` by `2 ^ 21` bytes are none at all. -/
theorem newFull_allocates_too_little :
    ∃ array, newFull .bits64 cube (fun i => if i = 0 then 2 ^ 22 else 2 ^ 21) none = .ok array ∧
      array.byteLen = 80 ∧ array.maxLength = 0 ∧
      array.byteLen < Request.needed .bits64 cube
        (.full (fun i => if i = 0 then 2 ^ 22 else 2 ^ 21) none) :=
  ⟨_, rfl, by decide, by decide, by decide⟩

end ArrayObject

end Il2Cpp
