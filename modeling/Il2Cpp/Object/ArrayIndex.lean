import Il2Cpp.Data.MixedRadix
import Il2Cpp.Object.ArraySize

/-!
# The elements of an array of several dimensions

`Array::GetValue` and `Array::SetValue` compute the position of an element from its indices.  The
sums and differences of indices and bounds are of 32 bits, and so is the position.

* `position` : the computation, which is in both functions.
* `getValue`, `setValue` : the functions, with the conversion of the elements as a parameter.
* `Flattens`, `ReadsBack` : the positions are as they should be, and elements are read as written.
* `flattens_iff` : the arrays of which this is so.
-/

namespace Il2Cpp

namespace ArrayObject

open IntType

/-! ### The functions -/

/-- What `GetValue` and `SetValue` raise; `value` is an exception of `SetValueImpl`. -/
inductive IndexException (X : Type*)
  | argument
  | indexOutOfRange
  | value (x : X)

/-- The check of one index, which computes the upper bound in 32 bits. -/
def outOfRange (bound : Il2CppArrayBounds) (index : ℤ) : Bool :=
  index < bound.lowerBound || index ≥ int32.wrap (int32.wrap bound.length + bound.lowerBound)

/-- The loop that computes the position, from a dimension on. -/
def positionLoop (a : Arch) : List (Il2CppArrayBounds × ℤ) → ℤ → ℤ
  | [], pos => pos
  | (bound, index) :: rest, pos =>
    positionLoop a rest (a.uintptr.wrap (pos * bound.length + index - bound.lowerBound))

/-- The position that `GetValueImpl` and `SetValueImpl` are called with. -/
def position {X : Type*} (a : Arch) (array : Il2CppArray) (indices : List ℤ) :
    Except (IndexException X) ℤ :=
  if indices.length ≠ array.klass.rank then .error .argument
  else
    match array.bounds with
    | none =>
      let index := indices.headD 0
      if index < 0 ∨ index ≥ int32.wrap array.maxLength then .error .indexOutOfRange
      else .ok index
    | some bounds =>
      if (bounds.zip indices).any fun p => outOfRange p.1 p.2 then .error .indexOutOfRange
      else
        match bounds.zip indices with
        | [] => .ok 0
        | (bound, index) :: rest =>
          let pos := a.uintptr.wrap (int32.wrap (index - bound.lowerBound))
          .ok (int32.wrap (positionLoop a rest pos))

section

variable {E O V X : Type*}

/-- `Array::GetValue`, where `load` is what `GetValueImpl` does with an element. -/
def getValue (load : E → O) (a : Arch) (array : Il2CppArray) (data : ℤ → E) (indices : List ℤ) :
    Except (IndexException X) O :=
  (position a array indices).map fun pos => load (data pos)

/-- `Array::SetValue`, where `store` is what `SetValueImpl` makes of a value and the element that is
there. -/
def setValue (store : V → E → Except X E) (a : Arch) (array : Il2CppArray) (data : ℤ → E)
    (value : V) (indices : List ℤ) : Except (IndexException X) (ℤ → E) :=
  match position a array indices with
  | .error e => .error e
  | .ok pos =>
    match store value (data pos) with
    | .error x => .error (.value x)
    | .ok element => .ok (Function.update data pos element)

end

/-! ### Indices -/

/-- The dimensions of an array; a vector has one, from 0 on. -/
def Il2CppArray.dimensions (array : Il2CppArray) : List Il2CppArrayBounds :=
  array.bounds.getD [⟨array.maxLength, 0⟩]

/-- The indices are inside of all bounds. -/
def Il2CppArray.InRange (array : Il2CppArray) (indices : List ℤ) : Prop :=
  List.Forall₂ (fun bound index => bound.lowerBound ≤ index ∧
    index < bound.lowerBound + bound.length) array.dimensions indices

/-- An `int32_t` for each dimension. -/
def Il2CppArray.IndexVector (array : Il2CppArray) (indices : List ℤ) : Prop :=
  indices.length = array.klass.rank ∧ ∀ index ∈ indices, int32.Fits index

/-- The elements have their positions, and all other indices are rejected. -/
structure Flattens (X : Type*) (a : Arch) (array : Il2CppArray) : Prop where
  inside : ∀ indices, array.IndexVector indices → array.InRange indices →
    ∃ pos, position (X := X) a array indices = .ok pos ∧ 0 ≤ pos ∧ pos < array.maxLength
  injective : ∀ indices indices', array.IndexVector indices → array.IndexVector indices' →
    array.InRange indices → array.InRange indices' →
    position (X := X) a array indices = position a array indices' → indices = indices'
  outside : ∀ indices, array.IndexVector indices → ¬ array.InRange indices →
    position (X := X) a array indices = .error .indexOutOfRange

/-- What has been stored at some indices is read there, and nothing else changes. -/
def ReadsBack {E O V X : Type*} (load : E → O) (store : V → E → Except X E) (a : Arch)
    (array : Il2CppArray) : Prop :=
  ∀ data data' value indices, array.IndexVector indices → array.InRange indices →
    setValue store a array data value indices = .ok data' →
    (∃ pos element, position (X := X) a array indices = .ok pos ∧
      store value (data pos) = .ok element ∧
      getValue (X := X) load a array data' indices = .ok (load element)) ∧
    ∀ indices', array.IndexVector indices' → array.InRange indices' → indices' ≠ indices →
      getValue (X := X) load a array data' indices' = getValue load a array data indices'

/-- There is no element, or the bounds and the positions are in 32 bits. -/
def Il2CppArray.Addressable (array : Il2CppArray) : Prop :=
  (∃ bound ∈ array.dimensions, bound.length = 0) ∨
    (∀ bound ∈ array.dimensions, bound.lowerBound + bound.length ≤ 2 ^ 31 - 1) ∧
      (array.dimensions.map (·.length)).prod ≤ 2 ^ 31

/-! ### The dimensions of a new array -/

/-- What is known of the dimensions of an array. -/
structure Il2CppArray.WellFormed (a : Arch) (array : Il2CppArray) : Prop where
  length_dimensions : array.dimensions.length = array.klass.rank
  fits : ∀ bound ∈ array.dimensions,
    0 ≤ bound.length ∧ bound.length ≤ 2 ^ 31 - 1 ∧ int32.Fits bound.lowerBound
  maxLength : array.maxLength = a.uintptr.wrap (array.dimensions.map (·.length)).prod

theorem dimensions_allocateFull (a : Arch) (klass : ArrayClass) (lengths : ℕ → ℕ)
    (lowerBounds : Option (ℕ → ℕ)) (len boundsSize : ℤ) :
    (allocateFull a klass lengths lowerBounds len boundsSize).dimensions =
      if boundsSize = 0 then [⟨len, 0⟩]
      else (List.range klass.rank).map fun i =>
        ⟨lengths i, (lowerBounds.map fun lowerBounds => int32.wrap (lowerBounds i)).getD 0⟩ := by
  rw [Il2CppArray.dimensions, allocateFull]
  split_ifs <;> rfl

theorem wellFormed_of_newFull {a : Arch} {klass : ArrayClass} {lengths : ℕ → ℕ}
    {lowerBounds : Option (ℕ → ℕ)} {array : Il2CppArray}
    (h : newFull a klass lengths lowerBounds = .ok array) : array.WellFormed a := by
  have hcreate : create a klass (.full lengths lowerBounds) = .ok array := h
  have hindexable : (Request.full lengths lowerBounds).Indexable klass := by
    by_contra hlarge
    rw [create_of_not_indexable a hlarge] at hcreate
    cases hcreate
  have hlength : ∀ i ∈ List.range klass.rank, lengths i ≤ arrayMaxIndex := fun i hi =>
    hindexable _ (List.mem_map_of_mem hi)
  have hcreated := created_of_create hcreate
  have hmax := hcreated.maxLength
  rw [newFull] at h
  by_cases hvector : klass.isVector lowerBounds
  · have hrank := isVector_rank hvector
    have h₀ : lengths 0 ≤ arrayMaxIndex := hlength 0 (List.mem_range.2 klass.rank_pos)
    rw [if_pos hvector, if_neg (Nat.not_lt.2 h₀)] at h
    have hdimensions : array.dimensions = [⟨lengths 0, 0⟩] := by
      rw [← Except.ok.inj h, dimensions_allocateFull, if_pos rfl]
    refine ⟨?_, fun bound hbound => ?_, ?_⟩
    · rw [hdimensions, hcreated.klass_eq, hrank]
      rfl
    · rw [hdimensions, List.mem_singleton] at hbound
      rw [arrayMaxIndex] at h₀
      rw [hbound, fits_int32]
      dsimp only
      omega
    · rw [hmax, hdimensions, Request.numElements, Request.dimensions, hrank]
      simp
  · have hloop := multiplyLengths_ok (a := a) hlength 1
    have hone := wrap_of_le_arrayMaxIndex a (n := 1) (by rw [arrayMaxIndex]; omega)
    rw [Nat.cast_one] at hone
    rw [one_mul, hone] at hloop
    rw [if_neg hvector] at h
    simp only [hloop] at h
    have hdimensions := dimensions_allocateFull a klass lengths lowerBounds
      (a.uintptr.wrap ((List.range klass.rank).map lengths).prod)
      (a.sizeOfArrayBounds * klass.rank)
    rw [if_neg (boundsSize_ne_zero a klass), Except.ok.inj h] at hdimensions
    refine ⟨?_, fun bound hbound => ?_, ?_⟩
    · rw [hdimensions, hcreated.klass_eq, List.length_map, List.length_range]
    · rw [hdimensions] at hbound
      obtain ⟨i, hi, rfl⟩ := List.mem_map.1 hbound
      have hi := hlength i hi
      rw [arrayMaxIndex] at hi
      refine ⟨by dsimp only; omega, by dsimp only; omega, ?_⟩
      cases lowerBounds with
      | none => simp
      | some lowerBounds =>
        rw [Option.map_some, Option.getD_some]
        exact fits_wrap int32 _
    · rw [hmax, hdimensions, Request.numElements, Request.dimensions, Nat.cast_list_prod,
        List.map_map, List.map_map]
      rfl

/-! ### The check -/

theorem outOfRange_eq_false_iff {bound : Il2CppArrayBounds} {index : ℤ} (h₀ : 0 ≤ bound.length)
    (h₁ : bound.length ≤ 2 ^ 31 - 1) (hlower : int32.Fits bound.lowerBound) :
    outOfRange bound index = false ↔ bound.lowerBound + bound.length ≤ 2 ^ 31 - 1 ∧
      bound.lowerBound ≤ index ∧ index < bound.lowerBound + bound.length := by
  rw [fits_int32] at hlower
  rw [outOfRange, wrap_of_fits (t := int32) (x := bound.length) (by rw [fits_int32]; omega)]
  by_cases hfits : bound.lowerBound + bound.length ≤ 2 ^ 31 - 1
  · rw [wrap_of_fits (by rw [fits_int32]; omega)]
    simp only [Bool.or_eq_false_iff, decide_eq_false_iff_not]
    omega
  · have hwrap : int32.wrap (bound.length + bound.lowerBound) =
        bound.length + bound.lowerBound - 2 ^ 32 := by
      change (_ + 2 ^ 31) % 2 ^ 32 - 2 ^ 31 = _
      omega
    rw [hwrap]
    simp only [Bool.or_eq_false_iff, decide_eq_false_iff_not]
    omega

/-- The bases and the digits that indices are for the position. -/
def bases (dimensions : List Il2CppArrayBounds) : List ℕ := dimensions.map (·.length.toNat)

def digits (dimensions : List Il2CppArrayBounds) (indices : List ℤ) : List ℕ :=
  dimensions.zipWith (fun bound index => (index - bound.lowerBound).toNat) indices

section

variable {dimensions : List Il2CppArrayBounds} {indices indices' : List ℤ}

/-- The indices are inside of the bounds. -/
abbrev Inside (dimensions : List Il2CppArrayBounds) (indices : List ℤ) : Prop :=
  List.Forall₂ (fun bound index => bound.lowerBound ≤ index ∧
    index < bound.lowerBound + bound.length) dimensions indices

theorem inside_cons {bound : Il2CppArrayBounds} {index : ℤ} :
    Inside (bound :: dimensions) (index :: indices) ↔
      (bound.lowerBound ≤ index ∧ index < bound.lowerBound + bound.length) ∧
        Inside dimensions indices :=
  List.forall₂_cons

theorem inside_lowerBounds (h : ∀ bound ∈ dimensions, 0 < bound.length) :
    Inside dimensions (dimensions.map (·.lowerBound)) :=
  List.forall₂_map_right_iff.2 (List.forall₂_same.2 fun bound hbound =>
    ⟨le_rfl, Int.lt_add_of_pos_right _ (h bound hbound)⟩)

theorem Inside.digits (h : Inside dimensions indices) :
    Digits (bases dimensions) (digits dimensions indices) := by
  induction h with
  | nil => exact .nil
  | cons hindex _ ih => exact .cons (by dsimp only; omega) ih

theorem Inside.eq_of_digits_eq (h : Inside dimensions indices) (h' : Inside dimensions indices')
    (heq : ArrayObject.digits dimensions indices = ArrayObject.digits dimensions indices') :
    indices = indices' := by
  induction h generalizing indices' with
  | nil =>
    cases h'
    rfl
  | cons hindex _ ih =>
    cases h' with
    | cons hindex' htail =>
      obtain ⟨hhead, heq⟩ := List.cons.inj heq
      dsimp only at hhead
      rw [ih htail heq]
      congr 1
      omega

theorem exists_indices {ds : List ℕ} (h : Digits (bases dimensions) ds)
    (hfits : ∀ bound ∈ dimensions, 0 ≤ bound.length ∧ int32.Fits bound.lowerBound ∧
      bound.lowerBound + bound.length ≤ 2 ^ 31 - 1) :
    ∃ indices, Inside dimensions indices ∧ digits dimensions indices = ds ∧
      ∀ index ∈ indices, int32.Fits index := by
  induction dimensions generalizing ds with
  | nil =>
    cases h
    exact ⟨[], .nil, rfl, nofun⟩
  | cons bound dimensions ih =>
    cases h with
    | @cons _ digit _ ds hdigit htail =>
      obtain ⟨⟨h₀, hlower, hupper⟩, hfits⟩ := List.forall_mem_cons.1 hfits
      obtain ⟨indices, hinside, hdigits, hint⟩ := ih htail hfits
      dsimp only at hdigit
      have hindex : int32.Fits (bound.lowerBound + digit) := by
        rw [fits_int32] at hlower ⊢
        omega
      refine ⟨(bound.lowerBound + digit) :: indices, .cons (by omega) hinside, ?_,
        List.forall_mem_cons.2 ⟨hindex, hint⟩⟩
      rw [← hdigits]
      exact congrArg₂ List.cons (by dsimp only; omega) rfl

theorem bases_prod (h : ∀ bound ∈ dimensions, 0 ≤ bound.length) :
    ((bases dimensions).prod : ℤ) = (dimensions.map (·.length)).prod := by
  induction dimensions with
  | nil => rfl
  | cons bound dimensions ih =>
    obtain ⟨h₀, h⟩ := List.forall_mem_cons.1 h
    rw [bases, List.map_cons, List.prod_cons, List.map_cons, List.prod_cons, Nat.cast_mul,
      Int.toNat_of_nonneg h₀]
    congr 1
    exact ih h

theorem any_outOfRange_eq_false_iff (hlength : indices.length = dimensions.length)
    (hfits : ∀ bound ∈ dimensions,
      0 ≤ bound.length ∧ bound.length ≤ 2 ^ 31 - 1 ∧ int32.Fits bound.lowerBound) :
    ((dimensions.zip indices).any fun p => outOfRange p.1 p.2) = false ↔
      (∀ bound ∈ dimensions, bound.lowerBound + bound.length ≤ 2 ^ 31 - 1) ∧
        Inside dimensions indices := by
  induction dimensions generalizing indices with
  | nil =>
    rw [List.length_nil, List.length_eq_zero_iff] at hlength
    rw [hlength]
    simp
  | cons bound dimensions ih =>
    obtain ⟨⟨h₀, h₁, hlower⟩, hfits⟩ := List.forall_mem_cons.1 hfits
    cases indices with
    | nil => cases hlength
    | cons index indices =>
      rw [List.zip_cons_cons, List.any_cons, Bool.or_eq_false_iff,
        outOfRange_eq_false_iff h₀ h₁ hlower, ih (Nat.succ.inj hlength) hfits,
        List.forall_mem_cons, inside_cons]
      tauto

theorem positionLoop_eq (a : Arch) (h : Inside dimensions indices) (n : ℕ) :
    positionLoop a (dimensions.zip indices) (a.uintptr.wrap n) =
      a.uintptr.wrap (mixedRadix (bases dimensions) (digits dimensions indices) n) := by
  induction h generalizing n with
  | nil => rfl
  | @cons bound index dimensions indices hindex _ ih =>
    have hstep : a.uintptr.wrap (a.uintptr.wrap n * bound.length + index - bound.lowerBound) =
        a.uintptr.wrap (n * bound.length.toNat + (index - bound.lowerBound).toNat : ℕ) := by
      rw [add_sub_assoc, ← wrap_wrap_add, wrap_wrap_mul, wrap_wrap_add]
      congr 1
      push_cast
      rw [Int.toNat_of_nonneg (by omega), Int.toNat_of_nonneg (by omega)]
    rw [List.zip_cons_cons, positionLoop, hstep, ih]
    rfl

end

/-! ### The position -/

theorem int32_wrap_uintptr (a : Arch) (x : ℤ) : int32.wrap (a.uintptr.wrap x) = int32.wrap x := by
  change (x % 2 ^ (8 * a.sizeofVoidP) + 2 ^ 31) % 2 ^ 32 - 2 ^ 31 = (x + 2 ^ 31) % 2 ^ 32 - 2 ^ 31
  cases a <;> simp only [Arch.sizeofVoidP] <;> omega

theorem wrap_zero (a : Arch) : a.uintptr.wrap 0 = 0 :=
  (wrap_uintptr a 0).trans (Int.zero_emod _)

section

variable {X : Type*} {a : Arch} {array : Il2CppArray} {indices : List ℤ}

theorem wrap_first (a : Arch) {bound : Il2CppArrayBounds} {index : ℤ}
    (hfits : 0 ≤ bound.length ∧ bound.length ≤ 2 ^ 31 - 1 ∧ int32.Fits bound.lowerBound)
    (hcheck : outOfRange bound index = false) :
    a.uintptr.wrap (int32.wrap (index - bound.lowerBound)) =
      a.uintptr.wrap (0 * bound.length + index - bound.lowerBound) := by
  obtain ⟨h₀, h₁, hlower⟩ := hfits
  have hinside := (outOfRange_eq_false_iff h₀ h₁ hlower).1 hcheck
  have hdifference : int32.Fits (index - bound.lowerBound) := by
    rw [fits_int32]
    omega
  rw [wrap_of_fits hdifference, zero_mul, zero_add]

theorem position_eq (hwf : array.WellFormed a) (hvector : array.IndexVector indices) :
    position (X := X) a array indices =
      if (array.dimensions.zip indices).any fun p => outOfRange p.1 p.2 then
        .error .indexOutOfRange
      else .ok (int32.wrap (positionLoop a (array.dimensions.zip indices) 0)) := by
  have hlength : indices.length = array.dimensions.length :=
    hvector.1.trans hwf.length_dimensions.symm
  have hfits := hwf.fits
  rw [position, if_neg (not_not.2 hvector.1)]
  cases hbounds : array.bounds with
  | none =>
    have hdimensions : array.dimensions = [⟨array.maxLength, 0⟩] := by
      rw [Il2CppArray.dimensions, hbounds, Option.getD_none]
    rw [hdimensions] at hlength ⊢
    obtain ⟨index, rfl⟩ := List.length_eq_one_iff.1 hlength
    have hindex : int32.Fits index := hvector.2 index (List.mem_singleton_self _)
    have hpos : int32.wrap (positionLoop a [(⟨array.maxLength, 0⟩, index)] 0) = index := by
      rw [positionLoop, positionLoop, int32_wrap_uintptr, zero_mul, zero_add, sub_zero,
        wrap_of_fits hindex]
    have hcheck : ([(⟨array.maxLength, 0⟩, index)].any fun p => outOfRange p.1 p.2) = true ↔
        index < 0 ∨ index ≥ int32.wrap array.maxLength := by
      simp [outOfRange, wrap_of_fits (fits_wrap int32 _)]
    change (if index < 0 ∨ index ≥ int32.wrap array.maxLength then _ else Except.ok index) =
      if [(⟨array.maxLength, 0⟩, index)].any fun p => outOfRange p.1 p.2 then _ else _
    by_cases hout : index < 0 ∨ index ≥ int32.wrap array.maxLength
    · rw [if_pos hout, if_pos (hcheck.2 hout)]
    · rw [if_neg hout, if_neg (mt hcheck.1 hout)]
      exact congrArg Except.ok hpos.symm
  | some bounds =>
    have hdimensions : array.dimensions = bounds := by
      rw [Il2CppArray.dimensions, hbounds, Option.getD_some]
    rw [hdimensions] at hfits ⊢
    dsimp only
    split_ifs with hcheck
    · rfl
    · cases hzip : bounds.zip indices with
      | nil => rfl
      | cons p rest =>
        have hp : p ∈ bounds.zip indices := by
          rw [hzip]
          exact List.mem_cons_self
        have hcheck : outOfRange p.1 p.2 = false :=
          eq_false_of_ne_true fun hout => hcheck (List.any_eq_true.2 ⟨p, hp, hout⟩)
        dsimp only
        rw [wrap_first a (hfits p.1 (List.of_mem_zip hp).1) hcheck, positionLoop]

theorem position_ok (hwf : array.WellFormed a) (hvector : array.IndexVector indices)
    (hupper : ∀ bound ∈ array.dimensions, bound.lowerBound + bound.length ≤ 2 ^ 31 - 1)
    (hinside : array.InRange indices) :
    position (X := X) a array indices = .ok (int32.wrap
      (mixedRadix (bases array.dimensions) (digits array.dimensions indices) 0)) := by
  have hlength := hvector.1.trans hwf.length_dimensions.symm
  have hloop := positionLoop_eq a hinside 0
  rw [Nat.cast_zero, wrap_zero] at hloop
  rw [position_eq hwf hvector, (any_outOfRange_eq_false_iff hlength hwf.fits).2 ⟨hupper, hinside⟩,
    if_neg Bool.false_ne_true, hloop, int32_wrap_uintptr]

theorem position_error (hwf : array.WellFormed a) (hvector : array.IndexVector indices)
    (h : ¬ ((∀ bound ∈ array.dimensions, bound.lowerBound + bound.length ≤ 2 ^ 31 - 1) ∧
      array.InRange indices)) :
    position (X := X) a array indices = .error .indexOutOfRange := by
  have hlength := hvector.1.trans hwf.length_dimensions.symm
  have hcheck := mt (any_outOfRange_eq_false_iff hlength hwf.fits).1 h
  rw [position_eq hwf hvector, if_pos (Bool.eq_true_of_not_eq_false hcheck)]

theorem nonneg_length (hwf : array.WellFormed a) : ∀ bound ∈ array.dimensions, 0 ≤ bound.length :=
  fun bound hbound => (hwf.fits bound hbound).1

theorem not_inRange {bound : Il2CppArrayBounds} (hbound : bound ∈ array.dimensions)
    (hzero : bound.length = 0) : ¬ array.InRange indices := by
  intro hinside
  have hpositive : List.Forall₂ (fun bound _ => 0 < bound.length ∧ True) array.dimensions indices :=
    hinside.imp fun _ _ _ => ⟨by omega, trivial⟩
  exact ((List.forall₂_and_left _ _).1 hpositive).1 bound hbound |>.ne' hzero

theorem wrap_of_le_product (a : Arch) {dimensions : List Il2CppArrayBounds}
    (hnonneg : ∀ bound ∈ dimensions, 0 ≤ bound.length)
    (h : (dimensions.map (·.length)).prod ≤ 2 ^ 31) :
    a.uintptr.wrap (dimensions.map (·.length)).prod = (dimensions.map (·.length)).prod := by
  have h₀ : 0 ≤ (dimensions.map (·.length)).prod := by
    rw [← bases_prod hnonneg]
    exact Int.natCast_nonneg _
  cases a with
  | bits32 => exact wrap_of_fits (t := unsigned 32) ⟨h₀, by omega⟩
  | bits64 => exact wrap_of_fits (t := unsigned 64) ⟨h₀, by omega⟩

theorem flattens_of_addressable (X : Type*) (hwf : array.WellFormed a) (h : array.Addressable) :
    Flattens X a array := by
  rcases h with ⟨bound, hbound, hzero⟩ | ⟨hupper, hprod⟩
  · refine ⟨fun indices _ hinside => ?_, fun indices indices' _ _ hinside => ?_,
      fun indices hvector _ => position_error hwf hvector fun h => ?_⟩
    · exact absurd hinside (not_inRange hbound hzero)
    · exact absurd hinside (not_inRange hbound hzero)
    · exact not_inRange hbound hzero h.2
  · have hvalue {indices : List ℤ} (hinside : array.InRange indices) :
        (mixedRadix (bases array.dimensions) (digits array.dimensions indices) 0 : ℤ) <
          (array.dimensions.map (·.length)).prod := by
      rw [← bases_prod (nonneg_length hwf)]
      exact Int.ofNat_lt.2 (mixedRadix_lt (Inside.digits hinside))
    have hposition {indices : List ℤ} (hvector : array.IndexVector indices)
        (hinside : array.InRange indices) : position (X := X) a array indices =
          .ok (mixedRadix (bases array.dimensions) (digits array.dimensions indices) 0 : ℕ) := by
      have hvalue := hvalue hinside
      rw [position_ok hwf hvector hupper hinside, wrap_of_fits]
      rw [fits_int32]
      omega
    refine ⟨fun indices hvector hinside => ⟨_, hposition hvector hinside, Int.natCast_nonneg _, ?_⟩,
      fun indices indices' hvector hvector' hinside hinside' heq => ?_,
      fun indices hvector hout => position_error hwf hvector fun h => hout h.2⟩
    · rw [hwf.maxLength, wrap_of_le_product a (nonneg_length hwf) hprod]
      exact hvalue hinside
    · rw [hposition hvector hinside, hposition hvector' hinside'] at heq
      exact Inside.eq_of_digits_eq hinside hinside'
        (mixedRadix_inj (Inside.digits hinside) (Inside.digits hinside')
          (Int.ofNat.inj (Except.ok.inj heq))).2

/-- An array whose elements have different positions below its length is not too large. -/
theorem addressable_of_flattens (hwf : array.WellFormed a) (h : Flattens X a array) :
    array.Addressable := by
  refine or_iff_not_imp_left.2 fun hzero => ?_
  have hpositive : ∀ bound ∈ array.dimensions, 0 < bound.length := fun bound hbound =>
    (hwf.fits bound hbound).1.lt_of_ne fun h => hzero ⟨bound, hbound, h.symm⟩
  have hlower := inside_lowerBounds hpositive
  -- the first element has a position
  have hvector : array.IndexVector (array.dimensions.map (·.lowerBound)) :=
    ⟨(List.length_map _).trans hwf.length_dimensions,
      List.forall_mem_map.2 fun bound hbound => (hwf.fits bound hbound).2.2⟩
  have hupper : ∀ bound ∈ array.dimensions, bound.lowerBound + bound.length ≤ 2 ^ 31 - 1 := by
    by_contra hupper
    obtain ⟨pos, hpos, -⟩ := h.inside _ hvector hlower
    rw [position_error hwf hvector fun h => hupper h.1] at hpos
    cases hpos
  -- and so has the one that would be at `2 ^ 31`
  refine ⟨hupper, ?_⟩
  by_contra hprod
  rw [← bases_prod (nonneg_length hwf)] at hprod
  have hlarge : 2 ^ 31 < (bases array.dimensions).prod := by omega
  obtain ⟨ds, hdigits, hvalue⟩ := exists_mixedRadix hlarge
  obtain ⟨indices, hinside, rfl, hint⟩ := exists_indices hdigits fun bound hbound =>
    ⟨(hwf.fits bound hbound).1, (hwf.fits bound hbound).2.2, hupper bound hbound⟩
  have hvector : array.IndexVector indices :=
    ⟨hinside.length_eq.symm.trans hwf.length_dimensions, hint⟩
  obtain ⟨pos, hpos, h₀, -⟩ := h.inside indices hvector hinside
  rw [position_ok hwf hvector hupper hinside, hvalue, Except.ok.injEq] at hpos
  have hnarrowed : int32.wrap ((2 ^ 31 : ℕ) : ℤ) = -2 ^ 31 := by decide
  omega

theorem getValue_of_position {E O : Type*} (load : E → O) {data : ℤ → E} {pos : ℤ}
    (h : position (X := X) a array indices = .ok pos) :
    getValue (X := X) load a array data indices = .ok (load (data pos)) := by
  rw [getValue, h]
  rfl

theorem readsBack_of_flattens {E O V : Type*} (load : E → O) (store : V → E → Except X E)
    (h : Flattens X a array) : ReadsBack load store a array := by
  intro data data' value indices hvector hinside hset
  obtain ⟨pos, hpos, -⟩ := h.inside indices hvector hinside
  rw [setValue, hpos] at hset
  dsimp only at hset
  cases hstore : store value (data pos) with
  | error x =>
    rw [hstore] at hset
    cases hset
  | ok element =>
    rw [hstore] at hset
    cases hset
    refine ⟨⟨pos, element, hpos, hstore, ?_⟩, fun indices' hvector' hinside' hne => ?_⟩
    · rw [getValue_of_position load hpos, Function.update_self]
    · obtain ⟨pos', hpos', -⟩ := h.inside indices' hvector' hinside'
      have hpos_ne : pos' ≠ pos := fun heq =>
        hne (h.injective _ _ hvector' hvector hinside' hinside (by rw [hpos, hpos', heq]))
      rw [getValue_of_position load hpos', getValue_of_position load hpos',
        Function.update_of_ne hpos_ne]

/-- **The elements of an array have different positions below its length**, all other indices are
rejected and elements are read as they have been written, if and only if the array has no element or
its upper bounds and its positions are in 32 bits. -/
theorem flattens_iff {E O V X : Type*} (load : E → O) (store : V → E → Except X E) {a : Arch}
    {klass : ArrayClass} {lengths : ℕ → ℕ} {lowerBounds : Option (ℕ → ℕ)} {array : Il2CppArray}
    (h : newFull a klass lengths lowerBounds = .ok array) :
    (Flattens X a array ∧ ReadsBack load store a array) ↔ array.Addressable :=
  have hwf := wellFormed_of_newFull h
  ⟨fun h => addressable_of_flattens hwf h.1, fun h =>
    have hflattens := flattens_of_addressable X hwf h
    ⟨hflattens, readsBack_of_flattens load store hflattens⟩⟩

end

/-- Two rows from `-1` on and three columns from 5 on. -/
theorem flattens_iff_matrix :
    ∃ array, newFull .bits64 bytes (fun i => i + 2)
        (some fun i => if i = 0 then 2 ^ 64 - 1 else 5) = .ok array ∧
      Flattens Unit .bits64 array ∧
      ReadsBack (X := Unit) (id : ℕ → ℕ) (fun value _ => .ok value) .bits64 array := by
  have h := @flattens_iff ℕ ℕ ℕ Unit id (fun value _ => .ok value) .bits64 bytes (fun i => i + 2)
    (some fun i => if i = 0 then 2 ^ 64 - 1 else 5) _ rfl
  exact ⟨_, rfl, h.2 (.inr ⟨by decide, by decide⟩)⟩

/-- The position of an element of `new byte[65536, 65536]` is negative. -/
theorem flattens_large :
    ∃ array, newFull .bits64 bytes (fun _ => 65536) none = .ok array ∧
      array.maxLength = 2 ^ 32 ∧ position (X := Unit) .bits64 array [32768, 0] = .ok (-2 ^ 31) ∧
      ¬ Flattens Unit .bits64 array := by
  refine ⟨_, rfl, by decide, rfl, fun h => ?_⟩
  obtain ⟨pos, hpos, h₀, -⟩ := h.inside [32768, 0] ⟨rfl, by decide⟩
    (.cons (by decide) (.cons (by decide) .nil))
  cases Except.ok.inj hpos
  exact absurd h₀ (by decide)

end ArrayObject

end Il2Cpp
