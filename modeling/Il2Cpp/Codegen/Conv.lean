import Il2Cpp.Data.MachineInt

/-!
# Conversions between integer types

`il2cpp_codegen_conv` for integers: a value is taken for one of its IL stack type, and converted to
the type of the instruction, with or without a check.

* `conv` : the template `ConvImpl`, with its casts in the order of the source.
* `codegenConv` : the function that takes the type of the source at run time.
* `raises_eq` : the comparisons raise exactly when the value is not one of the destination.
* `conv_eq_iff` : the conversion is the exact one, but for a negative value on the stack that is read
  as unsigned and converted to a wider signed type.
-/

namespace Il2Cpp

namespace Codegen

open IntType

inductive Width
  | w8
  | w16
  | w32
  | w64
  deriving DecidableEq

def Width.bits : Width → ℕ
  | w8 => 8
  | w16 => 16
  | w32 => 32
  | w64 => 64

/-- An integer type of C++. -/
structure CInt where
  isUnsigned : Bool
  width : Width
  deriving DecidableEq

def CInt.type (t : CInt) : IntType :=
  if t.isUnsigned then .unsigned t.width.bits else .signed (t.width.bits - 1)

/-- `std::make_unsigned`. -/
def CInt.makeUnsigned (t : CInt) : CInt := ⟨true, t.width⟩

/-- `std::numeric_limits<T>::max()`. -/
def CInt.max (t : CInt) : ℤ :=
  if t.isUnsigned then 2 ^ t.width.bits - 1 else 2 ^ (t.width.bits - 1) - 1

/-- `std::numeric_limits<T>::min()`. -/
def CInt.min (t : CInt) : ℤ := if t.isUnsigned then 0 else -2 ^ (t.width.bits - 1)

/-- `(T)x`. -/
def CInt.cast (t : CInt) (x : ℤ) : ℤ := t.type.wrap x

/-- `pick_bigger`. -/
def pickBigger (t u : CInt) : CInt := if t.width.bits ≥ u.width.bits then t else u

/-- An integer type of the IL stack, which is signed. -/
inductive ILStackType
  | int32
  | int64
  deriving DecidableEq

def ILStackType.cint : ILStackType → CInt
  | int32 => ⟨false, .w32⟩
  | int64 => ⟨false, .w64⟩

/-- The comparisons of `ConvImpl` with `checkOverflow`: whether one of them raises an exception. -/
def raises (dest : CInt) (stack : ILStackType) (treatInputAsUnsigned : Bool) (ilStackValue : ℤ) :
    Bool :=
  let comp := pickBigger dest stack.cint
  (!treatInputAsUnsigned && !dest.isUnsigned &&
    (comp.cast ilStackValue > comp.cast dest.max || comp.cast ilStackValue < comp.cast dest.min)) ||
  ((treatInputAsUnsigned || dest.isUnsigned) &&
    (stack.cint.makeUnsigned.cast ilStackValue > dest.makeUnsigned.cast dest.max ||
      (!treatInputAsUnsigned && ilStackValue < 0)))

/-- `x & mask`, for a mask of ones. -/
def andMask (x mask : ℤ) : ℤ := x % (mask + 1)

/-- The value that `ConvImpl` returns. -/
def converted (cpp20 : Bool) (dest : CInt) (stack : ILStackType) (ilStackValue : ℤ) : ℤ :=
  if dest.isUnsigned then dest.cast (stack.cint.makeUnsigned.cast ilStackValue)
  else if cpp20 then dest.cast ilStackValue
  -- Prior to C++ 20 conversion of integer types to smaller types is undefined behavior
  else if dest.width.bits ≥ stack.cint.width.bits then dest.cast ilStackValue
  else dest.cast (andMask ilStackValue (stack.cint.cast dest.makeUnsigned.max))

/-- `ConvImpl::Conv`, from integer type to integer type; `none` when an overflow exception is
raised. -/
def conv (cpp20 : Bool) (dest : CInt) (stack : ILStackType)
    (checkOverflow treatInputAsUnsigned : Bool) (srcValue : ℤ) : Option ℤ :=
  let ilStackValue := stack.cint.cast srcValue
  if checkOverflow && raises dest stack treatInputAsUnsigned ilStackValue then none
  else some (converted cpp20 dest stack ilStackValue)

/-! ### The type of the source -/

/-- `Il2CppTypeEnum`, as far as it has a value that fits a register. -/
inductive SourceType
  | boolean | i1 | u1 | i2 | char | u2 | i4 | u4 | i8 | u8 | i | ptr | object | u | r4 | r8
  | other
  deriving DecidableEq

/-- The type and the IL stack type of an integer source; `pointer` is the stack type `intptr_t`. -/
def SourceType.types (pointer : ILStackType) : SourceType → Option (CInt × ILStackType)
  | boolean | i1 => some (⟨false, .w8⟩, .int32)
  | u1 => some (⟨true, .w8⟩, .int32)
  | i2 => some (⟨false, .w16⟩, .int32)
  | char | u2 => some (⟨true, .w16⟩, .int32)
  | i4 => some (⟨false, .w32⟩, .int32)
  | u4 => some (⟨true, .w32⟩, .int32)
  | i8 => some (⟨false, .w64⟩, .int64)
  | u8 => some (⟨true, .w64⟩, .int64)
  | i | ptr | object => some (pointer.cint, pointer)
  | u => some (pointer.cint.makeUnsigned, pointer)
  | r4 | r8 | other => none

/-- `il2cpp_codegen_conv` with the type of the source at run time, for an integer type.  `src` is the
number that the bits at the source are read as. -/
def codegenConv (cpp20 : Bool) (pointer : ILStackType) (dest : CInt)
    (checkOverflow inputUnsigned : Bool) (srcType : SourceType) (src : ℤ) : Option (Option ℤ) :=
  (srcType.types pointer).map fun (source, stack) =>
    conv cpp20 dest stack checkOverflow inputUnsigned (source.cast src)

/-! ### The exact conversion -/

/-- The value on the stack, read as unsigned or as signed. -/
def readAs (stack : ILStackType) (asUnsigned : Bool) (ilStackValue : ℤ) : ℤ :=
  if asUnsigned then stack.cint.makeUnsigned.cast ilStackValue else ilStackValue

/-- **The conversion**: with the check the value itself, if the destination has it; without it the
value that is congruent to the one on the stack, zero-extended or sign-extended. -/
def exactConv (dest : CInt) (stack : ILStackType) (checkOverflow treatInputAsUnsigned : Bool)
    (ilStackValue : ℤ) : Option ℤ :=
  if checkOverflow then
    let value := readAs stack treatInputAsUnsigned ilStackValue
    if dest.type.Fits value then some value else none
  else some (dest.cast (readAs stack dest.isUnsigned ilStackValue))

/-- A negative value that is read as unsigned, for a wider signed type. -/
def SignExtended (dest : CInt) (stack : ILStackType) (checkOverflow treatInputAsUnsigned : Bool)
    (ilStackValue : ℤ) : Prop :=
  checkOverflow = true ∧ treatInputAsUnsigned = true ∧ dest.isUnsigned = false ∧
    stack.cint.width.bits < dest.width.bits ∧ ilStackValue < 0

/-! ### The values on the stack -/

theorem fits_stack (stack : ILStackType) (x : ℤ) :
    stack.cint.type.Fits (stack.cint.cast x) := fits_wrap ..

theorem makeUnsigned_cast {stack : ILStackType} {v : ℤ} (hv : stack.cint.type.Fits v) :
    stack.cint.makeUnsigned.cast v = if v < 0 then v + 2 ^ stack.cint.width.bits else v := by
  cases stack <;>
    simp only [ILStackType.cint, CInt.type, CInt.makeUnsigned, CInt.cast, Fits, IntType.wrap,
      Width.bits, if_true, Bool.false_eq_true, if_false] at hv ⊢ <;>
    split_ifs <;> omega

theorem cast_of_fits {t : CInt} {x : ℤ} (h : t.type.Fits x) : t.cast x = x := wrap_of_fits h

theorem cast_max {dest : CInt} {stack : ILStackType}
    (hwidth : dest.width.bits < stack.cint.width.bits) :
    stack.cint.cast dest.makeUnsigned.max = 2 ^ dest.width.bits - 1 := by
  obtain ⟨isUnsigned, width⟩ := dest
  cases stack <;> cases width <;> cases isUnsigned <;> revert hwidth <;> decide

theorem cast_andMask {dest : CInt} {stack : ILStackType} (hdest : dest.isUnsigned = false)
    (hwidth : dest.width.bits < stack.cint.width.bits) (v : ℤ) :
    dest.cast (andMask v (stack.cint.cast dest.makeUnsigned.max)) = dest.cast v := by
  rw [cast_max hwidth, andMask, sub_add_cancel]
  obtain ⟨isUnsigned, width⟩ := dest
  obtain rfl : isUnsigned = false := hdest
  cases width <;>
    simp only [CInt.type, CInt.cast, IntType.wrap, Width.bits, Bool.false_eq_true, if_false] <;>
    omega

theorem converted_eq (cpp20 : Bool) (dest : CInt) (stack : ILStackType) (v : ℤ) :
    converted cpp20 dest stack v = dest.cast (readAs stack dest.isUnsigned v) := by
  rw [converted, readAs]
  cases hdest : dest.isUnsigned with
  | true => rfl
  | false =>
    simp only [Bool.false_eq_true, if_false]
    split_ifs with _ hwidth
    · rfl
    · rfl
    · exact cast_andMask hdest (Nat.lt_of_not_ge hwidth) v

theorem raises_signed {dest : CInt} {stack : ILStackType} {v : ℤ}
    (hdest : dest.isUnsigned = false) (hv : stack.cint.type.Fits v) :
    raises dest stack false v = !decide (dest.type.Fits v) := by
  obtain ⟨isUnsigned, width⟩ := dest
  obtain rfl : isUnsigned = false := hdest
  rw [Bool.eq_iff_iff]
  cases stack <;> cases width <;>
    simp [raises, pickBigger, ILStackType.cint, CInt.type, CInt.cast, CInt.max, CInt.min,
      IntType.wrap, Fits, Width.bits] at hv ⊢ <;>
    omega

theorem raises_asUnsigned (dest : CInt) {stack : ILStackType} {v : ℤ}
    (hv : stack.cint.type.Fits v) :
    raises dest stack true v = !decide (dest.type.Fits (stack.cint.makeUnsigned.cast v)) := by
  obtain ⟨isUnsigned, width⟩ := dest
  rw [Bool.eq_iff_iff]
  cases isUnsigned <;> cases stack <;> cases width <;>
    simp [raises, ILStackType.cint, CInt.type, CInt.makeUnsigned, CInt.cast, CInt.max,
      IntType.wrap, Fits, Width.bits] at hv ⊢ <;>
    omega

theorem raises_toUnsigned {dest : CInt} {stack : ILStackType} {v : ℤ}
    (hdest : dest.isUnsigned = true) (hv : stack.cint.type.Fits v) :
    raises dest stack false v = !decide (dest.type.Fits v) := by
  obtain ⟨isUnsigned, width⟩ := dest
  obtain rfl : isUnsigned = true := hdest
  rw [Bool.eq_iff_iff]
  cases stack <;> cases width <;>
    simp [raises, ILStackType.cint, CInt.type, CInt.makeUnsigned, CInt.cast, CInt.max,
      IntType.wrap, Fits, Width.bits] at hv ⊢ <;>
    omega

/-- **The check**: an exception is raised exactly when the destination does not have the value. -/
theorem raises_eq (dest : CInt) {stack : ILStackType} (asUnsigned : Bool) {v : ℤ}
    (hv : stack.cint.type.Fits v) :
    raises dest stack asUnsigned v = !decide (dest.type.Fits (readAs stack asUnsigned v)) := by
  cases asUnsigned with
  | true => exact raises_asUnsigned dest hv
  | false =>
    cases hdest : dest.isUnsigned with
    | true => exact raises_toUnsigned hdest hv
    | false => exact raises_signed hdest hv

/-! ### The result -/

theorem readAs_of_nonneg {stack : ILStackType} {v : ℤ} (hv : stack.cint.type.Fits v) (h : 0 ≤ v)
    (asUnsigned : Bool) : readAs stack asUnsigned v = v := by
  cases asUnsigned with
  | true => exact (makeUnsigned_cast hv).trans (if_neg (Int.not_lt.2 h))
  | false => rfl

theorem isUnsigned_of_fits_neg {t : CInt} {v : ℤ} (h : t.type.Fits v) (hneg : v < 0) :
    t.isUnsigned = false := by
  obtain ⟨isUnsigned, width⟩ := t
  cases isUnsigned with
  | false => rfl
  | true => exact absurd h.1 (Int.not_le.2 hneg)

theorem fits_asUnsigned_iff {dest : CInt} {stack : ILStackType} {v : ℤ}
    (hdest : dest.isUnsigned = false) (hv : stack.cint.type.Fits v) (hneg : v < 0) :
    dest.type.Fits (stack.cint.makeUnsigned.cast v) ↔
      stack.cint.width.bits < dest.width.bits := by
  rw [makeUnsigned_cast hv, if_pos hneg]
  obtain ⟨isUnsigned, width⟩ := dest
  obtain rfl : isUnsigned = false := hdest
  cases stack <;> cases width <;>
    simp [ILStackType.cint, CInt.type, Fits, Width.bits] at hv ⊢ <;>
    omega

theorem fits_of_lt {dest : CInt} {stack : ILStackType} {v : ℤ} (hdest : dest.isUnsigned = false)
    (hv : stack.cint.type.Fits v) (hwidth : stack.cint.width.bits < dest.width.bits) :
    dest.type.Fits v := by
  obtain ⟨isUnsigned, width⟩ := dest
  obtain rfl : isUnsigned = false := hdest
  cases stack <;> cases width <;>
    simp [ILStackType.cint, CInt.type, Fits, Width.bits] at hv hwidth ⊢
  omega

theorem cast_readAs_eq_iff {dest : CInt} {stack : ILStackType} {asUnsigned : Bool} {v : ℤ}
    (hv : stack.cint.type.Fits v) (hfits : dest.type.Fits (readAs stack asUnsigned v)) :
    dest.cast (readAs stack dest.isUnsigned v) = readAs stack asUnsigned v ↔
      ¬ (asUnsigned = true ∧ dest.isUnsigned = false ∧ v < 0) := by
  rcases Int.lt_or_le v 0 with hneg | hpos
  · cases asUnsigned with
    | false =>
      have hdest := isUnsigned_of_fits_neg hfits hneg
      rw [hdest, cast_of_fits hfits]
      simp
    | true =>
      cases hdest : dest.isUnsigned with
      | true =>
        rw [cast_of_fits hfits]
        simp
      | false =>
        -- the value is sign-extended
        have hfitsv := fits_of_lt hdest hv ((fits_asUnsigned_iff hdest hv hneg).1 hfits)
        have hread : readAs stack true v = v + 2 ^ stack.cint.width.bits :=
          (makeUnsigned_cast hv).trans (if_pos hneg)
        have hpow : (0 : ℤ) < 2 ^ stack.cint.width.bits := by positivity
        have hcast : dest.cast (readAs stack false v) = v := cast_of_fits hfitsv
        rw [hcast, hread]
        simp only [true_and, hneg, not_true_eq_false, iff_false]
        omega
  · rw [readAs_of_nonneg hv hpos] at hfits ⊢
    rw [readAs_of_nonneg hv hpos, cast_of_fits hfits]
    simp [Int.not_lt.2 hpos]

/-- **The conversion is exact** if and only if it is not one of a negative value that is read as
unsigned to a wider signed type. -/
theorem conv_eq_iff (cpp20 : Bool) (dest : CInt) (stack : ILStackType)
    (checkOverflow treatInputAsUnsigned : Bool) (srcValue : ℤ) :
    conv cpp20 dest stack checkOverflow treatInputAsUnsigned srcValue =
        exactConv dest stack checkOverflow treatInputAsUnsigned (stack.cint.cast srcValue) ↔
      ¬ SignExtended dest stack checkOverflow treatInputAsUnsigned (stack.cint.cast srcValue) := by
  have hv := fits_stack stack srcValue
  generalize hcast : stack.cint.cast srcValue = v at hv
  rw [conv, exactConv, hcast, raises_eq dest treatInputAsUnsigned hv, converted_eq, SignExtended]
  cases checkOverflow with
  | false => simp
  | true =>
    by_cases hfits : dest.type.Fits (readAs stack treatInputAsUnsigned v)
    · simp only [hfits, decide_true, Bool.not_true, Bool.and_false, Bool.false_eq_true, if_false,
        if_true, Option.some.injEq, true_and]
      rw [cast_readAs_eq_iff hv hfits, not_iff_not]
      constructor
      · rintro ⟨rfl, hdest, hneg⟩
        exact ⟨rfl, hdest, (fits_asUnsigned_iff hdest hv hneg).1 hfits, hneg⟩
      · rintro ⟨rfl, hdest, -, hneg⟩
        exact ⟨rfl, hdest, hneg⟩
    · simp only [hfits, decide_false, Bool.not_false, Bool.and_true, if_true, if_false, true_and,
        true_iff]
      rintro ⟨rfl, hdest, hwidth, hneg⟩
      exact hfits ((fits_asUnsigned_iff hdest hv hneg).2 hwidth)

/-- The same for a source whose type is given at run time. -/
theorem codegenConv_eq_iff (cpp20 : Bool) (pointer : ILStackType) (dest : CInt)
    (checkOverflow inputUnsigned : Bool) (srcType : SourceType) (src : ℤ) :
    codegenConv cpp20 pointer dest checkOverflow inputUnsigned srcType src =
        (srcType.types pointer).map (fun (source, stack) =>
          exactConv dest stack checkOverflow inputUnsigned (stack.cint.cast (source.cast src))) ↔
      ∀ source stack, srcType.types pointer = some (source, stack) →
        ¬ SignExtended dest stack checkOverflow inputUnsigned
          (stack.cint.cast (source.cast src)) := by
  rw [codegenConv]
  cases srcType.types pointer with
  | none => simp
  | some types =>
    obtain ⟨source, stack⟩ := types
    simp only [Option.map_some, Option.some.injEq]
    rw [conv_eq_iff]
    constructor
    · rintro h _ _ heq
      cases heq
      exact h
    · intro h
      exact h _ _ rfl

/-- `conv.ovf.i8.un` of the `uint32_t` with all bits set gives -1. -/
theorem codegenConv_signExtended :
    codegenConv false .int64 ⟨false, .w64⟩ true true .u4 0xffffffff = some (some (-1)) ∧
      exactConv ⟨false, .w64⟩ .int32 true true (ILStackType.int32.cint.cast 0xffffffff) =
        some 0xffffffff := by
  decide

end Codegen

end Il2Cpp
