import Il2Cpp.Data.LittleEndian
import Il2Cpp.Object.Elements

/-!
# Storing a value into an array

`Array::SetValueImpl` stores a boxed value into the element of an array: as it is, where it is an
instance of the element class, and otherwise widened, where both are numbers.

* `TypeTag.number` : the cases of the switches over types.
* `assignUnsigned`, `assignSigned`, `assignReal` : the conversions, with the checks of the sizes.
* `setValueImpl` : the function.
* `Storable` : the values that it stores, and `Holds` : what the element holds afterwards.
* `setValueImpl_stores_or_raises` : all other values raise an exception.
-/

namespace Il2Cpp

namespace SetValue

open ArrayMetadata Nullable IntType

variable {C O : Type*}

/-! ### Numbers -/

/-- The labels of the switches: unsigned integers with the characters, signed integers and floating
point numbers, by their sizes. -/
inductive Number
  | unsigned (size : ℕ)
  | signed (size : ℕ)
  | real (size : ℕ)
  deriving DecidableEq

/-- The number that a type stands for in the switches; all others are the default. -/
def number : TypeTag → Option Number
  | .simple .u1 => some (.unsigned 1)
  | .simple .char | .simple .u2 => some (.unsigned 2)
  | .simple .u4 => some (.unsigned 4)
  | .simple .u8 => some (.unsigned 8)
  | .simple .i1 => some (.signed 1)
  | .simple .i2 => some (.signed 2)
  | .simple .i4 => some (.signed 4)
  | .simple .i8 => some (.signed 8)
  | .simple .r4 => some (.real 4)
  | .simple .r8 => some (.real 8)
  | _ => none

def Number.size : Number → ℕ
  | unsigned n | signed n | real n => n

/-- The integers of a type. -/
def Number.intType : Number → Option IntType
  | unsigned n => some (.unsigned (8 * n))
  | signed n => some (.signed (8 * n - 1))
  | real _ => none

/-- The conversions of C++ that give a floating point number of a size. -/
structure Conversions where
  /-- From a `float` to a `double`. -/
  ofSingle : List UInt8 → List UInt8
  ofUnsigned : ℕ → ℤ → List UInt8
  ofSigned : ℕ → ℤ → List UInt8
  ofDouble : ℕ → List UInt8 → List UInt8

/-- `WidenedValueUnion`, with the member that has been set. -/
inductive WidenedValue
  | u64 (x : ℤ)
  | i64 (x : ℤ)
  | r64 (bytes : List UInt8)

/-- What the functions raise. -/
inductive Exception (C : Type*)
  /-- The value is not a widening conversion. -/
  | argument
  /-- The arguments of `FormatInvalidCastException`. -/
  | invalidCast (c c' : C)

/-! ### Conversions -/

/-- `ExtractWidenedValue`.  The value is not read where the assertion fails. -/
def extractWidenedValue (R : Conversions) (type : Option Number) (value : List UInt8) :
    Option WidenedValue :=
  match type with
  | some (.unsigned n) => (readBlock value 0 n).map fun bytes =>
    .u64 (LittleEndian.load (.unsigned (8 * n)) bytes)
  | some (.signed n) => (readBlock value 0 n).map fun bytes =>
    .i64 (LittleEndian.load (.signed (8 * n - 1)) bytes)
  | some (.real n) => (readBlock value 0 n).map fun bytes =>
    .r64 (if n = 4 then R.ofSingle bytes else bytes)
  | none => some (.u64 0)

section

variable (R : Conversions) (size : ℕ) (value : WidenedValue) (valueType : Option Number)
  (elementSize valueSize : ℕ)

/-- `CheckWideningConversion`. -/
def checkWideningConversion (extra : ℕ) : Except (Exception C) Unit :=
  if elementSize < valueSize + extra then .error .argument else .ok ()

/-- `AssignUnsigned`, for an integer of `size` bytes.  The result is what is written; in a release
build, where assertions do nothing, it may be nothing. -/
def assignUnsigned : Except (Exception C) (Option (List UInt8)) :=
  match valueType, value with
  | some (.unsigned _), .u64 x => do
    checkWideningConversion elementSize valueSize 0
    return some (LittleEndian.store size x)
  -- neither a signed value nor a floating point number
  | some (.signed _), _ | some (.real _), _ => .error .argument
  | _, _ => .ok none

/-- `AssignSigned`. -/
def assignSigned : Except (Exception C) (Option (List UInt8)) :=
  match valueType, value with
  -- an unsigned value has to be smaller than the element
  | some (.unsigned _), .u64 x => do
    checkWideningConversion elementSize valueSize 1
    return some (LittleEndian.store size x)
  | some (.signed _), .i64 x => do
    checkWideningConversion elementSize valueSize 0
    return some (LittleEndian.store size x)
  | some (.real _), _ => .error .argument
  | _, _ => .ok none

/-- `AssignReal`. -/
def assignReal : Except (Exception C) (Option (List UInt8)) :=
  match valueType, value with
  -- all integers fit into the floating point range
  | some (.unsigned _), .u64 x => .ok (some (R.ofUnsigned size x))
  | some (.signed _), .i64 x => .ok (some (R.ofSigned size x))
  | some (.real _), .r64 bytes => do
    checkWideningConversion elementSize valueSize 0
    return some (R.ofDouble size bytes)
  | _, _ => .ok none

end

/-- The last switch of `SetValueImpl`, for an element type that is a number. -/
def assign (R : Conversions) (elementType : Number) (value : WidenedValue)
    (valueType : Option Number) (elementSize valueSize : ℕ) :
    Except (Exception C) (Option (List UInt8)) :=
  match elementType with
  | .unsigned n => assignUnsigned n value valueType elementSize valueSize
  | .signed n => assignSigned n value valueType elementSize valueSize
  | .real n => assignReal R n value valueType elementSize valueSize

/-! ### The function -/

section

variable [DecidableEq C] {T : ElementTable C} (H : Objects T O) (R : Conversions)

/-- The type of a class, or the base type of an enum. -/
def underlyingType (T : ElementTable C) (c : C) : TypeTag :=
  if (T.klass c).enumtype then (T.klass (T.klass c).elementClass).type else (T.klass c).type

/-- The part of `SetValueImpl` for a value that is no instance of the element class. -/
def convert (elementClass : C) (value : O) :
    Option (Except (Exception C) (Option (List UInt8))) :=
  let valueClass := H.klass value
  let throwInvalidCast := some (.error (.invalidCast valueClass elementClass))
  let elementSize := (getArrayElementSize T.toGroundedTable elementClass).getD 0
  let valueSize := (T.klass valueClass).instanceSize - ArrayMetadata.sizeofIl2CppObject
  let elementType := underlyingType T elementClass
  let valueType := underlyingType T valueClass
  if !(T.klass valueClass).valuetype then throwInvalidCast
  else if elementType = .simple .boolean ∧ valueType ≠ .simple .boolean then
    if (number valueType).isSome then some (.error .argument) else throwInvalidCast
  else
    match extractWidenedValue R (number valueType) (H.unbox value) with
    | none => none
    | some widenedValue =>
      match number elementType with
      | some type => some (assign R type widenedValue (number valueType) elementSize valueSize)
      | none => throwInvalidCast

/-- What `SetValueImpl` writes into an element, which is `cell` before. -/
def storedCell (fuel : ℕ) (elementClass : C) (cell : Cell O) (value : Option O) :
    Option (Except (Exception C) (Option (Cell O))) :=
  let elementSize := (getArrayElementSize T.toGroundedTable elementClass).getD 0
  if isNullable T.toClassTable elementClass then
    match cell with
    | .reference _ => none
    | .bytes buf =>
      (nullableInit ((T.argument elementClass).nullable T.msvc) buf (value.map H.unbox)).map
        fun buf => .ok (some (.bytes buf))
  else
    match value with
    | none => some (.ok (some (.zero T elementClass)))
    | some value =>
      match isInst H fuel value elementClass with
      | none => none
      | some inst =>
        if !(T.klass elementClass).valuetype then
          if inst then some (.ok (some (.reference (some value))))
          else some (.error (.invalidCast elementClass (H.klass value)))
        else if inst then
          (readBlock (H.unbox value) 0 elementSize).map fun bytes => .ok (some (.bytes bytes))
        else
          (convert H R elementClass value).map fun result =>
            result.map fun bytes => bytes.map .bytes

/-- `Array::SetValueImpl`, for an array with the class and the elements.  There is no outcome where
`IsInst` does not answer or memory outside of a block is read. -/
def setValueImpl (fuel : ℕ) (array : C) (elements : List (Cell O)) (value : Option O)
    (index : ℕ) : Option (ArrayOutcome (Exception C) Unit O) :=
  match elements[index]? with
  | none => none
  | some cell =>
    (storedCell H R fuel (T.klass array).elementClass cell value).map fun
      | .error e => ⟨.error e, elements⟩
      | .ok none => ⟨.ok (), elements⟩
      | .ok (some cell) => ⟨.ok (), elements.set index cell⟩

end

/-! ### What is stored -/

/-- The values of a type can be stored as another type: between integers, where all of them are in
the range; between floating point numbers, where the size does not shrink; and as floating point
numbers. -/
def Widens (s t : Number) : Prop :=
  match s.intType, t.intType with
  | some s, some t => ∀ x, s.Fits x → t.Fits x
  | some _, none => True
  | none, none => s.size ≤ t.size
  | none, some _ => False

/-- The bytes stand for the value of another type. -/
def Stored (R : Conversions) (s t : Number) (value bytes : List UInt8) : Prop :=
  match s, t.intType with
  | s, some t' => bytes.length = t.size ∧ ∃ s', s.intType = some s' ∧
    LittleEndian.load t' bytes = LittleEndian.load s' value
  | .unsigned n, none =>
    bytes = R.ofUnsigned t.size (LittleEndian.load (.unsigned (8 * n)) value)
  | .signed n, none =>
    bytes = R.ofSigned t.size (LittleEndian.load (.signed (8 * n - 1)) value)
  | .real n, none => bytes = R.ofDouble t.size (if n = 4 then R.ofSingle value else value)

section

variable {n m : ℕ}

theorem pow_le_pow_iff {a b : ℕ} : (2 : ℤ) ^ a ≤ 2 ^ b ↔ a ≤ b :=
  pow_le_pow_iff_right₀ (by decide)

theorem unsigned_unsigned_iff :
    (∀ x, (IntType.unsigned (8 * n)).Fits x → (IntType.unsigned (8 * m)).Fits x) ↔ n ≤ m := by
  have hpow : (2 : ℤ) ^ (8 * n) ≤ 2 ^ (8 * m) ↔ n ≤ m := by
    rw [pow_le_pow_iff]
    omega
  have hpos : (0 : ℤ) < 2 ^ (8 * n) := by positivity
  constructor
  · intro h
    have hmax := (h (2 ^ (8 * n) - 1) ⟨by omega, by omega⟩).2
    exact hpow.1 (by omega)
  · exact fun h x hx => ⟨hx.1, hx.2.trans_le (hpow.2 h)⟩

theorem unsigned_signed_iff (hm : 0 < m) :
    (∀ x, (IntType.unsigned (8 * n)).Fits x → (IntType.signed (8 * m - 1)).Fits x) ↔ n < m := by
  have hpow : (2 : ℤ) ^ (8 * n) ≤ 2 ^ (8 * m - 1) ↔ n < m := by
    rw [pow_le_pow_iff]
    omega
  have hpos : (0 : ℤ) < 2 ^ (8 * n) := by positivity
  constructor
  · intro h
    have hmax := (h (2 ^ (8 * n) - 1) ⟨by omega, by omega⟩).2
    exact hpow.1 (by omega)
  · have hpos' : (0 : ℤ) < 2 ^ (8 * m - 1) := by positivity
    exact fun h x hx => ⟨by linarith [hx.1], hx.2.trans_le (hpow.2 h)⟩

theorem signed_signed_iff (hn : 0 < n) (hm : 0 < m) :
    (∀ x, (IntType.signed (8 * n - 1)).Fits x → (IntType.signed (8 * m - 1)).Fits x) ↔ n ≤ m := by
  have hpow : (2 : ℤ) ^ (8 * n - 1) ≤ 2 ^ (8 * m - 1) ↔ n ≤ m := by
    rw [pow_le_pow_iff]
    omega
  have hpos : (0 : ℤ) < 2 ^ (8 * n - 1) := by positivity
  constructor
  · intro h
    have hmax := (h (2 ^ (8 * n - 1) - 1) ⟨by omega, by omega⟩).2
    exact hpow.1 (by omega)
  · exact fun h x hx => ⟨by linarith [hx.1, hpow.2 h], hx.2.trans_le (hpow.2 h)⟩

theorem not_signed_unsigned :
    ¬ ∀ x, (IntType.signed (8 * n - 1)).Fits x → (IntType.unsigned (8 * m)).Fits x := by
  intro h
  have hpos : (0 : ℤ) < 2 ^ (8 * n - 1) := by positivity
  exact absurd (h (-1) ⟨by omega, by omega⟩).1 (by decide)

theorem modulus_unsigned : LittleEndian.modulus (.unsigned (8 * m)) = 256 ^ m := by
  rw [LittleEndian.modulus, pow_mul]
  rfl

theorem modulus_signed (hm : 0 < m) : LittleEndian.modulus (.signed (8 * m - 1)) = 256 ^ m := by
  rw [LittleEndian.modulus, Nat.sub_add_cancel (by omega), pow_mul]
  rfl

theorem check_bind (elementSize valueSize extra : ℕ) (bytes : List UInt8) :
    (do checkWideningConversion elementSize valueSize extra
        return some bytes : Except (Exception C) (Option (List UInt8))) =
      if valueSize + extra ≤ elementSize then .ok (some bytes) else .error .argument := by
  rw [checkWideningConversion]
  split_ifs with h h' h'
  · omega
  · rfl
  · rfl
  · omega

theorem assign_spec (R : Conversions) {s t : Number} (hs : 0 < s.size) (ht : 0 < t.size)
    {value : List UInt8} (hlength : value.length = s.size) :
    ∃ widened, extractWidenedValue R (some s) value = some widened ∧
      (Widens s t → ∃ bytes, assign (C := C) R t widened (some s) t.size s.size =
        .ok (some bytes) ∧ Stored R s t value bytes) ∧
      (¬ Widens s t → assign (C := C) R t widened (some s) t.size s.size = .error .argument) := by
  have hread := readBlock_all value
  rw [hlength] at hread
  cases s with
  | unsigned n =>
    refine ⟨_, congrArg (Option.map _) hread, ?_⟩
    cases t with
    | unsigned m =>
      have hwidens : Widens (.unsigned n) (.unsigned m) ↔ n + 0 ≤ m := unsigned_unsigned_iff
      refine ⟨fun h => ⟨_, (check_bind m n 0 _).trans (if_pos (hwidens.1 h)),
        LittleEndian.length_store _ _, _, rfl, ?_⟩,
        fun h => (check_bind m n 0 _).trans (if_neg (mt hwidens.2 h))⟩
      exact LittleEndian.load_store_of_fits modulus_unsigned (h _ (fits_wrap _ _))
    | signed m =>
      have hwidens : Widens (.unsigned n) (.signed m) ↔ n + 1 ≤ m := unsigned_signed_iff ht
      refine ⟨fun h => ⟨_, (check_bind m n 1 _).trans (if_pos (hwidens.1 h)),
        LittleEndian.length_store _ _, _, rfl, ?_⟩,
        fun h => (check_bind m n 1 _).trans (if_neg (mt hwidens.2 h))⟩
      exact LittleEndian.load_store_of_fits (modulus_signed ht) (h _ (fits_wrap _ _))
    | real m => exact ⟨fun _ => ⟨_, rfl, rfl⟩, fun h => absurd trivial h⟩
  | signed n =>
    refine ⟨_, congrArg (Option.map _) hread, ?_⟩
    cases t with
    | unsigned m => exact ⟨fun h => absurd h not_signed_unsigned, fun _ => rfl⟩
    | signed m =>
      have hwidens : Widens (.signed n) (.signed m) ↔ n + 0 ≤ m := signed_signed_iff hs ht
      refine ⟨fun h => ⟨_, (check_bind m n 0 _).trans (if_pos (hwidens.1 h)),
        LittleEndian.length_store _ _, _, rfl, ?_⟩,
        fun h => (check_bind m n 0 _).trans (if_neg (mt hwidens.2 h))⟩
      exact LittleEndian.load_store_of_fits (modulus_signed ht) (h _ (fits_wrap _ _))
    | real m => exact ⟨fun _ => ⟨_, rfl, rfl⟩, fun h => absurd trivial h⟩
  | real n =>
    refine ⟨_, congrArg (Option.map _) hread, ?_⟩
    cases t with
    | unsigned m => exact ⟨False.elim, fun _ => rfl⟩
    | signed m => exact ⟨False.elim, fun _ => rfl⟩
    | real m =>
      have hwidens : Widens (.real n) (.real m) ↔ n + 0 ≤ m := Iff.rfl
      exact ⟨fun h => ⟨_, (check_bind m n 0 _).trans (if_pos (hwidens.1 h)), rfl⟩,
        fun h => (check_bind m n 0 _).trans (if_neg (mt hwidens.2 h))⟩

end

/-! ### The types of numbers -/

section

variable [DecidableEq C] {T : ElementTable C} {H : Objects T O} {R : Conversions}

theorem size_pos {tag : TypeTag} {n : Number} (h : number tag = some n) : 0 < n.size := by
  rcases tag with tag | _
  · cases tag <;> cases h <;> decide
  all_goals cases h

theorem elementSize_of_number {klass type : C} {n : Number}
    (h : number (T.klass type).type = some n) :
    getArrayElementSizeFrom T.toGroundedTable klass type = some n.size := by
  rw [getArrayElementSizeFrom]
  split <;> simp_all [number] <;> rw [← h] <;> rfl

theorem number_spec {c : C} {n : Number} (h : number (underlyingType T c) = some n) :
    (T.klass c).valuetype = true ∧ (T.klass c).nullabletype = false ∧
      getArrayElementSize T.toGroundedTable c = some n.size := by
  rw [underlyingType] at h
  split_ifs at h with henum
  · obtain ⟨hvalue, hnullable, htype, -⟩ := T.enumtype c henum
    refine ⟨hvalue, hnullable, ?_⟩
    rw [getArrayElementSize]
    rcases htype with htype | htype
    · rw [getArrayElementSizeFrom_valuetype htype, if_pos henum]
      exact elementSize_of_number h
    · obtain ⟨g, hg⟩ := Option.isSome_iff_exists.1 ((T.genericClass_isSome c).2 htype)
      obtain ⟨hdefinition, hgenum, helement⟩ := T.definition hg
      have hgtype : (T.klass g.type).type = .valuetype := by
        rw [henum] at hgenum
        exact ((T.enumtype g.type hgenum.symm).2.2.1).resolve_right
          (by rcases hdefinition with h | h <;> simp [h])
      rw [getArrayElementSizeFrom_genericinst htype hg, getArrayElementSizeFrom_valuetype hgtype,
        if_pos (hgenum ▸ henum), ← helement henum]
      exact elementSize_of_number h
  · obtain ⟨tag, htag, hprimitive⟩ :
        ∃ tag, (T.klass c).type = .simple tag ∧ tag.isPrimitive = true := by
      cases htype : (T.klass c).type with
      | simple tag =>
        rw [htype] at h
        refine ⟨tag, rfl, ?_⟩
        cases tag <;> first | rfl | cases h
      | _ =>
        rw [htype] at h
        cases h
    refine ⟨by rw [T.valuetype_eq, htag]; exact hprimitive, ?_, elementSize_of_number h⟩
    refine eq_false_of_ne_true fun hnullable => ?_
    rw [(T.nullabletype c hnullable).2.1] at htag
    cases htag

/-- The value and the element are numbers, and the element widens the value. -/
def IsWidened (T : ElementTable C) (valueClass elementClass : C) : Prop :=
  ∃ s t, number (underlyingType T valueClass) = some s ∧
    number (underlyingType T elementClass) = some t ∧ Widens s t

/-- A value that is no number, where the element is one. -/
def IsUnchecked (T : ElementTable C) (valueClass elementClass : C) : Prop :=
  (T.klass valueClass).valuetype = true ∧ number (underlyingType T valueClass) = none ∧
    (number (underlyingType T elementClass)).isSome

theorem length_unbox_number {value : O} {s : Number}
    (h : number (underlyingType T (H.klass value)) = some s) :
    (H.unbox value).length = s.size ∧
      (T.klass (H.klass value)).instanceSize - ArrayMetadata.sizeofIl2CppObject = s.size := by
  obtain ⟨hvalue, hnullable, hsize⟩ := number_spec h
  have hinstance := T.elementSize_valuetype _ hvalue hnullable
  rw [hsize] at hinstance
  have hinstance := Option.some.inj hinstance
  exact ⟨(H.length_unbox value hvalue).trans hinstance.symm, hinstance.symm⟩

theorem convert_widened {elementClass : C} {value : O} {s t : Number}
    (hs : number (underlyingType T (H.klass value)) = some s)
    (ht : number (underlyingType T elementClass) = some t) :
    (Widens s t → ∃ bytes, convert H R elementClass value = some (.ok (some bytes)) ∧
      Stored R s t (H.unbox value) bytes) ∧
    (¬ Widens s t → convert H R elementClass value = some (.error .argument)) := by
  obtain ⟨hlength, hvalueSize⟩ := length_unbox_number hs
  obtain ⟨widened, hextract, hok, herror⟩ := assign_spec R (size_pos hs) (size_pos ht) hlength
  have hvalue := (number_spec hs).1
  have hconvert : convert H R elementClass value =
      some (assign R t widened (some s) t.size s.size) := by
    have hne : underlyingType T elementClass ≠ .simple .boolean := by
      intro h
      rw [h] at ht
      cases ht
    rw [convert, if_neg (by simp [hvalue]), if_neg fun h => hne h.1, hs, hextract, ht,
      (number_spec ht).2.2, hvalueSize]
    rfl
  rw [hconvert]
  exact ⟨fun h => (hok h).imp fun bytes h => ⟨congrArg some h.1, h.2⟩,
    fun h => congrArg some (herror h)⟩

theorem convert_error {elementClass : C} {value : O}
    (hchecked : ¬ IsUnchecked T (H.klass value) elementClass)
    (h : ¬ IsWidened T (H.klass value) elementClass) :
    ∃ e, convert H R elementClass value = some (.error e) := by
  by_cases hvalue : (T.klass (H.klass value)).valuetype = true
  · by_cases hboolean : underlyingType T elementClass = .simple .boolean ∧
        underlyingType T (H.klass value) ≠ .simple .boolean
    · rw [convert, if_neg (by simp [hvalue]), if_pos hboolean]
      split_ifs
      · exact ⟨_, rfl⟩
      · exact ⟨_, rfl⟩
    · cases ht : number (underlyingType T elementClass) with
      | none =>
        obtain ⟨widened, hextract⟩ : ∃ widened, extractWidenedValue R
            (number (underlyingType T (H.klass value))) (H.unbox value) = some widened := by
          cases hs : number (underlyingType T (H.klass value)) with
          | none => exact ⟨_, rfl⟩
          | some s =>
            have hpos := size_pos hs
            exact (assign_spec (C := C) R hpos hpos (length_unbox_number hs).1).imp fun _ h => h.1
        rw [convert, if_neg (by simp [hvalue]), if_neg hboolean, hextract, ht]
        exact ⟨_, rfl⟩
      | some t =>
        cases hs : number (underlyingType T (H.klass value)) with
        | none => exact absurd ⟨hvalue, hs, by rw [ht]; rfl⟩ hchecked
        | some s => exact ⟨_, (convert_widened hs ht).2 fun hwidens => h ⟨s, t, hs, ht, hwidens⟩⟩
  · rw [convert, if_pos (by simp [hvalue])]
    exact ⟨_, rfl⟩

/-! ### What the function does -/

/-- The values that are stored. -/
def Storable (H : Objects T O) (elementClass : C) : Option O → Prop
  | none => True
  | some value => IsInstance H value elementClass ∨ IsWidened T (H.klass value) elementClass

/-- **What the element holds**: a nullable value, zero for NULL, the reference or the value itself,
or the value as the type of the element. -/
def Holds (H : Objects T O) (R : Conversions) (elementClass : C) (value : Option O)
    (cell : Cell O) : Prop :=
  if isNullable T.toClassTable elementClass then
    ∃ bytes, cell = .bytes bytes ∧ nullableHasValue bytes = some value.isSome ∧
      ∀ v ∈ value, Nullable.value ((T.argument elementClass).nullable T.msvc) bytes =
        some (H.unbox v)
  else
    match value with
    | none => cell = .zero T elementClass
    | some v =>
      (IsInstance H v elementClass ∧ (T.klass elementClass).valuetype = true ∧
          cell = .bytes (H.unbox v)) ∨
        (IsInstance H v elementClass ∧ (T.klass elementClass).valuetype = false ∧
          cell = .reference (some v)) ∨
        (¬ IsInstance H v elementClass ∧ ∃ s t bytes,
          number (underlyingType T (H.klass v)) = some s ∧
            number (underlyingType T elementClass) = some t ∧ cell = .bytes bytes ∧
            Stored R s t (H.unbox v) bytes)

/-- The cases that the function does not check: a value that is not of the argument of a nullable
element, and one that is no number for an element that is. -/
def Unchecked (H : Objects T O) (elementClass : C) (value : Option O) : Prop :=
  ∃ v ∈ value, ¬ IsInstance H v elementClass ∧
    (isNullable T.toClassTable elementClass ∨ IsUnchecked T (H.klass v) elementClass)

variable {elementClass : C} {cell : Cell O}

theorem isNullable_iff : isNullable T.toClassTable elementClass = true ↔
    (T.klass elementClass).nullabletype = true := by
  rw [isNullable, Bool.and_eq_true]
  refine ⟨fun h => h.2, fun h => ⟨?_, h⟩⟩
  exact (T.genericClass_isSome _).2 (T.nullabletype _ h).2.1

theorem storedCell_nullable {value : Option O} (fuel : ℕ)
    (hnullable : isNullable T.toClassTable elementClass = true)
    (hcell : cell.OfClass T elementClass)
    (hvalue : ∀ v ∈ value, IsInstance H v elementClass) :
    ∃ cell', storedCell H R fuel elementClass cell value = some (.ok (some cell')) ∧
      Holds H R elementClass value cell' := by
  have hnullable' := isNullable_iff.1 hnullable
  obtain ⟨hvaluetype, -, hargument, -⟩ := T.nullabletype _ hnullable'
  cases cell with
  | reference obj =>
    rw [valuetype_of_reference T.toCastTable hcell] at hvaluetype
    cases hvaluetype
  | bytes bs =>
    have hsize := T.argument_instanceSize _ hnullable'
    have hbuf : bs.length = ((T.argument elementClass).nullable T.msvc).size :=
      Option.some.inj (hcell.2.symm.trans (T.elementSize_nullable _ hnullable'))
    have hobj : ∀ payload ∈ value.map H.unbox,
        payload.length = (T.argument elementClass).size := by
      intro payload hpayload
      obtain ⟨v, hv, rfl⟩ := Option.map_eq_some_iff.1 hpayload
      have hklass := (hvalue v hv).klass_eq_argument hnullable'
      rw [H.length_unbox v (hklass ▸ hargument), hklass, ValueClass.size, hsize]
      rfl
    obtain ⟨buf, hinit, -, hflag, hbytes⟩ :=
      nullableInit_spec T.msvc (hsize ▸ T.instanceSize_lt _) hbuf hobj
    refine ⟨.bytes buf, ?_, ?_⟩
    · rw [storedCell.eq_def]
      dsimp only
      rw [if_pos hnullable, hinit]
      rfl
    · rw [Holds.eq_def, if_pos hnullable]
      refine ⟨buf, rfl, by rw [hflag, Option.isSome_map], fun v hv => ?_⟩
      rw [hbytes, hv]
      rfl

theorem storedCell_some {value : O} {fuel : ℕ} {inst : Bool}
    (hinst : isInst H fuel value elementClass = some inst)
    (hnullable : ¬ isNullable T.toClassTable elementClass = true)
    (hchecked : ¬ Unchecked H elementClass (some value)) :
    (Storable H elementClass (some value) → ∃ cell',
      storedCell H R fuel elementClass cell (some value) = some (.ok (some cell')) ∧
        Holds H R elementClass (some value) cell') ∧
    (¬ Storable H elementClass (some value) → ∃ e,
      storedCell H R fuel elementClass cell (some value) = some (.error e)) := by
  have hiff := isInst_iff hinst
  rw [storedCell.eq_def]
  dsimp only
  rw [if_neg hnullable, hinst]
  dsimp only
  cases inst with
  | true =>
    have hinstance := hiff.1 rfl
    refine ⟨fun _ => ?_, fun h => absurd (.inl hinstance) h⟩
    cases hvalue : (T.klass elementClass).valuetype with
    | false =>
      refine ⟨_, rfl, ?_⟩
      rw [Holds, if_neg hnullable]
      exact .inr (.inl ⟨hinstance, hvalue, rfl⟩)
    | true =>
      have hnullable' := eq_false_of_ne_true (mt isNullable_iff.2 hnullable)
      have hklass := hinstance.klass_eq hvalue hnullable'
      have hread := readBlock_all (H.unbox value)
      rw [H.length_unbox value (hklass ▸ hvalue), hklass] at hread
      refine ⟨.bytes (H.unbox value), ?_, ?_⟩
      · rw [T.elementSize_valuetype _ hvalue hnullable', Option.getD_some, hread]
        rfl
      · rw [Holds, if_neg hnullable]
        exact .inl ⟨hinstance, hvalue, rfl⟩
  | false =>
    have hinstance : ¬ IsInstance H value elementClass := mt hiff.2 Bool.false_ne_true
    cases hvalue : (T.klass elementClass).valuetype with
    | false =>
      refine ⟨fun h => ?_, fun _ => ⟨_, rfl⟩⟩
      obtain ⟨s, t, -, ht, -⟩ := h.resolve_left hinstance
      rw [(number_spec ht).1] at hvalue
      cases hvalue
    | true =>
      refine ⟨fun h => ?_, fun h => ?_⟩
      · obtain ⟨s, t, hs, ht, hwidens⟩ := h.resolve_left hinstance
        obtain ⟨bytes, hconvert, hstored⟩ := (convert_widened hs ht).1 hwidens
        refine ⟨.bytes bytes, ?_, ?_⟩
        · change (convert H R elementClass value).map _ = _
          rw [hconvert]
          rfl
        · rw [Holds, if_neg hnullable]
          exact .inr (.inr ⟨hinstance, s, t, bytes, hs, ht, rfl, hstored⟩)
      · have hunchecked : ¬ IsUnchecked T (H.klass value) elementClass := fun hunchecked =>
          hchecked ⟨value, rfl, hinstance, .inr hunchecked⟩
        obtain ⟨e, hconvert⟩ := convert_error hunchecked fun hwidened => h (.inr hwidened)
        refine ⟨e, ?_⟩
        change (convert H R elementClass value).map _ = _
        rw [hconvert]
        rfl

theorem storedCell_spec {value : Option O}
    (hcell : cell.OfClass T elementClass)
    (hreturns : ∀ v ∈ value, Returns T.toGroundedTable elementClass (H.klass v))
    (hchecked : ¬ Unchecked H elementClass value) :
    ∃ fuel, (Storable H elementClass value → ∃ cell',
        storedCell H R fuel elementClass cell value = some (.ok (some cell')) ∧
          Holds H R elementClass value cell') ∧
      (¬ Storable H elementClass value → ∃ e,
        storedCell H R fuel elementClass cell value = some (.error e)) := by
  by_cases hnullable : isNullable T.toClassTable elementClass = true
  · have hvalue : ∀ v ∈ value, IsInstance H v elementClass := fun v hv => by
      by_contra h
      exact hchecked ⟨v, hv, h, .inl hnullable⟩
    refine ⟨0, fun _ => storedCell_nullable 0 hnullable hcell hvalue, fun h => absurd ?_ h⟩
    cases value with
    | none => trivial
    | some v => exact .inl (hvalue v rfl)
  · cases value with
    | none =>
      refine ⟨0, fun _ => ⟨.zero T elementClass, ?_, ?_⟩, fun h => absurd trivial h⟩
      · rw [storedCell.eq_def]
        dsimp only
        rw [if_neg hnullable]
      · rw [Holds, if_neg hnullable]
    | some v =>
      obtain ⟨fuel, hsettled⟩ := hreturns v rfl
      obtain ⟨inst, hinst⟩ : ∃ inst, isInst H fuel v elementClass = some inst :=
        isInst_of_settled hsettled
      exact ⟨fuel, storedCell_some hinst hnullable hchecked⟩

end

/-- **`SetValueImpl` stores or raises.**  A value that is NULL, an instance of the element class or a
number that the element widens is stored into the element, and into no other; with any other value
an exception is raised and the array is as it was.  This leaves out the cases that are not
checked. -/
theorem setValueImpl_stores_or_raises [DecidableEq C] {T : ElementTable C} (H : Objects T O)
    (R : Conversions) {array : C} {elements : List (Cell O)} {value : Option O} {index : ℕ}
    (hindex : index < elements.length)
    (hcells : ∀ cell ∈ elements, cell.OfClass T (T.klass array).elementClass)
    (hreturns : ∀ v ∈ value,
      Returns T.toGroundedTable (T.klass array).elementClass (H.klass v))
    (hchecked : ¬ Unchecked H (T.klass array).elementClass value) :
    ∃ fuel outcome, setValueImpl H R fuel array elements value index = some outcome ∧
      (Storable H (T.klass array).elementClass value → outcome.result = .ok () ∧ ∃ cell,
        Holds H R (T.klass array).elementClass value cell ∧
          outcome.elements = elements.set index cell) ∧
      (¬ Storable H (T.klass array).elementClass value →
        (∃ e, outcome.result = .error e) ∧ outcome.elements = elements) := by
  have hget : elements[index]? = some elements[index] := List.getElem?_eq_getElem hindex
  obtain ⟨fuel, hstores, hraises⟩ :=
    storedCell_spec (R := R) (hcells _ (List.getElem_mem hindex)) hreturns hchecked
  refine ⟨fuel, ?_⟩
  by_cases hstorable : Storable H (T.klass array).elementClass value
  · obtain ⟨cell, hcell, hholds⟩ := hstores hstorable
    refine ⟨⟨.ok (), elements.set index cell⟩, ?_, fun _ => ⟨rfl, cell, hholds, rfl⟩,
      fun h => absurd hstorable h⟩
    rw [setValueImpl, hget]
    dsimp only
    rw [hcell]
    rfl
  · obtain ⟨e, hcell⟩ := hraises hstorable
    refine ⟨⟨.error e, elements⟩, ?_, fun h => absurd h hstorable, fun _ => ⟨⟨e, rfl⟩, rfl⟩⟩
    rw [setValueImpl, hget]
    dsimp only
    rw [hcell]
    rfl

section

open NumberClass

/-- What the conversions make of 1. -/
def conversionsOfOne : Conversions :=
  let real (size : ℕ) : List UInt8 :=
    if size = 4 then [0, 0, 0x80, 0x3f] else [0, 0, 0, 0, 0, 0, 0xf0, 0x3f]
  ⟨fun _ => real 8, fun size _ => real size, fun size _ => real size, fun size _ => real size⟩

/-- A signed byte is stored into an `int[]`. -/
theorem setValueImpl_stores_or_raises_sbyte :
    ∃ fuel outcome, setValueImpl (boxed sbyte [0xfb] rfl) conversionsOfOne fuel (vector int32)
        [.bytes [0, 0, 0, 0], .bytes [1, 0, 0, 0]] (some ()) 1 = some outcome ∧
      outcome.result = .ok () := by
  have hcells : ∀ cell ∈ [Cell.bytes [0, 0, 0, 0], Cell.bytes [1, 0, 0, 0]],
      (cell : Cell Unit).OfClass table int32 :=
    List.forall_mem_cons.2 ⟨⟨rfl, size_eq int32⟩,
      List.forall_mem_cons.2 ⟨⟨rfl, size_eq int32⟩, List.forall_mem_nil _⟩⟩
  have hreturns : ∀ v ∈ some (), Returns table.toGroundedTable int32
      ((boxed sbyte [0xfb] rfl).klass v) := fun _ _ => ⟨2, .inr rfl⟩
  have hchecked : ¬ Unchecked (boxed sbyte [0xfb] rfl) int32 (some ()) := by
    rintro ⟨v, -, -, hnullable | hunchecked⟩
    · cases hnullable
    · cases hunchecked.2.1
  obtain ⟨fuel, outcome, h, hstores, -⟩ := @setValueImpl_stores_or_raises _ _ _ table
    (boxed sbyte [0xfb] rfl) conversionsOfOne (vector int32) _ _ 1 (by decide) hcells hreturns
    hchecked
  exact ⟨fuel, outcome, h, (hstores (.inr ⟨.signed 1, .signed 4, rfl, rfl,
    (signed_signed_iff (by decide) (by decide)).2 (by decide)⟩)).1⟩

/-- An `int` is stored into a `float[]`, as a `float`. -/
theorem setValueImpl_int32_single :
    setValueImpl (boxed int32 [1, 0, 0, 0] rfl) conversionsOfOne 2 (vector single)
        [.bytes [0, 0, 0, 0]] (some ()) 0 = some ⟨.ok (), [.bytes [0, 0, 0x80, 0x3f]]⟩ ∧
      ¬ IsInstance (boxed int32 [1, 0, 0, 0] rfl) () single ∧
      number (underlyingType table single) = some (.real 4) := by
  refine ⟨rfl, fun h => ?_, rfl⟩
  cases h.klass_eq rfl rfl

end

end SetValue

end Il2Cpp
