import Il2Cpp.Data.Block
import Il2Cpp.Data.MachineInt
import Il2Cpp.Metadata.FieldLayout

/-!
# Nullable values

`Object::Box` and `Object::UnboxNullable` copy the value between a `Nullable<T>` and a boxed `T`.
The number of bytes comes from the size of `Nullable<T>` in the one and from the size of `T` in the
other.

* `ValueClass.nullable` : the class `Nullable<T>`, as `FieldLayout` lays it out.
* `box`, `unboxNullable` : the functions, which fail when they leave a block of memory.
* `nullableInit` : the function that stores a boxed value into the element of an array.
* `RoundTrips` : a value is unboxed as it has been boxed.
* `roundTrips_iff` : the value types of which this is so.
-/

namespace Il2Cpp.Nullable

open FieldLayout SerialLayout IntType

/-! ### The classes -/

/-- `sizeof(Il2CppObject)`: the class and the monitor. -/
def sizeofIl2CppObject : ℕ := 16

/-- The class of a value type, whose fields are behind the header as they are in an object. -/
structure ValueClass where
  instanceSize : ℕ
  minimumAlignment : UInt8
  header_le : sizeofIl2CppObject ≤ instanceSize
  lt : instanceSize < 2 ^ 32
  isPowerOfTwo : minimumAlignment.toNat.isPowerOfTwo

/-- `Class::GetInstanceSize`, of a class with the given `instance_size`. -/
def getInstanceSize (instanceSize : ℤ) : ℤ := int32.wrap instanceSize

/-- `Class::GetValueSize`. -/
def ValueClass.getValueSize (T : ValueClass) : ℤ :=
  int32.wrap (uint64.wrap (getInstanceSize T.instanceSize - sizeofIl2CppObject))

/-- The number of bytes of a value, and of the payload of a boxed value. -/
def ValueClass.size (T : ValueClass) : ℕ := T.instanceSize - sizeofIl2CppObject

theorem ValueClass.size_lt (T : ValueClass) : T.size < 2 ^ 32 := (Nat.sub_le _ _).trans_lt T.lt

/-- `UpdateInstanceSizeForGenericClass`, with the size that has been set for the definition. -/
def updateInstanceSizeForGenericClass (definitionSize instanceSize : ℕ) : ℕ :=
  if definitionSize > 0 ∧ definitionSize > instanceSize then definitionSize else instanceSize

/-- The fields of `Nullable<T>`. -/
def hasValueField : FieldInfo := ⟨false, false, 0, ⟨1, 1⟩⟩

def ValueClass.valueField (T : ValueClass) : FieldInfo :=
  ⟨false, false, 0, ⟨UInt64.ofInt T.getValueSize, T.minimumAlignment⟩⟩

/-- The layout of `Nullable<T>`.  Its base class has no fields. -/
def ValueClass.layout (msvc : Bool) (T : ValueClass) : FieldLayoutData :=
  layoutInstanceFields msvc [hasValueField, T.valueField] 16 16 1 0 false true

/-- The class `Nullable<T>`. -/
structure NullableClass where
  argument : ValueClass
  instanceSize : ℤ
  /-- `fields[0].offset`. -/
  hasValueOffset : ℤ
  /-- `fields[1].offset`. -/
  valueOffset : ℤ

/-- What `SetupFieldOffsetsLocked` makes of the layout. -/
def ValueClass.nullable (msvc : Bool) (T : ValueClass) : NullableClass where
  argument := T
  instanceSize := uint32.wrap (T.layout msvc).classSize.toNat
  hasValueOffset := int32.wrap ((T.layout msvc).fieldOffsets.getD 0 0).toNat
  valueOffset := int32.wrap ((T.layout msvc).fieldOffsets.getD 1 0).toNat

@[simp] theorem nullable_argument (msvc : Bool) (T : ValueClass) :
    (T.nullable msvc).argument = T :=
  rfl

/-- The number of bytes of a `Nullable<T>`. -/
def NullableClass.size (N : NullableClass) : ℕ := N.instanceSize.toNat - sizeofIl2CppObject

/-! ### The functions -/

/-- `Object::NullableHasValue`, which reads the first byte. -/
def nullableHasValue (val : List UInt8) : Option Bool := val.head?.map (· != 0)

/-- Where the value begins. -/
def NullableClass.shift (N : NullableClass) : ℤ := int32.wrap (N.valueOffset - sizeofIl2CppObject)

/-- The number of bytes that `Box` copies. -/
def NullableClass.copySize (N : NullableClass) : ℤ :=
  let size := uint64.wrap (getInstanceSize N.instanceSize - sizeofIl2CppObject)
  uint64.wrap (size - N.shift)

/-- `Object::New`, which allocates an object of the class `T`: the payload. -/
def new (T : ValueClass) : List UInt8 := List.replicate T.size 0

/-- `Object::Box`, for a nullable class.  The result is NULL where there is no value. -/
def box (N : NullableClass) (val : List UInt8) : Option (Option (List UInt8)) :=
  match nullableHasValue val with
  | none => none
  | some false => some none
  | some true => do
    let bytes ← readBlock val N.shift.toNat N.copySize.toNat
    some <$> writeBlock (new N.argument) 0 bytes

/-- `Object::UnboxNullable`, with the storage that it writes to. -/
def unboxNullable (N : NullableClass) (obj : Option (List UInt8)) (storage : List UInt8) :
    Option (List UInt8) :=
  let valueField := N.valueOffset - sizeofIl2CppObject
  let valueSize := uint32.wrap (N.argument.instanceSize - sizeofIl2CppObject)
  match obj with
  | none => do
    let storage ← writeBlock storage valueField.toNat (List.replicate valueSize.toNat 0)
    writeBlock storage 0 [0]
  | some payload => do
    let bytes ← readBlock payload 0 valueSize.toNat
    let storage ← writeBlock storage valueField.toNat bytes
    writeBlock storage 0 [1]

/-- `Object::NullableInit`, with the storage `buf`. -/
def nullableInit (N : NullableClass) (buf : List UInt8) (value : Option (List UInt8)) :
    Option (List UInt8) := do
  let hasValueField := N.hasValueOffset - sizeofIl2CppObject
  let valueField := N.valueOffset - sizeofIl2CppObject
  let valueSize := uint64.wrap N.argument.getValueSize
  let buf ← writeBlock buf hasValueField.toNat [if value.isSome then 1 else 0]
  match value with
  | some payload => (readBlock payload 0 valueSize.toNat).bind (writeBlock buf valueField.toNat ·)
  | none => writeBlock buf valueField.toNat (List.replicate valueSize.toNat 0)

/-- The value of a `Nullable<T>`. -/
def value (N : NullableClass) (val : List UInt8) : Option (List UInt8) :=
  readBlock val N.shift.toNat N.argument.size

/-- A boxed value is unboxed to what it was, and no byte outside of the blocks is read or
written. -/
def RoundTrips (N : NullableClass) : Prop :=
  ∀ val storage, val.length = N.size → storage.length = N.size →
    ∃ obj storage', box N val = some obj ∧ unboxNullable N obj storage = some storage' ∧
      nullableHasValue storage' = nullableHasValue val ∧
      (nullableHasValue val = some true → value N storage' = value N val)

/-- The size of the value type is a positive multiple of its alignment, and the size of
`Nullable<T>` is an `int32_t`. -/
def ValueClass.Boxable (T : ValueClass) : Prop :=
  0 < T.size ∧ T.minimumAlignment.toNat ∣ T.size ∧
    alignUp 17 T.minimumAlignment.toNat + T.size < 2 ^ 31

/-! ### The layout -/

theorem wrap_int32 (x : ℤ) : int32.wrap x = (x + 2147483648) % 4294967296 - 2147483648 := rfl

theorem wrap_uint32 (x : ℤ) : uint32.wrap x = x % 4294967296 := rfl

theorem wrap_uint64 (x : ℤ) : uint64.wrap x = x % 18446744073709551616 := rfl

section

variable (msvc : Bool) (T : ValueClass)

theorem minimumAlignment_pos : 0 < T.minimumAlignment.toNat :=
  Nat.pos_of_isPowerOfTwo T.isPowerOfTwo

/-- Where the value is, behind the header and the flag. -/
def ValueClass.offset : ℕ := alignUp 17 T.minimumAlignment.toNat

theorem offset_bounds : 17 ≤ T.offset ∧ T.offset < 273 := by
  have hle := le_alignUp 17 (minimumAlignment_pos T)
  have hlt := alignUp_lt 17 (minimumAlignment_pos T)
  have ha : T.minimumAlignment.toNat < 256 := UInt8.toNat_lt _
  rw [ValueClass.offset]
  omega

theorem valueOffset_eq : (T.nullable msvc).valueOffset = T.offset := by
  have hoffset : (T.layout msvc).fieldOffsets.getD 1 0 =
      (17 + (T.minimumAlignment.toUInt64 - 1)) &&& ~~~(T.minimumAlignment.toUInt64 - 1) := by
    cases msvc <;> rfl
  have ha : T.minimumAlignment.toUInt64.toNat = T.minimumAlignment.toNat := UInt8.toNat_toUInt64 _
  have hlt : T.minimumAlignment.toNat < 256 := UInt8.toNat_lt _
  have hmask := toNat_alignUp_mask (x := 17) (a := T.minimumAlignment.toUInt64)
    (by rw [ha]; exact T.isPowerOfTwo) (by rw [ha]; change 17 + _ ≤ _; omega)
  rw [ha] at hmask
  change _ = T.offset at hmask
  have hbounds := offset_bounds T
  change int32.wrap ((T.layout msvc).fieldOffsets.getD 1 0).toNat = _
  rw [hoffset, hmask, wrap_of_fits]
  rw [fits_int32]
  omega

theorem shift_eq : (T.nullable msvc).shift = T.offset - sizeofIl2CppObject := by
  have hbounds := offset_bounds T
  rw [NullableClass.shift, valueOffset_eq, wrap_of_fits]
  rw [fits_int32, sizeofIl2CppObject]
  omega

theorem copySize_eq_iff : (T.nullable msvc).copySize = T.size ↔
    (T.nullable msvc).instanceSize = T.offset + T.size ∧ T.offset + T.size < 2 ^ 31 := by
  have hbounds := offset_bounds T
  have hle := T.header_le
  have hlt := T.lt
  have hinstance : uint32.Fits (T.nullable msvc).instanceSize := fits_wrap uint32 _
  rw [fits_uint32] at hinstance
  rw [sizeofIl2CppObject] at hle
  rw [NullableClass.copySize, shift_eq, getInstanceSize, ValueClass.size, sizeofIl2CppObject]
  simp only [wrap_int32, wrap_uint64]
  omega

theorem getValueSize_eq (h : T.instanceSize < 2 ^ 31) : T.getValueSize = T.size := by
  have hle := T.header_le
  rw [sizeofIl2CppObject] at hle
  rw [ValueClass.getValueSize, getInstanceSize, ValueClass.size, sizeofIl2CppObject]
  simp only [wrap_int32, wrap_uint64]
  omega

theorem layout_minimumAlignment : (T.layout msvc).minimumAlignment = T.minimumAlignment := by
  have hmax : (T.layout msvc).minimumAlignment = stdMax 1 T.minimumAlignment := by
    cases msvc <;> rfl
  have hpos := minimumAlignment_pos T
  rw [hmax, stdMax]
  split_ifs with h
  · rfl
  · rw [UInt8.lt_iff_toNat_lt, UInt8.toNat_one] at h
    exact UInt8.toNat.inj (by rw [UInt8.toNat_one]; omega)

theorem extent_items (h : T.instanceSize < 2 ^ 31) :
    extent 16 (items 0 [hasValueField, T.valueField]) = T.offset + max T.size 1 := by
  have hsize : (UInt64.ofInt T.getValueSize).toNat = T.size := by
    have hlt := T.size_lt
    rw [getValueSize_eq T h, UInt64.ofInt, UInt64.toNat_ofNat']
    omega
  have hextent : T.valueField.extentInBytes = max T.size 1 := by
    rw [FieldInfo.extentInBytes, toNat_stdMax]
    exact congrArg (max · 1) hsize
  have hflag : alignUp 16 (effectiveAlignment 0 hasValueField).toNat +
      hasValueField.extentInBytes = 17 := by decide
  have halignment : effectiveAlignment 0 T.valueField = T.minimumAlignment := if_neg (by decide)
  rw [← hextent, items, List.map_cons, List.map_singleton, extent, extent, extent, hflag,
    halignment, ValueClass.offset]

theorem instanceSize_eq (h : T.instanceSize < 2 ^ 31) :
    (T.nullable msvc).instanceSize =
      alignUp (T.offset + max T.size 1) T.minimumAlignment.toNat := by
  have hbounds := offset_bounds T
  have hsize : T.size < 2 ^ 31 := (Nat.sub_le _ _).trans_lt h
  have hpow : PowersOfTwo 0 [hasValueField, T.valueField] :=
    List.forall_mem_cons.2 ⟨⟨0, rfl⟩, List.forall_mem_cons.2 ⟨T.isPowerOfTwo, nofun⟩⟩
  have hfits : Fits 16 0 [hasValueField, T.valueField] := by
    change extent 16 _ + 255 < _
    rw [extent_items T h]
    omega
  have hone : (1 : UInt64).toUInt8.toNat.isPowerOfTwo := ⟨0, by decide⟩
  have hclass := (@layoutFields_eq [hasValueField, T.valueField] isInstance 16 1 0 hpow hone hfits
    msvc 16).2.1
  change (T.layout msvc).classSize.toNat =
    alignUp (extent 16 (items 0 [hasValueField, T.valueField]))
      (T.layout msvc).minimumAlignment.toNat at hclass
  rw [layout_minimumAlignment, extent_items T h] at hclass
  have hlt := alignUp_lt (T.offset + max T.size 1) (minimumAlignment_pos T)
  have ha : T.minimumAlignment.toNat < 256 := UInt8.toNat_lt _
  change uint32.wrap (T.layout msvc).classSize.toNat = _
  rw [hclass, wrap_of_fits]
  rw [fits_uint32]
  omega

theorem alignUp_eq_self_iff {n a : ℕ} : alignUp n a = n ↔ a ∣ n :=
  ⟨fun h => h ▸ dvd_alignUp n a, alignUp_of_dvd⟩

/-- **`Box` copies the bytes of the value** if and only if there is nothing to round up. -/
theorem copySize_eq_iff_boxable : (T.nullable msvc).copySize = T.size ↔ T.Boxable := by
  have hbounds := offset_bounds T
  have hle := T.header_le
  rw [sizeofIl2CppObject] at hle
  rw [copySize_eq_iff, ValueClass.Boxable]
  by_cases hsmall : T.offset + T.size < 2 ^ 31
  · have hinstance : T.instanceSize < 2 ^ 31 := by
      rw [ValueClass.size, sizeofIl2CppObject] at hsmall
      omega
    have hdvd : T.minimumAlignment.toNat ∣ T.offset + T.size ↔
        T.minimumAlignment.toNat ∣ T.size := Nat.dvd_add_right (dvd_alignUp _ _)
    have hround := le_alignUp (T.offset + max T.size 1) (minimumAlignment_pos T)
    rw [instanceSize_eq msvc T hinstance, ← hdvd, ← alignUp_eq_self_iff]
    constructor
    · rintro ⟨heq, -⟩
      have hpos : 0 < T.size := by omega
      rw [Nat.max_eq_left hpos] at heq
      exact ⟨hpos, by exact_mod_cast heq, hsmall⟩
    · rintro ⟨hpos, heq, -⟩
      rw [Nat.max_eq_left hpos, heq]
      exact ⟨Nat.cast_add _ _, hsmall⟩
  · exact iff_of_false (fun h => hsmall h.2) fun h => hsmall h.2.2

end

/-! ### The round trip -/

section

variable (msvc : Bool) (T : ValueClass)

theorem shift_toNat : (T.nullable msvc).shift.toNat = T.offset - sizeofIl2CppObject := by
  rw [shift_eq, sizeofIl2CppObject]
  omega

theorem valueField_toNat :
    ((T.nullable msvc).valueOffset - sizeofIl2CppObject).toNat = T.offset - sizeofIl2CppObject := by
  rw [valueOffset_eq, sizeofIl2CppObject]
  omega

theorem valueSize_toNat :
    (uint32.wrap (T.instanceSize - sizeofIl2CppObject)).toNat = T.size := by
  have hle := T.header_le
  have hlt := T.lt
  rw [sizeofIl2CppObject] at hle
  rw [wrap_uint32, ValueClass.size, sizeofIl2CppObject]
  omega

variable {T} {val storage bytes : List UInt8}

theorem value_of_writes {storage₁ storage₂ : List UInt8} {flag : UInt8}
    (hlength : bytes.length = T.size)
    (hvalue : writeBlock storage (T.offset - sizeofIl2CppObject) bytes = some storage₁)
    (hflag : writeBlock storage₁ 0 [flag] = some storage₂) :
    value (T.nullable msvc) storage₂ = some bytes ∧
      nullableHasValue storage₂ = some (flag != 0) := by
  have hbounds := offset_bounds T
  constructor
  · have hread := readBlock_writeBlock hvalue
    rw [hlength] at hread
    rw [value, shift_toNat, ← hread]
    refine readBlock_writeBlock_of_disjoint hflag (.inr ?_)
    rw [sizeofIl2CppObject, List.length_singleton]
    omega
  · obtain ⟨-, rfl⟩ := writeBlock_eq_some hflag
    rfl

theorem box_of_hasValue {N : NullableClass} (h : nullableHasValue val = some true) :
    box N val = (readBlock val N.shift.toNat N.copySize.toNat).bind fun bytes =>
      (writeBlock (new N.argument) 0 bytes).map some := by
  rw [box, h]
  rfl

theorem unboxNullable_eq {obj : Option (List UInt8)}
    (hlength : ∀ payload ∈ obj, payload.length = T.size) :
    unboxNullable (T.nullable msvc) obj storage =
      (writeBlock storage (T.offset - sizeofIl2CppObject)
        (obj.getD (List.replicate T.size 0))).bind
          fun storage => writeBlock storage 0 [if obj.isSome then 1 else 0] := by
  have hfield := valueField_toNat msvc T
  have hsize := valueSize_toNat T
  cases obj with
  | none =>
    rw [unboxNullable]
    dsimp only [nullable_argument]
    rw [hfield, hsize]
    rfl
  | some payload =>
    have hread := readBlock_all payload
    rw [hlength payload rfl] at hread
    rw [unboxNullable]
    dsimp only [nullable_argument]
    rw [hfield, hsize, hread]
    rfl

theorem roundTrips_of_copySize (h : (T.nullable msvc).copySize = T.size) :
    RoundTrips (T.nullable msvc) := by
  intro val storage hval hstorage
  have hbounds := offset_bounds T
  have hsize : (T.nullable msvc).size = T.offset - sizeofIl2CppObject + T.size := by
    rw [NullableClass.size, ((copySize_eq_iff msvc T).1 h).1, sizeofIl2CppObject]
    omega
  have hflag : nullableHasValue val = some (val.headD 0 != 0) := by
    cases val with
    | nil =>
      rw [sizeofIl2CppObject] at hsize
      rw [List.length_nil] at hval
      omega
    | cons => rfl
  obtain ⟨obj, hbox, hlength, hobj, hbytes⟩ : ∃ obj, box (T.nullable msvc) val = some obj ∧
      (∀ payload ∈ obj, payload.length = T.size) ∧ nullableHasValue val = some obj.isSome ∧
        ∀ payload ∈ obj, value (T.nullable msvc) val = some payload := by
    cases hvalue : val.headD 0 != 0 with
    | false =>
      rw [hvalue] at hflag
      exact ⟨none, by rw [box, hflag], nofun, hflag, nofun⟩
    | true =>
      rw [hvalue] at hflag
      obtain ⟨bytes, hread⟩ : ∃ bytes,
          readBlock val (T.offset - sizeofIl2CppObject) T.size = some bytes :=
        ⟨_, readBlock_of_le (by omega)⟩
      have hwrite : writeBlock (new T) 0 bytes = some bytes :=
        writeBlock_all ((length_readBlock hread).trans List.length_replicate.symm)
      rw [box_of_hasValue hflag, shift_toNat, h, Int.toNat_natCast, hread]
      refine ⟨some bytes, congrArg (Option.map some) hwrite, ?_, hflag, ?_⟩
      · exact fun _ h => Option.some.inj h ▸ length_readBlock hread
      · intro payload hpayload
        rw [value, shift_toNat, nullable_argument, hread, hpayload]
  have hstart : (obj.getD (List.replicate T.size 0)).length = T.size := by
    cases obj with
    | none => exact List.length_replicate
    | some payload => exact hlength payload rfl
  obtain ⟨storage₁, hwrite⟩ : ∃ storage₁, writeBlock storage (T.offset - sizeofIl2CppObject)
      (obj.getD (List.replicate T.size 0)) = some storage₁ :=
    ⟨_, writeBlock_of_le (by rw [hstart]; omega)⟩
  obtain ⟨storage₂, hwrite'⟩ : ∃ storage₂, writeBlock storage₁ 0
      [if obj.isSome then 1 else 0] = some storage₂ :=
    ⟨_, writeBlock_of_le (by
      rw [length_writeBlock hwrite, List.length_singleton]
      rw [sizeofIl2CppObject] at hsize
      omega)⟩
  obtain ⟨hvalue, hflag'⟩ := value_of_writes msvc hstart hwrite hwrite'
  refine ⟨obj, storage₂, hbox, ?_, ?_, fun htrue => ?_⟩
  · rw [unboxNullable_eq msvc hlength, hwrite]
    exact hwrite'
  · rw [hflag', hobj]
    cases obj <;> rfl
  · rw [hobj, Option.some.injEq] at htrue
    obtain ⟨payload, rfl⟩ := Option.isSome_iff_exists.1 htrue
    rw [hbytes payload rfl]
    exact hvalue

theorem copySize_of_roundTrips (h : RoundTrips (T.nullable msvc)) :
    (T.nullable msvc).copySize = T.size := by
  obtain ⟨obj, storage', hbox, hunbox, hflag, hvalue⟩ :=
    h (List.replicate (T.nullable msvc).size 1) (List.replicate (T.nullable msvc).size 0)
      List.length_replicate List.length_replicate
  cases hn : (T.nullable msvc).size with
  | zero =>
    rw [hn] at hbox
    cases hbox
  | succ n =>
    rw [hn] at hbox hflag hvalue
    have htrue : nullableHasValue (List.replicate (n + 1) 1) = some true := rfl
    rw [box_of_hasValue htrue, shift_toNat] at hbox
    obtain ⟨bytes, hread, hbox⟩ := Option.bind_eq_some_iff.1 hbox
    obtain ⟨payload, hpayload, rfl⟩ := Option.map_eq_some_iff.1 hbox
    have hlength : payload.length = T.size :=
      (length_writeBlock hpayload).trans List.length_replicate
    rw [unboxNullable_eq msvc fun _ h => Option.some.inj h ▸ hlength] at hunbox
    obtain ⟨storage₁, hwrite, hunbox⟩ := Option.bind_eq_some_iff.1 hunbox
    have hpayload_eq := (value_of_writes msvc hlength hwrite hunbox).1
    rw [hvalue htrue] at hpayload_eq
    obtain ⟨-, hones⟩ := readBlock_eq_some hpayload_eq
    rw [List.drop_replicate, List.take_replicate] at hones
    have hcopy : bytes.length = (T.nullable msvc).copySize.toNat := length_readBlock hread
    have hnonneg : 0 ≤ (T.nullable msvc).copySize := (fits_uint64.1 (fits_wrap uint64 _)).1
    have hle := (writeBlock_eq_some hpayload).1
    rw [new, nullable_argument] at hpayload
    rw [new, nullable_argument, List.length_replicate] at hle
    -- the byte behind those that have been copied
    have hend : ¬ bytes.length < T.size := fun hlt => by
      have hzero := getElem?_writeBlock_of_outside hpayload (i := bytes.length) (by omega)
      rw [List.getElem?_replicate_of_lt hlt, hones, List.getElem?_replicate_of_lt] at hzero
      · exact absurd (Option.some.inj hzero) (by decide)
      · rw [hones, List.length_replicate] at hlength
        omega
    omega

end

/-- **Nullable values make the round trip** through `Box` and `UnboxNullable`, inside of their
blocks, if and only if the size of the value type is a positive multiple of its alignment, and that
of `Nullable<T>` fits. -/
theorem roundTrips_iff (msvc : Bool) (T : ValueClass) :
    RoundTrips (T.nullable msvc) ↔ T.Boxable :=
  ⟨fun h => (copySize_eq_iff_boxable msvc T).1 (copySize_of_roundTrips msvc h), fun h =>
    roundTrips_of_copySize msvc ((copySize_eq_iff_boxable msvc T).2 h)⟩

/-! ### Storing a boxed value -/

theorem size_nullable (msvc : Bool) {T : ValueClass} (h : T.instanceSize < 2 ^ 31) :
    T.offset - sizeofIl2CppObject + max T.size 1 ≤ (T.nullable msvc).size := by
  have hround := le_alignUp (T.offset + max T.size 1) (minimumAlignment_pos T)
  have hbounds := offset_bounds T
  rw [NullableClass.size, instanceSize_eq msvc T h, sizeofIl2CppObject]
  omega

theorem hasValueField_toNat (msvc : Bool) (T : ValueClass) :
    ((T.nullable msvc).hasValueOffset - sizeofIl2CppObject).toNat = 0 := by
  have hoffset : (T.layout msvc).fieldOffsets.getD 0 0 = 16 := by cases msvc <;> rfl
  change (int32.wrap ((T.layout msvc).fieldOffsets.getD 0 0).toNat - _).toNat = 0
  rw [hoffset]
  decide

theorem nullableInit_spec (msvc : Bool) {T : ValueClass} (h : T.instanceSize < 2 ^ 31)
    {buf : List UInt8} (hbuf : buf.length = (T.nullable msvc).size) {obj : Option (List UInt8)}
    (hobj : ∀ payload ∈ obj, payload.length = T.size) :
    ∃ buf', nullableInit (T.nullable msvc) buf obj = some buf' ∧ buf'.length = buf.length ∧
      nullableHasValue buf' = some obj.isSome ∧
      value (T.nullable msvc) buf' = some (obj.getD (List.replicate T.size 0)) := by
  have hbounds := offset_bounds T
  have hsize := size_nullable msvc h
  have hlength : (obj.getD (List.replicate T.size 0)).length = T.size := by
    cases obj with
    | none => exact List.length_replicate
    | some payload => exact hobj payload rfl
  obtain ⟨buf₁, hflag⟩ : ∃ buf₁, writeBlock buf 0 [if obj.isSome then 1 else 0] = some buf₁ :=
    ⟨_, writeBlock_of_le (by
      rw [List.length_singleton, hbuf]
      rw [sizeofIl2CppObject] at hsize
      omega)⟩
  obtain ⟨buf₂, hvalue⟩ : ∃ buf₂, writeBlock buf₁ (T.offset - sizeofIl2CppObject)
      (obj.getD (List.replicate T.size 0)) = some buf₂ :=
    ⟨_, writeBlock_of_le (by rw [length_writeBlock hflag, hlength]; omega)⟩
  refine ⟨buf₂, ?_, (length_writeBlock hvalue).trans (length_writeBlock hflag), ?_, ?_⟩
  · have hvalueSize : (uint64.wrap T.getValueSize).toNat = T.size := by
      have hlt := T.size_lt
      rw [getValueSize_eq T h, wrap_uint64]
      omega
    rw [nullableInit]
    dsimp only [nullable_argument]
    rw [hasValueField_toNat, valueField_toNat, hvalueSize, hflag,
      Option.bind_eq_bind, Option.bind_some]
    cases obj with
    | none => exact hvalue
    | some payload =>
      have hread := readBlock_all payload
      rw [hobj payload rfl] at hread
      dsimp only
      rw [hread]
      exact hvalue
  · have hfirst := getElem?_writeBlock_of_outside hvalue (i := 0)
      (.inl (by rw [sizeofIl2CppObject]; omega))
    rw [nullableHasValue, List.head?_eq_getElem?, hfirst]
    obtain ⟨-, rfl⟩ := writeBlock_eq_some hflag
    cases obj <;> rfl
  · have hread := readBlock_writeBlock hvalue
    rw [hlength] at hread
    rw [value, shift_toNat]
    exact hread

/-- The instances of a generic structure of one `int` whose size has been set to 6. -/
def sized : ValueClass := ⟨22, 4, by decide, by decide, ⟨2, rfl⟩⟩

/-- `Box` copies 8 bytes. -/
theorem roundTrips_sized :
    sized.instanceSize = updateInstanceSizeForGenericClass 22
        (layoutInstanceFields false [⟨false, false, 0, ⟨4, 4⟩⟩] 16 16 1 0 false
          true).classSize.toNat ∧
      (sized.nullable false).copySize = 8 ∧ sized.size = 6 ∧
      ¬ RoundTrips (sized.nullable false) := by
  refine ⟨by decide, by decide, rfl, fun h => ?_⟩
  obtain ⟨obj, storage', hbox, -⟩ := h (List.replicate 12 1) (List.replicate 12 0) (by decide)
    (by decide)
  have hnone : box (sized.nullable false) (List.replicate 12 1) = none := by decide
  rw [hnone] at hbox
  cases hbox

end Il2Cpp.Nullable
