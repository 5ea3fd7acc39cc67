import Il2Cpp.Data.Decoder

/-!
# Values of custom attributes

The functions of `MemoryRead.h` and `BlobReader.cpp` that read a value of an attribute from the
attribute data, either to make the managed objects (`deserializeManagedObjects`) or to skip it.

* `AttributeData` : the attribute data of a metadata file.
* `Runtime` : what the reader asks of the runtime.
* `readCompressedUInt32`, `readCompressedInt32` : compressed integers.
* `getConstantValueFromBlob` : the value of a type.  The data may be nested in arrays of arrays; the
  first argument bounds the depth.
* `getConstantValueFromBlob_advances`, `getConstantValueFromBlob_skippedBy` : a value that is
  decoded ends after its start, and is skipped up to the same position.
-/

namespace Il2Cpp

namespace CustomAttribute

open Decoder

/-- The attribute data of a metadata file. -/
structure AttributeData where
  bytes : List UInt8
  /-- `attributeDataSize` of the header is an `int32_t`. -/
  size_lt : bytes.length < 2 ^ 31

/-- `Il2CppTypeEnum`, as far as the reader tells the types apart. -/
inductive Il2CppTypeEnum
  | boolean | char | i1 | u1 | i2 | u2 | i4 | u4 | i8 | u8 | r4 | r8
  | string | szarray | klass | object | genericinst | enum | il2cppTypeIndex
  | other (code : UInt8)
  deriving DecidableEq

/-- The type with a code. -/
def Il2CppTypeEnum.ofCode (code : UInt8) : Il2CppTypeEnum :=
  if code = 0x02 then boolean else if code = 0x03 then char
  else if code = 0x04 then i1 else if code = 0x05 then u1
  else if code = 0x06 then i2 else if code = 0x07 then u2
  else if code = 0x08 then i4 else if code = 0x09 then u4
  else if code = 0x0a then i8 else if code = 0x0b then u8
  else if code = 0x0c then r4 else if code = 0x0d then r8
  else if code = 0x0e then string else if code = 0x12 then klass
  else if code = 0x15 then genericinst else if code = 0x1c then object
  else if code = 0x1d then szarray else if code = 0x55 then enum
  else if code = 0xff then il2cppTypeIndex else other code

/-- What the reader asks of the runtime, for methods `M` and classes `C`; `none` is `NULL`. -/
structure Runtime (M C : Type) where
  getTypeInfoFromTypeIndex : ℤ → Option C
  getTypeInfoFromTypeDefinitionIndex : UInt32 → Option C
  getMethodInfoFromMethodDefinitionIndex : UInt32 → M
  /-- The type of `Class::GetEnumBaseType`. -/
  getEnumBaseType : C → Option Il2CppTypeEnum
  fromIl2CppTypeEnum : Il2CppTypeEnum → Option C
  /-- `il2cpp_defaults.array_class`. -/
  arrayClass : C
  /-- `Class::GetArrayClass`, of rank one. -/
  getArrayClass : C → C
  /-- The class of a constructor. -/
  klass : M → C

/-- `CustomAttributeDataStorage`: a value, or a managed object with what it was made from. -/
inductive Value (C : Type)
  | u1 (value : UInt8)
  | u2 (value : UInt16)
  | u4 (value : UInt32)
  | i4 (value : ℤ)
  | u8 (value : UInt64)
  | r4 (bits : UInt32)
  | r8 (bits : UInt64)
  | null
  | string (utf8 : List UInt8)
  | array (klass : C) (elements : List (Value C))
  | box (klass : C) (value : Value C)
  | typeObject (klass : C)
  /-- the storage is not written -/
  | unset

section Reads

variable {W : Type} (bytes : List UInt8)

/-- The next `n` bytes as a number, the low byte first. -/
def readLittleEndian (n : ℕ) : Decoder W ℕ := do
  let bs ← readBytes bytes n
  pure (bs.foldr (fun b acc => b.toNat + 256 * acc) 0)

/-- `Read8`. -/
def read8 : Decoder W UInt8 := UInt8.ofNat <$> readLittleEndian bytes 1

/-- `Read16`, `ReadChar`. -/
def read16 : Decoder W UInt16 := UInt16.ofNat <$> readLittleEndian bytes 2

/-- `Read32`, and the bits of `ReadFloat`. -/
def read32 : Decoder W UInt32 := UInt32.ofNat <$> readLittleEndian bytes 4

/-- `Read64`, and the bits of `ReadDouble`. -/
def read64 : Decoder W UInt64 := UInt64.ofNat <$> readLittleEndian bytes 8

def readCompressedUInt32 : Decoder W UInt32 := do
  let read ← UInt8.toUInt32 <$> read8 bytes
  if read &&& 0x80 = 0 then pure read
  else if read &&& 0xC0 = 0x80 then do
    let b ← UInt8.toUInt32 <$> read8 bytes
    pure ((read &&& ~~~0x80) <<< 8 ||| b)
  else if read &&& 0xE0 = 0xC0 then do
    let b₁ ← UInt8.toUInt32 <$> read8 bytes
    let b₂ ← UInt8.toUInt32 <$> read8 bytes
    let b₃ ← UInt8.toUInt32 <$> read8 bytes
    pure ((read &&& ~~~0xC0) <<< 24 ||| b₁ <<< 16 ||| b₂ <<< 8 ||| b₃)
  else if read = 0xF0 then read32 bytes
  else if read = 0xFE then pure 0xFFFFFFFE
  else if read = 0xFF then pure 0xFFFFFFFF
  else pure 0

def readCompressedInt32 : Decoder W ℤ := do
  let encoded ← readCompressedUInt32 bytes
  if encoded = 0xFFFFFFFF then pure (-2 ^ 31)
  else if encoded &&& 1 = 1 then pure (-((encoded >>> 1).toNat + 1))
  else pure (encoded >>> 1).toNat

end Reads

/-- `kArrayTypeWithDifferentElements`. -/
def kArrayTypeWithDifferentElements : UInt8 := 1

section BlobReader

variable {W M C : Type} (rt : Runtime M C) (bytes : List UInt8)

/-- The type, and its class. -/
def readEncodedTypeEnum : Decoder W (Il2CppTypeEnum × Option C) := do
  let type ← Il2CppTypeEnum.ofCode <$> read8 bytes
  if type = .enum then do
    let enumTypeIndex ← readCompressedInt32 bytes
    let klass ← deref (rt.getTypeInfoFromTypeIndex enumTypeIndex)
    let type ← deref (rt.getEnumBaseType klass)
    pure (type, some klass)
  else if type = .szarray then pure (type, some rt.arrayClass)
  else pure (type, rt.fromIl2CppTypeEnum type)

/-- `String::NewLen` on the next bytes, whose number it takes as a `uint32_t`. -/
def newLen (deserialize : Bool) (length : ℤ) : Decoder W (Value C) :=
  if deserialize then lookAhead (Value.string <$> readBytes bytes (length % 2 ^ 32).toNat)
  else pure .null

/-- `Array::New`, which throws when the length is negative: the class of the array. -/
def arrayNew (deserialize : Bool) (arrayElementClass : Option C) (arrayLen : ℤ) :
    Decoder W (Option C) :=
  if deserialize then do
    let arrayElementClass ← deref arrayElementClass
    if arrayLen < 0 then fail .undefined else pure (some (rt.getArrayClass arrayElementClass))
  else pure none

/-- What is stored in the array: a value is boxed when its type is not that of the elements. -/
def storeElement (deserialize : Bool) (arrayElementType elementType : Il2CppTypeEnum)
    (elementClass : Option C) (data : Value C) : Decoder W (Value C) :=
  if deserialize && elementType ≠ arrayElementType then
    (fun klass => Value.box klass data) <$> deref elementClass
  else pure data

/-- `Reflection::GetTypeObject` of the class with an index. -/
def getTypeObject (deserialize : Bool) (typeIndex : ℤ) : Decoder W (Value C) :=
  if deserialize then Value.typeObject <$> deref (rt.getTypeInfoFromTypeIndex typeIndex)
  else pure .unset

/-- The type of an element, where the elements may be different. -/
def readElementType (arrayElementType : Il2CppTypeEnum) (different : Bool) :
    Decoder W (Il2CppTypeEnum × Option C) :=
  if different then readEncodedTypeEnum rt bytes else pure (arrayElementType, none)

/-- The elements of an array, each of which `read` reads. -/
def readElements (deserialize : Bool) (arrayElementType : Il2CppTypeEnum) (different : Bool)
    (read : Il2CppTypeEnum → Decoder W (Value C)) : ℕ → Decoder W (List (Value C))
  | 0 => pure []
  | n + 1 => do
    let elementType ← readElementType rt bytes arrayElementType different
    let data ← read elementType.1
    let element ← storeElement deserialize arrayElementType elementType.1 elementType.2 data
    let elements ← readElements deserialize arrayElementType different read n
    pure (element :: elements)

/-- `GetConstantValueFromBlob`, with `deserializeManagedObjects`. -/
def getConstantValueFromBlob (deserialize : Bool) : ℕ → Il2CppTypeEnum → Decoder W (Value C)
  | 0, _ => fail .depth
  | depth + 1, type =>
    match type with
    | .boolean | .u1 | .i1 => Value.u1 <$> read8 bytes
    | .char | .u2 | .i2 => Value.u2 <$> read16 bytes
    | .u4 => Value.u4 <$> readCompressedUInt32 bytes
    | .i4 => Value.i4 <$> readCompressedInt32 bytes
    | .u8 | .i8 => Value.u8 <$> read64 bytes
    | .r4 => Value.r4 <$> read32 bytes
    | .r8 => Value.r8 <$> read64 bytes
    | .string => do
      let length ← readCompressedInt32 bytes
      -- a length of -1 is a null string
      if length = -1 then pure .null
      else do
        let value ← newLen bytes deserialize length
        moveBy length
        pure value
    | .szarray => do
      let arrayLen ← readCompressedInt32 bytes
      if arrayLen = -1 then pure .null
      else do
        let elementType ← readEncodedTypeEnum rt bytes
        let arrayElementsAreDifferent ← read8 bytes
        let arr ← arrayNew rt deserialize elementType.2 arrayLen
        let elements ← readElements rt bytes deserialize elementType.1
          (arrayElementsAreDifferent = kArrayTypeWithDifferentElements)
          (getConstantValueFromBlob deserialize depth) arrayLen.toNat
        pure (arr.elim .null fun klass => .array klass elements)
    | .klass | .object | .genericinst => pure .null
    | .il2cppTypeIndex => do
      let typeIndex ← readCompressedInt32 bytes
      if typeIndex = -1 then pure .null else getTypeObject rt deserialize typeIndex
    | .enum | .other _ => fail .invalid

end BlobReader

/-! ### Values are skipped as they are decoded -/

section

variable {W M C : Type} {rt : Runtime M C} {bytes : List UInt8}

theorem newLen_skippedBy (length : ℤ) :
    (newLen bytes true length : Decoder W (Value C)).SkippedBy
      (newLen bytes false length : Decoder W (Value C)) := by
  intro pos a pos' h
  obtain ⟨rfl, -⟩ := returns_lookAhead.1 h
  exact ⟨.null, returns_pure.2 ⟨rfl, rfl⟩⟩

theorem arrayNew_skippedBy (arrayElementClass : Option C) (arrayLen : ℤ) :
    (arrayNew rt true arrayElementClass arrayLen : Decoder W _).SkippedBy
      (arrayNew rt false arrayElementClass arrayLen : Decoder W _) := by
  refine .of_deref fun klass pos a pos' h => ?_
  split_ifs at h
  · exact absurd h not_returns_fail
  · exact ⟨none, returns_pure.2 ⟨rfl, (returns_pure.1 h).2⟩⟩

theorem storeElement_skippedBy (arrayElementType elementType : Il2CppTypeEnum)
    (elementClass : Option C) (data data' : Value C) :
    (storeElement true arrayElementType elementType elementClass data : Decoder W _).SkippedBy
      (storeElement false arrayElementType elementType elementClass data' : Decoder W _) := by
  intro pos a pos' h
  refine ⟨data', returns_pure.2 ⟨rfl, ?_⟩⟩
  unfold storeElement at h
  split_ifs at h
  · obtain ⟨klass, hk, -⟩ := returns_map.1 h
    exact (returns_deref.1 hk).2
  · exact (returns_pure.1 h).2

theorem getTypeObject_skippedBy (typeIndex : ℤ) :
    (getTypeObject rt true typeIndex : Decoder W _).SkippedBy
      (getTypeObject rt false typeIndex : Decoder W _) := by
  intro pos a pos' h
  obtain ⟨klass, hk, -⟩ := returns_map.1 h
  exact ⟨.unset, returns_pure.2 ⟨rfl, (returns_deref.1 hk).2⟩⟩

theorem readElements_skippedBy {arrayElementType : Il2CppTypeEnum} {different : Bool}
    {read skip : Il2CppTypeEnum → Decoder W (Value C)}
    (h : ∀ type, (read type).SkippedBy (skip type)) :
    ∀ n, (readElements rt bytes true arrayElementType different read n).SkippedBy
      (readElements rt bytes false arrayElementType different skip n)
  | 0 => .refl _
  | n + 1 => .bind_same _ fun elementType => .bind (h elementType.1) fun data data' =>
      (storeElement_skippedBy _ _ _ data data').bind fun _ _ => .bind (readElements_skippedBy h n) fun _ _ =>
        .pure _ _

/-- **A value that is decoded is skipped up to the same position.** -/
theorem getConstantValueFromBlob_skippedBy : ∀ (depth : ℕ) (type : Il2CppTypeEnum),
    (getConstantValueFromBlob rt bytes true depth type : Decoder W _).SkippedBy
      (getConstantValueFromBlob rt bytes false depth type : Decoder W _)
  | 0, _ => .refl _
  | depth + 1, type => by
    cases type with
    | string =>
      refine .bind_same _ fun length => .ite (.refl _) ?_
      exact .bind (newLen_skippedBy length) fun _ _ => .bind_same _ fun _ => .pure _ _
    | szarray =>
      refine .bind_same _ fun arrayLen => .ite (.refl _) ?_
      refine .bind_same _ fun elementType => .bind_same _ fun different => ?_
      refine .bind (arrayNew_skippedBy elementType.2 arrayLen) fun _ _ => ?_
      refine .bind (readElements_skippedBy ?_ _) fun _ _ => .pure _ _
      exact getConstantValueFromBlob_skippedBy depth
    | il2cppTypeIndex =>
      exact .bind_same _ fun typeIndex => .ite (.refl _) (getTypeObject_skippedBy typeIndex)
    | _ => exact .refl _

/-! ### Values end after their start -/

theorem advances_readLittleEndian (n : ℕ) :
    (readLittleEndian bytes n : Decoder W ℕ).Advances bytes.length :=
  (advances_readBytes bytes n).bind fun _ => advances_pure _

theorem advances_read8 : (read8 bytes : Decoder W _).Advances bytes.length :=
  (advances_readLittleEndian 1).map _

theorem returns_read8 {pos pos' : ℕ} {b : UInt8}
    (h : (read8 bytes : Decoder W _).Returns pos b pos') :
    pos' = pos + 1 ∧ pos' ≤ bytes.length := by
  obtain ⟨n, h, -⟩ := returns_map.1 h
  obtain ⟨l, p, hl, hp⟩ := returns_bind.1 h
  obtain ⟨hin, -, rfl⟩ := returns_readBytes.1 hl
  obtain ⟨-, rfl⟩ := returns_pure.1 hp
  exact ⟨rfl, hin⟩

theorem le_length_of_returns_readCompressedUInt32 {pos pos' : ℕ} {n : UInt32}
    (h : (readCompressedUInt32 bytes : Decoder W _).Returns pos n pos') : pos ≤ bytes.length := by
  obtain ⟨_, _, h, -⟩ := returns_bind.1 h
  obtain ⟨_, h, -⟩ := returns_map.1 h
  have := returns_read8 h
  omega

theorem advances_readCompressedUInt32 :
    (readCompressedUInt32 bytes : Decoder W _).Advances bytes.length := by
  have h8 : (UInt8.toUInt32 <$> read8 bytes : Decoder W _).Advances bytes.length :=
    advances_read8.map _
  refine h8.bind fun read => .ite (advances_pure _) (.ite ?_ (.ite ?_ (.ite ?_ ?_)))
  · exact h8.bind fun _ => advances_pure _
  · exact h8.bind fun _ => h8.bind fun _ => h8.bind fun _ => advances_pure _
  · exact (advances_readLittleEndian 4).map _
  · exact .ite (advances_pure _) (.ite (advances_pure _) (advances_pure _))

theorem advances_readCompressedInt32 :
    (readCompressedInt32 bytes : Decoder W _).Advances bytes.length :=
  advances_readCompressedUInt32.bind fun _ =>
    .ite (advances_pure _) (.ite (advances_pure _) (advances_pure _))

theorem readCompressedInt32_range {pos pos' : ℕ} {n : ℤ}
    (h : (readCompressedInt32 bytes : Decoder W _).Returns pos n pos') :
    -2 ^ 31 ≤ n ∧ n < 2 ^ 31 := by
  obtain ⟨encoded, p, -, h⟩ := returns_bind.1 h
  have hlt : (encoded >>> 1).toNat < 2 ^ 31 := by
    have := encoded.toNat_lt
    simp only [UInt32.toNat_shiftRight, UInt32.reduceToNat, Nat.reduceMod,
      Nat.shiftRight_eq_div_pow, Nat.reducePow]
    omega
  split_ifs at h <;> obtain ⟨rfl, -⟩ := returns_pure.1 h <;> omega

theorem advances_readEncodedTypeEnum :
    (readEncodedTypeEnum rt bytes : Decoder W _).Advances bytes.length := by
  refine (advances_read8.map _).bind fun type => .ite ?_ (.ite (advances_pure _) (advances_pure _))
  exact advances_readCompressedInt32.bind fun _ => (advances_deref _).bind fun _ =>
    (advances_deref _).bind fun _ => advances_pure _

theorem advances_newLen (hsize : bytes.length < 2 ^ 31) {length : ℤ}
    (hlen : -2 ^ 31 ≤ length ∧ length < 2 ^ 31) :
    (newLen bytes true length >>= fun value => moveBy length >>= fun _ => pure value :
      Decoder W (Value C)).Advances bytes.length := by
  intro pos a pos' h hle
  obtain ⟨value, p, hv, h⟩ := returns_bind.1 h
  obtain ⟨rfl, q, hv⟩ := returns_lookAhead.1 hv
  obtain ⟨l, hl, -⟩ := returns_map.1 hv
  obtain ⟨hin, -, -⟩ := returns_readBytes.1 hl
  obtain ⟨_, p, hm, h⟩ := returns_bind.1 h
  have hm := returns_moveBy.1 hm
  obtain ⟨-, rfl⟩ := returns_pure.1 h
  omega

theorem advances_arrayNew (deserialize : Bool) (arrayElementClass : Option C) (arrayLen : ℤ) :
    (arrayNew rt deserialize arrayElementClass arrayLen : Decoder W _).Advances bytes.length :=
  .ite ((advances_deref _).bind fun _ => .ite (advances_fail _) (advances_pure _))
    (advances_pure _)

theorem advances_storeElement (deserialize : Bool) (arrayElementType elementType : Il2CppTypeEnum)
    (elementClass : Option C) (data : Value C) :
    (storeElement deserialize arrayElementType elementType elementClass data :
      Decoder W _).Advances bytes.length :=
  .ite ((advances_deref _).map _) (advances_pure _)

theorem advances_readElements {arrayElementType : Il2CppTypeEnum} {different deserialize : Bool}
    {read : Il2CppTypeEnum → Decoder W (Value C)} (h : ∀ type, (read type).Advances bytes.length) :
    ∀ n, (readElements rt bytes deserialize arrayElementType different read n).Advances bytes.length
  | 0 => advances_pure _
  | n + 1 => by
    have htype : (readElementType rt bytes arrayElementType different :
        Decoder W _).Advances bytes.length := .ite advances_readEncodedTypeEnum (advances_pure _)
    exact htype.bind fun elementType => (h elementType.1).bind fun _ =>
      (advances_storeElement _ _ _ _ _).bind fun _ => (advances_readElements h n).bind fun _ =>
        advances_pure _

/-- **A value that is decoded ends after its start.** -/
theorem getConstantValueFromBlob_advances (hsize : bytes.length < 2 ^ 31) :
    ∀ (depth : ℕ) (type : Il2CppTypeEnum),
      (getConstantValueFromBlob rt bytes true depth type : Decoder W _).Advances bytes.length
  | 0, _ => advances_fail _
  | depth + 1, type => by
    cases type with
    | boolean | u1 | i1 => exact advances_read8.map _
    | char | u2 | i2 => exact ((advances_readLittleEndian 2).map _).map _
    | u4 => exact advances_readCompressedUInt32.map _
    | i4 => exact advances_readCompressedInt32.map _
    | u8 | i8 | r8 => exact ((advances_readLittleEndian 8).map _).map _
    | r4 => exact ((advances_readLittleEndian 4).map _).map _
    | string =>
      intro pos a pos' h hle
      obtain ⟨length, p, hlen, h⟩ := returns_bind.1 h
      have hp := advances_readCompressedInt32 _ _ _ hlen hle
      split_ifs at h
      · obtain ⟨-, rfl⟩ := returns_pure.1 h
        exact hp
      · have := advances_newLen hsize (readCompressedInt32_range hlen) _ _ _ h hp.2
        omega
    | szarray =>
      refine advances_readCompressedInt32.bind fun arrayLen => .ite (advances_pure _) ?_
      refine advances_readEncodedTypeEnum.bind fun elementType => advances_read8.bind fun _ => ?_
      refine (advances_arrayNew true elementType.2 arrayLen).bind fun _ => ?_
      exact (advances_readElements (getConstantValueFromBlob_advances hsize depth) _).bind fun _ =>
        advances_pure _
    | klass | object | genericinst => exact advances_pure _
    | il2cppTypeIndex =>
      exact advances_readCompressedInt32.bind fun _ =>
        .ite (advances_pure _) ((advances_deref _).map _)
    | enum | other code => exact advances_fail _

/-! ### The depth suffices -/

theorem shallow_readLittleEndian (n : ℕ) : (readLittleEndian bytes n : Decoder W ℕ).Shallow :=
  (shallow_readBytes bytes n).bind fun _ => shallow_pure _

theorem shallow_read8 : (read8 bytes : Decoder W _).Shallow := (shallow_readLittleEndian 1).map _

theorem shallow_readCompressedUInt32 : (readCompressedUInt32 bytes : Decoder W _).Shallow := by
  have h8 : (UInt8.toUInt32 <$> read8 bytes : Decoder W _).Shallow := shallow_read8.map _
  refine h8.bind fun read => .ite (shallow_pure _) (.ite ?_ (.ite ?_ (.ite ?_ ?_)))
  · exact h8.bind fun _ => shallow_pure _
  · exact h8.bind fun _ => h8.bind fun _ => h8.bind fun _ => shallow_pure _
  · exact (shallow_readLittleEndian 4).map _
  · exact .ite (shallow_pure _) (.ite (shallow_pure _) (shallow_pure _))

theorem shallow_readCompressedInt32 : (readCompressedInt32 bytes : Decoder W _).Shallow :=
  shallow_readCompressedUInt32.bind fun _ =>
    .ite (shallow_pure _) (.ite (shallow_pure _) (shallow_pure _))

theorem shallow_readEncodedTypeEnum : (readEncodedTypeEnum rt bytes : Decoder W _).Shallow := by
  refine (shallow_read8.map _).bind fun type => .ite ?_ (.ite (shallow_pure _) (shallow_pure _))
  exact shallow_readCompressedInt32.bind fun _ => (shallow_deref _).bind fun _ =>
    (shallow_deref _).bind fun _ => shallow_pure _

theorem shallow_arrayNew (deserialize : Bool) (arrayElementClass : Option C) (arrayLen : ℤ) :
    (arrayNew rt deserialize arrayElementClass arrayLen : Decoder W _).Shallow :=
  .ite ((shallow_deref _).bind fun _ => .ite (shallow_fail (by decide)) (shallow_pure _))
    (shallow_pure _)

theorem shallow_storeElement (deserialize : Bool) (arrayElementType elementType : Il2CppTypeEnum)
    (elementClass : Option C) (data : Value C) :
    (storeElement deserialize arrayElementType elementType elementClass data :
      Decoder W _).Shallow :=
  .ite ((shallow_deref _).map _) (shallow_pure _)

theorem not_overflows_readElements {arrayElementType : Il2CppTypeEnum}
    {different deserialize : Bool} {read : Il2CppTypeEnum → Decoder W (Value C)} {start : ℕ}
    (hadv : ∀ type, (read type).Advances bytes.length)
    (h : ∀ type pos, start ≤ pos → pos ≤ bytes.length → ¬ (read type).Overflows pos) :
    ∀ n pos, start ≤ pos → pos ≤ bytes.length →
      ¬ (readElements rt bytes deserialize arrayElementType different read n).Overflows pos
  | 0, pos, _, _, ho => shallow_pure _ pos ho
  | n + 1, pos, hlo, hhi, ho => by
    have htype : (readElementType rt bytes arrayElementType different :
        Decoder W _).Advances bytes.length := .ite advances_readEncodedTypeEnum (advances_pure _)
    rcases overflows_bind.1 ho with ho | ⟨elementType, p, ht, ho⟩
    · exact (Shallow.ite shallow_readEncodedTypeEnum (shallow_pure _)) pos ho
    have hp := htype _ _ _ ht hhi
    rcases overflows_bind.1 ho with ho | ⟨data, q, hd, ho⟩
    · exact h _ _ (by omega) hp.2 ho
    have hq := hadv _ _ _ _ hd hp.2
    rcases overflows_bind.1 ho with ho | ⟨element, k, he, ho⟩
    · exact shallow_storeElement _ _ _ _ _ q ho
    have hk := advances_storeElement _ _ _ _ _ _ _ _ he hq.2
    rcases overflows_bind.1 ho with ho | ⟨elements, m, -, ho⟩
    · exact not_overflows_readElements hadv h n k (by omega) hk.2 ho
    · exact shallow_pure _ m ho

/-- **The depth suffices** for data that is decoded, if it is greater than the number of the bytes
that are left. -/
theorem getConstantValueFromBlob_not_overflows (hsize : bytes.length < 2 ^ 31) :
    ∀ (depth : ℕ) (type : Il2CppTypeEnum) (pos : ℕ), pos ≤ bytes.length →
      bytes.length < pos + depth →
      ¬ (getConstantValueFromBlob rt bytes true depth type : Decoder W _).Overflows pos
  | 0, _, pos, hle, hlt => by omega
  | depth + 1, type, pos, hle, hlt => by
    cases type with
    | boolean | u1 | i1 => exact shallow_read8.map _ pos
    | char | u2 | i2 => exact ((shallow_readLittleEndian 2).map _).map _ pos
    | u4 => exact shallow_readCompressedUInt32.map _ pos
    | i4 => exact shallow_readCompressedInt32.map _ pos
    | u8 | i8 | r8 => exact ((shallow_readLittleEndian 8).map _).map _ pos
    | r4 => exact ((shallow_readLittleEndian 4).map _).map _ pos
    | string =>
      refine (shallow_readCompressedInt32.bind fun length => .ite (shallow_pure _) ?_) pos
      have hnew : (newLen bytes true length : Decoder W (Value C)).Shallow :=
        .ite ((shallow_readBytes bytes _).map _).lookAhead (shallow_pure _)
      exact hnew.bind fun _ => (shallow_moveBy _).bind fun _ => shallow_pure _
    | szarray =>
      intro ho
      rcases overflows_bind.1 ho with ho | ⟨arrayLen, p, hlen, ho⟩
      · exact shallow_readCompressedInt32 pos ho
      have hp := advances_readCompressedInt32 _ _ _ hlen hle
      split_ifs at ho
      · exact shallow_pure _ p ho
      rcases overflows_bind.1 ho with ho | ⟨elementType, q, ht, ho⟩
      · exact shallow_readEncodedTypeEnum p ho
      have hq := advances_readEncodedTypeEnum _ _ _ ht hp.2
      rcases overflows_bind.1 ho with ho | ⟨different, k, h8, ho⟩
      · exact shallow_read8 q ho
      -- the byte before the elements makes up for one level
      have hk := returns_read8 h8
      rcases overflows_bind.1 ho with ho | ⟨arr, m, hm, ho⟩
      · exact shallow_arrayNew _ _ _ k ho
      have hm := advances_arrayNew _ _ _ _ _ _ hm hk.2
      rcases overflows_bind.1 ho with ho | ⟨elements, _, -, ho⟩
      · refine not_overflows_readElements (getConstantValueFromBlob_advances hsize depth)
          (fun type pos (hlo : m ≤ pos) hhi => ?_) _ m le_rfl hm.2 ho
        exact getConstantValueFromBlob_not_overflows hsize depth type pos hhi (by omega)
      · exact shallow_pure _ _ ho
    | klass | object | genericinst => exact shallow_pure _ pos
    | il2cppTypeIndex =>
      exact (shallow_readCompressedInt32.bind fun _ =>
        .ite (shallow_pure _) ((shallow_deref _).map _)) pos
    | enum | other code => exact shallow_fail (by decide) pos

end

end CustomAttribute

end Il2Cpp
