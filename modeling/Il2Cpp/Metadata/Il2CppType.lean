import Mathlib

/-!
# The runtime's type descriptions

`Il2CppType` is the tagged union that describes a type at runtime.  The union member that a tag
selects is an argument of the tag's constructor:

* `valuetype`, `klass` carry the handle of a type definition;
* `ptr`, `szarray`, `array` carry their element type;
* `genericinst` carries the generic type definition and its `class_inst`, which is NULL (`none`)
  when the maximum generic recursion was hit;
* `var`, `mvar` carry the handle of a generic parameter;
* `simple` stands for all other tags, which carry nothing.

The handles are pointers.  They stay abstract here: `H` is the type of type definition handles and
`P` that of generic parameter handles.
-/

namespace Il2Cpp

/-- The members of `Il2CppTypeEnum` that select no member of the union. -/
inductive SimpleType where
  | end | void | boolean | char | i1 | u1 | i2 | u2 | i4 | u4 | i8 | u8 | r4 | r8 | string | byref
  | typedbyref | i | u | fnptr | object | cmodReqd | cmodOpt | internal | modifier | sentinel
  | pinned | enum | typeIndex
  deriving DecidableEq, Repr

/-- The value of an enumerator. -/
def SimpleType.toNat : SimpleType → ℕ
  | .end => 0x00 | .void => 0x01 | .boolean => 0x02 | .char => 0x03 | .i1 => 0x04 | .u1 => 0x05
  | .i2 => 0x06 | .u2 => 0x07 | .i4 => 0x08 | .u4 => 0x09 | .i8 => 0x0a | .u8 => 0x0b
  | .r4 => 0x0c | .r8 => 0x0d | .string => 0x0e | .byref => 0x10 | .typedbyref => 0x16
  | .i => 0x18 | .u => 0x19 | .fnptr => 0x1b | .object => 0x1c | .cmodReqd => 0x1f
  | .cmodOpt => 0x20 | .internal => 0x21 | .modifier => 0x40 | .sentinel => 0x41
  | .pinned => 0x45 | .enum => 0x55 | .typeIndex => 0xff

/-- The enumerator with a value. -/
def SimpleType.ofValue : ℕ → SimpleType
  | 0x00 => .end | 0x01 => .void | 0x02 => .boolean | 0x03 => .char | 0x04 => .i1 | 0x05 => .u1
  | 0x06 => .i2 | 0x07 => .u2 | 0x08 => .i4 | 0x09 => .u4 | 0x0a => .i8 | 0x0b => .u8
  | 0x0c => .r4 | 0x0d => .r8 | 0x0e => .string | 0x10 => .byref | 0x16 => .typedbyref
  | 0x18 => .i | 0x19 => .u | 0x1b => .fnptr | 0x1c => .object | 0x1f => .cmodReqd
  | 0x20 => .cmodOpt | 0x21 => .internal | 0x40 => .modifier | 0x41 => .sentinel
  | 0x45 => .pinned | 0x55 => .enum | _ => .typeIndex

theorem SimpleType.ofValue_toNat (a : SimpleType) : ofValue a.toNat = a := by
  cases a <;> rfl

theorem SimpleType.toNat_inj {a b : SimpleType} (h : a.toNat = b.toNat) : a = b := by
  rw [← ofValue_toNat a, h, ofValue_toNat]

theorem SimpleType.toNat_ne (a : SimpleType) :
    a.toNat ∉ [0x0f, 0x11, 0x12, 0x13, 0x14, 0x15, 0x1d, 0x1e] := by
  cases a <;> decide

/-- A type description; `byref` is the flag of that name. -/
inductive Il2CppType (H P : Type) where
  | simple (byref : Bool) (tag : SimpleType)
  | valuetype (byref : Bool) (typeHandle : H)
  | klass (byref : Bool) (typeHandle : H)
  | ptr (byref : Bool) (type : Il2CppType H P)
  | szarray (byref : Bool) (type : Il2CppType H P)
  | array (byref : Bool) (etype : Il2CppType H P) (rank : ℕ)
  | genericinst (byref : Bool) (type : Il2CppType H P) (classInst : Option (List (Il2CppType H P)))
  | var (byref : Bool) (genericParameterHandle : P)
  | mvar (byref : Bool) (genericParameterHandle : P)

/-- `Il2CppGenericInst`: the type arguments `type_argv`, `type_argc` being their number. -/
structure Il2CppGenericInst (H P : Type) where
  /-- The type arguments. -/
  typeArgv : List (Il2CppType H P)

/-- `Il2CppSignature`: `Types`, `Count` being their number. -/
structure Il2CppSignature (H P : Type) where
  /-- The return type and the parameter types. -/
  types : List (Il2CppType H P)

namespace Il2CppType

variable {H P : Type}

/-- The `type` field, as a number. -/
def type : Il2CppType H P → ℕ
  | simple _ tag => tag.toNat
  | ptr .. => 0x0f
  | valuetype .. => 0x11
  | klass .. => 0x12
  | var .. => 0x13
  | array .. => 0x14
  | genericinst .. => 0x15
  | szarray .. => 0x1d
  | mvar .. => 0x1e

/-- The `byref` field. -/
def byref : Il2CppType H P → Bool
  | simple b _ | valuetype b _ | klass b _ | ptr b _ | szarray b _ | array b _ _
  | genericinst b _ _ | var b _ | mvar b _ => b

end Il2CppType

end Il2Cpp
