import Il2Cpp.Metadata.Il2CppType

/-!
# Runtime classes

`Il2CppClass` holds the fields of a class that casts, array classes and interface dispatch read.  A
class is known by its address: `C` is the type of addresses, and `ClassTable.klass` is the memory
behind them.
-/

namespace Il2Cpp

variable {C : Type*}

/-- The enumerators of `Il2CppTypeEnum`. -/
inductive TypeTag where
  | simple (tag : SimpleType)
  | ptr | valuetype | klass | var | array | genericinst | szarray | mvar
  deriving DecidableEq, Repr

/-- `IL2CPP_GENERIC_PARAMETER_ATTRIBUTE_VARIANCE_MASK` applied to the flags of a parameter. -/
inductive Variance where
  | nonVariant | covariant | contravariant
  deriving DecidableEq, Repr

/-- `Il2CppGenericClass`: the class of its type definition and the arguments of `class_inst`. -/
structure Il2CppGenericClass (C : Type*) where
  /-- The generic type definition. -/
  type : C
  /-- The type arguments. -/
  typeArgv : List C
  deriving DecidableEq, Repr

/-- `kInvalidIl2CppMethodSlot`. -/
def kInvalidIl2CppMethodSlot : ℕ := 65535

/-- `MethodInfo`. -/
structure MethodInfo (C : Type*) where
  /-- The name. -/
  name : List Char
  /-- The class that owns the method. -/
  klass : C
  /-- The number of parameters. -/
  parametersCount : ℕ
  /-- The vtable slot. -/
  slot : ℕ
  /-- It has type parameters of its own. -/
  isGeneric : Bool
  /-- The metadata token. -/
  token : ℕ
  /-- The code that a virtual call jumps to, `none` for NULL. -/
  virtualMethodPointer : Option ℕ
  deriving DecidableEq, Repr

/-- `VirtualInvokeData`, an entry of a vtable; `none` stands for NULL. -/
structure VirtualInvokeData (C : Type*) where
  /-- The code of the method. -/
  methodPtr : Option ℕ
  /-- The method. -/
  method : Option (MethodInfo C)
  deriving DecidableEq, Repr

/-- `Il2CppRuntimeInterfaceOffsetPair`: where the slots of an interface begin. -/
structure Il2CppRuntimeInterfaceOffsetPair (C : Type*) where
  /-- The interface. -/
  interfaceType : C
  /-- The slot of its first method. -/
  offset : ℕ
  deriving DecidableEq, Repr

/-- `Il2CppClass`.  The arrays that follow a count in the source are lists; the count is the field
beside it. -/
structure Il2CppClass (C : Type*) where
  /-- `byval_arg.type`. -/
  type : TypeTag
  /-- `byval_arg.valuetype`. -/
  valuetype : Bool
  /-- `flags` has `TYPE_ATTRIBUTE_INTERFACE`. -/
  interfaceFlag : Bool
  /-- `nullabletype`. -/
  nullabletype : Bool
  /-- `enumtype`. -/
  enumtype : Bool
  /-- The number of dimensions, 0 for a class that is no array. -/
  rank : ℕ
  elementClass : C
  castClass : C
  declaringType : Option C
  parent : Option C
  genericClass : Option (Il2CppGenericClass C)
  /-- The variance of the type parameters of a generic type definition. -/
  variances : List Variance
  typeHierarchyDepth : ℕ
  /-- The bases from the root to the class itself, empty where it has not been set up. -/
  typeHierarchy : List C
  implementedInterfaces : List C
  interfaceOffsetsCount : ℕ
  interfaceOffsets : List (Il2CppRuntimeInterfaceOffsetPair C)
  vtableCount : ℕ
  vtable : List (VirtualInvokeData C)
  methodCount : ℕ
  methods : List (Option (MethodInfo C))
  /-- `instance_size`, in bytes. -/
  instanceSize : ℕ
  /-- `element_size`, in bytes; `none` stands for -1. -/
  elementSize : Option ℕ
  hasReferences : Bool

/-- A class without members, below the given bases. -/
def Il2CppClass.blank (type : TypeTag) (parents : List C) (self : C) : Il2CppClass C where
  type := type
  valuetype := false
  interfaceFlag := false
  nullabletype := false
  enumtype := false
  rank := 0
  elementClass := self
  castClass := self
  declaringType := none
  parent := parents.getLast?
  genericClass := none
  variances := []
  typeHierarchyDepth := parents.length + 1
  typeHierarchy := parents ++ [self]
  implementedInterfaces := []
  interfaceOffsetsCount := 0
  interfaceOffsets := []
  vtableCount := 0
  vtable := []
  methodCount := 0
  methods := []
  instanceSize := 0
  elementSize := none
  hasReferences := false

/-- The classes of `Il2CppDefaults`. -/
structure Il2CppDefaults (C : Type*) where
  objectClass : C
  valueTypeClass : C
  enumClass : C
  arrayClass : C
  multicastdelegateClass : C
  sbyteClass : C
  int16Class : C
  int32Class : C
  int64Class : C
  genericIlistClass : C
  genericIcollectionClass : C
  genericIenumerableClass : C
  genericIreadonlylistClass : C
  genericIreadonlycollectionClass : C

/-- The classes of the runtime. -/
structure ClassTable (C : Type*) where
  /-- What a class address points to. -/
  klass : C → Il2CppClass C
  /-- `il2cpp_defaults`. -/
  defaults : Il2CppDefaults C
  /-- `Class::GetInflatedGenericInstanceClass`: the instance of a definition for type arguments. -/
  getInflatedGenericInstanceClass : C → List C → C
  /-- `GenericMethod::GetMethod`: the instance of a generic method for type arguments. -/
  getMethod : MethodInfo C → List C → MethodInfo C

end Il2Cpp
