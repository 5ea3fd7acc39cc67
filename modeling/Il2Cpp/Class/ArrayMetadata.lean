import Il2Cpp.Class.ClassTable

/-!
# Array classes

The class of an array is made in two steps.  `getBoundedArrayClass` allocates it, with room for the
vtable at its end; `setupArrayVTable`, at its first use, lays out the interfaces that a vector
implements and fills the vtable and the table of methods.  Both ask for these interfaces anew
(`collectImplicitArrayInterfacesFromElementClass`).

Arrays of more dimensions, and arrays of one dimension with a lower bound, implement none.
-/

namespace Il2Cpp

variable {C : Type*}

/-- A class table whose classes have been made from the bottom up: the base of a class and the
elements of an array come before it. -/
structure GroundedTable (C : Type*) extends ClassTable C where
  /-- The position in the order of creation. -/
  height : C → ℕ
  height_parent : ∀ {c p}, (klass c).parent = some p → height p < height c
  height_elementClass : ∀ {c}, (klass c).rank ≠ 0 → height (klass c).elementClass < height c
  height_underlying : ∀ {c}, (klass c).enumtype = true → height (klass c).elementClass < height c
  height_definition : ∀ {c g}, (klass c).genericClass = some g → height g.type < height c

namespace ArrayMetadata

/-- `kImplicitArrayInterfaceCount`. -/
def kImplicitArrayInterfaceCount : ℕ := 5

/-- `static_cast<uint16_t>`. -/
def toUInt16 (n : ℕ) : ℕ := n % 2 ^ 16

section

variable (T : ClassTable C)

/-- The definitions of the interfaces that a vector has for each class its elements can be seen
as, in the order of their slots. -/
def implicitDefinitions : List C :=
  [T.defaults.genericIlistClass, T.defaults.genericIcollectionClass,
   T.defaults.genericIenumerableClass, T.defaults.genericIreadonlylistClass,
   T.defaults.genericIreadonlycollectionClass]

/-- The instances of these interfaces for a class. -/
def implicitInterfaces (c : C) : List C :=
  (implicitDefinitions T).map (T.getInflatedGenericInstanceClass · [c])

variable [DecidableEq C]

/-- Structs and enums, whose interfaces and bases do not count. -/
def isValueClass (c : C) : Bool :=
  (T.klass c).valuetype || c == T.defaults.valueTypeClass || c == T.defaults.enumClass

end

/-! ### The implicit interfaces -/

section

variable [DecidableEq C] (T : GroundedTable C)

/-- The classes that the elements of a vector can be seen as: the element class with its
interfaces, what an element that is a vector itself implements, and the same for the bases. -/
def collectImplicitArrayInterfacesFromElementClass (elementClass : C) : List C :=
  [elementClass] ++
  (if isValueClass T.toClassTable elementClass then []
    else (T.klass elementClass).implementedInterfaces) ++
  (if _h : (T.klass elementClass).rank = 1 then
      (collectImplicitArrayInterfacesFromElementClass
        (T.klass elementClass).elementClass).flatMap (implicitInterfaces T.toClassTable)
    else []) ++
  match _h : (T.klass elementClass).parent with
  | none => []
  | some parent =>
    -- the loop ends at the first base that is a value type's
    if isValueClass T.toClassTable parent then []
    else collectImplicitArrayInterfacesFromElementClass parent
  termination_by T.height elementClass
  decreasing_by
    · exact T.height_elementClass (by omega)
    · exact T.height_parent ‹_›

/-- The implicit interfaces of an array class. -/
def collectImplicitArrayInterfaces (klass : Il2CppClass C) : List C :=
  if klass.type ≠ .szarray then []
  else collectImplicitArrayInterfacesFromElementClass T klass.elementClass

end

/-! ### The methods of the implicit interfaces -/

/-- A method of `System.Array` that implements a method of one of the interfaces. -/
structure GenericArrayMethod (C : Type*) where
  /-- The full name of the implemented method. -/
  name : List Char
  /-- The generic method of `System.Array`. -/
  method : MethodInfo C
  /-- The method that it implements. -/
  interfaceMethodDefinition : MethodInfo C

/-- What precedes the name of the implemented method, with the interface and its full name. -/
def genericArrayPrefixes (T : ClassTable C) : List (List Char × C × List Char) :=
  [("InternalArray__ICollection_".toList, T.defaults.genericIcollectionClass,
      "System.Collections.Generic.ICollection`1.".toList),
   ("InternalArray__IEnumerable_".toList, T.defaults.genericIenumerableClass,
      "System.Collections.Generic.IEnumerable`1.".toList),
   ("InternalArray__IReadOnlyList_".toList, T.defaults.genericIreadonlylistClass,
      "System.Collections.Generic.IReadOnlyList`1.".toList),
   ("InternalArray__IReadOnlyCollection_".toList, T.defaults.genericIreadonlycollectionClass,
      "System.Collections.Generic.IReadOnlyCollection`1.".toList),
   ("InternalArray__".toList, T.defaults.genericIlistClass,
      "System.Collections.Generic.IList`1.".toList)]

/-- The methods of a class. -/
def methodsOf (T : ClassTable C) (c : C) : List (MethodInfo C) :=
  (T.klass c).methods.filterMap id

/-- `s_GenericArrayMethods`, as `CollectGenericArrayMethods` fills it: the methods of
`System.Array` that are named after a method of an interface. -/
def genericArrayMethods (T : ClassTable C) : List (GenericArrayMethod C) :=
  (methodsOf T T.defaults.arrayClass).filterMap fun method =>
    match (genericArrayPrefixes T).find? fun p => p.1.isPrefixOf method.name with
    | none => none
    | some (pre, implementingInterface, fullName) =>
      let methodName := method.name.drop pre.length
      -- of several methods of that name the last is taken
      match ((methodsOf T implementingInterface).filter (·.name = methodName)).getLast? with
      | none => none
      | some interfaceMethod => some ⟨fullName ++ methodName, method, interfaceMethod⟩

/-- The method of `klass` that implements an interface method for the type arguments. -/
def constructGenericArrayMethod (T : ClassTable C) (genericArrayMethod : GenericArrayMethod C)
    (klass : C) (methodInst : List C) : MethodInfo C :=
  let inflatedMethod :=
    if genericArrayMethod.method.isGeneric then T.getMethod genericArrayMethod.method methodInst
    else genericArrayMethod.method
  { inflatedMethod with name := genericArrayMethod.name, klass := klass, token := 0 }

/-- A method that every array has. -/
def constructArrayMethod (declaringType : C) (name : List Char) (parameterCount : ℕ) :
    MethodInfo C where
  name := name
  klass := declaringType
  parametersCount := parameterCount % 2 ^ 8
  slot := kInvalidIl2CppMethodSlot
  isGeneric := false
  token := 0
  virtualMethodPointer := none

/-! ### Elements -/

/-- `Class::GetArrayVarianceReducedType`: the type whose arrays an array of this type can be seen
as, besides its own. -/
def getArrayVarianceReducedType (T : ClassTable C) (type : C) : C :=
  if (T.klass type).type = .szarray ∨ (T.klass type).type = .array then type
  else
    -- for enums `castClass` is the underlying type
    match (T.klass (T.klass type).castClass).type with
    | .simple .i1 | .simple .u1 => T.defaults.sbyteClass
    | .simple .i2 | .simple .u2 => T.defaults.int16Class
    | .simple .i4 | .simple .u4 => T.defaults.int32Class
    | .simple .i8 | .simple .u8 | .simple .i | .simple .u => T.defaults.int64Class
    | _ => type

/-- `Type::IsReference`. -/
def isReference (T : ClassTable C) (c : C) : Bool :=
  match (T.klass c).type with
  | .simple .string | .simple .object | .szarray | .klass | .array => true
  | .genericinst => (T.klass c).genericClass.any fun g => !(T.klass g.type).valuetype
  | _ => false

/-- `sizeof(Il2CppObject)`. -/
def sizeofIl2CppObject : ℕ := 16

/-- The loop of `Class::GetArrayElementSize`; `type` is the class whose `byval_arg` it looks at. -/
def getArrayElementSizeFrom (T : GroundedTable C) (klass type : C) : Option ℕ :=
  match _htag : (T.klass type).type with
  | .simple .i1 | .simple .u1 | .simple .boolean => some 1
  | .simple .i2 | .simple .u2 | .simple .char => some 2
  | .simple .i4 | .simple .u4 | .simple .r4 => some 4
  | .simple .i | .simple .u | .ptr | .klass | .simple .string | .simple .object | .szarray
  | .array | .var | .mvar => some 8
  | .simple .i8 | .simple .u8 | .simple .r8 => some 8
  | .valuetype =>
    if _h : (T.klass type).enumtype = true then
      getArrayElementSizeFrom T (T.klass klass).elementClass (T.klass type).elementClass
    else some ((T.klass klass).instanceSize - sizeofIl2CppObject)
  | .genericinst =>
    match _h : (T.klass type).genericClass with
    | none => none
    | some g => getArrayElementSizeFrom T klass g.type
  | .simple .void => some 0
  | _ => none
  termination_by T.height type
  decreasing_by
    · exact T.height_underlying ‹_›
    · exact T.height_definition ‹_›

theorem getArrayElementSizeFrom_genericinst {T : GroundedTable C} {klass type : C}
    {g : Il2CppGenericClass C} (htype : (T.klass type).type = .genericinst)
    (hg : (T.klass type).genericClass = some g) :
    getArrayElementSizeFrom T klass type = getArrayElementSizeFrom T klass g.type := by
  rw [getArrayElementSizeFrom]
  split <;> simp_all
  split <;> simp_all

theorem getArrayElementSizeFrom_valuetype {T : GroundedTable C} {klass type : C}
    (htype : (T.klass type).type = .valuetype) :
    getArrayElementSizeFrom T klass type =
      if (T.klass type).enumtype = true then
        getArrayElementSizeFrom T (T.klass klass).elementClass (T.klass type).elementClass
      else some ((T.klass klass).instanceSize - sizeofIl2CppObject) := by
  rw [getArrayElementSizeFrom]
  split <;> simp_all

theorem getArrayElementSizeFrom_klass {T : GroundedTable C} {klass type : C}
    (htype : (T.klass type).type = .klass) :
    getArrayElementSizeFrom T klass type = some 8 := by
  rw [getArrayElementSizeFrom]
  split <;> simp_all

/-- `Class::GetArrayElementSize`, on a machine of 64 bits. -/
def getArrayElementSize (T : GroundedTable C) (klass : C) : Option ℕ :=
  getArrayElementSizeFrom T klass klass

/-! ### Making the class -/

section

variable [DecidableEq C] (T : GroundedTable C)

/-- The number of slots that the implicit interfaces for one class take. -/
def implicitSlots (T : ClassTable C) : ℕ :=
  (T.klass T.defaults.genericIlistClass).methodCount +
  (T.klass T.defaults.genericIcollectionClass).methodCount +
  (T.klass T.defaults.genericIenumerableClass).methodCount +
  ((T.klass T.defaults.genericIreadonlylistClass).methodCount +
   (T.klass T.defaults.genericIreadonlycollectionClass).methodCount)

/-- `SetupCastClass`. -/
def setupCastClass (T : ClassTable C) (arrayType : Il2CppClass C) : Il2CppClass C :=
  let elementType := arrayType.elementClass
  { arrayType with
    castClass := getArrayVarianceReducedType T elementType
    hasReferences := isReference T elementType || (T.klass elementType).hasReferences }

/-- `GetBoundedArrayClass`: the class of the arrays of `rank` dimensions, before its first use.
With `bounded`, an array of one dimension has a lower bound. -/
def getBoundedArrayClass (elementClass : C) (rank : ℕ) (bounded : Bool) : Il2CppClass C :=
  let bounded := if rank > 1 then false else bounded
  let arrayClass := T.klass T.defaults.arrayClass
  let interfaces :=
    if rank ≤ 1 && !bounded then collectImplicitArrayInterfacesFromElementClass T elementClass
    else []
  let slots := arrayClass.vtableCount + interfaces.length * implicitSlots T.toClassTable
  setupCastClass T.toClassTable
    { type := if rank > 1 || bounded then .array else .szarray
      valuetype := false
      interfaceFlag := false
      nullabletype := false
      enumtype := false
      rank := rank % 2 ^ 8
      elementClass := elementClass
      castClass := elementClass
      declaringType := none
      parent := some T.defaults.arrayClass
      genericClass := none
      variances := []
      typeHierarchyDepth := 0
      typeHierarchy := []
      implementedInterfaces := []
      interfaceOffsetsCount := 0
      interfaceOffsets := []
      vtableCount := toUInt16 slots
      vtable := List.replicate slots ⟨none, none⟩
      methodCount := 0
      methods := []
      instanceSize := arrayClass.instanceSize
      elementSize := getArrayElementSize T elementClass
      hasReferences := false }

/-- `SetupArrayInterfaces`. -/
def setupArrayInterfaces (T : ClassTable C) (klass : Il2CppClass C) : Il2CppClass C :=
  if klass.type = .szarray then
    { klass with implementedInterfaces := implicitInterfaces T klass.elementClass }
  else klass

/-! ### Setting up the tables -/

/-- The loop of `SetupArrayVTableAndInterfaceOffsets` from the slot `vtableSlot` on. -/
def layOutInterfaces (T : ClassTable C) :
    ℕ → List C → List (Il2CppRuntimeInterfaceOffsetPair C)
  | _, [] => []
  | vtableSlot, itf :: interfaces =>
    let list := T.getInflatedGenericInstanceClass T.defaults.genericIlistClass [itf]
    let collection := T.getInflatedGenericInstanceClass T.defaults.genericIcollectionClass [itf]
    let enumerable := T.getInflatedGenericInstanceClass T.defaults.genericIenumerableClass [itf]
    let readonlylist :=
      T.getInflatedGenericInstanceClass T.defaults.genericIreadonlylistClass [itf]
    let readonlycollection :=
      T.getInflatedGenericInstanceClass T.defaults.genericIreadonlycollectionClass [itf]
    let slot₁ := vtableSlot + (T.klass list).methodCount
    let slot₂ := slot₁ + (T.klass collection).methodCount
    let slot₃ := slot₂ + (T.klass enumerable).methodCount
    let slot₄ := slot₃ + (T.klass readonlylist).methodCount
    ⟨list, vtableSlot⟩ :: ⟨collection, slot₁⟩ :: ⟨enumerable, slot₂⟩ :: ⟨readonlylist, slot₃⟩ ::
      ⟨readonlycollection, slot₄⟩ ::
      layOutInterfaces T (slot₄ + (T.klass readonlycollection).methodCount) interfaces

/-- `SetupArrayVTableAndInterfaceOffsets`. -/
def setupArrayVTableAndInterfaceOffsets (klass : Il2CppClass C) : Il2CppClass C :=
  let arrayClass := T.klass T.defaults.arrayClass
  let arrayInterfacesCount := arrayClass.interfaceOffsetsCount
  let interfaces :=
    if klass.type = .szarray then collectImplicitArrayInterfaces T klass else []
  let arrayVTableSlot := arrayClass.vtableCount
  { klass with
    vtable := arrayClass.vtable.take arrayVTableSlot ++ klass.vtable.drop arrayVTableSlot
    interfaceOffsets := arrayClass.interfaceOffsets.take arrayInterfacesCount ++
      layOutInterfaces T.toClassTable arrayVTableSlot interfaces
    interfaceOffsetsCount :=
      toUInt16 (arrayInterfacesCount + kImplicitArrayInterfaceCount * interfaces.length) }

/-- A store to the tables: the slot of the method and the method. -/
def storeMethod (klass : Il2CppClass C) (offset vtableIndex : ℕ) (method : MethodInfo C) :
    Il2CppClass C :=
  { klass with
    methods := klass.methods.set offset (some method)
    vtable := klass.vtable.set vtableIndex ⟨method.virtualMethodPointer, some method⟩ }

/-- The loop of `PopulateArrayGenericMethods` over the generic methods, for the interface of `pair`;
`self` is the address of the class. -/
def populateInterface (T : ClassTable C) (self : C)
    (pair : Il2CppRuntimeInterfaceOffsetPair C) (genericClass : Il2CppGenericClass C) :
    List (GenericArrayMethod C) → Il2CppClass C → ℕ → Il2CppClass C × ℕ
  | [], klass, offset => (klass, offset)
  | genericArrayMethod :: rest, klass, offset =>
    if genericArrayMethod.interfaceMethodDefinition.klass ≠ genericClass.type then
      populateInterface T self pair genericClass rest klass offset
    else
      let arrayMethod :=
        constructGenericArrayMethod T genericArrayMethod self (genericClass.typeArgv.take 1)
      let vtableIndex := pair.offset + genericArrayMethod.interfaceMethodDefinition.slot
      populateInterface T self pair genericClass rest
        (storeMethod klass offset vtableIndex arrayMethod) (toUInt16 (offset + 1))

/-- The loop of `PopulateArrayGenericMethods` over the interfaces. -/
def populateInterfaces (T : ClassTable C) (self : C) :
    List (Il2CppRuntimeInterfaceOffsetPair C) → Il2CppClass C → ℕ → Il2CppClass C
  | [], klass, _ => klass
  | pair :: pairs, klass, offset =>
    match (T.klass pair.interfaceType).genericClass with
    | none => populateInterfaces T self pairs klass offset
    | some genericClass =>
      let (klass, offset) :=
        populateInterface T self pair genericClass (genericArrayMethods T) klass offset
      populateInterfaces T self pairs klass offset

/-- `PopulateArrayGenericMethods`. -/
def populateArrayGenericMethods (T : ClassTable C) (self : C) (klass : Il2CppClass C)
    (offset : ℕ) : Il2CppClass C :=
  populateInterfaces T self (klass.interfaceOffsets.take klass.interfaceOffsetsCount) klass offset

/-- A loop that fills parameters, whose counter is a `uint8_t`: it does not end at a bound above
255. -/
def fillParameters (count : ℕ) : Option ℕ :=
  if count ≤ 255 then some count else none

/-- The constructors among `arrayMethods`. -/
def arrayConstructors (self : C) (rank : ℕ) : Option (List (MethodInfo C)) :=
  (fillParameters rank).bind fun lengths =>
    if rank > 1 then
      (fillParameters (2 * rank)).map fun bounds =>
        [constructArrayMethod self ".ctor".toList lengths,
         constructArrayMethod self ".ctor".toList bounds]
    else some [constructArrayMethod self ".ctor".toList lengths]

/-- The methods that every array of `rank` dimensions has. -/
def arrayMethods (self : C) (rank : ℕ) : Option (List (MethodInfo C)) :=
  (arrayConstructors self rank).map fun constructors =>
    constructors ++
      [constructArrayMethod self "Set".toList (rank + 1),
       constructArrayMethod self "Address".toList rank,
       constructArrayMethod self "Get".toList rank]

/-- `SetupArrayMethods`; `none` where it does not return. -/
def setupArrayMethods (self : C) (klass : Il2CppClass C) : Option (Il2CppClass C) :=
  let interfaces := collectImplicitArrayInterfaces T klass
  let methodCount := 3 + (if klass.rank > 1 then 2 else 1) +
    interfaces.length * (genericArrayMethods T.toClassTable).length
  (arrayMethods self klass.rank).map fun methods =>
    populateArrayGenericMethods T.toClassTable self
      { klass with
        methodCount := toUInt16 methodCount
        methods := methods.map some ++ List.replicate (methodCount - methods.length) none }
      (toUInt16 methods.length)

/-- `SetupArrayVTable`, at the first use of the class at the address `self`. -/
def setupArrayVTable (self : C) (klass : Il2CppClass C) : Option (Il2CppClass C) :=
  setupArrayMethods T self
    (setupArrayVTableAndInterfaceOffsets T (setupCastClass T.toClassTable klass))

end

end ArrayMetadata

/-- `ClassInlines::GetInterfaceInvokeDataFromVTable`: the vtable entry for the method of `itf` at
`slot`; `slowPath` is the answer of the search by variance. -/
def getInterfaceInvokeDataFromVTable [DecidableEq C] (klass : Il2CppClass C) (itf : C) (slot : ℕ)
    (slowPath : Option (VirtualInvokeData C)) : Option (VirtualInvokeData C) :=
  match (klass.interfaceOffsets.take klass.interfaceOffsetsCount).find?
      (·.interfaceType = itf) with
  | some pair => klass.vtable[pair.offset + slot]?
  | none => slowPath

end Il2Cpp
