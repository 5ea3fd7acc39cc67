import Il2Cpp.Liveness.Descriptor

/-!
# Objects and the references in them

The classes of a program, with their GC descriptors, and the heap, whose objects have a class.
The references in an object are found in two ways: with the descriptors, as the runtime is
compiled, and by walking the fields.

* `TypeSystem`, `Heap` : classes and objects.
* `descriptorPlaces`, `fieldPlaces` : the places in an object that the two ways look at, in the
  chunks after which the work list may be processed.
* `Holds`, `mem_descriptorPlaces`, `mem_fieldPlaces` : these are fields of the object, or of the
  elements of the array.
-/

namespace Il2Cpp

namespace Liveness

open Il2CppClass

/-- What a value of the class is: `byval_arg.valuetype` and `Type::IsReference(byval_arg)`. -/
inductive Kind where
  | reference
  | value
  | pointer
  deriving DecidableEq

/-- `Il2CppClass`, with the class pointers `K`. -/
structure ClassInfo (K : Type) where
  /-- The fields of the class and of its parents. -/
  layout : Il2CppClass
  instanceSize : ℕ
  kind : Kind
  /-- `element_class`, when `rank` is not 0. -/
  elementClass : Option K
  /-- The class is `il2cpp_defaults.string_class`. -/
  isString : Bool
  /-- `Class::GetArrayElementSize`. -/
  arrayElementSize : ℕ
  gcDesc : BitVec 64
  /-- From the root down to the class. -/
  typeHierarchy : List K
  /-- `size_inited`; it is set for the classes of objects, and of the value types in fields. -/
  sizeInited : Bool
  /-- The image of the class is `il2cpp_defaults.corlib`. -/
  inCorlib : Bool

/-- The classes, and the table of the GC descriptors. -/
structure TypeSystem (K : Type) where
  classes : K → ClassInfo K
  descTable : Bitmap 64
  laid : ∀ k, (classes k).layout.Laid (classes k).instanceSize
  /-- A bitmap descriptor is the one of the class, made when the table was smaller. -/
  described : ∀ k, (classes k).gcDesc.getLsbD 0 = true → ∃ table₀,
    let desc := setupGCDescriptor table₀
      ((classes k).isString || (classes k).elementClass.isSome) (classes k).layout
      (classes k).instanceSize
    desc.1 <+: descTable ∧ desc.2 = (classes k).gcDesc
  /-- Pointer classes have no fields. -/
  pointer : ∀ k, (classes k).kind = .pointer → (classes k).layout.hasReferences = false

/-- `kIl2CppSizeOfArray`. -/
abbrev sizeOfArray : ℤ := 32

namespace TypeSystem

variable {K : Type} (T : TypeSystem K)

/-- `has_references`. -/
def hasReferences (k : K) : Bool :=
  match (T.classes k).elementClass with
  | some e => (T.classes e).kind = .reference || (T.classes e).layout.hasReferences
  | none => (T.classes k).layout.hasReferences

/-- `ClassInlines::HasParentUnsafe`. -/
def hasParentUnsafe [DecidableEq K] (k parent : K) : Bool :=
  let depth := (T.classes parent).typeHierarchy.length
  depth ≤ (T.classes k).typeHierarchy.length &&
    (T.classes k).typeHierarchy[depth - 1]? = some parent

/-- The element `i` of an array, `il2cpp_array_addr_with_size`. -/
def elementAddr (e : K) (i : ℕ) : ℤ := sizeOfArray + (T.classes e).arrayElementSize * i

/-- The class has a bitmap descriptor. -/
def hasDescriptor (k : K) : Bool := (T.classes k).gcDesc.getLsbD 0

/-- What `TraverseGCDescriptor` reads for an object, or an element of an array, at `object`. -/
def gcDescriptorPlaces (k : K) (object : ℤ) (isArray : Bool) : List ℤ :=
  (traverseGCDescriptor T.descTable (T.classes k).gcDesc isArray).map
    fun w => object + w * sizeOfPointer

/-- The places in an array of length `n` with the elements `e`.  Those of a value-type element are
given. -/
def arrayPlaces (valuePlaces : K → ℤ → List ℤ) (k e : K) (n : ℕ) : List (List ℤ) :=
  if T.hasReferences k then
    (List.range n).map fun i : ℕ =>
      if (T.classes e).kind = .value then valuePlaces e (T.elementAddr e i)
      else [sizeOfArray + sizeOfPointer * i]
  else []

/-- `TraverseArray`. -/
def traverseArray : K → K → ℕ → List (List ℤ) :=
  T.arrayPlaces fun e object => traverseObjectInternal object true (T.classes e).layout

/-- `TraverseArrayGCDescriptor`. -/
def traverseArrayGCDescriptor : K → K → ℕ → List (List ℤ) :=
  T.arrayPlaces fun e object =>
    if T.hasDescriptor e then T.gcDescriptorPlaces e object true
    else traverseObjectInternal object true (T.classes e).layout

/-- `TraverseGenericObject`, with descriptors, for an object of class `k`; `n` is the length of an
array. -/
def descriptorPlaces (k : K) (n : ℕ) : List (List ℤ) :=
  if T.hasDescriptor k then [T.gcDescriptorPlaces k 0 false]
  else match (T.classes k).elementClass with
    | some e => T.traverseArrayGCDescriptor k e n
    | none => [traverseObjectInternal 0 false (T.classes k).layout]

/-- `TraverseGenericObject`, without descriptors. -/
def fieldPlaces (k : K) (n : ℕ) : List (List ℤ) :=
  match (T.classes k).elementClass with
  | some e => T.traverseArray k e n
  | none => [traverseObjectInternal 0 false (T.classes k).layout]

/-! ### Fields and elements -/

/-- The class whose fields lie in an object of class `k`: that of the elements of an array. -/
def fieldClass (k : K) : K := (T.classes k).elementClass.getD k

/-- Where the fields in an object of class `k` are counted from.  The elements of an array have no
object header, and count only if the array class has references. -/
def starts (k : K) (n : ℕ) : List ℤ :=
  match (T.classes k).elementClass with
  | none => [0]
  | some e =>
    if (T.classes e).kind = .value ∧ T.hasReferences k = true then
      (List.range n).map fun i => T.elementAddr e i - sizeOfObject
    else []

/-- The places of the elements that are references themselves. -/
def elements (k : K) (n : ℕ) : List ℤ :=
  match (T.classes k).elementClass with
  | none => []
  | some e =>
    if (T.classes e).kind ≠ .value ∧ T.hasReferences k = true then
      (List.range n).map fun i : ℕ => sizeOfArray + sizeOfPointer * i
    else []

/-- At `x` in an object of class `k` lies a field whose type satisfies `p`, in value types that
satisfy `into`. -/
def FieldPlace (into : Il2CppClass → Bool) (p : FieldType Il2CppClass → Bool) (k : K) (n : ℕ)
    (x : ℤ) : Prop :=
  ∃ start ∈ T.starts k n, ∃ offset f,
    FieldAt into (T.classes (T.fieldClass k)).layout offset f ∧ p f.type = true ∧
      x = start + offset

variable {T} {k : K} {n : ℕ} {x : ℤ}

theorem hasDescriptor_eq_false {e : K} (h : (T.classes k).elementClass = some e) :
    T.hasDescriptor k = false := by
  by_contra hd
  rw [Bool.not_eq_false] at hd
  obtain ⟨table₀, -, hdesc⟩ := T.described k hd
  simp [h, setupGCDescriptor] at hdesc
  simp [hasDescriptor, ← hdesc] at hd

theorem mem_gcDescriptorPlaces {object : ℤ} {isArray : Bool} (h : T.hasDescriptor k = true) :
    x ∈ T.gcDescriptorPlaces k object isArray ↔ ∃ offset f,
      FieldAt Il2CppClass.hasReferences (T.classes k).layout offset f ∧ f.type.isBitmapped = true ∧
        x = (if isArray then object - sizeOfObject else object) + offset := by
  obtain ⟨table₀, hpre, hdesc⟩ := T.described k h
  have hmem (w : ℤ) := mem_traverseGCDescriptor isArray w (T.laid k) hpre (by rw [hdesc]; exact h)
  simp only [hdesc] at hmem
  rw [gcDescriptorPlaces, List.mem_map]
  simp only [hmem]
  constructor
  · rintro ⟨w, hw, rfl⟩
    obtain ⟨f, hf, hb⟩ := mem_bitmapOffsets.1 hw
    exact ⟨_, f, hf, hb, by split_ifs <;> omega⟩
  · rintro ⟨offset, f, hf, hb, rfl⟩
    have hmem' := mem_bitmapOffsets.2 ⟨f, hf, hb⟩
    obtain ⟨w, rfl⟩ := (T.laid k).aligned offset hmem'
    refine ⟨if isArray then w - 2 else w, ?_, ?_⟩
    · convert hmem' using 1
      simp only [sizeOfPointer, sizeOfObject]
      split_ifs <;> omega
    · simp only [sizeOfPointer, sizeOfObject]
      split_ifs <;> omega

theorem mem_arrayPlaces {valuePlaces : K → ℤ → List ℤ} {e : K}
    (h : (T.classes k).elementClass = some e) :
    x ∈ (T.arrayPlaces valuePlaces k e n).flatten ↔
      x ∈ T.elements k n ∨ ∃ start ∈ T.starts k n, x ∈ valuePlaces e (start + sizeOfObject) := by
  rw [arrayPlaces, elements, starts, h]
  by_cases hr : T.hasReferences k = true
  · by_cases hv : (T.classes e).kind = .value
    · simp [hr, hv]
    · simp [hr, hv, eq_comm]
  · simp [hr]

theorem starts_of_object (h : (T.classes k).elementClass = none) : T.starts k n = [0] := by
  rw [starts, h]

theorem elements_of_object (h : (T.classes k).elementClass = none) : T.elements k n = [] := by
  rw [elements, h]

theorem fieldClass_of_object (h : (T.classes k).elementClass = none) : T.fieldClass k = k := by
  rw [fieldClass, h, Option.getD_none]

theorem fieldClass_of_array {e : K} (h : (T.classes k).elementClass = some e) :
    T.fieldClass k = e := by
  rw [fieldClass, h, Option.getD_some]

/-- **Walking the fields.** -/
theorem mem_fieldPlaces :
    x ∈ (T.fieldPlaces k n).flatten ↔
      x ∈ T.elements k n ∨ T.FieldPlace (fun _ => true) (·.isWalked) k n x := by
  rw [fieldPlaces]
  rcases he : (T.classes k).elementClass with _ | e
  · simp [FieldPlace, elements_of_object he, starts_of_object he, fieldClass_of_object he,
      mem_traverseObjectInternal]
  · simp only [traverseArray]
    rw [mem_arrayPlaces he, FieldPlace, fieldClass_of_array he]
    simp only [mem_traverseObjectInternal, if_true, add_sub_cancel_right]

/-- **With descriptors.** -/
theorem mem_descriptorPlaces :
    x ∈ (T.descriptorPlaces k n).flatten ↔
      x ∈ T.elements k n ∨
        if T.hasDescriptor (T.fieldClass k) then
          T.FieldPlace Il2CppClass.hasReferences (·.isBitmapped) k n x
        else T.FieldPlace (fun _ => true) (·.isWalked) k n x := by
  rw [descriptorPlaces]
  rcases he : (T.classes k).elementClass with _ | e
  · rw [fieldClass_of_object he]
    split
    · rename_i hd
      simp [FieldPlace, elements_of_object he, starts_of_object he, fieldClass_of_object he,
        mem_gcDescriptorPlaces hd]
    · simp [FieldPlace, elements_of_object he, starts_of_object he, fieldClass_of_object he,
        mem_traverseObjectInternal]
  · rw [fieldClass_of_array he, hasDescriptor_eq_false he, if_neg Bool.false_ne_true]
    simp only [traverseArrayGCDescriptor]
    rw [mem_arrayPlaces he, FieldPlace, FieldPlace, fieldClass_of_array he]
    split
    · rename_i hd
      simp only [mem_gcDescriptorPlaces hd, if_true, add_sub_cancel_right]
    · simp only [mem_traverseObjectInternal, if_true, add_sub_cancel_right]

end TypeSystem

/-- The objects, and the static fields. -/
structure Heap (K Addr : Type) where
  /-- The class of an object, without the mark. -/
  classOf : Addr → K
  /-- The reference at a place in an object. -/
  read : Addr → ℤ → Option Addr
  /-- `Array::GetLength`. -/
  length : Addr → ℕ
  /-- `Class::GetStaticFieldData`: the classes that have static fields. -/
  staticFieldData : List K
  /-- The reference at a place in the static fields of a class. -/
  readStatic : K → ℤ → Option Addr

end Liveness

end Il2Cpp
