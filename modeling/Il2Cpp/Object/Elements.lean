import Il2Cpp.Class.ArrayCast
import Il2Cpp.Class.Termination
import Il2Cpp.Object.Nullable

/-!
# The elements of arrays

What `Array::SetValueImpl` and `Array::FastCopy` store into arrays.

* `ElementTable` : the classes, with the sizes of their values.
* `Objects` : the objects, with their classes and what is in them.
* `isInst` : `Object::IsInst`, as far as `IsAssignableFrom` answers; `IsInstance` is its meaning.
* `Cell` : an element of an array, which is a reference or the bytes of a value.
-/

namespace Il2Cpp

open ArrayMetadata

variable {C O : Type*}

/-! ### Classes -/

/-- The classes with the sizes of their values. -/
structure ElementTable (C : Type*) [DecidableEq C] extends CastTable C where
  /-- `GetInstanceSize` has it for an `int32_t`. -/
  instanceSize_lt : ∀ c, (klass c).instanceSize < 2 ^ 31
  /-- An element is as large as the payload of a boxed value. -/
  elementSize_valuetype : ∀ c, (klass c).valuetype = true → (klass c).nullabletype = false →
    getArrayElementSize toGroundedTable c = some ((klass c).instanceSize - sizeofIl2CppObject)
  /-- `IL2CPP_CXX_ABI_MSVC`. -/
  msvc : Bool
  /-- The layout of the argument of a nullable type. -/
  argument : C → Nullable.ValueClass
  argument_instanceSize : ∀ c, (klass c).nullabletype = true →
    (argument c).instanceSize = (klass (klass c).elementClass).instanceSize
  elementSize_nullable : ∀ c, (klass c).nullabletype = true →
    getArrayElementSize toGroundedTable c = some ((argument c).nullable msvc).size

variable [DecidableEq C]

/-- The objects in memory, by their addresses. -/
structure Objects (T : ElementTable C) (O : Type*) where
  /-- `Object::GetClass`. -/
  klass : O → C
  /-- What `Object::Unbox` points to. -/
  unbox : O → List UInt8
  /-- `is_import_or_windows_runtime`. -/
  isImportOrWindowsRuntime : C → Bool
  /-- Whether a COM object has the interface with the GUID of a class. -/
  queryInterface : O → C → Bool
  /-- A boxed value has its payload. -/
  length_unbox : ∀ o, (T.klass (klass o)).valuetype = true →
    (unbox o).length = (T.klass (klass o)).instanceSize - sizeofIl2CppObject
  /-- Nullable values are boxed as their arguments. -/
  nullabletype_klass : ∀ o, (T.klass (klass o)).nullabletype = false

/-! ### Instances -/

section

variable {T : ElementTable C} (H : Objects T O)

/-- What `IsInst` does with an object that is not assignable. -/
def isComInstance (obj : O) (klass : C) : Bool :=
  H.isImportOrWindowsRuntime (H.klass obj) &&
    (isInterface T.toClassTable klass && H.queryInterface obj klass ||
      klass = T.defaults.objectClass)

/-- `Object::IsInst`, for an object that is not NULL.  Without enough fuel, or after a fault, there
is no answer. -/
def isInst (fuel : ℕ) (obj : O) (klass : C) : Option Bool :=
  match isAssignableFrom T.toGroundedTable fuel klass (H.klass obj) with
  | some .yes => some true
  | some .no => some (isComInstance H obj klass)
  | _ => none

/-- The object is an instance of the class. -/
def IsInstance (obj : O) (klass : C) : Prop :=
  Accepts T.toGroundedTable klass (H.klass obj) ∨ isComInstance H obj klass = true

variable {H} {obj : O} {klass : C} {fuel : ℕ} {b : Bool}

theorem isInst_iff (h : isInst H fuel obj klass = some b) :
    b = true ↔ IsInstance H obj klass := by
  rw [isInst] at h
  split at h
  · rename_i hyes
    cases h
    exact iff_of_true rfl (.inl ⟨fuel, hyes⟩)
  · rename_i hno
    cases h
    refine ⟨.inr, fun h => h.resolve_left ?_⟩
    rintro ⟨fuel', hyes⟩
    have hyes := isAssignableFrom_mono (Nat.le_max_left fuel' fuel) _ _ _ hyes
    have hno := isAssignableFrom_mono (Nat.le_max_right fuel' fuel) _ _ _ hno
    rw [hyes] at hno
    cases hno
  · cases h

theorem isInst_of_settled
    (h : Answer.Settled (isAssignableFrom T.toGroundedTable fuel klass (H.klass obj))) :
    ∃ b, isInst H fuel obj klass = some b := by
  rcases h with h | h
  · exact ⟨true, by rw [isInst, h]⟩
  · exact ⟨isComInstance H obj klass, by rw [isInst, h]⟩

theorem not_isComInstance (hvalue : (T.klass klass).valuetype = true) :
    isComInstance H obj klass = false := by
  have htype := type_of_valuetype hvalue
  have hinterface : isInterface T.toClassTable klass = false := by
    refine isInterface_eq_false (T.valuetype_class klass hvalue).1 ?_ ?_ <;>
      rcases htype with ⟨tag, h, -⟩ | h | h <;> simp [h]
  have hobject : klass ≠ T.defaults.objectClass := by
    refine objectClass_ne ?_
    rcases htype with ⟨tag, h, htag⟩ | h | h <;> rw [h]
    · rintro ⟨⟩
      cases htag
    · nofun
    · nofun
  rw [isComInstance, hinterface, decide_eq_false hobject, Bool.false_and, Bool.or_false,
    Bool.and_false]

theorem IsInstance.klass_eq (hvalue : (T.klass klass).valuetype = true)
    (hnullable : (T.klass klass).nullabletype = false) (h : IsInstance H obj klass) :
    H.klass obj = klass := by
  rcases h with h | h
  · exact accepts_valuetype hvalue hnullable h
  · rw [not_isComInstance hvalue] at h
    cases h

theorem IsInstance.klass_eq_argument (hnullable : (T.klass klass).nullabletype = true)
    (h : IsInstance H obj klass) : H.klass obj = (T.klass klass).elementClass := by
  rcases h with h | h
  · refine (accepts_nullable hnullable h).resolve_left ?_
    rintro rfl
    rw [H.nullabletype_klass] at hnullable
    cases hnullable
  · rw [not_isComInstance (T.nullabletype klass hnullable).1] at h
    cases h

end

/-! ### Arrays -/

/-- An element: a reference, or the bytes of a value or a pointer. -/
inductive Cell (O : Type*)
  | reference (obj : Option O)
  | bytes (bs : List UInt8)
  deriving DecidableEq

/-- The form of the elements of a class. -/
def Cell.OfClass (T : ElementTable C) (c : C) : Cell O → Prop
  | .reference _ => isReference T.toClassTable c = true
  | .bytes bs => isReference T.toClassTable c = false ∧
    getArrayElementSize T.toGroundedTable c = some bs.length

/-- An element after `memset` has set it to zero. -/
def Cell.zero (T : ElementTable C) (c : C) : Cell O :=
  if isReference T.toClassTable c then .reference none
  else .bytes (List.replicate ((getArrayElementSize T.toGroundedTable c).getD 0) 0)

/-- How a function has left the elements of an array: its result, or the exception. -/
structure ArrayOutcome (X R O : Type*) where
  result : Except X R
  elements : List (Cell O)

/-! ### Some numbers -/

/-- Some classes of the core library, and the vectors over them. -/
inductive NumberClass where
  | object | valueType | array | multicastDelegate | sbyte | int16 | int32 | int64 | single
  | vector (element : NumberClass)
  deriving DecidableEq

namespace NumberClass

/-- The size of an element. -/
def size : NumberClass → ℕ
  | sbyte => 1
  | int16 => 2
  | int32 | single => 4
  | _ => 8

/-- A number of the given type. -/
def number (tag : SimpleType) (c : NumberClass) : Il2CppClass NumberClass :=
  { Il2CppClass.blank (.simple tag) [object, valueType] c with
    valuetype := true
    instanceSize := 16 + c.size }

/-- The class at an address. -/
def klass : NumberClass → Il2CppClass NumberClass
  | object => .blank (.simple .object) [] object
  | valueType => .blank .klass [object] valueType
  | array => .blank .klass [object] array
  | multicastDelegate => .blank .klass [object] multicastDelegate
  | sbyte => number .i1 sbyte
  | int16 => number .i2 int16
  | int32 => number .i4 int32
  | int64 => number .i8 int64
  | single => number .r4 single
  | vector c =>
    { Il2CppClass.blank .szarray [object, array] (vector c) with
      rank := 1
      elementClass := c
      castClass := c
      elementSize := some c.size }

/-- The order of creation. -/
def height : NumberClass → ℕ
  | object => 0
  | valueType | array | multicastDelegate => 1
  | sbyte | int16 | int32 | int64 | single => 2
  | vector c => c.height + 2

def grounded : GroundedTable NumberClass where
  klass := klass
  defaults :=
    { objectClass := object
      valueTypeClass := valueType
      enumClass := valueType
      arrayClass := array
      multicastdelegateClass := multicastDelegate
      sbyteClass := sbyte
      int16Class := int16
      int32Class := int32
      int64Class := int64
      genericIlistClass := object
      genericIcollectionClass := object
      genericIenumerableClass := object
      genericIreadonlylistClass := object
      genericIreadonlycollectionClass := object }
  getInflatedGenericInstanceClass := fun d _ => d
  getMethod := fun method _ => method
  height := height
  height_parent := by
    intro c p h
    cases c <;> cases h <;> simp [height]
  height_elementClass := by
    intro c h
    cases c <;> first | exact absurd rfl h | simp [klass, height]
  height_underlying := by
    intro c h
    cases c <;> cases h
  height_definition := by
    intro c g h
    cases c <;> cases h

theorem size_eq (c : NumberClass) : getArrayElementSize grounded c = some c.size := by
  rw [getArrayElementSize, getArrayElementSizeFrom]
  cases c <;> rfl

theorem reduced_eq (c : NumberClass) : getArrayVarianceReducedType grounded.toClassTable c = c := by
  cases c <;> rfl

theorem valuetype_cases {c : NumberClass} (h : (klass c).valuetype = true) :
    c ∈ [sbyte, int16, int32, int64, single] := by
  cases c <;> simp_all [klass, Il2CppClass.blank]

def castTable : CastTable NumberClass where
  toGroundedTable := grounded
  array := by
    intro c h
    have hsize := (size_eq (klass c).elementClass).symm
    have hreduced := (reduced_eq (klass c).elementClass).symm
    cases c with
    | vector c =>
      exact ⟨1, false, by decide, by decide, rfl, rfl, rfl, rfl, rfl, rfl, hreduced, rfl, rfl,
        hsize⟩
    | _ => rcases h with h | h <;> cases h
  rank_eq_zero := by
    intro c h
    cases c with
    | vector c => exact absurd (.inl rfl) h
    | _ => rfl
  element := by
    intro c _
    cases (grounded.klass c).elementClass <;> simp [grounded, klass, number, Il2CppClass.blank,
      SimpleType.isPrimitive]
  pointer := by
    intro c h
    cases c <;> cases h
  castClass_eq := by
    intro c h _
    cases c with
    | vector c => exact absurd (.inl rfl) h
    | _ => rfl
  valuetype_eq := by
    intro c
    cases c <;> rfl
  genericClass_isSome := by
    intro c
    cases c <;> exact ⟨nofun, nofun⟩
  definition := by
    intro c g h
    cases c <;> cases h
  enumtype := by
    intro c h
    cases c <;> cases h
  nullabletype := by
    intro c h
    cases c <;> cases h
  nullable_size := by
    intro c h
    cases c <;> cases h
  valuetype_sealed := by
    intro c h c' h'
    have hmem := valuetype_cases h
    cases c' <;> simp_all [grounded, klass, number, Il2CppClass.blank]
    all_goals rcases hmem with rfl | rfl | rfl | rfl | rfl <;> simp_all
  valuetype_class := by
    intro c h
    have hmem := valuetype_cases h
    simp only [List.mem_cons, List.not_mem_nil, or_false] at hmem
    rcases hmem with rfl | rfl | rfl | rfl | rfl <;> exact ⟨rfl, nofun⟩
  pointer_sealed := by
    intro c h
    cases c <;> cases h
  objectClass_type := rfl
  sbyteClass_type := rfl
  int16Class_type := rfl
  int32Class_type := rfl
  int64Class_type := rfl

def table : ElementTable NumberClass where
  toCastTable := castTable
  instanceSize_lt := by
    intro c
    cases c with
    | vector c => exact Nat.two_pow_pos 31
    | _ => decide
  elementSize_valuetype := by
    intro c h _
    have hmem := valuetype_cases h
    simp only [List.mem_cons, List.not_mem_nil, or_false] at hmem
    rcases hmem with rfl | rfl | rfl | rfl | rfl <;> exact size_eq _
  msvc := false
  argument := fun _ => Nullable.sized
  argument_instanceSize := by
    intro c h
    cases c <;> cases h
  elementSize_nullable := by
    intro c h
    cases c <;> cases h

/-- One boxed number. -/
def boxed (c : NumberClass) (payload : List UInt8)
    (h : payload.length = (klass c).instanceSize - 16) : Objects table Unit where
  klass := fun _ => c
  unbox := fun _ => payload
  isImportOrWindowsRuntime := fun _ => false
  queryInterface := fun _ _ => false
  length_unbox := fun _ _ => h
  nullabletype_klass := fun _ => by cases c <;> rfl

end NumberClass

end Il2Cpp
