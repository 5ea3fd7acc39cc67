import Il2Cpp.Class.IsAssignableFrom

/-!
# Casts between arrays

An array is accepted as an array of another class by its rank and its cast class, which is the
reduced type of its elements.  That is sound where the elements are integers, enums, structs or
references.  But pointers to integers and nullable integers are reduced like the integers
themselves, `object` accepts pointers, and the rank does not tell a vector from an array of one
dimension with a lower bound.

* `Accepts` : the test says yes.
* `ArrayCastSound` : the object can be used through the class that accepted it.
* `arrayCastSound_iff` : of the accepted pairs, exactly those of one kind of array and one form of
  elements are sound (`SameStorage`).
-/

namespace Il2Cpp

open ArrayMetadata

variable {C : Type*}

/-! ### Integers -/

/-- The types that a value of a primitive type or of an enum has. -/
def SimpleType.isPrimitive : SimpleType → Bool
  | .boolean | .char | .i1 | .u1 | .i2 | .u2 | .i4 | .u4 | .i8 | .u8 | .r4 | .r8 | .i | .u => true
  | _ => false

/-- The size of an integer of 64 bit machines. -/
def TypeTag.integerSize : TypeTag → Option ℕ
  | .simple .i1 | .simple .u1 => some 1
  | .simple .i2 | .simple .u2 => some 2
  | .simple .i4 | .simple .u4 => some 4
  | .simple .i8 | .simple .u8 | .simple .i | .simple .u => some 8
  | _ => none

/-- The class that stands for the integers of a size. -/
def integerClass (T : ClassTable C) : ℕ → C
  | 1 => T.defaults.sbyteClass
  | 2 => T.defaults.int16Class
  | 4 => T.defaults.int32Class
  | _ => T.defaults.int64Class

/-- `Type::IsArray`. -/
def isArray (T : ClassTable C) (c : C) : Prop :=
  (T.klass c).type = .szarray ∨ (T.klass c).type = .array

instance (T : ClassTable C) (c : C) : Decidable (isArray T c) :=
  inferInstanceAs (Decidable (_ ∨ _))

/-- The size of the integers that a type is reduced to. -/
def reducedSize (T : ClassTable C) (c : C) : Option ℕ :=
  if isArray T c then none else (T.klass (T.klass c).castClass).type.integerSize

theorem getArrayVarianceReducedType_eq (T : ClassTable C) (c : C) :
    getArrayVarianceReducedType T c = ((reducedSize T c).map (integerClass T)).getD c := by
  rw [getArrayVarianceReducedType, reducedSize]
  by_cases h : (T.klass c).type = .szarray ∨ (T.klass c).type = .array
  · rw [if_pos h, if_pos (show isArray T c from h)]
    rfl
  · rw [if_neg h, if_neg (show ¬ isArray T c from h)]
    rcases (T.klass (T.klass c).castClass).type with tag | _
    · cases tag <;> rfl
    all_goals rfl

theorem TypeTag.integerSize_mem {tag : TypeTag} {w : ℕ} (h : tag.integerSize = some w) :
    w ∈ [1, 2, 4, 8] := by
  rcases tag with tag | _
  · cases tag <;> simp_all [TypeTag.integerSize]
  all_goals cases h

/-! ### Classes as the runtime makes them -/

/-- What a cast reads of the class of an array. -/
structure SameHeader (k k' : Il2CppClass C) : Prop where
  type : k.type = k'.type
  valuetype : k.valuetype = k'.valuetype
  interfaceFlag : k.interfaceFlag = k'.interfaceFlag
  nullabletype : k.nullabletype = k'.nullabletype
  enumtype : k.enumtype = k'.enumtype
  rank : k.rank = k'.rank
  castClass : k.castClass = k'.castClass
  parent : k.parent = k'.parent
  genericClass : k.genericClass = k'.genericClass
  elementSize : k.elementSize = k'.elementSize

variable [DecidableEq C]

/-- A class table as the runtime fills it. -/
structure CastTable (C : Type*) [DecidableEq C] extends GroundedTable C where
  -- arrays, by `GetBoundedArrayClass`
  array : ∀ c, isArray toClassTable c → ∃ rank bounded, 0 < rank ∧ rank < 2 ^ 8 ∧
    SameHeader (klass c)
      (getBoundedArrayClass toGroundedTable (klass c).elementClass rank bounded)
  rank_eq_zero : ∀ c, ¬ isArray toClassTable c → (klass c).rank = 0
  /-- The elements of an array are primitive values, enums, structs, references or pointers. -/
  element : ∀ c, isArray toClassTable c → match (klass (klass c).elementClass).type with
    | .simple tag => tag.isPrimitive ∨ tag = .string ∨ tag = .object
    | .var | .mvar => False
    | _ => True
  -- pointers, by `GetPtrClass`
  pointer : ∀ c, (klass c).type = .ptr → (klass c).castClass = (klass c).elementClass ∧
    (klass c).interfaceFlag = false ∧ (klass c).nullabletype = false ∧
    (klass c).enumtype = false ∧ (klass c).parent = none ∧ (klass c).typeHierarchy = [] ∧
    (klass c).implementedInterfaces = [] ∧ (klass c).interfaceOffsetsCount = 0
  -- type definitions, and generic instances by `GenericClass::CreateClass`
  castClass_eq : ∀ c, ¬ isArray toClassTable c → (klass c).type ≠ .ptr →
    (klass c).castClass =
      if (klass c).enumtype ∨ (klass c).nullabletype then (klass c).elementClass else c
  valuetype_eq : ∀ c, (klass c).valuetype = match (klass c).type with
    | .simple tag => tag.isPrimitive
    | .valuetype => true
    | .genericinst => (klass c).genericClass.any fun g => (klass g.type).valuetype
    | _ => false
  genericClass_isSome : ∀ c, (klass c).genericClass.isSome ↔ (klass c).type = .genericinst
  definition : ∀ {c g}, (klass c).genericClass = some g →
    ((klass g.type).type = .klass ∨ (klass g.type).type = .valuetype) ∧
    (klass c).enumtype = (klass g.type).enumtype ∧
    ((klass c).enumtype = true → (klass c).elementClass = (klass g.type).elementClass)
  enumtype : ∀ c, (klass c).enumtype = true → (klass c).valuetype = true ∧
    (klass c).nullabletype = false ∧
    ((klass c).type = .valuetype ∨ (klass c).type = .genericinst) ∧
    ∃ tag, (klass (klass c).elementClass).type = .simple tag ∧ tag.isPrimitive
  nullabletype : ∀ c, (klass c).nullabletype = true → (klass c).valuetype = true ∧
    (klass c).type = .genericinst ∧ (klass (klass c).elementClass).valuetype = true ∧
    (klass (klass c).elementClass).nullabletype = false
  /-- The fields of a nullable value are a `bool` and the value. -/
  nullable_size : ∀ c, (klass c).nullabletype = true →
    ∀ w, (klass (klass c).elementClass).type.integerSize = some w →
      (klass c).instanceSize = sizeofIl2CppObject + 2 * w
  -- value types are sealed, and bases are classes
  valuetype_sealed : ∀ c, (klass c).valuetype = true → ∀ c', c ∈ (klass c').typeHierarchy → c' = c
  valuetype_class : ∀ c, (klass c).valuetype = true →
    (klass c).interfaceFlag = false ∧ (klass c).parent ≠ some defaults.multicastdelegateClass
  pointer_sealed : ∀ c, (klass c).type = .ptr → ∀ c', c ∉ (klass c').typeHierarchy
  -- the core library
  objectClass_type : (klass defaults.objectClass).type = .simple .object
  sbyteClass_type : (klass defaults.sbyteClass).type = .simple .i1
  int16Class_type : (klass defaults.int16Class).type = .simple .i2
  int32Class_type : (klass defaults.int32Class).type = .simple .i4
  int64Class_type : (klass defaults.int64Class).type = .simple .i8

/-- The test accepts an object of the class `oklass` as a `klass`. -/
def Accepts (T : GroundedTable C) (klass oklass : C) : Prop :=
  ∃ fuel, isAssignableFrom T fuel klass oklass = some .yes

/-- An array of the class `oklass` can be used through the class `klass`. -/
structure ArrayCastSound (T : GroundedTable C) (klass oklass : C) : Prop where
  /-- Both are vectors, or both are general arrays. -/
  type : (T.klass klass).type = (T.klass oklass).type
  rank : (T.klass klass).rank = (T.klass oklass).rank
  elementSize : (T.klass klass).elementSize = (T.klass oklass).elementSize
  /-- References are assignable. -/
  element : isReference T.toClassTable (T.klass oklass).elementClass →
    Accepts T (T.klass klass).elementClass (T.klass oklass).elementClass
  /-- What is read as a reference is one. -/
  reference : isReference T.toClassTable (T.klass klass).elementClass =
    isReference T.toClassTable (T.klass oklass).elementClass

/-- How a value of the elements' class is stored. -/
inductive Form where
  | plain | pointer | nullable
  deriving DecidableEq, Repr

omit [DecidableEq C] in
/-- The form of the values of a class. -/
def form (T : ClassTable C) (c : C) : Form :=
  if (T.klass c).type = .ptr then .pointer
  else if (T.klass c).nullabletype then .nullable
  else .plain

/-- Values of two forms with integers of size `w` have the same size. -/
def Form.SameSize (w : ℕ) : Form → Form → Prop
  | .plain, .pointer | .pointer, .plain => w = 8
  | .pointer, .nullable | .nullable, .pointer => w = 4
  | .plain, .nullable | .nullable, .plain => False
  | _, _ => True

omit [DecidableEq C] in
/-- Both classes are vectors or both general arrays, and the elements have one form, or forms that
happen to have the same size: a pointer and an integer of 8 bytes, or a pointer to an integer of 4
bytes and a nullable one. -/
def SameStorage (T : ClassTable C) (klass oklass : C) : Prop :=
  let element := (T.klass klass).elementClass
  let oElement := (T.klass oklass).elementClass
  (T.klass klass).type = (T.klass oklass).type ∧
    (form T element = form T oElement ∨
      ∃ w, reducedSize T element = some w ∧ reducedSize T oElement = some w ∧
        Form.SameSize w (form T element) (form T oElement))

/-! ### The classes of elements -/

section

variable (T : CastTable C)

/-- A class that elements of arrays may have. -/
def IsElement (c : C) : Prop :=
  match (T.klass c).type with
  | .simple tag => tag.isPrimitive ∨ tag = .string ∨ tag = .object
  | .var | .mvar => False
  | _ => True

theorem element_cases {c : C} (h : IsElement T c) :
    isReference T.toClassTable c = true ∨ (T.klass c).type = .ptr ∨
      (T.klass c).valuetype = true := by
  rw [T.valuetype_eq, isReference]
  rw [IsElement] at h
  cases htype : (T.klass c).type with
  | simple tag =>
    rw [htype] at h
    rcases h with h | rfl | rfl
    · exact .inr (.inr h)
    · exact .inl rfl
    · exact .inl rfl
  | genericinst =>
    obtain ⟨g, hg⟩ := Option.isSome_iff_exists.1 ((T.genericClass_isSome c).2 htype)
    rw [hg]
    cases hvalue : (T.klass g.type).valuetype with
    | false => exact .inl (by simp [hvalue])
    | true => exact .inr (.inr (by simp [hvalue]))
  | var => simp [htype] at h
  | mvar => simp [htype] at h
  | _ => simp

theorem valuetype_of_reference {c : C} (h : isReference T.toClassTable c = true) :
    (T.klass c).valuetype = false := by
  rw [T.valuetype_eq]
  rw [isReference] at h
  cases htype : (T.klass c).type with
  | simple tag => cases tag <;> simp_all [SimpleType.isPrimitive]
  | genericinst =>
    obtain ⟨g, hg⟩ := Option.isSome_iff_exists.1 ((T.genericClass_isSome c).2 htype)
    rw [htype, hg] at h
    simpa [hg] using h
  | _ => simp_all

theorem form_of_reference {c : C} (h : isReference T.toClassTable c = true) :
    form T.toClassTable c = .plain := by
  have hvalue := valuetype_of_reference T h
  rw [form, if_neg, if_neg]
  · intro hnullable
    rw [(T.nullabletype c hnullable).1] at hvalue
    cases hvalue
  · intro htype
    rw [isReference, htype] at h
    cases h

theorem reducedSize_of_reference {c : C} (h : isReference T.toClassTable c = true) :
    reducedSize T.toClassTable c = none := by
  rw [reducedSize]
  split
  · rfl
  rename_i harray
  have hvalue := valuetype_of_reference T h
  rw [T.castClass_eq c harray, if_neg]
  · rw [isReference] at h
    cases htype : (T.klass c).type with
    | simple tag => cases tag <;> simp_all [TypeTag.integerSize]
    | _ => rfl
  · rintro (henum | hnullable)
    · rw [(T.enumtype c henum).1] at hvalue
      cases hvalue
    · rw [(T.nullabletype c hnullable).1] at hvalue
      cases hvalue
  · intro htype
    rw [isReference, htype] at h
    cases h

theorem elementSize_of_reference {c : C} (h : isReference T.toClassTable c = true) :
    getArrayElementSize T.toGroundedTable c = some 8 := by
  rw [getArrayElementSize]
  rw [isReference] at h
  cases htype : (T.klass c).type with
  | genericinst =>
    obtain ⟨g, hg⟩ := Option.isSome_iff_exists.1 ((T.genericClass_isSome c).2 htype)
    rw [htype, hg] at h
    have hdefinition : (T.klass g.type).type = .klass := by
      refine (T.definition hg).1.resolve_right fun hvalue => ?_
      have := T.valuetype_eq g.type
      simp_all
    rw [getArrayElementSizeFrom_genericinst htype hg, getArrayElementSizeFrom_klass hdefinition]
  | simple tag =>
    have htag : tag = .string ∨ tag = .object := by
      rw [htype] at h
      cases tag <;> simp_all
    rw [getArrayElementSizeFrom]
    rcases htag with rfl | rfl <;> split <;> simp_all
  | _ =>
    rw [getArrayElementSizeFrom]
    split <;> simp_all

theorem elementSize_of_integer {klass type : C} {w : ℕ}
    (h : (T.klass type).type.integerSize = some w) :
    getArrayElementSizeFrom T.toGroundedTable klass type = some w := by
  rw [getArrayElementSizeFrom]
  split <;> simp_all [TypeTag.integerSize]

/-- The size of a value of the form. -/
def Form.size (w : ℕ) : Form → ℕ
  | .plain => w
  | .pointer => 8
  | .nullable => 2 * w

theorem elementSize_of_reducedSize {c : C} {w : ℕ} (h : reducedSize T.toClassTable c = some w) :
    getArrayElementSize T.toGroundedTable c = some ((form T.toClassTable c).size w) := by
  rw [getArrayElementSize]
  rw [reducedSize] at h
  split at h
  · cases h
  rename_i harray
  by_cases hpointer : (T.klass c).type = .ptr
  · rw [form, if_pos hpointer, getArrayElementSizeFrom]
    split <;> simp_all [Form.size]
  rw [form, if_neg hpointer]
  rw [T.castClass_eq c harray hpointer] at h
  by_cases henum : (T.klass c).enumtype = true
  · obtain ⟨hvalue, hnullable, htype, -⟩ := T.enumtype c henum
    rw [if_pos (.inl henum)] at h
    rw [if_neg (by simp [hnullable]), Form.size]
    rcases htype with htype | htype
    · rw [getArrayElementSizeFrom_valuetype htype, if_pos henum]
      exact elementSize_of_integer T h
    · obtain ⟨g, hg⟩ := Option.isSome_iff_exists.1 ((T.genericClass_isSome c).2 htype)
      obtain ⟨hdefinition, hgenum, helement⟩ := T.definition hg
      have hgtype : (T.klass g.type).type = .valuetype := by
        rw [henum] at hgenum
        exact ((T.enumtype g.type hgenum.symm).2.2.1).resolve_right
          (by rcases hdefinition with h | h <;> simp [h])
      rw [getArrayElementSizeFrom_genericinst htype hg, getArrayElementSizeFrom_valuetype hgtype,
        if_pos (hgenum ▸ henum), ← helement henum]
      exact elementSize_of_integer T h
  · by_cases hnullable : (T.klass c).nullabletype = true
    · obtain ⟨hvalue, htype, -⟩ := T.nullabletype c hnullable
      rw [if_pos (.inr hnullable)] at h
      obtain ⟨g, hg⟩ := Option.isSome_iff_exists.1 ((T.genericClass_isSome c).2 htype)
      obtain ⟨hdefinition, hgenum, -⟩ := T.definition hg
      have hgtype : (T.klass g.type).type = .valuetype := by
        refine hdefinition.resolve_left fun hklass => ?_
        have hgvalue := T.valuetype_eq g.type
        have hcvalue := T.valuetype_eq c
        simp_all
      rw [if_pos hnullable, getArrayElementSizeFrom_genericinst htype hg,
        getArrayElementSizeFrom_valuetype hgtype, if_neg (hgenum ▸ henum),
        T.nullable_size c hnullable w h, Nat.add_sub_cancel_left]
      rfl
    · rw [if_neg (by simp [henum, hnullable])] at h
      rw [if_neg hnullable]
      exact elementSize_of_integer T h

/-! ### What accepts what -/

variable {T}

theorem isArray_iff {c : C} : isArray T.toClassTable c ↔ (T.klass c).rank ≠ 0 := by
  constructor
  · intro h hrank
    obtain ⟨rank, bounded, hpos, hlt, heq⟩ := T.array c h
    have : rank % 2 ^ 8 = 0 := heq.rank.symm.trans hrank
    omega
  · intro h
    by_contra harray
    exact h (T.rank_eq_zero c harray)

omit [DecidableEq C] in
theorem isInterface_eq_false {T : ClassTable C} {c : C} (hflag : (T.klass c).interfaceFlag = false)
    (hvar : (T.klass c).type ≠ .var) (hmvar : (T.klass c).type ≠ .mvar) :
    isInterface T c = false := by
  simp [isInterface, hflag, hvar, hmvar]

theorem mem_of_hasParentUnsafe {T : ClassTable C} {c parent : C}
    (h : hasParentUnsafe T c parent = .yes) : parent ∈ (T.klass c).typeHierarchy := by
  rw [hasParentUnsafe] at h
  split at h
  · split at h
    · cases h
    · rename_i x hx
      have hparent : x = parent := by
        by_contra hne
        rw [decide_eq_false hne] at h
        cases h
      exact hparent ▸ List.mem_of_getElem? hx
  · cases h

theorem Accepts.step {T : GroundedTable C} {c x : C} (h : Accepts T c x) :
    ∃ fuel, isAssignableFromStep T (isAssignableFrom T fuel) c x = some .yes := by
  obtain ⟨fuel, h⟩ := h
  cases fuel with
  | zero => cases h
  | succ fuel => exact ⟨fuel, h⟩

theorem objectClass_ne {c : C} (h : (T.klass c).type ≠ .simple .object) :
    c ≠ T.defaults.objectClass := by
  rintro rfl
  exact h T.objectClass_type

theorem type_of_valuetype {c : C} (h : (T.klass c).valuetype = true) :
    (∃ tag : SimpleType, (T.klass c).type = .simple tag ∧ tag.isPrimitive) ∨
      (T.klass c).type = .valuetype ∨ (T.klass c).type = .genericinst := by
  rw [T.valuetype_eq] at h
  cases htype : (T.klass c).type <;> simp_all

theorem Accepts.mem_typeHierarchy {T : GroundedTable C} {c x : C} (h : Accepts T c x)
    (hne : c ≠ x) (hinterface : isInterface T.toClassTable c = false)
    (hrank : (T.klass c).rank = 0) (hobject : c ≠ T.defaults.objectClass)
    (hnullable : (T.klass c).nullabletype = false)
    (hparent : (T.klass c).parent ≠ some T.defaults.multicastdelegateClass) :
    c ∈ (T.klass x).typeHierarchy := by
  obtain ⟨fuel, h⟩ := h.step
  rw [isAssignableFromStep, if_neg hne, if_pos (by simp [hinterface]),
    if_neg (not_not.2 hrank), if_neg hobject, if_neg (by simp [isNullable, hnullable]),
    if_neg fun h => hparent h.1] at h
  exact mem_of_hasParentUnsafe (Option.some.inj h)

theorem accepts_valuetype {c x : C} (hvalue : (T.klass c).valuetype = true)
    (hnullable : (T.klass c).nullabletype = false) (h : Accepts T.toGroundedTable c x) :
    x = c := by
  by_contra hne
  have htype := type_of_valuetype hvalue
  obtain ⟨hflag, hparent⟩ := T.valuetype_class c hvalue
  refine hne (T.valuetype_sealed c hvalue x (h.mem_typeHierarchy (Ne.symm hne) ?_ ?_ ?_ hnullable
    hparent))
  · refine isInterface_eq_false hflag ?_ ?_ <;>
      rcases htype with ⟨tag, h, -⟩ | h | h <;> simp [h]
  · refine T.rank_eq_zero c ?_
    rcases htype with ⟨tag, h, -⟩ | h | h <;> simp [isArray, h]
  · refine objectClass_ne ?_
    rcases htype with ⟨tag, h, htag⟩ | h | h <;> rw [h]
    · rintro ⟨⟩
      cases htag
    · nofun
    · nofun

theorem accepts_nullable {c x : C} (hnullable : (T.klass c).nullabletype = true)
    (h : Accepts T.toGroundedTable c x) : x = c ∨ x = (T.klass c).elementClass := by
  by_cases hne : c = x
  · exact .inl hne.symm
  obtain ⟨hvalue, htype, hvalue', hnullable'⟩ := T.nullabletype c hnullable
  obtain ⟨fuel, h⟩ := h.step
  have hinterface : isInterface T.toClassTable c = false :=
    isInterface_eq_false (T.valuetype_class c hvalue).1 (by simp [htype]) (by simp [htype])
  have hrank : (T.klass c).rank = 0 := T.rank_eq_zero c (by simp [isArray, htype])
  have hgeneric := (T.genericClass_isSome c).2 htype
  rw [isAssignableFromStep, if_neg hne, if_pos (by simp [hinterface]),
    if_neg (not_not.2 hrank), if_neg (objectClass_ne (by simp [htype])),
    if_pos (by simp [isNullable, hnullable, hgeneric])] at h
  exact .inr (accepts_valuetype hvalue' hnullable' ⟨fuel, h⟩)

theorem accepts_of_pointer {c x : C} (htype : (T.klass c).type = .ptr)
    (h : Accepts T.toGroundedTable c x) : x = c := by
  by_contra hne
  obtain ⟨-, hflag, hnullable, -, hparent, -⟩ := T.pointer c htype
  refine T.pointer_sealed c htype x (h.mem_typeHierarchy (Ne.symm hne) ?_ ?_ ?_ hnullable ?_)
  · exact isInterface_eq_false hflag (by simp [htype]) (by simp [htype])
  · exact T.rank_eq_zero c (by simp [isArray, htype])
  · exact objectClass_ne (by simp [htype])
  · simp [hparent]

theorem accepts_pointer {c x : C} (htype : (T.klass x).type = .ptr)
    (h : Accepts T.toGroundedTable c x) : c = x ∨ c = T.defaults.objectClass := by
  by_cases hne : c = x
  · exact .inl hne
  obtain ⟨-, -, -, -, hparent, hhierarchy, hinterfaces, hoffsets⟩ := T.pointer x htype
  have hgeneric : (T.klass x).genericClass = none := by
    have := (T.genericClass_isSome x).not.2 (by simp [htype])
    simpa using this
  have hvariance (ask : C → C → Option Answer) (implementingClass : C) :
      isGenericClassAssignableFrom T.toClassTable ask c x implementingClass = some .no := by
    rw [isGenericClassAssignableFrom, if_neg hne, isGenericClassAssignableFromVariance, hgeneric]
  have hhasParent : hasParentUnsafe T.toClassTable x c ≠ .yes := by
    intro hyes
    have := mem_of_hasParentUnsafe hyes
    simp [hhierarchy] at this
  have hbases : bases T.toGroundedTable x = [x] := by
    rw [bases, basesFrom, hparent]
    rfl
  have htables : tableInterfaces T.toClassTable x = [] := by
    rw [tableInterfaces, hinterfaces, hoffsets]
    rfl
  by_cases hnullable : (T.klass c).nullabletype = true
  · rcases accepts_nullable hnullable h with rfl | rfl
    · exact absurd rfl hne
    · have hvalue := (T.nullabletype c hnullable).2.2.1
      rw [T.valuetype_eq, htype] at hvalue
      cases hvalue
  obtain ⟨fuel, h⟩ := h.step
  simp only [isAssignableFromStep, if_neg hne] at h
  split at h
  · split at h
    · rename_i hrank
      have hrank' : (T.klass x).rank = 0 := T.rank_eq_zero x (by simp [isArray, htype])
      rw [if_pos (by rw [hrank']; exact Ne.symm hrank)] at h
      cases h
    split at h
    · exact .inr ‹_›
    rw [if_neg (by simp [isNullable, hnullable])] at h
    rw [hvariance, ite_self] at h
    exact absurd (Option.some.inj h) hhasParent
  · split at h
    · rw [hbases] at h
      simp [Answer.any, hvariance, htables, Answer.or] at h
    · rw [hbases] at h
      simp [htables, Answer.ofBool] at h

/-! ### Accepted arrays -/

theorem castClass_of_isArray {c : C} (h : isArray T.toClassTable c) :
    (T.klass c).castClass =
      getArrayVarianceReducedType T.toClassTable (T.klass c).elementClass := by
  obtain ⟨rank, bounded, -, -, heq⟩ := T.array c h
  exact heq.castClass

theorem elementSize_of_isArray {c : C} (h : isArray T.toClassTable c) :
    (T.klass c).elementSize = getArrayElementSize T.toGroundedTable (T.klass c).elementClass := by
  obtain ⟨rank, bounded, -, -, heq⟩ := T.array c h
  exact heq.elementSize

theorem accepts_array {klass oklass : C} (hklass : isArray T.toClassTable klass)
    (h : Accepts T.toGroundedTable klass oklass) :
    klass = oklass ∨ (T.klass klass).rank = (T.klass oklass).rank ∧
      ((T.klass (T.klass oklass).castClass).valuetype = true ∧
          (T.klass klass).castClass = (T.klass oklass).castClass ∨
        (T.klass (T.klass oklass).castClass).valuetype = false ∧
          Accepts T.toGroundedTable (T.klass klass).castClass (T.klass oklass).castClass) := by
  by_cases hne : klass = oklass
  · exact .inl hne
  obtain ⟨fuel, h⟩ := h.step
  obtain ⟨rank, bounded, -, -, heq⟩ := T.array klass hklass
  have hinterface : isInterface T.toClassTable klass = false := by
    refine isInterface_eq_false heq.interfaceFlag ?_ ?_ <;>
      rcases hklass with h | h <;> rw [h] <;> nofun
  simp only [isAssignableFromStep, if_neg hne] at h
  rw [if_pos (by simp [hinterface]), if_pos (isArray_iff.1 hklass)] at h
  split at h
  · cases h
  rename_i hrank
  refine .inr ⟨(not_not.1 hrank).symm, ?_⟩
  split at h
  · rename_i hvalue
    refine .inl ⟨hvalue, ?_⟩
    by_contra hcast
    rw [decide_eq_false hcast] at h
    cases h
  · rename_i hvalue
    exact .inr ⟨by simpa using hvalue, fuel, h⟩

theorem integerSize_integerClass {w : ℕ} (hw : w ∈ [1, 2, 4, 8]) :
    (T.klass (integerClass T.toClassTable w)).type.integerSize = some w := by
  simp only [List.mem_cons, List.not_mem_nil, or_false] at hw
  rcases hw with rfl | rfl | rfl | rfl
  · exact congrArg _ T.sbyteClass_type
  · exact congrArg _ T.int16Class_type
  · exact congrArg _ T.int32Class_type
  · exact congrArg _ T.int64Class_type

theorem integer_spec {c : C} {w : ℕ} (h : (T.klass c).type.integerSize = some w) :
    (T.klass c).valuetype = true ∧ (T.klass c).nullabletype = false ∧
      reducedSize T.toClassTable c = some w := by
  obtain ⟨tag, htag⟩ : ∃ tag, (T.klass c).type = .simple tag := by
    cases htype : (T.klass c).type with
    | simple tag => exact ⟨tag, rfl⟩
    | _ => simp [htype, TypeTag.integerSize] at h
  have hvalue : (T.klass c).valuetype = true := by
    rw [T.valuetype_eq, htag]
    rw [htag] at h
    cases tag <;> simp_all [TypeTag.integerSize, SimpleType.isPrimitive]
  have hnullable : (T.klass c).nullabletype = false := by
    by_contra hnullable
    have := (T.nullabletype c (by simpa using hnullable)).2.1
    simp [htag] at this
  have henum : ¬ (T.klass c).enumtype = true := by
    intro henum
    rcases (T.enumtype c henum).2.2.1 with h | h <;> simp [htag] at h
  have harray : ¬ isArray T.toClassTable c := by simp [isArray, htag]
  refine ⟨hvalue, hnullable, ?_⟩
  rw [reducedSize, if_neg harray, T.castClass_eq c harray (by simp [htag]),
    if_neg (by simp [henum, hnullable])]
  exact h

theorem accepts_elements {k o : C} (hk : IsElement T k) (ho : IsElement T o)
    (h : (T.klass (getArrayVarianceReducedType T.toClassTable o)).valuetype = true ∧
        getArrayVarianceReducedType T.toClassTable k =
          getArrayVarianceReducedType T.toClassTable o ∨
      (T.klass (getArrayVarianceReducedType T.toClassTable o)).valuetype = false ∧
        Accepts T.toGroundedTable (getArrayVarianceReducedType T.toClassTable k)
          (getArrayVarianceReducedType T.toClassTable o)) :
    k = o ∨
      (∃ w, reducedSize T.toClassTable k = some w ∧ reducedSize T.toClassTable o = some w) ∨
      (isReference T.toClassTable k = true ∧ isReference T.toClassTable o = true ∧
        Accepts T.toGroundedTable k o) ∨
      k = T.defaults.objectClass ∧ (T.klass o).type = .ptr ∧
        reducedSize T.toClassTable o = none := by
  have hmem {c : C} {w : ℕ} (hc : reducedSize T.toClassTable c = some w) : w ∈ [1, 2, 4, 8] := by
    rw [reducedSize] at hc
    split at hc
    · cases hc
    · exact TypeTag.integerSize_mem hc
  rw [getArrayVarianceReducedType_eq, getArrayVarianceReducedType_eq] at h
  cases hko : reducedSize T.toClassTable o with
  | some w =>
    have hsize := integerSize_integerClass (T := T) (hmem hko)
    rw [hko] at h
    rcases h with ⟨-, h⟩ | ⟨hvalue, -⟩
    · cases hkk : reducedSize T.toClassTable k with
      | some w' =>
        rw [hkk] at h
        have hsize' := integerSize_integerClass (T := T) (hmem hkk)
        rw [show integerClass T.toClassTable w' = integerClass T.toClassTable w from h,
          hsize] at hsize'
        exact .inr (.inl ⟨w, by rw [hsize'], rfl⟩)
      | none =>
        rw [hkk] at h
        have h : k = integerClass T.toClassTable w := h
        rw [← h] at hsize
        rw [(integer_spec hsize).2.2] at hkk
        cases hkk
    · rw [show (T.klass ((Option.map (integerClass T.toClassTable) (some w)).getD o)).valuetype =
        true from (integer_spec hsize).1] at hvalue
      cases hvalue
  | none =>
    rw [hko] at h
    have hnot {w : ℕ} (hkk : reducedSize T.toClassTable k = some w) :
        integerClass T.toClassTable w ≠ o := by
      rintro rfl
      rw [(integer_spec (integerSize_integerClass (T := T) (hmem hkk))).2.2] at hko
      cases hko
    rcases h with ⟨-, heq⟩ | ⟨hvalue, hacc⟩
    · cases hkk : reducedSize T.toClassTable k with
      | some w =>
        rw [hkk] at heq
        exact absurd heq (hnot hkk)
      | none =>
        rw [hkk] at heq
        exact .inl heq
    · have hvalue : (T.klass o).valuetype = false := hvalue
      cases hkk : reducedSize T.toClassTable k with
      | some w =>
        rw [hkk] at hacc
        have hspec := integer_spec (integerSize_integerClass (T := T) (hmem hkk))
        exact absurd (accepts_valuetype hspec.1 hspec.2.1 hacc).symm (hnot hkk)
      | none =>
        rw [hkk] at hacc
        have hacc : Accepts T.toGroundedTable k o := hacc
        rcases element_cases T ho with href | hpointer | hvalue'
        · rcases element_cases T hk with href' | hpointer' | hvalue'
          · exact .inr (.inr (.inl ⟨href', href, hacc⟩))
          · exact .inl (accepts_of_pointer hpointer' hacc).symm
          · by_cases hnullable : (T.klass k).nullabletype = true
            · rcases accepts_nullable hnullable hacc with rfl | rfl
              · exact .inl rfl
              · rw [(T.nullabletype k hnullable).2.2.1] at hvalue
                cases hvalue
            · exact .inl (accepts_valuetype hvalue' (by simpa using hnullable) hacc).symm
        · rcases accepts_pointer hpointer hacc with rfl | rfl
          · exact .inl rfl
          · exact .inr (.inr (.inr ⟨rfl, hpointer, rfl⟩))
        · rw [hvalue'] at hvalue
          cases hvalue

theorem isReference_of_reducedSize {c : C} {w : ℕ} (h : reducedSize T.toClassTable c = some w) :
    isReference T.toClassTable c = false := by
  by_contra href
  rw [reducedSize_of_reference T (by simpa using href)] at h
  cases h

theorem elementSize_eq_iff {k o : C} {w : ℕ} (hk : reducedSize T.toClassTable k = some w)
    (ho : reducedSize T.toClassTable o = some w) :
    getArrayElementSize T.toGroundedTable k = getArrayElementSize T.toGroundedTable o ↔
      form T.toClassTable k = form T.toClassTable o ∨
        Form.SameSize w (form T.toClassTable k) (form T.toClassTable o) := by
  rw [elementSize_of_reducedSize T hk, elementSize_of_reducedSize T ho, Option.some.injEq]
  have hw : w ≠ 0 := by
    rw [reducedSize] at hk
    split at hk
    · cases hk
    · rintro rfl
      exact absurd (TypeTag.integerSize_mem hk) (by decide)
  cases form T.toClassTable k <;> cases form T.toClassTable o <;>
    simp only [Form.size, Form.SameSize, reduceCtorEq, false_or, or_true, iff_false] <;> omega

/-- Of the arrays that are accepted, exactly those with the same kind of array and the same storage
of elements can be used through the class that accepts them. -/
theorem arrayCastSound_iff (T : CastTable C) {klass oklass : C}
    (hklass : isArray T.toClassTable klass) (hoklass : isArray T.toClassTable oklass)
    (h : Accepts T.toGroundedTable klass oklass) :
    ArrayCastSound T.toGroundedTable klass oklass ↔ SameStorage T.toClassTable klass oklass := by
  have hrefl (c : C) : Accepts T.toGroundedTable c c := ⟨1, if_pos rfl⟩
  rcases accepts_array hklass h with rfl | ⟨hrank, hcast⟩
  · exact ⟨fun _ => ⟨rfl, .inl rfl⟩, fun _ => ⟨rfl, rfl, rfl, fun _ => hrefl _, rfl⟩⟩
  rw [castClass_of_isArray hklass, castClass_of_isArray hoklass] at hcast
  have hsize : (T.klass klass).elementSize = (T.klass oklass).elementSize ↔
      getArrayElementSize T.toGroundedTable (T.klass klass).elementClass =
        getArrayElementSize T.toGroundedTable (T.klass oklass).elementClass := by
    rw [elementSize_of_isArray hklass, elementSize_of_isArray hoklass]
  rcases accepts_elements (T.element klass hklass) (T.element oklass hoklass) hcast with
    heq | ⟨w, hk, ho⟩ | ⟨hk, ho, hacc⟩ | ⟨hk, hpointer, ho⟩
  · -- the elements have one class
    rw [heq] at hsize
    refine ⟨fun hsound => ⟨hsound.type, .inl (by rw [heq])⟩, fun hsame => ?_⟩
    exact ⟨hsame.1, hrank, hsize.2 rfl, fun _ => heq ▸ hrefl _, by rw [heq]⟩
  · -- both are reduced to integers
    rw [elementSize_eq_iff hk ho] at hsize
    have href := (isReference_of_reducedSize hk).trans (isReference_of_reducedSize ho).symm
    constructor
    · intro hsound
      exact ⟨hsound.type, (hsize.1 hsound.elementSize).imp id fun hform => ⟨w, hk, ho, hform⟩⟩
    · rintro ⟨htype, hform⟩
      refine ⟨htype, hrank, hsize.2 (hform.imp id ?_), ?_, href⟩
      · rintro ⟨w', hk', -, hform⟩
        rwa [show w = w' from Option.some.inj (hk.symm.trans hk')]
      · intro href'
        rw [isReference_of_reducedSize ho] at href'
        cases href'
  · -- both are references
    refine ⟨fun hsound => ⟨hsound.type, .inl ?_⟩, fun hsame => ⟨hsame.1, hrank, hsize.2 ?_,
      fun _ => hacc, hk.trans ho.symm⟩⟩
    · rw [form_of_reference T hk, form_of_reference T ho]
    · rw [elementSize_of_reference T hk, elementSize_of_reference T ho]
  · -- `object` and a pointer
    have hobject : isReference T.toClassTable (T.klass klass).elementClass = true := by
      rw [hk, isReference, T.objectClass_type]
    have hnot : isReference T.toClassTable (T.klass oklass).elementClass = false := by
      rw [isReference, hpointer]
    constructor
    · intro hsound
      have := hsound.reference
      rw [hobject, hnot] at this
      cases this
    · rintro ⟨-, hform | ⟨w, -, ho', -⟩⟩
      · rw [form_of_reference T hobject, form, if_pos hpointer] at hform
        cases hform
      · rw [ho] at ho'
        cases ho'

end

/-! ### Integers, pointers and their arrays -/

/-- Some classes of the core library, and the pointers and arrays over them. -/
inductive CastClass where
  | object | valueType | array | sbyte | int16 | int32 | int64
  | pointer (element : CastClass)
  | vector (element : CastClass)
  /-- Arrays of one dimension with a lower bound. -/
  | general (element : CastClass)
  deriving DecidableEq

namespace CastClass

/-- The reduced type. -/
def reduced : CastClass → CastClass
  | pointer sbyte => sbyte
  | pointer int16 => int16
  | pointer int32 => int32
  | pointer int64 => int64
  | c => c

/-- The size of an element. -/
def size : CastClass → ℕ
  | sbyte => 1
  | int16 => 2
  | int32 => 4
  | _ => 8

/-- The class at an address. -/
def klass : CastClass → Il2CppClass CastClass
  | object => .blank (.simple .object) [] object
  | valueType => .blank .klass [object] valueType
  | array => .blank .klass [object] array
  | sbyte => { Il2CppClass.blank (.simple .i1) [object, valueType] sbyte with valuetype := true }
  | int16 => { Il2CppClass.blank (.simple .i2) [object, valueType] int16 with valuetype := true }
  | int32 => { Il2CppClass.blank (.simple .i4) [object, valueType] int32 with valuetype := true }
  | int64 => { Il2CppClass.blank (.simple .i8) [object, valueType] int64 with valuetype := true }
  | pointer c =>
    { Il2CppClass.blank .ptr [] (pointer c) with
      elementClass := c
      castClass := c
      typeHierarchy := [] }
  | vector c =>
    { Il2CppClass.blank .szarray [object, array] (vector c) with
      rank := 1
      elementClass := c
      castClass := c.reduced
      elementSize := some c.size }
  | general c =>
    { Il2CppClass.blank .array [object, array] (general c) with
      rank := 1
      elementClass := c
      castClass := c.reduced
      elementSize := some c.size }

/-- The order of creation. -/
def height : CastClass → ℕ
  | object => 0
  | valueType | array => 1
  | sbyte | int16 | int32 | int64 => 2
  | pointer c | vector c | general c => c.height + 2

/-- The table of these classes. -/
def grounded : GroundedTable CastClass where
  klass := klass
  defaults :=
    { objectClass := object
      valueTypeClass := valueType
      enumClass := valueType
      arrayClass := array
      multicastdelegateClass := object
      sbyteClass := sbyte
      int16Class := int16
      int32Class := int32
      int64Class := int64
      genericIlistClass := object
      genericIcollectionClass := object
      genericIenumerableClass := object
      genericIreadonlylistClass := object
      genericIreadonlycollectionClass := object }
  getInflatedGenericInstanceClass := fun d _ => d
  getMethod := fun method _ => method
  height := height
  height_parent := by
    intro c p h
    cases c <;> cases h <;> simp [height]
  height_elementClass := by
    intro c h
    cases c <;> first | exact absurd rfl h | simp [klass, height]
  height_underlying := by
    intro c h
    cases c <;> cases h
  height_definition := by
    intro c g h
    cases c <;> cases h

theorem reduced_eq (c : CastClass) :
    getArrayVarianceReducedType grounded.toClassTable c = c.reduced := by
  cases c with
  | pointer c => cases c <;> rfl
  | _ => rfl

theorem size_eq (c : CastClass) : getArrayElementSize grounded c = some c.size := by
  rw [getArrayElementSize, getArrayElementSizeFrom]
  cases c <;> rfl

/-- The table of these classes, as the runtime fills it. -/
def table : CastTable CastClass where
  toGroundedTable := grounded
  array := by
    intro c h
    have hsize := (size_eq (klass c).elementClass).symm
    have hreduced := (reduced_eq (klass c).elementClass).symm
    cases c with
    | vector c =>
      exact ⟨1, false, by decide, by decide, rfl, rfl, rfl, rfl, rfl, rfl, hreduced, rfl, rfl,
        hsize⟩
    | general c =>
      exact ⟨1, true, by decide, by decide, rfl, rfl, rfl, rfl, rfl, rfl, hreduced, rfl, rfl,
        hsize⟩
    | _ => rcases h with h | h <;> cases h
  rank_eq_zero := by
    intro c h
    cases c with
    | vector c => exact absurd (.inl rfl) h
    | general c => exact absurd (.inr rfl) h
    | _ => rfl
  element := by
    intro c _
    cases (grounded.klass c).elementClass <;> simp [grounded, klass, Il2CppClass.blank,
      SimpleType.isPrimitive]
  pointer := by
    intro c h
    cases c with
    | pointer c => exact ⟨rfl, rfl, rfl, rfl, rfl, rfl, rfl, rfl⟩
    | _ => cases h
  castClass_eq := by
    intro c h h'
    cases c with
    | pointer c => exact absurd rfl h'
    | vector c => exact absurd (.inl rfl) h
    | general c => exact absurd (.inr rfl) h
    | _ => rfl
  valuetype_eq := by
    intro c
    cases c <;> rfl
  genericClass_isSome := by
    intro c
    cases c <;> exact ⟨nofun, nofun⟩
  definition := by
    intro c g h
    cases c <;> cases h
  enumtype := by
    intro c h
    cases c <;> cases h
  nullabletype := by
    intro c h
    cases c <;> cases h
  nullable_size := by
    intro c h
    cases c <;> cases h
  valuetype_sealed := by
    intro c h c' h'
    cases c with
    | sbyte | int16 | int32 | int64 =>
      cases c' <;> simp_all [grounded, klass, Il2CppClass.blank]
    | _ => cases h
  valuetype_class := by
    intro c h
    cases c with
    | sbyte | int16 | int32 | int64 => exact ⟨rfl, nofun⟩
    | _ => cases h
  pointer_sealed := by
    intro c h c'
    cases c with
    | pointer c => cases c' <;> simp [grounded, klass, Il2CppClass.blank]
    | _ => cases h
  objectClass_type := rfl
  sbyteClass_type := rfl
  int16Class_type := rfl
  int32Class_type := rfl
  int64Class_type := rfl

theorem accepts_int32 : Accepts grounded (vector int32) (vector (pointer int32)) ∧
    Accepts grounded (vector int32) (general int32) :=
  ⟨⟨1, rfl⟩, ⟨1, rfl⟩⟩

theorem arrayCastSound_iff_pointers :
    ArrayCastSound grounded (vector int32) (vector (pointer int32)) ↔
      SameStorage grounded.toClassTable (vector int32) (vector (pointer int32)) :=
  arrayCastSound_iff table (.inl rfl) (.inl rfl) accepts_int32.1

/-- The elements of an `int*[]` are larger than those of an `int[]`, and an `int[*]` is no vector. -/
theorem accepts_unsound :
    ¬ ∀ klass oklass, isArray grounded.toClassTable klass → isArray grounded.toClassTable oklass →
      Accepts grounded klass oklass → ArrayCastSound grounded klass oklass := by
  intro h
  have hsound := h (vector int32) (vector (pointer int32)) (.inl rfl) (.inl rfl) accepts_int32.1
  exact absurd hsound.elementSize (by decide)

end CastClass

end Il2Cpp
