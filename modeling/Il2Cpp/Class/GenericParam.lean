import Il2Cpp.Class.IsAssignableFrom

/-!
# The base type of a generic parameter

`Class::GenericParamGetBaseType` scans the constraints of a parameter for the last class among them.

* `GenericParamTable` : the classes with the metadata of the generic parameters.
* `genericParamGetBaseType` : the function, with the outcome of its assertion.
* `baseType` : the last constraint that counts, or the class that the flags tell.
* `genericParamGetBaseType_eq_iff` : when the function finds the base type.  It skips all parameters
  among the constraints, since `Class::IsInterface` holds of them.
-/

namespace Il2Cpp

variable {C H : Type*}

/-- `IL2CPP_GENERIC_PARAMETER_ATTRIBUTE_REFERENCE_TYPE_CONSTRAINT`. -/
def referenceTypeConstraint : UInt16 := 0x04

/-- `IL2CPP_GENERIC_PARAMETER_ATTRIBUTE_NOT_NULLABLE_VALUE_TYPE_CONSTRAINT`. -/
def notNullableValueTypeConstraint : UInt16 := 0x08

/-- A type or a method parameter. -/
def isParameter (T : ClassTable C) (c : C) : Bool :=
  (T.klass c).type = .var || (T.klass c).type = .mvar

/-- The classes with the metadata of the generic parameters; `H` is the type of handles. -/
structure GenericParamTable (C H : Type*) extends ClassTable C where
  /-- `byval_arg.data.genericParameterHandle`. -/
  genericParameterHandle : C → H
  /-- The `flags` of `MetadataCache::GetGenericParameterInfo`. -/
  flags : H → UInt16
  /-- The `constraints` of `GetOrCreateMonoGenericParameterInfo`, up to the NULL. -/
  constraints : H → List C
  objectClass_not_parameter : isParameter toClassTable defaults.objectClass = false
  valueTypeClass_not_parameter : isParameter toClassTable defaults.valueTypeClass = false

/-! ### The function -/

/-- `is_generic_argument`, which tests for one of the two kinds twice. -/
def isGenericArgument (T : ClassTable C) (c : C) : Bool :=
  (T.klass c).type = .var || (T.klass c).type = .var

namespace GenericParamTable

variable (T : GenericParamTable C H)

/-- One constraint in the scan. -/
def scanStep (baseClass constraint : C) : C :=
  if isInterface T.toClassTable constraint then baseClass
  else if isGenericArgument T.toClassTable constraint then
    let flags := T.flags (T.genericParameterHandle constraint)
    if flags &&& referenceTypeConstraint = 0 ∧ flags &&& notNullableValueTypeConstraint = 0 then
      baseClass
    else constraint
  else constraint

variable [DecidableEq C]

/-- The object class gives way to the ValueType class for parameters that are value types. -/
def orValueType (gparam : H) (baseClass : C) : C :=
  if baseClass = T.defaults.objectClass ∧
    T.flags gparam &&& notNullableValueTypeConstraint ≠ 0 then T.defaults.valueTypeClass
  else baseClass

/-- `Class::GenericParamGetBaseType`: whether the assertion holds, and the result. -/
def genericParamGetBaseType (klass : C) : Bool × C :=
  let gparam := T.genericParameterHandle klass
  (isGenericArgument T.toClassTable klass,
    T.orValueType gparam ((T.constraints gparam).foldl T.scanStep T.defaults.objectClass))

/-! ### The base type -/

/-- A parameter that is bound to be a reference type or a value type. -/
def isBound (c : C) : Bool :=
  let flags := T.flags (T.genericParameterHandle c)
  flags &&& referenceTypeConstraint ≠ 0 || flags &&& notNullableValueTypeConstraint ≠ 0

/-- The constraints that can be a base type. -/
def counts (c : C) : Bool :=
  !(T.klass c).interfaceFlag && (!isParameter T.toClassTable c || T.isBound c)

/-- The last constraint that can be a base type. -/
def lastConstraint (klass : C) : Option C :=
  ((T.constraints (T.genericParameterHandle klass)).filter T.counts).getLast?

/-- The base type: the last constraint that can be one, or else what the flags tell. -/
def baseType (klass : C) : C :=
  T.orValueType (T.genericParameterHandle klass)
    ((T.lastConstraint klass).getD T.defaults.objectClass)

/-! ### The scan -/

variable {T}

omit [DecidableEq C] in
theorem isInterface_eq (c : C) :
    isInterface T.toClassTable c =
      ((T.klass c).interfaceFlag || isParameter T.toClassTable c) := Bool.or_assoc ..

omit [DecidableEq C] in
theorem scanStep_eq (baseClass constraint : C) :
    T.scanStep baseClass constraint =
      if isInterface T.toClassTable constraint then baseClass else constraint := by
  rw [scanStep]
  split_ifs with hinterface hgeneric
  · rfl
  · have hvar : (T.klass constraint).type = .var := by simpa [isGenericArgument] using hgeneric
    exact absurd (by simp [isInterface, hvar]) hinterface
  · rfl

omit [DecidableEq C] in
theorem foldl_scanStep (constraints : List C) (baseClass : C) :
    constraints.foldl T.scanStep baseClass =
      ((constraints.filter (!isInterface T.toClassTable ·)).getLast?).getD baseClass := by
  induction constraints generalizing baseClass with
  | nil => rfl
  | cons constraint constraints ih =>
    rw [List.foldl_cons, ih, scanStep_eq]
    by_cases h : isInterface T.toClassTable constraint
    · rw [if_pos h, List.filter_cons_of_neg (by simp [h])]
    · rw [if_neg h, List.filter_cons_of_pos (by simp [h]), List.getLast?_cons]
      rfl

omit [DecidableEq C] in
theorem not_isInterface_iff {c : C} :
    (!isInterface T.toClassTable c) = true ↔ T.counts c ∧ isParameter T.toClassTable c = false := by
  rw [isInterface_eq, counts]
  cases (T.klass c).interfaceFlag <;> cases isParameter T.toClassTable c <;> simp

end GenericParamTable

/-- Two ways to choose from a list agree about the last element if the narrow one takes the last
element of the wide one. -/
theorem getLast?_filter_of_imp {p q : C → Bool} {l : List C} {c : C} (himp : ∀ x, p x → q x)
    (hlast : (l.filter q).getLast? = some c) (hc : p c) : (l.filter p).getLast? = some c := by
  obtain ⟨front, hfront⟩ := List.getLast?_eq_some_iff.1 hlast
  have hfilter : l.filter p = (l.filter q).filter p := by
    rw [List.filter_filter]
    refine List.filter_congr fun x _ => ?_
    cases hp : p x with
    | false => rfl
    | true => rw [himp x hp, Bool.and_self]
  rw [hfilter, hfront, List.filter_append, List.filter_cons_of_pos hc, List.filter_nil,
    List.getLast?_concat]

namespace GenericParamTable

variable {T : GenericParamTable C H} [DecidableEq C]

theorem genericParamGetBaseType_not_parameter (klass : C) :
    isParameter T.toClassTable (T.genericParamGetBaseType klass).2 = false := by
  rw [genericParamGetBaseType, orValueType]
  split_ifs
  · exact T.valueTypeClass_not_parameter
  · rw [foldl_scanStep]
    cases hlast : ((T.constraints (T.genericParameterHandle klass)).filter
        (!isInterface T.toClassTable ·)).getLast? with
    | none => exact T.objectClass_not_parameter
    | some c => exact (not_isInterface_iff.1 (List.mem_filter.1 (List.mem_of_getLast? hlast)).2).2

theorem genericParamGetBaseType_snd {klass : C}
    (h : ∀ c, T.lastConstraint klass = some c → isParameter T.toClassTable c = false) :
    (T.genericParamGetBaseType klass).2 = T.baseType klass := by
  simp only [genericParamGetBaseType, baseType, foldl_scanStep]
  congr 2
  have himp : ∀ x, (!isInterface T.toClassTable x) = true → T.counts x :=
    fun x hx => (not_isInterface_iff.1 hx).1
  cases hlast : T.lastConstraint klass with
  | none =>
    rw [lastConstraint, List.getLast?_eq_none_iff, List.filter_eq_nil_iff] at hlast
    exact List.getLast?_eq_none_iff.2
      (List.filter_eq_nil_iff.2 fun x hx hkept => hlast x hx (himp x hkept))
  | some c =>
    have hcounts := (List.mem_filter.1 (List.mem_of_getLast? hlast)).2
    exact getLast?_filter_of_imp himp hlast (not_isInterface_iff.2 ⟨hcounts, h c hlast⟩)

/-- **The base type of a generic parameter.**  On a type or a method parameter the assertion holds and
the result is the base type if and only if it is a type parameter and the last constraint that
counts is not a parameter. -/
theorem genericParamGetBaseType_eq_iff {klass : C} (hklass : isParameter T.toClassTable klass) :
    T.genericParamGetBaseType klass = (true, T.baseType klass) ↔
      (T.klass klass).type ≠ .mvar ∧
        ∀ c, T.lastConstraint klass = some c → isParameter T.toClassTable c = false := by
  have hassert : (T.genericParamGetBaseType klass).1 = true ↔ (T.klass klass).type ≠ .mvar := by
    rw [isParameter, Bool.or_eq_true, decide_eq_true_eq, decide_eq_true_eq] at hklass
    rw [genericParamGetBaseType, isGenericArgument, Bool.or_self, decide_eq_true_eq]
    obtain htype | htype := hklass <;> simp [htype]
  rw [Prod.ext_iff]
  refine and_congr hassert ⟨fun hbase c hlast => ?_, genericParamGetBaseType_snd⟩
  by_contra hparam
  -- the base type would be a parameter, which the function does not return
  have hc : c ≠ T.defaults.objectClass := by
    rintro rfl
    exact hparam T.objectClass_not_parameter
  have hreturned := genericParamGetBaseType_not_parameter (T := T) klass
  rw [hbase, baseType, hlast, Option.getD_some, orValueType, if_neg (hc ·.1)] at hreturned
  exact hparam hreturned

end GenericParamTable

/-! ### Two parameters -/

/-- The classes `object`, `ValueType`, `Base` and an interface, a type parameter that is bound to be a
reference type, and a method parameter. -/
inductive ParamClass
  | object | valueType | base | iface | typeParam | methodParam
  deriving DecidableEq

/-- The constraints `Base, IFace, U` of the type parameter and `Base, T` of the method parameter. -/
def paramTable : GenericParamTable ParamClass ParamClass where
  klass c := match c with
    | .object => .blank (.simple .object) [] .object
    | .valueType => .blank .klass [.object] .valueType
    | .base => .blank .klass [.object] .base
    | .iface => { Il2CppClass.blank .klass [] .iface with interfaceFlag := true }
    | .typeParam => .blank .var [.object] .typeParam
    | .methodParam => .blank .mvar [.object] .methodParam
  defaults := ⟨.object, .valueType, .object, .object, .object, .object, .object, .object, .object,
    .object, .object, .object, .object, .object⟩
  getInflatedGenericInstanceClass c _ := c
  getMethod m _ := m
  genericParameterHandle c := c
  flags c := if c = .typeParam then referenceTypeConstraint else 0
  constraints c := if c = .typeParam then [.base, .iface, .methodParam] else [.base, .typeParam]
  objectClass_not_parameter := rfl
  valueTypeClass_not_parameter := rfl

/-- The base of the type parameter is the class among its constraints. -/
theorem genericParamGetBaseType_eq_iff_typeParam :
    paramTable.genericParamGetBaseType .typeParam = (true, paramTable.baseType .typeParam) :=
  (GenericParamTable.genericParamGetBaseType_eq_iff (T := paramTable) rfl).2
    ⟨by decide, fun c hlast => by cases hlast; rfl⟩

/-- The assertion fails on the method parameter, and the constraint `T` is skipped. -/
theorem genericParamGetBaseType_methodParam : ¬ ∀ (T : GenericParamTable ParamClass ParamClass)
    (klass : ParamClass), isParameter T.toClassTable klass →
      T.genericParamGetBaseType klass = (true, T.baseType klass) := by
  intro h
  exact absurd (h paramTable .methodParam rfl) (by decide)

end Il2Cpp
