import Il2Cpp.Class.ClassTable

/-!
# Interface maps

`RuntimeType::GetInterfaceMapData` lists the virtual methods of an interface with the methods that
implement them in a class.  The methods of an interface are numbered in the table of its methods,
where the others are as well, and by their slots, which only the virtual ones have.

* `getInterfaceMapData` : the function.
* `FollowsVTable` : each virtual method is listed with the entry of the vtable for its slot.
* `followsVTable_iff` : when this is so.  The function goes by the position in the table.
-/

namespace Il2Cpp

namespace InterfaceMap

variable {C M : Type*}

/-! ### The function -/

/-- What `MethodInfo` holds of the methods, which are known by their addresses. -/
structure MethodTable (C M : Type*) where
  klass : M → C
  slot : M → ℕ
  /-- `METHOD_ATTRIBUTE_VIRTUAL`. -/
  isVirtual : M → Bool
  /-- `METHOD_ATTRIBUTE_ABSTRACT`. -/
  isAbstract : M → Bool
  /-- `Method::IsAmbiguousMethodInfo`. -/
  isAmbiguousMethodInfo : M → Bool
  /-- `Method::IsEntryPointNotFoundMethodInfo`. -/
  isEntryPointNotFoundMethodInfo : M → Bool
  /-- `Class::IsInterface`. -/
  isInterface : C → Bool

/-- A class with its vtable, whose entries are never NULL. -/
structure ImplementingClass (C M : Type*) where
  self : C
  interfaceOffsets : List (Il2CppRuntimeInterfaceOffsetPair C)
  vtable : List M
  /-- `GetInterfaceInvokeDataFromVTableSlowPath`: where the slots of an interface begin that is
  found by variance.  For other interfaces an exception is raised. -/
  slowPath : C → Option ℕ

/-- `Il2CppReflectionMethod`: a method and the class that it has been asked from. -/
structure Member (C M : Type*) where
  method : M
  refclass : C
  deriving DecidableEq

/-- Where `GetInterfaceInvokeDataFromVTable` finds the slots of an interface. -/
def ImplementingClass.offset [DecidableEq C] (klass : ImplementingClass C M) (iklass : C) :
    Option ℕ :=
  match klass.interfaceOffsets.find? (·.interfaceType = iklass) with
  | some pair => some pair.offset
  | none => klass.slowPath iklass

variable (T : MethodTable C M)

/-- What is written for the method in an entry of the vtable; `none` is NULL. -/
def targetMember (klass : C) (targetMethod : M) : Option (Member C M) :=
  if T.isAmbiguousMethodInfo targetMethod || T.isEntryPointNotFoundMethodInfo targetMethod then none
  -- a default interface method
  else if T.isInterface (T.klass targetMethod) then
    if T.isAbstract targetMethod then none
    else some ⟨targetMethod, T.klass targetMethod⟩
  else some ⟨targetMethod, klass⟩

/-- The loop over the methods, which has come to position `i`: the elements of `methods` with those
of `targets`.  Behind the vtable there is nothing to read. -/
def mapLoop (klass : ImplementingClass C M) (iklass : C) (invokeDataStart : ℕ) :
    ℕ → List M → Option (List (Member C M × Option (Member C M)))
  | _, [] => some []
  | i, method :: methods =>
    if T.isVirtual method then
      match klass.vtable[invokeDataStart + i]? with
      | none => none
      | some targetMethod =>
        (mapLoop klass iklass invokeDataStart (i + 1) methods).map
          ((⟨method, iklass⟩, targetMember T klass.self targetMethod) :: ·)
    else mapLoop klass iklass invokeDataStart (i + 1) methods

/-- `RuntimeType::GetInterfaceMapData`, for an interface with the given table of methods. -/
def getInterfaceMapData [DecidableEq C] (klass : ImplementingClass C M) (iklass : C)
    (methods : List M) : Option (List (Member C M × Option (Member C M))) :=
  if methods.countP T.isVirtual = 0 then some []
  else
    match klass.offset iklass with
    | none => none
    | some invokeDataStart => mapLoop T klass iklass invokeDataStart 0 methods

/-! ### The map -/

/-- The class implements the interface: its vtable has an entry for each slot. -/
def Implements [DecidableEq C] (klass : ImplementingClass C M) (iklass : C) (methods : List M)
    (offset : ℕ) : Prop :=
  klass.offset iklass = some offset ∧
    ∀ method ∈ methods, T.isVirtual method = true → offset + T.slot method < klass.vtable.length

/-- What implements a virtual method, by its slot. -/
def implementation (klass : ImplementingClass C M) (offset : ℕ) (method : M) :
    Option (Member C M) :=
  klass.vtable[offset + T.slot method]?.bind (targetMember T klass.self)

/-- The virtual methods are listed in order, each with what implements it. -/
def FollowsVTable [DecidableEq C] (klass : ImplementingClass C M) (iklass : C) (methods : List M)
    (offset : ℕ) : Prop :=
  getInterfaceMapData T klass iklass methods =
    some ((methods.filter T.isVirtual).map fun method =>
      (⟨method, iklass⟩, implementation T klass offset method))

/-- The virtual methods are at the positions of their slots, but where two entries of the vtable
lead to the same method. -/
def Aligned (klass : ImplementingClass C M) (methods : List M) (offset : ℕ) : Prop :=
  ∀ i method, methods[i]? = some method → T.isVirtual method = true →
    T.slot method = i ∨ ∃ targetMethod, klass.vtable[offset + i]? = some targetMethod ∧
      ∃ targetMethod', klass.vtable[offset + T.slot method]? = some targetMethod' ∧
        targetMember T klass.self targetMethod = targetMember T klass.self targetMethod'

variable {T} {klass : ImplementingClass C M} {iklass : C} {methods : List M} {offset : ℕ}

theorem mapLoop_eq_iff (i : ℕ) :
    mapLoop T klass iklass offset i methods =
        some ((methods.filter T.isVirtual).map fun method =>
          (⟨method, iklass⟩, implementation T klass offset method)) ↔
      ∀ p ∈ methods.zipIdx i, T.isVirtual p.1 = true →
        ∃ targetMethod, klass.vtable[offset + p.2]? = some targetMethod ∧
          targetMember T klass.self targetMethod = implementation T klass offset p.1 := by
  induction methods generalizing i with
  | nil => exact iff_of_true rfl nofun
  | cons method methods ih =>
    rw [mapLoop, List.zipIdx_cons, List.forall_mem_cons]
    split_ifs with hvirtual
    · rw [List.filter_cons_of_pos hvirtual, List.map_cons, forall_prop_of_true hvirtual, ← ih]
      cases klass.vtable[offset + i]? with
      | none => exact iff_of_false nofun fun h => by simp at h
      | some targetMethod =>
        rw [Option.map_eq_some_iff]
        simp [and_comm]
    · rw [List.filter_cons_of_neg hvirtual, ih]
      simp [hvirtual]

theorem countP_eq_zero_iff :
    methods.countP T.isVirtual = 0 ↔ methods.filter T.isVirtual = [] := by
  rw [List.countP_eq_length_filter, List.length_eq_zero_iff]

/-- **When the interface map follows the vtable.** -/
theorem followsVTable_iff [DecidableEq C] (h : Implements T klass iklass methods offset) :
    FollowsVTable T klass iklass methods offset ↔ Aligned T klass methods offset := by
  have hloop : FollowsVTable T klass iklass methods offset ↔
      mapLoop T klass iklass offset 0 methods =
        some ((methods.filter T.isVirtual).map fun method =>
          (⟨method, iklass⟩, implementation T klass offset method)) := by
    rw [FollowsVTable, getInterfaceMapData]
    split_ifs with hzero
    · rw [countP_eq_zero_iff] at hzero
      refine iff_of_true (by rw [hzero, List.map_nil])
        (mapLoop_eq_iff 0 |>.2 fun p hp hvirtual => ?_)
      have hmem : p.1 ∈ methods.filter T.isVirtual :=
        List.mem_filter.2 ⟨List.fst_mem_of_mem_zipIdx hp, hvirtual⟩
      rw [hzero] at hmem
      cases hmem
    · rw [h.1]
  rw [hloop, mapLoop_eq_iff]
  constructor
  · intro hall i method hmethod hvirtual
    obtain ⟨targetMethod, htarget, hmember⟩ :=
      hall (method, i) (List.mem_zipIdx_iff_getElem?.2 hmethod) hvirtual
    have hlt := h.2 method (List.mem_of_getElem? hmethod) hvirtual
    refine .inr ⟨targetMethod, htarget, _, List.getElem?_eq_getElem hlt, ?_⟩
    rw [hmember, implementation, List.getElem?_eq_getElem hlt, Option.bind_some]
  · rintro haligned ⟨method, i⟩ hp hvirtual
    have hmethod := List.mem_zipIdx_iff_getElem?.1 hp
    have hlt := h.2 method (List.mem_of_getElem? hmethod) hvirtual
    rw [implementation]
    rcases haligned i method hmethod hvirtual with rfl | ⟨targetMethod, htarget, target', h', heq⟩
    · rw [List.getElem?_eq_getElem hlt]
      exact ⟨_, rfl, rfl⟩
    · rw [h']
      exact ⟨targetMethod, htarget, heq⟩

/-! ### A static method -/

/-- `interface I { static void S() {} void V(); }` and `class C : I`; the other methods are virtual
methods of `C`. -/
inductive Method
  | s | v | implV | toString
  deriving DecidableEq

/-- The methods; the class `false` is the interface. -/
def staticFirst : MethodTable Bool Method where
  klass := fun
    | .s | .v => false
    | .implV | .toString => true
  slot := fun _ => 0
  isVirtual := (· ≠ .s)
  isAbstract := (· = .v)
  isAmbiguousMethodInfo := fun _ => false
  isEntryPointNotFoundMethodInfo := fun _ => false
  isInterface := (· = false)

/-- The class. -/
def implementingClass : ImplementingClass Bool Method :=
  ⟨true, [⟨false, 0⟩], [.implV, .toString], fun _ => none⟩

/-- Without the static method the map is right. -/
theorem followsVTable_virtual : FollowsVTable staticFirst implementingClass false [.v] 0 := by
  refine (followsVTable_iff ⟨rfl, ?_⟩).2 ?_
  · simp [staticFirst, implementingClass]
  · rintro (_ | i) method hmethod -
    · exact .inl rfl
    · cases hmethod

/-- Behind the static method `V` is listed with `ToString`. -/
theorem not_followsVTable_static :
    getInterfaceMapData staticFirst implementingClass false [.s, .v] =
        some [(⟨.v, false⟩, some ⟨.toString, true⟩)] ∧
      ¬ FollowsVTable staticFirst implementingClass false [.s, .v] 0 := by
  refine ⟨rfl, fun h => ?_⟩
  have hmap := Option.some.inj h
  cases hmap

end InterfaceMap

end Il2Cpp
