import Il2Cpp.Class.ArrayMetadata
import Il2Cpp.Data.Placement

/-!
# The tables of an array class

The slots of the implicit interfaces of a vector are laid out one interface after the other behind
those of `System.Array` (`layOutInterfaces_eq_place`), and each interface has its methods stored in
its own slots.  All of it rests on counts that are stored in 16 bits.

* `TablesConsistent` : disjoint ranges of slots inside of the vtable, true counts, and a dispatch
  that finds the methods of the implicit interfaces.
* `implicitInterfaceCount` : the number of classes that the elements can be seen as.  It grows by
  the factor 5 with each level of nesting.
* `tablesConsistent_iff` : the tables are consistent exactly if the counts fit (`TablesFit`).
-/

namespace Il2Cpp

variable {C : Type*}

namespace ArrayMetadata

/-- A class table with the facts about the core library that array classes rely on. -/
structure ArrayRuntime (C : Type*) extends GroundedTable C where
  definitions_nodup : (implicitDefinitions toClassTable).Nodup
  genericClass_inflated : ∀ d ∈ implicitDefinitions toClassTable, ∀ c,
    (klass (getInflatedGenericInstanceClass d [c])).genericClass = some ⟨d, [c]⟩
  methodCount_inflated : ∀ d ∈ implicitDefinitions toClassTable, ∀ c,
    (klass (getInflatedGenericInstanceClass d [c])).methodCount = (klass d).methodCount
  /-- The methods of an interface know it. -/
  interfaceMethod_klass : ∀ d ∈ implicitDefinitions toClassTable,
    ∀ m ∈ methodsOf toClassTable d, m.klass = d
  /-- They have a slot of their own each, among those of the interface. -/
  interfaceMethod_slot : ∀ d ∈ implicitDefinitions toClassTable,
    ∀ m ∈ methodsOf toClassTable d, m.slot < (klass d).methodCount
  interfaceMethod_inj : ∀ d ∈ implicitDefinitions toClassTable,
    ∀ m ∈ methodsOf toClassTable d, ∀ m' ∈ methodsOf toClassTable d, m.slot = m'.slot → m = m'
  /-- The tables of `System.Array` are consistent. -/
  array_vtable :
    (klass defaults.arrayClass).vtable.length = (klass defaults.arrayClass).vtableCount
  array_interfaceOffsets : (klass defaults.arrayClass).interfaceOffsets.length =
    (klass defaults.arrayClass).interfaceOffsetsCount
  array_disjoint : (klass defaults.arrayClass).interfaceOffsets.Pairwise fun p q =>
    p.offset + (klass p.interfaceType).methodCount ≤ q.offset ∨
      q.offset + (klass q.interfaceType).methodCount ≤ p.offset
  array_inside : ∀ p ∈ (klass defaults.arrayClass).interfaceOffsets,
    p.offset + (klass p.interfaceType).methodCount ≤ (klass defaults.arrayClass).vtableCount
  /-- `System.Array` implements no generic interface by itself. -/
  array_notGeneric : ∀ p ∈ (klass defaults.arrayClass).interfaceOffsets,
    (klass p.interfaceType).genericClass = none

/-! ### The number of implicit interfaces -/

section

variable [DecidableEq C]

/-- The number of classes that the elements of a vector can be seen as. -/
def implicitInterfaceCount (T : GroundedTable C) (elementClass : C) : ℕ :=
  1 + (if isValueClass T.toClassTable elementClass then 0
    else (T.klass elementClass).implementedInterfaces.length) +
  (if _h : (T.klass elementClass).rank = 1 then
      5 * implicitInterfaceCount T (T.klass elementClass).elementClass
    else 0) +
  match _h : (T.klass elementClass).parent with
  | none => 0
  | some parent =>
    if isValueClass T.toClassTable parent then 0 else implicitInterfaceCount T parent
  termination_by T.height elementClass
  decreasing_by
    · exact T.height_elementClass (by omega)
    · exact T.height_parent ‹_›

omit [DecidableEq C] in
theorem length_flatMap_implicitInterfaces (T : ClassTable C) (cs : List C) :
    (cs.flatMap (implicitInterfaces T)).length = 5 * cs.length := by
  induction cs with
  | nil => rfl
  | cons c cs ih =>
    rw [List.flatMap_cons, List.length_append, ih, List.length_cons]
    simp only [implicitInterfaces, implicitDefinitions, List.length_map, List.length_cons,
      List.length_nil]
    omega

theorem length_collect (T : GroundedTable C) (elementClass : C) :
    (collectImplicitArrayInterfacesFromElementClass T elementClass).length =
      implicitInterfaceCount T elementClass := by
  induction elementClass using implicitInterfaceCount.induct T with
  | case1 c ihElement ihParent =>
    rw [collectImplicitArrayInterfacesFromElementClass, implicitInterfaceCount]
    simp only [List.length_append, List.length_singleton]
    congr 1
    · congr 1
      · split <;> rfl
      · split
        · rw [length_flatMap_implicitInterfaces, ihElement ‹_›]
        · rfl
    · cases hp : (T.klass c).parent with
      | none => simp
      | some parent =>
        have ih := ihParent parent hp
        by_cases hvalue : isValueClass T.toClassTable parent <;> simp [hvalue, ih]

end

theorem implicitSlots_eq (T : ClassTable C) :
    implicitSlots T = ((implicitDefinitions T).map fun d => (T.klass d).methodCount).sum := by
  simp [implicitSlots, implicitDefinitions, Nat.add_assoc]

/-! ### The layout of the slots -/

section

variable (T : ArrayRuntime C)

/-- The slots of an interface. -/
def slotRange (T : ClassTable C) (pair : Il2CppRuntimeInterfaceOffsetPair C) : Finset ℕ :=
  Finset.Ico pair.offset (pair.offset + (T.klass pair.interfaceType).methodCount)

theorem layOutInterfaces_eq_place (T : ClassTable C) (start : ℕ) (interfaces : List C) :
    layOutInterfaces T start interfaces =
      (place (fun c => (T.klass c).methodCount) start
        (interfaces.flatMap (implicitInterfaces T))).map fun p => ⟨p.1, p.2⟩ := by
  induction interfaces generalizing start with
  | nil => rfl
  | cons itf interfaces ih =>
    rw [layOutInterfaces, ih]
    rfl

theorem implicitInterfaces_slots (c : C) :
    ((implicitInterfaces T.toClassTable c).map fun c => (T.klass c).methodCount).sum =
      implicitSlots T.toClassTable := by
  rw [implicitSlots_eq, implicitInterfaces, List.map_map]
  congr 1
  exact List.map_congr_left fun d hd => T.methodCount_inflated d hd c

theorem layout_slots (interfaces : List C) :
    ((interfaces.flatMap (implicitInterfaces T.toClassTable)).map
      fun c => (T.klass c).methodCount).sum =
        interfaces.length * implicitSlots T.toClassTable := by
  induction interfaces with
  | nil => simp
  | cons c interfaces ih =>
    rw [List.flatMap_cons, List.map_append, List.sum_append, ih, implicitInterfaces_slots,
      List.length_cons, Nat.succ_mul, Nat.add_comm]

theorem mem_layOutInterfaces {start : ℕ} {interfaces : List C}
    {pair : Il2CppRuntimeInterfaceOffsetPair C}
    (h : pair ∈ layOutInterfaces T.toClassTable start interfaces) :
    (∃ c ∈ interfaces, pair.interfaceType ∈ implicitInterfaces T.toClassTable c) ∧
      start ≤ pair.offset ∧
      pair.offset + (T.klass pair.interfaceType).methodCount ≤
        start + interfaces.length * implicitSlots T.toClassTable := by
  rw [layOutInterfaces_eq_place] at h
  obtain ⟨p, hp, rfl⟩ := List.mem_map.1 h
  have hmem : p.1 ∈ interfaces.flatMap (implicitInterfaces T.toClassTable) := by
    rw [← place_map_fst (fun c => (T.klass c).methodCount) start
      (interfaces.flatMap (implicitInterfaces T.toClassTable))]
    exact List.mem_map_of_mem hp
  refine ⟨List.mem_flatMap.1 hmem, ?_⟩
  rw [← layout_slots]
  exact place_bounds hp

theorem exists_mem_layOutInterfaces (start : ℕ) {interfaces : List C} {c itf : C}
    (hc : c ∈ interfaces) (hitf : itf ∈ implicitInterfaces T.toClassTable c) :
    ∃ pair ∈ layOutInterfaces T.toClassTable start interfaces, pair.interfaceType = itf := by
  have hmem : itf ∈ interfaces.flatMap (implicitInterfaces T.toClassTable) :=
    List.mem_flatMap.2 ⟨c, hc, hitf⟩
  rw [← place_map_fst (fun c => (T.klass c).methodCount) start
    (interfaces.flatMap (implicitInterfaces T.toClassTable))] at hmem
  obtain ⟨p, hp, rfl⟩ := List.mem_map.1 hmem
  rw [layOutInterfaces_eq_place]
  exact ⟨⟨p.1, p.2⟩, List.mem_map_of_mem hp, rfl⟩

theorem layOutInterfaces_pairwise (start : ℕ) (interfaces : List C) :
    (layOutInterfaces T.toClassTable start interfaces).Pairwise fun p q =>
      p.offset + (T.klass p.interfaceType).methodCount ≤ q.offset := by
  rw [layOutInterfaces_eq_place, List.pairwise_map]
  exact place_pairwise (fun c => (T.klass c).methodCount) start _

theorem length_layOutInterfaces (start : ℕ) (interfaces : List C) :
    (layOutInterfaces T.toClassTable start interfaces).length = 5 * interfaces.length := by
  rw [layOutInterfaces_eq_place, List.length_map, place_length, length_flatMap_implicitInterfaces]

end

/-! ### The stores to the tables -/

section

variable [DecidableEq C] (T : ClassTable C) (self : C)

/-- The stores for an interface: the slots and the methods. -/
def interfaceStores (pair : Il2CppRuntimeInterfaceOffsetPair C) : List (ℕ × MethodInfo C) :=
  match (T.klass pair.interfaceType).genericClass with
  | none => []
  | some genericClass =>
    ((genericArrayMethods T).filter
        (·.interfaceMethodDefinition.klass = genericClass.type)).map fun genericArrayMethod =>
      (pair.offset + genericArrayMethod.interfaceMethodDefinition.slot,
        constructGenericArrayMethod T genericArrayMethod self (genericClass.typeArgv.take 1))

omit [DecidableEq C] in
theorem mem_genericArrayMethods {g : GenericArrayMethod C} (h : g ∈ genericArrayMethods T) :
    ∃ d ∈ implicitDefinitions T, g.interfaceMethodDefinition ∈ methodsOf T d := by
  obtain ⟨method, -, heq⟩ := List.mem_filterMap.1 h
  split at heq
  · cases heq
  · rename_i pre d fullName hfind
    dsimp only at heq
    split at heq
    · cases heq
    · rename_i interfaceMethod hlast
      cases heq
      refine ⟨d, ?_, (List.mem_filter.1 (List.mem_of_getLast? hlast)).1⟩
      have hmem := List.mem_of_find?_eq_some hfind
      simp only [genericArrayPrefixes, List.mem_cons, Prod.mk.injEq, List.not_mem_nil] at hmem
      simp only [implicitDefinitions, List.mem_cons, List.not_mem_nil]
      tauto

/-- Stores methods at slots, and to the table of methods from `offset` on. -/
def storeMethods : List (ℕ × MethodInfo C) → Il2CppClass C → ℕ → Il2CppClass C × ℕ
  | [], klass, offset => (klass, offset)
  | (vtableIndex, method) :: rest, klass, offset =>
    storeMethods rest (storeMethod klass offset vtableIndex method) (toUInt16 (offset + 1))

omit [DecidableEq C] in
theorem storeMethods_append (ss ss' : List (ℕ × MethodInfo C)) (klass : Il2CppClass C)
    (offset : ℕ) :
    storeMethods (ss ++ ss') klass offset =
      storeMethods ss' (storeMethods ss klass offset).1 (storeMethods ss klass offset).2 := by
  induction ss generalizing klass offset with
  | nil => rfl
  | cons s ss ih => exact ih _ _

theorem populateInterface_eq (pair : Il2CppRuntimeInterfaceOffsetPair C)
    (genericClass : Il2CppGenericClass C) (gs : List (GenericArrayMethod C))
    (klass : Il2CppClass C) (offset : ℕ) :
    populateInterface T self pair genericClass gs klass offset =
      storeMethods ((gs.filter (·.interfaceMethodDefinition.klass = genericClass.type)).map
        fun genericArrayMethod =>
          (pair.offset + genericArrayMethod.interfaceMethodDefinition.slot,
            constructGenericArrayMethod T genericArrayMethod self
              (genericClass.typeArgv.take 1))) klass offset := by
  induction gs generalizing klass offset with
  | nil => rfl
  | cons g gs ih =>
    rw [populateInterface]
    by_cases h : g.interfaceMethodDefinition.klass = genericClass.type
    · rw [if_neg (not_not.2 h), ih, List.filter_cons_of_pos (by simpa using h)]
      rfl
    · rw [if_pos h, ih, List.filter_cons_of_neg (by simpa using h)]

theorem populateInterfaces_eq (pairs : List (Il2CppRuntimeInterfaceOffsetPair C))
    (klass : Il2CppClass C) (offset : ℕ) :
    populateInterfaces T self pairs klass offset =
      (storeMethods (pairs.flatMap (interfaceStores T self)) klass offset).1 := by
  induction pairs generalizing klass offset with
  | nil => rfl
  | cons pair pairs ih =>
    rw [populateInterfaces, List.flatMap_cons, storeMethods_append, interfaceStores]
    cases (T.klass pair.interfaceType).genericClass with
    | none => exact ih _ _
    | some genericClass => simp only [ih, populateInterface_eq]

end

section

variable (klass : Il2CppClass C) (offset : ℕ) (ss : List (ℕ × MethodInfo C))

theorem storeMethods_frame :
    (storeMethods ss klass offset).1 =
      { klass with
        methods := (storeMethods ss klass offset).1.methods
        vtable := (storeMethods ss klass offset).1.vtable } := by
  induction ss generalizing klass offset with
  | nil => rfl
  | cons s ss ih => exact (ih _ _).trans rfl

theorem storeMethods_vtable :
    (storeMethods ss klass offset).1.vtable =
      storeAll klass.vtable (ss.map fun s => (s.1, ⟨s.2.virtualMethodPointer, some s.2⟩)) := by
  induction ss generalizing klass offset with
  | nil => rfl
  | cons s ss ih => exact ih _ _

theorem storeMethods_length :
    (storeMethods ss klass offset).1.methods.length = klass.methods.length := by
  induction ss generalizing klass offset with
  | nil => rfl
  | cons s ss ih => exact (ih _ _).trans (List.length_set ..)

theorem storeMethods_methods (h : offset + ss.length < 2 ^ 16) :
    (storeMethods ss klass offset).1.methods =
      storeAll klass.methods (ss.mapIdx fun j s => (offset + j, some s.2)) := by
  induction ss generalizing klass offset with
  | nil => rfl
  | cons s ss ih =>
    rw [List.length_cons] at h
    have hoffset : toUInt16 (offset + 1) = offset + 1 := Nat.mod_eq_of_lt (by omega)
    have hshift : (fun j (s : ℕ × MethodInfo C) => (offset + (j + 1), some s.2)) =
        fun j s => (offset + 1 + j, some s.2) := by
      funext j s
      rw [Nat.add_right_comm, Nat.add_assoc]
    rw [storeMethods, hoffset, ih _ _ (by omega), List.mapIdx_cons, hshift]
    rfl

theorem storeMethods_ne_none (h : offset + ss.length < 2 ^ 16)
    (hroom : klass.methods.length = offset + ss.length)
    (hbefore : ∀ i < offset, klass.methods[i]? ≠ some none) :
    none ∉ (storeMethods ss klass offset).1.methods := by
  rw [storeMethods_methods klass offset ss h]
  intro hmem
  obtain ⟨i, hi, hnone⟩ := List.mem_iff_getElem.1 hmem
  rw [storeAll_length, hroom] at hi
  have hnone' := List.getElem?_eq_some_iff.2 ⟨_, hnone⟩
  rcases storeAll_getElem? (hroom ▸ hi) (ss.mapIdx fun j s => (offset + j, some s.2)) with
    ⟨hne, heq⟩ | ⟨s, hs, -, heq⟩
  · by_cases hlt : i < offset
    · exact hbefore i hlt (heq.symm.trans hnone')
    · have hj : i - offset < ss.length := by omega
      refine hne (offset + (i - offset), some ss[i - offset].2) ?_ (by dsimp only; omega)
      exact List.mem_mapIdx.2 ⟨i - offset, hj, rfl⟩
  · obtain ⟨j, hj, rfl⟩ := List.mem_mapIdx.1 hs
    rw [heq] at hnone'
    cases hnone'

end

section

variable [DecidableEq C] (T : ArrayRuntime C) (self : C)

/-- The generic methods that go to an interface. -/
def interfaceMethodCount (T : ClassTable C) (itf : C) : ℕ :=
  match (T.klass itf).genericClass with
  | none => 0
  | some genericClass =>
    ((genericArrayMethods T).map (·.interfaceMethodDefinition.klass)).count genericClass.type

theorem length_interfaceStores (T : ClassTable C) (self : C)
    (pair : Il2CppRuntimeInterfaceOffsetPair C) :
    (interfaceStores T self pair).length = interfaceMethodCount T pair.interfaceType := by
  rw [interfaceStores, interfaceMethodCount]
  cases (T.klass pair.interfaceType).genericClass with
  | none => rfl
  | some genericClass =>
    simp only [List.length_map, List.count_eq_countP, List.countP_map,
      ← List.countP_eq_length_filter]
    rfl

omit [DecidableEq C] in
theorem genericArrayMethod_klass {g : GenericArrayMethod C}
    (h : g ∈ genericArrayMethods T.toClassTable) :
    g.interfaceMethodDefinition.klass ∈ implicitDefinitions T.toClassTable := by
  obtain ⟨d, hd, hm⟩ := mem_genericArrayMethods T.toClassTable h
  rw [T.interfaceMethod_klass d hd _ hm]
  exact hd

theorem implicitInterfaces_methods (c : C) :
    ((implicitInterfaces T.toClassTable c).map (interfaceMethodCount T.toClassTable)).sum =
      (genericArrayMethods T.toClassTable).length := by
  have hcount (d : C) (hd : d ∈ implicitDefinitions T.toClassTable) :
      (interfaceMethodCount T.toClassTable ∘ (T.getInflatedGenericInstanceClass · [c])) d =
        ((genericArrayMethods T.toClassTable).map (·.interfaceMethodDefinition.klass)).count d := by
    rw [Function.comp_apply, interfaceMethodCount, T.genericClass_inflated d hd]
  rw [implicitInterfaces, List.map_map, List.map_congr_left hcount,
    ← List.sum_toFinset _ T.definitions_nodup]
  have hcard := Multiset.sum_count_eq_card (s := (implicitDefinitions T.toClassTable).toFinset)
    (m := Multiset.ofList
      ((genericArrayMethods T.toClassTable).map (·.interfaceMethodDefinition.klass))) ?_
  · simpa only [Multiset.coe_count, Multiset.coe_card, List.length_map] using hcard
  intro k hk
  obtain ⟨g, hg, rfl⟩ := List.mem_map.1 (Multiset.mem_coe.1 hk)
  exact List.mem_toFinset.2 (genericArrayMethod_klass T hg)

theorem length_layoutStores (start : ℕ) (interfaces : List C) :
    ((layOutInterfaces T.toClassTable start interfaces).flatMap
      (interfaceStores T.toClassTable self)).length =
        interfaces.length * (genericArrayMethods T.toClassTable).length := by
  rw [List.length_flatMap, layOutInterfaces_eq_place, List.map_map]
  simp only [Function.comp_def, length_interfaceStores]
  rw [← Function.comp_def (interfaceMethodCount T.toClassTable) Prod.fst, ← List.map_map,
    place_map_fst]
  induction interfaces with
  | nil => simp
  | cons c interfaces ih =>
    rw [List.flatMap_cons, List.map_append, List.sum_append, ih, implicitInterfaces_methods,
      List.length_cons, Nat.succ_mul, Nat.add_comm]

end

/-! ### The tables of an array class -/

section

variable [DecidableEq C]

/-- The number of classes that the elements of an array class can be seen as. -/
def arrayInterfaceCount (T : GroundedTable C) (elementClass : C) (rank : ℕ) (bounded : Bool) : ℕ :=
  if rank ≤ 1 && !bounded then implicitInterfaceCount T elementClass else 0

/-- The counts of an array class fit into the fields that they are stored in, and its rank into the
loop that sets up the parameters of its constructors. -/
structure TablesFit (T : GroundedTable C) (elementClass : C) (rank : ℕ) (bounded : Bool) :
    Prop where
  rank_lt : rank % 2 ^ 8 < 2 ^ 7
  vtable_lt : (T.klass T.defaults.arrayClass).vtableCount +
    arrayInterfaceCount T elementClass rank bounded * implicitSlots T.toClassTable < 2 ^ 16
  interfaceOffsets_lt : (T.klass T.defaults.arrayClass).interfaceOffsetsCount +
    5 * arrayInterfaceCount T elementClass rank bounded < 2 ^ 16
  methods_lt : 3 + (if rank % 2 ^ 8 > 1 then 2 else 1) +
    arrayInterfaceCount T elementClass rank bounded * (genericArrayMethods T.toClassTable).length <
      2 ^ 16

/-- The tables of the class `k` at the address `address` are consistent. -/
structure TablesConsistent (T : GroundedTable C) (address : C) (k : Il2CppClass C) : Prop where
  disjoint : k.interfaceOffsets.Pairwise fun p q =>
    Disjoint (slotRange T.toClassTable p) (slotRange T.toClassTable q)
  inside : ∀ p ∈ k.interfaceOffsets, ∀ i ∈ slotRange T.toClassTable p, i < k.vtable.length
  vtableCount : k.vtableCount = k.vtable.length
  interfaceOffsetsCount : k.interfaceOffsetsCount = k.interfaceOffsets.length
  methodCount : k.methodCount = k.methods.length
  methods : none ∉ k.methods
  /-- A call of a method of an implicit interface goes to a slot of this interface. -/
  dispatch : ∀ c ∈ collectImplicitArrayInterfaces T k, ∀ d ∈ implicitDefinitions T.toClassTable,
    ∀ slot < (T.klass d).methodCount, ∀ slowPath,
      ∃ pair ∈ k.interfaceOffsets,
        pair.interfaceType = T.getInflatedGenericInstanceClass d [c] ∧
        getInterfaceInvokeDataFromVTable k pair.interfaceType slot slowPath =
          k.vtable[pair.offset + slot]?
  /-- It finds the method of `System.Array` that implements the method of the interface. -/
  implemented : ∀ c ∈ collectImplicitArrayInterfaces T k,
    ∀ g ∈ genericArrayMethods T.toClassTable, ∀ slowPath,
      ∃ data, getInterfaceInvokeDataFromVTable k
          (T.getInflatedGenericInstanceClass g.interfaceMethodDefinition.klass [c])
          g.interfaceMethodDefinition.slot slowPath = some data ∧
        ∃ g' ∈ genericArrayMethods T.toClassTable,
          g'.interfaceMethodDefinition = g.interfaceMethodDefinition ∧
          data.method = some (constructGenericArrayMethod T.toClassTable g' address [c])

/-- The class of an array after its first use. -/
def arrayClassInUse (T : GroundedTable C) (self elementClass : C) (rank : ℕ) (bounded : Bool) :
    Option (Il2CppClass C) :=
  setupArrayVTable T self (getBoundedArrayClass T elementClass rank bounded)

section

variable (T : GroundedTable C) (self elementClass : C) (rank : ℕ) (bounded : Bool)

/-- The classes that the elements of an array class can be seen as. -/
def arrayInterfaces : List C :=
  if rank ≤ 1 && !bounded then collectImplicitArrayInterfacesFromElementClass T elementClass
  else []

theorem length_arrayInterfaces :
    (arrayInterfaces T elementClass rank bounded).length =
      arrayInterfaceCount T elementClass rank bounded := by
  rw [arrayInterfaces, arrayInterfaceCount]
  split
  · exact length_collect T elementClass
  · rfl

/-- The class of an array with its slots laid out, before its methods are set up. -/
def laidOutArrayClass : Il2CppClass C :=
  setupArrayVTableAndInterfaceOffsets T
    (setupCastClass T.toClassTable (getBoundedArrayClass T elementClass rank bounded))

theorem laidOut_elementClass :
    (laidOutArrayClass T elementClass rank bounded).elementClass = elementClass := rfl

theorem laidOut_type : (laidOutArrayClass T elementClass rank bounded).type =
    if rank ≤ 1 && !bounded then .szarray else .array := by
  change (if (decide (rank > 1) || _) = true then TypeTag.array else .szarray) = _
  by_cases h : rank > 1
  · simp [h]
  · simp only [h, Nat.not_lt.1 h]
    cases bounded <;> rfl

theorem collect_laidOut : collectImplicitArrayInterfaces T
    (laidOutArrayClass T elementClass rank bounded) =
      arrayInterfaces T elementClass rank bounded := by
  rw [collectImplicitArrayInterfaces, laidOut_type, laidOut_elementClass, arrayInterfaces]
  by_cases h : (decide (rank ≤ 1) && !bounded) = true <;> simp [h]

theorem collect_of_vector (klass : Il2CppClass C) :
    (if klass.type = .szarray then collectImplicitArrayInterfaces T klass else []) =
      collectImplicitArrayInterfaces T klass := by
  rw [collectImplicitArrayInterfaces]
  split <;> simp_all

theorem vector_eq : (decide (rank ≤ 1) && !(if rank > 1 then false else bounded)) =
    (decide (rank ≤ 1) && !bounded) := by
  by_cases h : rank > 1
  · simp [Nat.not_le.2 h]
  · rw [if_neg h]

theorem laidOut_vtableCount : (laidOutArrayClass T elementClass rank bounded).vtableCount =
    toUInt16 ((T.klass T.defaults.arrayClass).vtableCount +
      arrayInterfaceCount T elementClass rank bounded * implicitSlots T.toClassTable) := by
  rw [← length_arrayInterfaces, arrayInterfaces, ← vector_eq]
  rfl

theorem laidOut_vtable : (laidOutArrayClass T elementClass rank bounded).vtable.length =
    min (T.klass T.defaults.arrayClass).vtableCount
      (T.klass T.defaults.arrayClass).vtable.length +
    arrayInterfaceCount T elementClass rank bounded * implicitSlots T.toClassTable := by
  rw [← length_arrayInterfaces, arrayInterfaces, ← vector_eq]
  simp only [laidOutArrayClass, setupArrayVTableAndInterfaceOffsets, setupCastClass,
    getBoundedArrayClass, List.length_append, List.length_take, List.length_drop,
    List.length_replicate, Nat.add_sub_cancel_left]

theorem laidOut_interfaceOffsets :
    (laidOutArrayClass T elementClass rank bounded).interfaceOffsets =
      (T.klass T.defaults.arrayClass).interfaceOffsets.take
        (T.klass T.defaults.arrayClass).interfaceOffsetsCount ++
      layOutInterfaces T.toClassTable (T.klass T.defaults.arrayClass).vtableCount
        (arrayInterfaces T elementClass rank bounded) := by
  rw [← collect_laidOut]
  simp only [laidOutArrayClass, setupArrayVTableAndInterfaceOffsets, collect_of_vector]
  rfl

theorem laidOut_interfaceOffsetsCount :
    (laidOutArrayClass T elementClass rank bounded).interfaceOffsetsCount =
      toUInt16 ((T.klass T.defaults.arrayClass).interfaceOffsetsCount +
        5 * arrayInterfaceCount T elementClass rank bounded) := by
  rw [← length_arrayInterfaces, ← collect_laidOut]
  simp only [laidOutArrayClass, setupArrayVTableAndInterfaceOffsets, collect_of_vector]
  rfl

omit [DecidableEq C] in
theorem arrayMethods_spec {r : ℕ} (hr : r < 2 ^ 8) :
    if r < 2 ^ 7 then ∃ ms, arrayMethods self r = some ms ∧
      ms.length = 3 + if r > 1 then 2 else 1
    else arrayMethods self r = none := by
  have hlengths : fillParameters r = some r := if_pos (by omega)
  simp only [arrayMethods, arrayConstructors, hlengths, Option.bind_some]
  split
  · rename_i hlt
    have hbounds : fillParameters (2 * r) = some (2 * r) := if_pos (by omega)
    split
    · rw [hbounds]
      exact ⟨_, rfl, rfl⟩
    · exact ⟨_, rfl, rfl⟩
  · have hbounds : fillParameters (2 * r) = none := if_neg (by omega)
    rw [if_pos (by omega), hbounds]
    rfl

/-- The class before the methods of the interfaces are stored. -/
def unpopulatedArrayClass (ms : List (MethodInfo C)) : Il2CppClass C :=
  let methodCount := 3 + (if rank % 2 ^ 8 > 1 then 2 else 1) +
    arrayInterfaceCount T elementClass rank bounded * (genericArrayMethods T.toClassTable).length
  { laidOutArrayClass T elementClass rank bounded with
    methodCount := toUInt16 methodCount
    methods := ms.map some ++ List.replicate (methodCount - ms.length) none }

/-- The stores of the methods of the interfaces. -/
def arrayStores : List (ℕ × MethodInfo C) :=
  ((laidOutArrayClass T elementClass rank bounded).interfaceOffsets.take
    (laidOutArrayClass T elementClass rank bounded).interfaceOffsetsCount).flatMap
      (interfaceStores T.toClassTable self)

theorem arrayClassInUse_eq : arrayClassInUse T self elementClass rank bounded =
    (arrayMethods self (rank % 2 ^ 8)).map fun ms =>
      (storeMethods (arrayStores T self elementClass rank bounded)
        (unpopulatedArrayClass T elementClass rank bounded ms) (toUInt16 ms.length)).1 := by
  rw [arrayClassInUse, setupArrayVTable, setupArrayMethods]
  congr 1
  funext ms
  rw [populateArrayGenericMethods, populateInterfaces_eq]
  rw [unpopulatedArrayClass, ← length_arrayInterfaces, ← collect_laidOut]
  rfl

end

section

variable (T : ArrayRuntime C) (self elementClass : C) (rank : ℕ) (bounded : Bool)

theorem length_vtable :
    (laidOutArrayClass T.toGroundedTable elementClass rank bounded).vtable.length =
      (T.klass T.defaults.arrayClass).vtableCount +
        arrayInterfaceCount T.toGroundedTable elementClass rank bounded *
          implicitSlots T.toClassTable := by
  rw [laidOut_vtable, T.array_vtable, Nat.min_self]

theorem interfaceOffsets_eq :
    (laidOutArrayClass T.toGroundedTable elementClass rank bounded).interfaceOffsets =
      (T.klass T.defaults.arrayClass).interfaceOffsets ++
        layOutInterfaces T.toClassTable (T.klass T.defaults.arrayClass).vtableCount
          (arrayInterfaces T.toGroundedTable elementClass rank bounded) := by
  rw [laidOut_interfaceOffsets, ← T.array_interfaceOffsets, List.take_length]

theorem length_interfaceOffsets :
    (laidOutArrayClass T.toGroundedTable elementClass rank bounded).interfaceOffsets.length =
      (T.klass T.defaults.arrayClass).interfaceOffsetsCount +
        5 * arrayInterfaceCount T.toGroundedTable elementClass rank bounded := by
  rw [interfaceOffsets_eq, List.length_append, length_layOutInterfaces, T.array_interfaceOffsets,
    length_arrayInterfaces]

variable {elementClass rank bounded}

theorem mem_interfaceOffsets {pair : Il2CppRuntimeInterfaceOffsetPair C}
    (h : pair ∈ (laidOutArrayClass T.toGroundedTable elementClass rank bounded).interfaceOffsets) :
    (T.klass pair.interfaceType).genericClass = none ∨
      ∃ d ∈ implicitDefinitions T.toClassTable, ∃ c,
        (T.klass pair.interfaceType).genericClass = some ⟨d, [c]⟩ ∧
        (T.klass pair.interfaceType).methodCount = (T.klass d).methodCount := by
  rw [interfaceOffsets_eq] at h
  rcases List.mem_append.1 h with h | h
  · exact .inl (T.array_notGeneric pair h)
  · obtain ⟨⟨c, -, hitf⟩, -⟩ := mem_layOutInterfaces T h
    obtain ⟨d, hd, heq⟩ := List.mem_map.1 hitf
    rw [← heq]
    exact .inr ⟨d, hd, c, T.genericClass_inflated d hd c, T.methodCount_inflated d hd c⟩

theorem interfaceOffsets_inside {pair : Il2CppRuntimeInterfaceOffsetPair C}
    (h : pair ∈ (laidOutArrayClass T.toGroundedTable elementClass rank bounded).interfaceOffsets) :
    pair.offset + (T.klass pair.interfaceType).methodCount ≤
      (laidOutArrayClass T.toGroundedTable elementClass rank bounded).vtable.length := by
  rw [length_vtable]
  rw [interfaceOffsets_eq] at h
  rcases List.mem_append.1 h with h | h
  · exact (T.array_inside pair h).trans (Nat.le_add_right _ _)
  · rw [← length_arrayInterfaces]
    exact (mem_layOutInterfaces T h).2.2

variable (elementClass rank bounded) in
theorem interfaceOffsets_disjoint :
    (laidOutArrayClass T.toGroundedTable elementClass rank bounded).interfaceOffsets.Pairwise
      fun p q => Disjoint (slotRange T.toClassTable p) (slotRange T.toClassTable q) := by
  have hdisjoint {p q : Il2CppRuntimeInterfaceOffsetPair C}
      (h : p.offset + (T.klass p.interfaceType).methodCount ≤ q.offset ∨
        q.offset + (T.klass q.interfaceType).methodCount ≤ p.offset) :
      Disjoint (slotRange T.toClassTable p) (slotRange T.toClassTable q) := by
    rw [Finset.disjoint_left]
    intro i hp hq
    rw [slotRange, Finset.mem_Ico] at hp hq
    omega
  rw [interfaceOffsets_eq]
  refine List.pairwise_append.2 ⟨T.array_disjoint.imp hdisjoint,
    (layOutInterfaces_pairwise T _ _).imp fun h => hdisjoint (.inl h), ?_⟩
  intro p hp q hq
  exact hdisjoint (.inl ((T.array_inside p hp).trans (mem_layOutInterfaces T hq).2.1))

theorem exists_pair {k : Il2CppClass C}
    (hoffsets : k.interfaceOffsets =
      (laidOutArrayClass T.toGroundedTable elementClass rank bounded).interfaceOffsets)
    (hcount : k.interfaceOffsetsCount = k.interfaceOffsets.length)
    {c d : C} (hc : c ∈ arrayInterfaces T.toGroundedTable elementClass rank bounded)
    (hd : d ∈ implicitDefinitions T.toClassTable) :
    ∃ pair ∈ k.interfaceOffsets,
      pair.interfaceType = T.getInflatedGenericInstanceClass d [c] ∧
      ∀ slot slowPath, getInterfaceInvokeDataFromVTable k pair.interfaceType slot slowPath =
        k.vtable[pair.offset + slot]? := by
  obtain ⟨pair, hpair, hitf⟩ := exists_mem_layOutInterfaces T
    (T.klass T.defaults.arrayClass).vtableCount hc
    (List.mem_map_of_mem (f := (T.getInflatedGenericInstanceClass · [c])) hd)
  have hmem : pair ∈ k.interfaceOffsets := by
    rw [hoffsets, interfaceOffsets_eq]
    exact List.mem_append_right _ hpair
  cases hfind : k.interfaceOffsets.find?
      (·.interfaceType = T.getInflatedGenericInstanceClass d [c]) with
  | none => exact absurd hitf (by simpa using List.find?_eq_none.1 hfind pair hmem)
  | some found =>
    have htype : found.interfaceType = T.getInflatedGenericInstanceClass d [c] := by
      simpa using List.find?_some hfind
    refine ⟨found, List.mem_of_find?_eq_some hfind, htype, fun slot slowPath => ?_⟩
    rw [getInterfaceInvokeDataFromVTable, hcount, List.take_length, htype, hfind]

theorem mem_arrayStores {s : ℕ × MethodInfo C}
    (hs : s ∈ arrayStores T.toGroundedTable self elementClass rank bounded)
    {pair : Il2CppRuntimeInterfaceOffsetPair C}
    (hpair : pair ∈
      (laidOutArrayClass T.toGroundedTable elementClass rank bounded).interfaceOffsets)
    {c d : C} (hgeneric : (T.klass pair.interfaceType).genericClass = some ⟨d, [c]⟩)
    {slot : ℕ} (hslot : pair.offset + slot ∈ slotRange T.toClassTable pair)
    (hs' : s.1 = pair.offset + slot) :
    ∃ g' ∈ genericArrayMethods T.toClassTable, g'.interfaceMethodDefinition.klass = d ∧
      g'.interfaceMethodDefinition.slot = slot ∧
      s.2 = constructGenericArrayMethod T.toClassTable g' self [c] := by
  obtain ⟨pair', hpair', hs⟩ := List.mem_flatMap.1 hs
  have hpair' := List.mem_of_mem_take hpair'
  rw [interfaceStores] at hs
  rcases mem_interfaceOffsets T hpair' with hnone | ⟨d', hd', c', hgeneric', hcount⟩
  · rw [hnone] at hs
    cases hs
  rw [hgeneric'] at hs
  obtain ⟨g', hg'', rfl⟩ := List.mem_map.1 hs
  obtain ⟨hg', hklass'⟩ := List.mem_filter.1 hg''
  have hklass : g'.interfaceMethodDefinition.klass = d' := by simpa using hklass'
  have hslot' : pair'.offset + g'.interfaceMethodDefinition.slot ∈
      slotRange T.toClassTable pair' := by
    obtain ⟨d'', hd'', hm⟩ := mem_genericArrayMethods T.toClassTable hg'
    have hlt := T.interfaceMethod_slot d'' hd'' _ hm
    rw [← T.interfaceMethod_klass d'' hd'' _ hm, hklass, ← hcount] at hlt
    rw [slotRange, Finset.mem_Ico]
    omega
  -- the slot is in the ranges of both entries, which are one then
  have heq : pair' = pair := by
    by_contra hne
    have hsymm : Std.Symm fun p q : Il2CppRuntimeInterfaceOffsetPair C =>
      Disjoint (slotRange T.toClassTable p) (slotRange T.toClassTable q) := ⟨fun _ _ h => h.symm⟩
    have hdisjoint :=
      (interfaceOffsets_disjoint T elementClass rank bounded).forall hpair' hpair hne
    have hs' : pair'.offset + g'.interfaceMethodDefinition.slot = pair.offset + slot := hs'
    exact Finset.disjoint_left.1 hdisjoint hslot' (by rwa [hs'])
  subst heq
  rw [hgeneric'] at hgeneric
  cases hgeneric
  exact ⟨g', hg', hklass, by simpa using hs', rfl⟩

variable (elementClass rank bounded) in
theorem length_arrayStores
    (h : (T.klass T.defaults.arrayClass).interfaceOffsetsCount +
      5 * arrayInterfaceCount T.toGroundedTable elementClass rank bounded < 2 ^ 16) :
    (laidOutArrayClass T.toGroundedTable elementClass rank bounded).interfaceOffsetsCount =
        (laidOutArrayClass T.toGroundedTable elementClass rank bounded).interfaceOffsets.length ∧
      (arrayStores T.toGroundedTable self elementClass rank bounded).length =
        arrayInterfaceCount T.toGroundedTable elementClass rank bounded *
          (genericArrayMethods T.toClassTable).length := by
  have hcount : (laidOutArrayClass T.toGroundedTable elementClass rank
      bounded).interfaceOffsetsCount = (laidOutArrayClass T.toGroundedTable elementClass rank
      bounded).interfaceOffsets.length := by
    rw [laidOut_interfaceOffsetsCount, length_interfaceOffsets]
    exact Nat.mod_eq_of_lt h
  refine ⟨hcount, ?_⟩
  rw [arrayStores, hcount, List.take_length, interfaceOffsets_eq, List.flatMap_append,
    List.length_append, length_layoutStores, length_arrayInterfaces, Nat.add_eq_right,
    List.length_eq_zero_iff, List.flatMap_eq_nil_iff]
  intro p hp
  rw [interfaceStores, T.array_notGeneric p hp]

section

variable (elementClass rank bounded) (ms : List (MethodInfo C)) (offset : ℕ)

theorem storeMethods_interfaceOffsets :
    (storeMethods (arrayStores T.toGroundedTable self elementClass rank bounded)
        (unpopulatedArrayClass T.toGroundedTable elementClass rank bounded ms)
        offset).1.interfaceOffsets =
      (laidOutArrayClass T.toGroundedTable elementClass rank bounded).interfaceOffsets := by
  rw [storeMethods_frame]
  rfl

theorem storeMethods_vtable_length :
    (storeMethods (arrayStores T.toGroundedTable self elementClass rank bounded)
        (unpopulatedArrayClass T.toGroundedTable elementClass rank bounded ms)
        offset).1.vtable.length =
      (laidOutArrayClass T.toGroundedTable elementClass rank bounded).vtable.length := by
  rw [storeMethods_vtable, storeAll_length]
  rfl

end

theorem exists_implementation {k : Il2CppClass C}
    (hoffsets : k.interfaceOffsets =
      (laidOutArrayClass T.toGroundedTable elementClass rank bounded).interfaceOffsets)
    (hcount : (laidOutArrayClass T.toGroundedTable elementClass rank
      bounded).interfaceOffsetsCount = (laidOutArrayClass T.toGroundedTable elementClass rank
      bounded).interfaceOffsets.length)
    (hvtable : k.vtable = storeAll
      (laidOutArrayClass T.toGroundedTable elementClass rank bounded).vtable
      ((arrayStores T.toGroundedTable self elementClass rank bounded).map fun s =>
        (s.1, ⟨s.2.virtualMethodPointer, some s.2⟩)))
    {pair : Il2CppRuntimeInterfaceOffsetPair C} (hpair : pair ∈ k.interfaceOffsets)
    {g : GenericArrayMethod C} (hg : g ∈ genericArrayMethods T.toClassTable) {c : C}
    (hitf : pair.interfaceType =
      T.getInflatedGenericInstanceClass g.interfaceMethodDefinition.klass [c]) :
    ∃ data, k.vtable[pair.offset + g.interfaceMethodDefinition.slot]? = some data ∧
      ∃ g' ∈ genericArrayMethods T.toClassTable,
        g'.interfaceMethodDefinition = g.interfaceMethodDefinition ∧
        data.method = some (constructGenericArrayMethod T.toClassTable g' self [c]) := by
  rw [hoffsets] at hpair
  obtain ⟨d, hd, hm⟩ := mem_genericArrayMethods T.toClassTable hg
  have hklass := T.interfaceMethod_klass d hd _ hm
  have hgeneric : (T.klass pair.interfaceType).genericClass = some ⟨d, [c]⟩ := by
    rw [hitf, hklass, T.genericClass_inflated d hd]
  have hslot : pair.offset + g.interfaceMethodDefinition.slot ∈
      slotRange T.toClassTable pair := by
    have hlt := T.interfaceMethod_slot d hd _ hm
    rw [slotRange, Finset.mem_Ico, hitf, hklass, T.methodCount_inflated d hd]
    omega
  have hinside : pair.offset + g.interfaceMethodDefinition.slot <
      (laidOutArrayClass T.toGroundedTable elementClass rank bounded).vtable.length :=
    (Finset.mem_Ico.1 hslot).2.trans_le (interfaceOffsets_inside T hpair)
  rw [hvtable]
  rcases storeAll_getElem? hinside ((arrayStores T.toGroundedTable self elementClass rank
      bounded).map fun s => (s.1, ⟨s.2.virtualMethodPointer, some s.2⟩)) with
    ⟨hne, -⟩ | ⟨s, hs, hs', heq⟩
  · -- the method itself has been stored there
    have hmem : (pair.offset + g.interfaceMethodDefinition.slot,
        constructGenericArrayMethod T.toClassTable g self [c]) ∈
          arrayStores T.toGroundedTable self elementClass rank bounded := by
      refine List.mem_flatMap.2 ⟨pair, by rwa [hcount, List.take_length], ?_⟩
      rw [interfaceStores, hgeneric]
      exact List.mem_map.2 ⟨g, List.mem_filter.2 ⟨hg, by simpa using hklass⟩, rfl⟩
    exact (hne _ (List.mem_map_of_mem hmem) rfl).elim
  · obtain ⟨store, hstore, rfl⟩ := List.mem_map.1 hs
    obtain ⟨g', hg', hklass', hslot', heq'⟩ :=
      mem_arrayStores T self hstore hpair hgeneric hslot hs'
    refine ⟨_, heq, g', hg', ?_, congrArg some heq'⟩
    obtain ⟨d', hd', hm'⟩ := mem_genericArrayMethods T.toClassTable hg'
    have hdd' : d' = d := (T.interfaceMethod_klass d' hd' _ hm').symm.trans hklass'
    exact T.interfaceMethod_inj d hd _ (hdd' ▸ hm') _ hm hslot'

theorem TablesFit.consistent (h : TablesFit T.toGroundedTable elementClass rank bounded) :
    ∃ k, arrayClassInUse T.toGroundedTable self elementClass rank bounded = some k ∧
      TablesConsistent T.toGroundedTable self k := by
  obtain ⟨ms, hms, hmsLength⟩ : ∃ ms, arrayMethods self (rank % 2 ^ 8) = some ms ∧
      ms.length = 3 + if rank % 2 ^ 8 > 1 then 2 else 1 := by
    have := arrayMethods_spec self (Nat.mod_lt rank (by decide : 0 < 2 ^ 8))
    rwa [if_pos h.rank_lt] at this
  obtain ⟨hcount, hstores⟩ := length_arrayStores T self elementClass rank bounded h.interfaceOffsets_lt
  have hlt := h.methods_lt
  rw [← hmsLength, ← hstores] at hlt
  have hoffset : toUInt16 ms.length = ms.length := Nat.mod_eq_of_lt (by omega)
  refine ⟨_, by rw [arrayClassInUse_eq, hms]; rfl, ?_⟩
  dsimp only
  rw [hoffset]
  have hframe := storeMethods_frame
    (unpopulatedArrayClass T.toGroundedTable elementClass rank bounded ms) ms.length
    (arrayStores T.toGroundedTable self elementClass rank bounded)
  have hvtable := storeMethods_vtable
    (unpopulatedArrayClass T.toGroundedTable elementClass rank bounded ms) ms.length
    (arrayStores T.toGroundedTable self elementClass rank bounded)
  have hmethods := storeMethods_methods
    (unpopulatedArrayClass T.toGroundedTable elementClass rank bounded ms) ms.length
    (arrayStores T.toGroundedTable self elementClass rank bounded) hlt
  have hnone := storeMethods_ne_none
    (unpopulatedArrayClass T.toGroundedTable elementClass rank bounded ms) ms.length
    (arrayStores T.toGroundedTable self elementClass rank bounded) hlt
  have hoffsets := storeMethods_interfaceOffsets T self elementClass rank bounded ms ms.length
  have hlength := storeMethods_vtable_length T self elementClass rank bounded ms ms.length
  generalize (storeMethods (arrayStores T.toGroundedTable self elementClass rank bounded)
    (unpopulatedArrayClass T.toGroundedTable elementClass rank bounded ms) ms.length).1 = k
    at hframe hvtable hmethods hnone hoffsets hlength
  have hoffsetsCount : k.interfaceOffsetsCount = k.interfaceOffsets.length := by
    rw [hoffsets, ← hcount, hframe]
    rfl
  have hcollect : collectImplicitArrayInterfaces T.toGroundedTable k =
      arrayInterfaces T.toGroundedTable elementClass rank bounded := by
    rw [← collect_laidOut, hframe]
    rfl
  have hroom : (unpopulatedArrayClass T.toGroundedTable elementClass rank bounded
      ms).methods.length = ms.length +
        (arrayStores T.toGroundedTable self elementClass rank bounded).length := by
    rw [hstores]
    simp only [unpopulatedArrayClass, List.length_append, List.length_map, List.length_replicate]
    omega
  refine ⟨?_, ?_, ?_, hoffsetsCount, ?_, ?_, ?_, ?_⟩
  · rw [hoffsets]
    exact interfaceOffsets_disjoint T elementClass rank bounded
  · intro p hp i hi
    rw [hoffsets] at hp
    rw [hlength]
    exact (Finset.mem_Ico.1 hi).2.trans_le (interfaceOffsets_inside T hp)
  · rw [hlength, length_vtable, hframe]
    exact (laidOut_vtableCount _ _ _ _).trans (Nat.mod_eq_of_lt h.vtable_lt)
  · rw [hmethods, storeAll_length, hroom, hstores, hframe, hmsLength]
    exact Nat.mod_eq_of_lt h.methods_lt
  · refine hnone hroom fun i hi => ?_
    rw [unpopulatedArrayClass, List.getElem?_append_left (by rwa [List.length_map]),
      List.getElem?_map, List.getElem?_eq_getElem hi]
    nofun
  · intro c hc d hd slot hslot slowPath
    rw [hcollect] at hc
    obtain ⟨pair, hpair, hitf, hfind⟩ := exists_pair T hoffsets hoffsetsCount hc hd
    exact ⟨pair, hpair, hitf, hfind slot slowPath⟩
  · intro c hc g hg slowPath
    rw [hcollect] at hc
    obtain ⟨pair, hpair, hitf, hfind⟩ :=
      exists_pair T hoffsets hoffsetsCount hc (genericArrayMethod_klass T hg)
    obtain ⟨data, hdata, himpl⟩ :=
      exists_implementation T self hoffsets hcount hvtable hpair hg hitf
    exact ⟨data, by rw [← hitf, hfind, hdata], himpl⟩

theorem TablesConsistent.fit {k : Il2CppClass C}
    (hk : arrayClassInUse T.toGroundedTable self elementClass rank bounded = some k)
    (h : TablesConsistent T.toGroundedTable self k) :
    TablesFit T.toGroundedTable elementClass rank bounded := by
  rw [arrayClassInUse_eq] at hk
  obtain ⟨ms, hms, rfl⟩ := Option.map_eq_some_iff.1 hk
  have hspec := arrayMethods_spec self (Nat.mod_lt rank (by decide : 0 < 2 ^ 8))
  split at hspec
  case isFalse => exact absurd (hms.symm.trans hspec) (by simp)
  rename_i hrank
  obtain ⟨ms', hms', hmsLength⟩ := hspec
  obtain rfl : ms = ms' := Option.some.inj (hms.symm.trans hms')
  have hlt (n : ℕ) : toUInt16 n < 2 ^ 16 := Nat.mod_lt _ (by decide)
  have hframe := storeMethods_frame
    (unpopulatedArrayClass T.toGroundedTable elementClass rank bounded ms) (toUInt16 ms.length)
    (arrayStores T.toGroundedTable self elementClass rank bounded)
  have hoffsets := storeMethods_interfaceOffsets T self elementClass rank bounded ms
    (toUInt16 ms.length)
  have hlength := storeMethods_vtable_length T self elementClass rank bounded ms
    (toUInt16 ms.length)
  have hmethods := storeMethods_length
    (unpopulatedArrayClass T.toGroundedTable elementClass rank bounded ms) (toUInt16 ms.length)
    (arrayStores T.toGroundedTable self elementClass rank bounded)
  generalize (storeMethods (arrayStores T.toGroundedTable self elementClass rank bounded)
    (unpopulatedArrayClass T.toGroundedTable elementClass rank bounded ms)
      (toUInt16 ms.length)).1 = k at hframe hoffsets hlength hmethods h
  refine ⟨hrank, ?_, ?_, ?_⟩
  · rw [← length_vtable, ← hlength, ← h.vtableCount, hframe]
    exact (laidOut_vtableCount _ _ _ _).trans_lt (hlt _)
  · rw [← length_interfaceOffsets, ← hoffsets, ← h.interfaceOffsetsCount, hframe]
    exact (laidOut_interfaceOffsetsCount _ _ _ _).trans_lt (hlt _)
  · have hcount := h.methodCount
    rw [hmethods] at hcount
    simp only [unpopulatedArrayClass, List.length_append, List.length_map,
      List.length_replicate] at hcount
    have hcount' : k.methodCount = toUInt16 (3 + (if rank % 2 ^ 8 > 1 then 2 else 1) +
        arrayInterfaceCount T.toGroundedTable elementClass rank bounded *
          (genericArrayMethods T.toClassTable).length) := by
      rw [hframe]
      rfl
    have := hlt (3 + (if rank % 2 ^ 8 > 1 then 2 else 1) +
      arrayInterfaceCount T.toGroundedTable elementClass rank bounded *
        (genericArrayMethods T.toClassTable).length)
    omega

/-- The tables of an array class are consistent exactly if their counts fit into 16 bits. -/
theorem tablesConsistent_iff :
    (∃ k, arrayClassInUse T.toGroundedTable self elementClass rank bounded = some k ∧
      TablesConsistent T.toGroundedTable self k) ↔
    TablesFit T.toGroundedTable elementClass rank bounded :=
  ⟨fun ⟨_, hk, h⟩ => TablesConsistent.fit T self hk h, TablesFit.consistent T self⟩

end

end

/-! ### Nested vectors -/

/-- The interfaces of the core library that a vector implements. -/
inductive VectorInterface where
  | list | collection | enumerable | readonlylist | readonlycollection
  deriving DecidableEq

/-- The methods of an interface. -/
def VectorInterface.methodNames : VectorInterface → List String
  | list => ["get_Item", "set_Item", "IndexOf", "Insert", "RemoveAt"]
  | collection => ["get_Count", "get_IsReadOnly", "Add", "Clear", "Contains", "CopyTo", "Remove"]
  | enumerable => ["GetEnumerator"]
  | readonlylist => ["get_Item"]
  | readonlycollection => ["get_Count"]

/-- The variance of its type parameter. -/
def VectorInterface.variance : VectorInterface → Variance
  | list | collection => .nonVariant
  | enumerable | readonlylist | readonlycollection => .covariant

/-- The classes of a small core library: those that array classes rely on, and the vectors. -/
inductive CoreClass where
  | object | valueType | enum | array | cloneable
  | definition (interface : VectorInterface)
  | inflated (interface : VectorInterface) (argument : CoreClass)
  | vector (element : CoreClass)
  deriving DecidableEq

namespace CoreClass

/-- The class at an address. -/
def klass : CoreClass → Il2CppClass CoreClass
  | object => .blank (.simple .object) [] object
  | valueType => .blank .klass [object] valueType
  | enum => .blank .klass [object, valueType] enum
  | cloneable =>
    { Il2CppClass.blank .klass [] cloneable with interfaceFlag := true, methodCount := 1 }
  | array =>
    { Il2CppClass.blank .klass [object] array with
      implementedInterfaces := [cloneable]
      interfaceOffsetsCount := 1
      interfaceOffsets := [⟨cloneable, 4⟩]
      vtableCount := 5
      vtable := List.replicate 5 ⟨none, none⟩ }
  | definition i =>
    { Il2CppClass.blank .klass [] (definition i) with
      interfaceFlag := true
      variances := [i.variance]
      methodCount := i.methodNames.length
      methods := i.methodNames.mapIdx fun slot name =>
        some ⟨name.toList, definition i, 0, slot, false, 0, none⟩ }
  | inflated i c =>
    { Il2CppClass.blank .genericinst [] (inflated i c) with
      interfaceFlag := true
      genericClass := some ⟨definition i, [c]⟩
      methodCount := i.methodNames.length }
  | vector c =>
    { Il2CppClass.blank .szarray [object, array] (vector c) with
      rank := 1
      elementClass := c
      castClass := c
      implementedInterfaces := [inflated .list c, inflated .collection c, inflated .enumerable c,
        inflated .readonlylist c, inflated .readonlycollection c] }

/-- The order of creation. -/
def height : CoreClass → ℕ
  | object | cloneable | definition _ => 0
  | valueType | array | inflated _ _ => 1
  | enum => 2
  | vector c => c.height + 2

/-- The table of these classes. -/
def table : ClassTable CoreClass where
  klass := klass
  defaults :=
    { objectClass := object
      valueTypeClass := valueType
      enumClass := enum
      arrayClass := array
      multicastdelegateClass := object
      sbyteClass := object
      int16Class := object
      int32Class := object
      int64Class := object
      genericIlistClass := definition .list
      genericIcollectionClass := definition .collection
      genericIenumerableClass := definition .enumerable
      genericIreadonlylistClass := definition .readonlylist
      genericIreadonlycollectionClass := definition .readonlycollection }
  getInflatedGenericInstanceClass := fun d args =>
    match d, args with
    | definition i, c :: _ => inflated i c
    | _, _ => d
  getMethod := fun method _ => method

theorem exists_of_mem_definitions {d : CoreClass} (hd : d ∈ implicitDefinitions table) :
    ∃ i, d = definition i := by
  simp only [implicitDefinitions, List.mem_cons, List.not_mem_nil, or_false] at hd
  rcases hd with rfl | rfl | rfl | rfl | rfl <;> exact ⟨_, rfl⟩

/-- The core library. -/
def coreLibrary : ArrayRuntime CoreClass where
  toClassTable := table
  height := height
  height_parent := by
    intro c p h
    cases c <;> cases h <;> simp [height]
  height_elementClass := by
    intro c h
    cases c <;> first | exact absurd rfl h | simp [table, klass, height]
  height_underlying := by
    intro c h
    cases c <;> cases h
  height_definition := by
    intro c g h
    cases c with
    | inflated i c =>
      cases h
      exact Nat.zero_lt_one
    | _ => cases h
  definitions_nodup := by decide
  genericClass_inflated := by
    intro d hd c
    obtain ⟨i, rfl⟩ := exists_of_mem_definitions hd
    rfl
  methodCount_inflated := by
    intro d hd c
    obtain ⟨i, rfl⟩ := exists_of_mem_definitions hd
    rfl
  interfaceMethod_klass := by decide
  interfaceMethod_slot := by decide
  interfaceMethod_inj := by decide
  array_vtable := rfl
  array_interfaceOffsets := rfl
  array_disjoint := by decide
  array_inside := by decide
  array_notGeneric := by decide

/-- What a vector can be seen as: itself, its interfaces, the five interfaces for all that its
elements can be seen as, and what `System.Array` can be seen as. -/
theorem implicitInterfaceCount_vector (c : CoreClass) :
    implicitInterfaceCount coreLibrary.toGroundedTable (vector c) =
      9 + 5 * implicitInterfaceCount coreLibrary.toGroundedTable c := by
  have hobject : implicitInterfaceCount coreLibrary.toGroundedTable object = 1 := by
    rw [implicitInterfaceCount]
    rfl
  have harray : implicitInterfaceCount coreLibrary.toGroundedTable array = 3 := by
    rw [implicitInterfaceCount]
    change 1 + 1 + 0 + implicitInterfaceCount coreLibrary.toGroundedTable object = 3
    rw [hobject]
  rw [implicitInterfaceCount]
  change 1 + 5 + 5 * implicitInterfaceCount coreLibrary.toGroundedTable c +
    implicitInterfaceCount coreLibrary.toGroundedTable array = _
  rw [harray]
  omega

/-- `object[][][][][]`. -/
def jagged : CoreClass := vector (vector (vector (vector (vector object))))

/-- The elements of `object[][][][][][]` can be seen as 10154 classes, and the number of slots does
not fit into 16 bits. -/
theorem jagged_inconsistent :
    ¬ ∃ k, arrayClassInUse coreLibrary.toGroundedTable (vector jagged) jagged 1 false = some k ∧
      TablesConsistent coreLibrary.toGroundedTable (vector jagged) k := by
  rintro ⟨k, hk, h⟩
  have hlt := (h.fit coreLibrary (vector jagged) hk).vtable_lt
  have hcount : implicitInterfaceCount coreLibrary.toGroundedTable jagged = 10154 := by
    simp only [jagged, implicitInterfaceCount_vector]
    rw [implicitInterfaceCount]
    rfl
  have harray : arrayInterfaceCount coreLibrary.toGroundedTable jagged 1 false = 10154 := hcount
  rw [harray] at hlt
  exact absurd hlt (by decide)

end CoreClass

end ArrayMetadata

end Il2Cpp
