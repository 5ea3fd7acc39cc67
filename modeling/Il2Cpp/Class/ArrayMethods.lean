import Il2Cpp.Class.ArrayTables

/-!
# The methods of an array class

`SetupArrayMethods` counts the methods of an array class, and fills the table with those that every
array has and those that come from the implicit interfaces.

* `arraySignatures` : the methods that every array has, with the numbers of their parameters.
* `arrayClassInUse_methods` : what the table is filled with.
* `setupArrayMethods_fills` : the table is full, and holds these methods.
-/

namespace Il2Cpp

variable {C : Type*}

namespace ArrayMetadata

/-- The methods that every array of `rank` dimensions has. -/
def arraySignatures (rank : ℕ) : List (List Char × ℕ) :=
  (".ctor".toList, rank) :: (if rank > 1 then [(".ctor".toList, 2 * rank)] else []) ++
    [("Set".toList, rank + 1), ("Address".toList, rank), ("Get".toList, rank)]

/-- The signature of a method. -/
def signature (method : MethodInfo C) : List Char × ℕ := (method.name, method.parametersCount)

/-- The method table of the class `k` at the address `self` is full: it begins with the methods that
every array of `rank` dimensions has, and the others implement methods of interfaces. -/
structure MethodsFilled (T : ClassTable C) (self : C) (rank : ℕ) (k : Il2CppClass C) : Prop where
  methodCount : k.methodCount = k.methods.length
  not_null : none ∉ k.methods
  signatures : (k.methods.take (arraySignatures rank).length).map (Option.map signature) =
    (arraySignatures rank).map some
  implementations : ∀ method, some method ∈ k.methods.drop (arraySignatures rank).length →
    ∃ g ∈ genericArrayMethods T, ∃ args, method = constructGenericArrayMethod T g self args

theorem length_arraySignatures (rank : ℕ) :
    (arraySignatures rank).length = 3 + if rank > 1 then 2 else 1 := by
  rw [arraySignatures]
  split_ifs <;> rfl

theorem signature_constructArrayMethod (self : C) (name : List Char) {n : ℕ} (h : n < 2 ^ 8) :
    signature (constructArrayMethod self name n) = (name, n) := by
  rw [signature, constructArrayMethod, Nat.mod_eq_of_lt h]

theorem arrayMethods_signatures (self : C) {rank : ℕ} (h : rank < 2 ^ 7) :
    ∃ ms, arrayMethods self rank = some ms ∧ ms.map signature = arraySignatures rank := by
  have hlengths : fillParameters rank = some rank := if_pos (by omega)
  have hbounds : fillParameters (2 * rank) = some (2 * rank) := if_pos (by omega)
  simp only [arrayMethods, arrayConstructors, hlengths, hbounds, Option.bind_some, Option.map_some]
  split_ifs with hrank
  · refine ⟨_, rfl, ?_⟩
    rw [arraySignatures, if_pos hrank]
    simp (disch := omega) only [List.map_append, List.map_cons, List.map_nil,
      signature_constructArrayMethod]
  · refine ⟨_, rfl, ?_⟩
    rw [arraySignatures, if_neg hrank]
    simp (disch := omega) only [List.map_append, List.map_cons, List.map_nil,
      signature_constructArrayMethod]

section

variable [DecidableEq C] (T : ArrayRuntime C) (self : C) {elementClass : C} {rank : ℕ}
  {bounded : Bool}

theorem mem_arrayStores_constructed {T : GroundedTable C} {s : ℕ × MethodInfo C}
    (h : s ∈ arrayStores T self elementClass rank bounded) :
    ∃ g ∈ genericArrayMethods T.toClassTable, ∃ args,
      s.2 = constructGenericArrayMethod T.toClassTable g self args := by
  obtain ⟨pair, -, hs⟩ := List.mem_flatMap.1 h
  rw [interfaceStores] at hs
  cases hgeneric : (T.klass pair.interfaceType).genericClass with
  | none =>
    rw [hgeneric] at hs
    cases hs
  | some genericClass =>
    rw [hgeneric] at hs
    obtain ⟨g, hg, rfl⟩ := List.mem_map.1 hs
    exact ⟨g, (List.mem_filter.1 hg).1, _, rfl⟩

theorem arrayClassInUse_methods (hrank : rank < 2 ^ 7)
    (hoffsets : (T.klass T.defaults.arrayClass).interfaceOffsetsCount +
      5 * arrayInterfaceCount T.toGroundedTable elementClass rank bounded < 2 ^ 16)
    (hmethods : (arraySignatures rank).length +
      arrayInterfaceCount T.toGroundedTable elementClass rank bounded *
        (genericArrayMethods T.toClassTable).length < 2 ^ 16) :
    ∃ (k : Il2CppClass C) (ms : List (MethodInfo C)),
      arrayClassInUse T.toGroundedTable self elementClass rank bounded = some k ∧
      ms.map signature = arraySignatures rank ∧ k.methodCount = k.methods.length ∧
      k.methods = ms.map some ++
        (arrayStores T.toGroundedTable self elementClass rank bounded).map fun s => some s.2 := by
  have hmod : rank % 2 ^ 8 = rank := Nat.mod_eq_of_lt (by omega)
  obtain ⟨ms, hms, hsignatures⟩ := arrayMethods_signatures self hrank
  have hlength : ms.length = 3 + if rank > 1 then 2 else 1 := by
    rw [← length_arraySignatures, ← hsignatures, List.length_map]
  have hstores := (length_arrayStores T self elementClass rank bounded hoffsets).2
  rw [length_arraySignatures, ← hlength, ← hstores] at hmethods
  have hoffset : toUInt16 ms.length = ms.length := Nat.mod_eq_of_lt (by omega)
  refine ⟨_, ms, by rw [arrayClassInUse_eq, hmod, hms]; rfl, hsignatures, ?_⟩
  dsimp only
  rw [hoffset, storeMethods_frame]
  have hfilled : (storeMethods (arrayStores T.toGroundedTable self elementClass rank bounded)
      (unpopulatedArrayClass T.toGroundedTable elementClass rank bounded ms) ms.length).1.methods =
        ms.map some ++ (arrayStores T.toGroundedTable self elementClass rank bounded).map
          fun s => some s.2 := by
    rw [storeMethods_methods _ _ _ hmethods, ← storeAll_consecutive (ms.map some) _ none,
      List.length_map, List.length_map]
    congr 1
    · rw [unpopulatedArrayClass, hmod, hstores, hlength, Nat.add_sub_cancel_left]
    · exact List.ext_getElem (by simp) (by simp)
  rw [hfilled]
  refine ⟨?_, rfl⟩
  rw [List.length_append, List.length_map, List.length_map, hstores, hlength]
  rw [hstores, hlength] at hmethods
  refine Eq.trans ?_ (Nat.mod_eq_of_lt hmethods)
  rw [unpopulatedArrayClass, hmod]
  rfl

/-- **Array method tables.**  For a rank below 128, and where the numbers of interfaces and methods
fit into the fields that hold them, the setup ends and the table of methods is full. -/
theorem setupArrayMethods_fills (hrank : rank < 2 ^ 7)
    (hoffsets : (T.klass T.defaults.arrayClass).interfaceOffsetsCount +
      5 * arrayInterfaceCount T.toGroundedTable elementClass rank bounded < 2 ^ 16)
    (hmethods : (arraySignatures rank).length +
      arrayInterfaceCount T.toGroundedTable elementClass rank bounded *
        (genericArrayMethods T.toClassTable).length < 2 ^ 16) :
    ∃ k, arrayClassInUse T.toGroundedTable self elementClass rank bounded = some k ∧
      MethodsFilled T.toClassTable self rank k ∧
      k.methods.length = (arraySignatures rank).length +
        arrayInterfaceCount T.toGroundedTable elementClass rank bounded *
          (genericArrayMethods T.toClassTable).length := by
  obtain ⟨k, ms, hk, hsignatures, hcount, htable⟩ :=
    arrayClassInUse_methods T self hrank hoffsets hmethods
  have hstores := (length_arrayStores T self elementClass rank bounded hoffsets).2
  have hlength : (arraySignatures rank).length = (ms.map some).length := by
    rw [← hsignatures, List.length_map, List.length_map]
  refine ⟨k, hk, ⟨hcount, ?_, ?_, ?_⟩, ?_⟩
  · rw [htable, List.mem_append, List.mem_map, List.mem_map]
    rintro (⟨_, -, h⟩ | ⟨_, -, h⟩) <;> cases h
  · rw [htable, hlength, List.take_left, List.map_map, ← hsignatures, List.map_map]
    rfl
  · intro method hmem
    rw [htable, hlength, List.drop_left] at hmem
    obtain ⟨s, hs, hmethod⟩ := List.mem_map.1 hmem
    cases hmethod
    exact mem_arrayStores_constructed _ hs
  · rw [htable, List.length_append, ← hlength, List.length_map, hstores]

end

namespace CoreClass

/-- `object[,]` has two constructors. -/
theorem setupArrayMethods_fills_matrix :
    ∃ k, arrayClassInUse coreLibrary.toGroundedTable cloneable object 2 false = some k ∧
      MethodsFilled coreLibrary.toClassTable cloneable 2 k ∧ k.methods.length = 5 :=
  setupArrayMethods_fills coreLibrary cloneable (by decide) (by decide) (by decide)

/-- `object[][]` has no constructor with the lengths of two levels. -/
theorem setupArrayMethods_jagged : ¬ ∀ (T : ArrayRuntime CoreClass)
    (self elementClass : CoreClass) (k : Il2CppClass CoreClass),
    (T.klass elementClass).type = .szarray →
      arrayClassInUse T.toGroundedTable self elementClass 1 false = some k →
        ∃ method, some method ∈ k.methods ∧ signature method = (".ctor".toList, 2) := by
  intro h
  have hnone : genericArrayMethods coreLibrary.toClassTable = [] := rfl
  have hobject : implicitInterfaceCount coreLibrary.toGroundedTable object = 1 := by
    rw [implicitInterfaceCount]
    rfl
  have hcount : arrayInterfaceCount coreLibrary.toGroundedTable (vector object) 1 false = 14 := by
    change implicitInterfaceCount coreLibrary.toGroundedTable (vector object) = 14
    rw [implicitInterfaceCount_vector, hobject]
  obtain ⟨k, ms, hk, hsignatures, -, htable⟩ :=
    @arrayClassInUse_methods _ _ coreLibrary (vector (vector object)) (vector object) 1 false
      (by decide) (by rw [hcount]; decide) (by rw [hcount, hnone]; decide)
  obtain ⟨method, hmem, hctor⟩ := h coreLibrary _ _ k rfl hk
  rw [htable, List.mem_append, List.mem_map, List.mem_map] at hmem
  obtain ⟨m, hm, hmethod⟩ | ⟨s, hs, -⟩ := hmem
  · cases hmethod
    have hmem := List.mem_map_of_mem (f := signature) hm
    rw [hsignatures, hctor] at hmem
    exact absurd hmem (by decide)
  · obtain ⟨g, hg, -⟩ := mem_arrayStores_constructed _ hs
    rw [hnone] at hg
    cases hg

end CoreClass

end ArrayMetadata

end Il2Cpp
