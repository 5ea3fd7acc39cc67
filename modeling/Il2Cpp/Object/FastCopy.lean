import Il2Cpp.Class.IsSubclassOf
import Il2Cpp.Object.Elements

/-!
# Copying elements between arrays

`Array::FastCopy` copies elements of one array into another one, or returns `false` and leaves the
copy to its caller.  The element classes decide on the way (`Path`): objects are unboxed into
values, references are cast down after a check, and other elements are moved as they are.

The checks come before the first write, but for one: that an element that is unboxed is not NULL is
found out when the elements before it have been written.

* `fastCopy` : the function.
* `AllOrNothing` : all elements have been copied, or the destination is as it was.
* `Safe` : what the arguments have to be for that.
* `fastCopy_allOrNothing_iff` : they have to be so.
-/

namespace Il2Cpp

namespace FastCopy

open ArrayMetadata IntType

variable {C : Type} {O : Type*} [DecidableEq C]

/-! ### Arrays -/

/-- The classes, with the sizes of their values and with their hierarchies. -/
structure ArrayTable (C : Type) [DecidableEq C] extends ElementTable C, HierarchyTable C

variable {T : ArrayTable C} (H : Objects T.toElementTable O)

/-- An array in memory. -/
structure ElementArray where
  klass : C
  /-- `bounds` is not NULL. -/
  bounded : Bool
  elements : List (Cell O)
  isArray : isArray T.toClassTable klass
  /-- `il2cpp_array_size_t` has 32 bits, and no array is longer than an `int32_t`. -/
  length_lt : elements.length < 2 ^ 31
  ofClass : ∀ cell ∈ elements, cell.OfClass T.toElementTable (T.klass klass).elementClass
  isInstance : ∀ obj, .reference (some obj) ∈ elements →
    IsInstance H obj (T.klass klass).elementClass

/-- `element_class` of the class of an array. -/
def ElementArray.elementClass {H : Objects T.toElementTable O} (array : ElementArray H) : C :=
  (T.klass array.klass).elementClass

/-- `InvalidCastException`. -/
structure InvalidCast where
  message : String
  deriving DecidableEq

/-- The exception that both loops raise. -/
def invalidCast : InvalidCast :=
  ⟨"At least one element in the source array could not be cast down to the destination array type."⟩

/-! ### The loops -/

/-- The elements that a loop from `start` to `stop` reads. -/
def loopElements (elements : List (Cell O)) (start stop : ℤ) : Option (List (Cell O)) :=
  if stop ≤ start then some []
  else if start < 0 then none
  else readBlock elements start.toNat (stop - start).toNat

/-- The loop that looks for an object that is no instance of a class. -/
def checkElements (fuel : ℕ) (destClass : C) : List (Cell O) → Option Bool
  | [] => some true
  | .reference none :: cells => checkElements fuel destClass cells
  | .reference (some elem) :: cells =>
    match isInst H fuel elem destClass with
    | some true => checkElements fuel destClass cells
    | inst => inst
  | .bytes _ :: _ => none

/-- The loop that copies values out of objects, to the elements from `position` on. -/
def unboxElements (elementSize : ℕ) :
    List (Cell O) → ℕ → List (Cell O) → Option (ArrayOutcome InvalidCast Bool O)
  | [], _, elements => some ⟨.ok true, elements⟩
  | .reference none :: _, _, elements => some ⟨.error invalidCast, elements⟩
  | .reference (some elem) :: cells, position, elements =>
    match readBlock (H.unbox elem) 0 elementSize with
    | none => none
    | some bytes =>
      unboxElements elementSize cells (position + 1) (elements.set position (.bytes bytes))
  | .bytes _ :: _, _, _ => none

/-- `memset` of a range of elements to zero.  A negative length stands for a huge one. -/
def clearElements (T : ElementTable C) (destClass : C) (elements : List (Cell O))
    (index length : ℤ) : Option (List (Cell O)) :=
  if index < 0 ∨ length < 0 then none
  else writeBlock elements index.toNat (List.replicate length.toNat (.zero T destClass))

/-- `memmove` of a range of elements. -/
def moveElements (source dest : List (Cell O)) (sourceIdx destIdx length : ℤ) :
    Option (List (Cell O)) :=
  if sourceIdx < 0 ∨ destIdx < 0 ∨ length < 0 then none
  else (readBlock source sourceIdx.toNat length.toNat).bind (writeBlock dest destIdx.toNat)

/-! ### The function -/

/-- What is done with the elements. -/
inductive Path
  | unbox | cast | move | refuse
  deriving DecidableEq

/-- The way that the element classes decide on. -/
def path (T : ArrayTable C) (srcClass destClass : C) : Path :=
  let isValue (c : C) := (T.klass c).valuetype || (T.klass c).enumtype
  -- object[] -> valuetype[]
  if srcClass = T.defaults.objectClass ∧ (T.klass destClass).valuetype then .unbox
  else if srcClass = destClass then .move
  else if isValue destClass || isValue srcClass then .refuse
  -- object[] -> reftype[]
  else if isSubclassOf T.toGroundedTable destClass srcClass then .cast
  else if !isSubclassOf T.toGroundedTable srcClass destClass then .refuse
  -- derivedtype[] -> basetype[]
  else .move

section

variable {H} (source dest : ElementArray H) (sourceIdx destIdx length : ℤ)

/-- The checks of the arrays and of the ranges. -/
def refuses : Bool :=
  (T.klass source.klass).rank ≠ (T.klass dest.klass).rank || (source.bounded || dest.bounded) ||
    (uint32.wrap (int32.wrap (destIdx + length)) > dest.elements.length ||
      uint32.wrap (int32.wrap (sourceIdx + length)) > source.elements.length)

/-- Whether the elements of the range are instances of the element class of the destination. -/
def checkSource (fuel : ℕ) : Option Bool :=
  (loopElements source.elements sourceIdx (int32.wrap (sourceIdx + length))).bind
    (checkElements H fuel dest.elementClass)

/-- The copy of an `object[]` into an array of values.  These are two arrays, so that the second
loop reads what the first one has read. -/
def copyUnboxed (fuel : ℕ) : Option (ArrayOutcome InvalidCast Bool O) :=
  match checkSource source dest sourceIdx length fuel with
  | none => none
  | some false => some ⟨.ok false, dest.elements⟩
  | some true =>
    match clearElements T.toElementTable dest.elementClass dest.elements destIdx length,
      loopElements source.elements sourceIdx (int32.wrap (sourceIdx + length)) with
    | some elements, some cells =>
      unboxElements H ((T.klass dest.klass).elementSize.getD 0) cells destIdx.toNat elements
    | _, _ => none

/-- The end of the function.  Whole elements are moved only if the assertion on their sizes
holds. -/
def copyMoved : Option (ArrayOutcome InvalidCast Bool O) :=
  if (T.klass dest.klass).elementSize ≠ (T.klass source.klass).elementSize then none
  else (moveElements source.elements dest.elements sourceIdx destIdx length).map (⟨.ok true, ·⟩)

/-- `Array::FastCopy`.  There is no outcome where `IsInst` does not answer or memory outside of the
arrays and objects is read or written.  The destination may be the source. -/
def fastCopy (fuel : ℕ) : Option (ArrayOutcome InvalidCast Bool O) :=
  if refuses source dest sourceIdx destIdx length then some ⟨.ok false, dest.elements⟩
  else
    match path T source.elementClass dest.elementClass with
    | .unbox => copyUnboxed source dest sourceIdx destIdx length fuel
    | .cast =>
      match checkSource source dest sourceIdx length fuel with
      | none => none
      | some false => some ⟨.error invalidCast, dest.elements⟩
      | some true => copyMoved source dest sourceIdx destIdx length
    | .move => copyMoved source dest sourceIdx destIdx length
    | .refuse => some ⟨.ok false, dest.elements⟩

end

/-! ### What is copied -/

/-- An element, unboxed where the destination is of values. -/
def unboxed (destClass : C) : Cell O → Cell O
  | .reference (some obj) =>
    if (T.klass destClass).valuetype then .bytes (H.unbox obj) else .reference (some obj)
  | cell => cell

/-- A reference is NULL or an instance of the class.  Bytes are a reference where the class is a
reference type, and then they are NULL. -/
def IsStored (destClass : C) : Cell O → Prop
  | .reference obj => ∀ obj' ∈ obj, IsInstance H obj' destClass
  | .bytes bs => isReference T.toClassTable destClass = true → ∀ b ∈ bs, b = 0

section

variable {H} (source dest : ElementArray H) (sourceIdx destIdx length : ℤ)

/-- The elements of the source are in the destination, whose other elements are as they were. -/
def Copied (elements : List (Cell O)) : Prop :=
  0 ≤ sourceIdx ∧ 0 ≤ destIdx ∧ 0 ≤ length ∧ ∃ cells,
    readBlock source.elements sourceIdx.toNat length.toNat = some cells ∧
      readBlock elements destIdx.toNat length.toNat =
        some (cells.map (unboxed H dest.elementClass)) ∧
      (∀ i : ℕ, i < destIdx.toNat ∨ destIdx.toNat + length.toNat ≤ i →
        elements[i]? = dest.elements[i]?) ∧
      ∀ cell ∈ cells, IsStored H dest.elementClass (unboxed H dest.elementClass cell)

/-- Everything has been copied and the result is true, or the destination is as it was. -/
def IsAllOrNothing (outcome : ArrayOutcome InvalidCast Bool O) : Prop :=
  (outcome.result ≠ .ok true → outcome.elements = dest.elements) ∧
    (outcome.result = .ok true → Copied source dest sourceIdx destIdx length outcome.elements)

/-- The function returns or raises so. -/
def AllOrNothing : Prop :=
  ∃ fuel outcome, fastCopy source dest sourceIdx destIdx length fuel = some outcome ∧
    IsAllOrNothing source dest sourceIdx destIdx length outcome

/-! ### When the copy is safe -/

/-- The elements of the range. -/
def slice : List (Cell O) := (source.elements.drop sourceIdx.toNat).take length.toNat

/-- The arguments are no negative numbers. -/
def Valid : Prop := 0 ≤ sourceIdx ∧ 0 ≤ destIdx ∧ 0 ≤ length

/-- An object in the range is no instance of the element class of the destination. -/
def Mismatch : Prop :=
  0 ≤ sourceIdx ∧ ∃ obj, .reference (some obj) ∈ slice source sourceIdx length ∧
    ¬ IsInstance H obj dest.elementClass

end

/-- The element is NULL. -/
def isNull : Cell O → Bool
  | .reference none => true
  | _ => false

/-- The elements before the first NULL. -/
def leading (cells : List (Cell O)) : List (Cell O) := cells.takeWhile (!isNull ·)

/-- The elements that are written before the exception for the first NULL, and behind them
zeros. -/
def partialCopy (destClass : C) (cells : List (Cell O)) : List (Cell O) :=
  (leading cells).map (unboxed H destClass) ++
    List.replicate (cells.length - (leading cells).length) (.zero T.toElementTable destClass)

section

variable {H} (source dest : ElementArray H) (sourceIdx destIdx length : ℤ)

/-- The range can be unboxed: its objects have the size of the elements, which for nullable elements
they never have, and a NULL comes only where nothing changes until it is found. -/
structure Unboxable : Prop where
  nullable : (T.klass dest.elementClass).nullabletype = true →
    leading (slice source sourceIdx length) = []
  null : .reference none ∈ slice source sourceIdx length →
    readBlock dest.elements destIdx.toNat length.toNat =
      some (partialCopy H dest.elementClass (slice source sourceIdx length))

/-- What the arguments have to be: the function refuses them, or finds an object that it cannot
store before it writes anything, or the ranges are valid and hold no NULL that is to be unboxed and
no pointer that is to be a reference. -/
def Safe : Prop :=
  refuses source dest sourceIdx destIdx length = true ∨
    match path T source.elementClass dest.elementClass with
    | .unbox => Mismatch source dest sourceIdx length ∨
      Valid sourceIdx destIdx length ∧ Unboxable source dest sourceIdx destIdx length
    | .cast => Mismatch source dest sourceIdx length ∨ Valid sourceIdx destIdx length
    | .move => Valid sourceIdx destIdx length ∧
      (isReference T.toClassTable dest.elementClass = true →
        ∀ bs, .bytes bs ∈ slice source sourceIdx length → ∀ b ∈ bs, b = 0)
    | .refuse => True

end

/-! ### The ranges -/

section

variable {H} {source dest : ElementArray H} {sourceIdx destIdx length : ℤ}

/-- A range whose end passes the check: it is inside of the array, unless an argument is
negative. -/
theorem range_of_checked {n : ℕ} {idx : ℤ} (hn : n < 2 ^ 31) (hidx : int32.Fits idx)
    (hlength : int32.Fits length) (h : uint32.wrap (int32.wrap (idx + length)) ≤ n) :
    (0 ≤ idx → 0 ≤ length →
      idx.toNat + length.toNat ≤ n ∧ int32.wrap (idx + length) = idx + length) ∧
      (0 ≤ idx → length < 0 → int32.wrap (idx + length) ≤ idx) ∧
      (idx < 0 → idx < int32.wrap (idx + length)) := by
  rw [fits_int32] at hidx hlength
  simp only [uint32, int32, wrap] at h ⊢
  omega

theorem not_refuses (h : refuses source dest sourceIdx destIdx length = false) :
    uint32.wrap (int32.wrap (destIdx + length)) ≤ dest.elements.length ∧
      uint32.wrap (int32.wrap (sourceIdx + length)) ≤ source.elements.length := by
  simp only [refuses, Bool.or_eq_false_iff, decide_eq_false_iff_not, not_lt] at h
  exact h.2

theorem loopElements_eq (hsource : int32.Fits sourceIdx) (hlength : int32.Fits length)
    (h : refuses source dest sourceIdx destIdx length = false) :
    loopElements source.elements sourceIdx (int32.wrap (sourceIdx + length)) =
      if sourceIdx < 0 then none else some (slice source sourceIdx length) := by
  obtain ⟨hrange, hempty, hnegative⟩ :=
    range_of_checked source.length_lt hsource hlength (not_refuses h).2
  rw [loopElements]
  by_cases hidx : sourceIdx < 0
  · rw [if_neg (not_le.2 (hnegative hidx)), if_pos hidx, if_pos hidx]
  rw [if_neg hidx, if_neg hidx]
  rw [not_lt] at hidx
  by_cases hneg : length < 0
  · rw [if_pos (hempty hidx hneg), slice, Int.toNat_of_nonpos hneg.le, List.take_zero]
  rw [not_lt] at hneg
  obtain ⟨hle, hwrap⟩ := hrange hidx hneg
  rw [hwrap, add_sub_cancel_left]
  split_ifs with hstop
  · have hzero : length.toNat = 0 := by omega
    rw [slice, hzero, List.take_zero]
  · rw [readBlock_of_le hle, slice]

theorem Valid.range (hvalid : Valid sourceIdx destIdx length) (hsource : int32.Fits sourceIdx)
    (hdest : int32.Fits destIdx) (hlength : int32.Fits length)
    (h : refuses source dest sourceIdx destIdx length = false) :
    readBlock source.elements sourceIdx.toNat length.toNat =
        some (slice source sourceIdx length) ∧
      (slice source sourceIdx length).length = length.toNat ∧
      destIdx.toNat + length.toNat ≤ dest.elements.length := by
  obtain ⟨hsource₀, hdest₀, hlength₀⟩ := hvalid
  have hread := readBlock_of_le
    ((range_of_checked source.length_lt hsource hlength (not_refuses h).2).1 hsource₀ hlength₀).1
  exact ⟨hread, length_readBlock hread,
    ((range_of_checked dest.length_lt hdest hlength (not_refuses h).1).1 hdest₀ hlength₀).1⟩

theorem mem_of_mem_slice {cell : Cell O} (h : cell ∈ slice source sourceIdx length) :
    cell ∈ source.elements :=
  List.mem_of_mem_drop (List.mem_of_mem_take h)

/-! ### The classes -/

theorem isElement (array : ElementArray H) : IsElement T.toCastTable array.elementClass :=
  T.element _ array.isArray

theorem elementSize_of_ne_valuetype {c : C} (h : IsElement T.toCastTable c)
    (hvalue : (T.klass c).valuetype = false) :
    getArrayElementSize T.toGroundedTable c = some 8 := by
  rcases element_cases T.toCastTable h with href | hpointer | hvalue'
  · exact elementSize_of_reference T.toCastTable href
  · rw [getArrayElementSize, getArrayElementSizeFrom]
    split <;> simp_all
  · rw [hvalue] at hvalue'
    cases hvalue'

variable {srcClass destClass : C}

theorem path_unbox (h : path T srcClass destClass = .unbox) :
    srcClass = T.defaults.objectClass ∧ (T.klass destClass).valuetype = true := by
  rw [path] at h
  split_ifs at h
  assumption

theorem path_cast (h : path T srcClass destClass = .cast) : srcClass ≠ destClass ∧
    (T.klass destClass).valuetype = false ∧ (T.klass srcClass).valuetype = false ∧
    isSubclassOf T.toGroundedTable destClass srcClass = true := by
  rw [path] at h
  split_ifs at h
  simp_all

theorem path_move (h : path T srcClass destClass = .move) (hne : srcClass ≠ destClass) :
    (T.klass destClass).valuetype = false ∧ (T.klass srcClass).valuetype = false ∧
      isSubclassOf T.toGroundedTable srcClass destClass = true := by
  rw [path] at h
  split_ifs at h
  simp_all

end

/-! ### What the loops find -/

variable {H}

theorem isInstance_of_isSubclassOf {obj : O} {srcClass destClass : C}
    (h : IsInstance H obj srcClass) (hvalue : (T.klass srcClass).valuetype = false)
    (hsubclass : isSubclassOf T.toGroundedTable srcClass destClass = true) :
    IsInstance H obj destClass := by
  rcases h with h | h
  · exact .inl (Accepts.of_isSubclassOf (T := T.toHierarchyTable) h hvalue hsubclass)
  -- a COM object is an `object`, and an instance of interfaces, whose base is `object`
  · have hobject : destClass = T.defaults.objectClass := by
      rcases isSubclassOf_iff.1 hsubclass with ⟨hinterface, hmem⟩ | hobject
      · rw [isComInstance, Bool.and_eq_true, hinterface, Bool.false_and, Bool.false_or,
          decide_eq_true_iff] at h
        rw [h.2, bases_of_root T.objectClass_class.2] at hmem
        exact List.mem_singleton.1 hmem
      · exact hobject
    exact .inl (hobject ▸ accepts_object (T := T.toHierarchyTable) _)

section

variable {fuel : ℕ} {destClass : C} {cells : List (Cell O)} {b : Bool}

theorem checkElements_eq_some (h : checkElements H fuel destClass cells = some b) :
    b = true ↔ ∀ obj, .reference (some obj) ∈ cells → IsInstance H obj destClass := by
  induction cells with
  | nil =>
    cases h
    exact iff_of_true rfl nofun
  | cons cell cells ih =>
    cases cell with
    | bytes bs => cases h
    | reference obj =>
      cases obj with
      | none => simpa using ih h
      | some elem =>
        rw [checkElements] at h
        split at h
        · rename_i hinst
          have helem := (isInst_iff hinst).1 rfl
          rw [ih h]
          simp [helem]
        · rename_i hne
          cases b with
          | true => exact absurd h hne
          | false =>
            have helem : ¬ IsInstance H elem destClass :=
              fun helem => Bool.false_ne_true ((isInst_iff h).2 helem)
            exact iff_of_false Bool.false_ne_true
              fun hall => helem (hall elem List.mem_cons_self)

theorem exists_checkElements (hcells : ∀ cell ∈ cells, ∃ obj, cell = .reference obj)
    (hsettled : ∀ obj, .reference (some obj) ∈ cells →
      Answer.Settled (isAssignableFrom T.toGroundedTable fuel destClass (H.klass obj))) :
    ∃ b, checkElements H fuel destClass cells = some b := by
  induction cells with
  | nil => exact ⟨true, rfl⟩
  | cons cell cells ih =>
    have ih := ih (fun cell hcell => hcells cell (List.mem_cons_of_mem _ hcell))
      fun obj hobj => hsettled obj (List.mem_cons_of_mem _ hobj)
    obtain ⟨obj, rfl⟩ := hcells cell List.mem_cons_self
    cases obj with
    | none => exact ih
    | some elem =>
      obtain ⟨b, hb⟩ : ∃ b, isInst H fuel elem destClass = some b :=
        isInst_of_settled (hsettled elem List.mem_cons_self)
      rw [checkElements, hb]
      cases b with
      | true => exact ih
      | false => exact ⟨false, rfl⟩

theorem leading_subset (cells : List (Cell O)) : leading cells ⊆ cells :=
  (List.takeWhile_sublist _).subset

theorem length_partialCopy : (partialCopy H destClass cells).length = cells.length := by
  have hle : (leading cells).length ≤ cells.length := (List.takeWhile_sublist _).length_le
  rw [partialCopy, List.length_append, List.length_map, List.length_replicate]
  omega

theorem partialCopy_some (obj : O) :
    partialCopy H destClass (.reference (some obj) :: cells) =
      unboxed H destClass (.reference (some obj)) :: partialCopy H destClass cells := by
  have hleading : leading (.reference (some obj) :: cells) =
      .reference (some obj) :: leading cells := List.takeWhile_cons_of_pos rfl
  rw [partialCopy, hleading, List.map_cons, List.length_cons, List.length_cons,
    Nat.add_sub_add_right]
  rfl

theorem partialCopy_none : partialCopy H destClass (.reference none :: cells) =
    List.replicate (cells.length + 1) (.zero T.toElementTable destClass) := by
  have hleading : leading (.reference none :: cells) = [] :=
    List.takeWhile_cons_of_neg Bool.false_ne_true
  rw [partialCopy, hleading]
  rfl

theorem partialCopy_of_not_null (h : .reference none ∉ cells) :
    partialCopy H destClass cells = cells.map (unboxed H destClass) := by
  have hleading : leading cells = cells := by
    refine List.takeWhile_eq_self_iff.2 fun cell hcell => ?_
    cases cell with
    | bytes bs => rfl
    | reference obj =>
      cases obj with
      | none => exact absurd hcell h
      | some obj => rfl
  rw [partialCopy, hleading, Nat.sub_self, List.replicate_zero, List.append_nil]

theorem unboxElements_eq {n : ℕ} (hvalue : (T.klass destClass).valuetype = true)
    (hcells : ∀ cell ∈ cells, ∃ obj, cell = .reference obj)
    (hlength : ∀ obj, .reference (some obj) ∈ leading cells → (H.unbox obj).length = n)
    (before after : List (Cell O)) :
    unboxElements H n cells before.length
        (before ++ List.replicate cells.length (.zero T.toElementTable destClass) ++ after) =
      some ⟨if cells.any isNull then .error invalidCast else .ok true,
        before ++ partialCopy H destClass cells ++ after⟩ := by
  induction cells generalizing before with
  | nil => rfl
  | cons cell cells ih =>
    obtain ⟨obj, rfl⟩ := hcells cell List.mem_cons_self
    cases obj with
    | none =>
      rw [partialCopy_none]
      rfl
    | some elem =>
      have hleading : leading (.reference (some elem) :: cells) =
          .reference (some elem) :: leading cells := List.takeWhile_cons_of_pos rfl
      rw [hleading] at hlength
      have hread := readBlock_all (H.unbox elem)
      rw [hlength elem List.mem_cons_self] at hread
      have hset : (before ++ List.replicate (cells.length + 1)
          (Cell.zero T.toElementTable destClass) ++ after).set before.length
            (.bytes (H.unbox elem)) =
          before ++ [.bytes (H.unbox elem)] ++
            List.replicate cells.length (.zero T.toElementTable destClass) ++ after := by
        rw [List.append_assoc, List.set_append_right _ _ le_rfl, Nat.sub_self, List.replicate_succ,
          List.cons_append, List.set_cons_zero, List.append_assoc, List.append_assoc]
        rfl
      have ih := ih (fun cell hcell => hcells cell (List.mem_cons_of_mem _ hcell))
        (fun obj hobj => hlength obj (List.mem_cons_of_mem _ hobj))
        (before ++ [.bytes (H.unbox elem)])
      rw [List.length_append, List.length_singleton] at ih
      rw [unboxElements, hread, List.length_cons]
      dsimp only
      rw [hset, ih, partialCopy_some, unboxed, if_pos hvalue, List.append_assoc before]
      rfl

end

/-! ### The paths -/

section

variable {source dest : ElementArray H} {sourceIdx destIdx length : ℤ} {fuel : ℕ} {b : Bool}

theorem checkSource_eq_some (hsource : int32.Fits sourceIdx) (hlength : int32.Fits length)
    (hrefuses : refuses source dest sourceIdx destIdx length = false)
    (h : checkSource source dest sourceIdx length fuel = some b) :
    0 ≤ sourceIdx ∧ (b = true ↔ ¬ Mismatch source dest sourceIdx length) := by
  rw [checkSource, loopElements_eq hsource hlength hrefuses] at h
  split_ifs at h with hidx
  · cases h
  rw [not_lt] at hidx
  refine ⟨hidx, (checkElements_eq_some h).trans ?_⟩
  simp only [Mismatch, hidx, true_and, not_exists, not_and, not_not]

theorem exists_checkSource (hsource : int32.Fits sourceIdx) (hlength : int32.Fits length)
    (hrefuses : refuses source dest sourceIdx destIdx length = false)
    (hcells : ∀ cell ∈ source.elements, ∃ obj, cell = .reference obj)
    (hreturns : ∀ obj, .reference (some obj) ∈ source.elements →
      Returns T.toGroundedTable dest.elementClass (H.klass obj)) (hidx : 0 ≤ sourceIdx) :
    ∃ fuel b, checkSource source dest sourceIdx length fuel = some b := by
  let question : Cell O → Option (C × C)
    | .reference (some obj) => some (dest.elementClass, H.klass obj)
    | _ => none
  obtain ⟨fuel, hfuel⟩ : ∃ fuel, ∀ q ∈ source.elements.filterMap question,
      Answer.Settled (isAssignableFrom T.toGroundedTable fuel q.1 q.2) := by
    refine exists_fuel fun q hq => ?_
    obtain ⟨cell, hcell, hq⟩ := List.mem_filterMap.1 hq
    obtain ⟨obj, rfl⟩ := hcells cell hcell
    cases obj with
    | none => cases hq
    | some obj =>
      cases hq
      exact hreturns obj hcell
  refine ⟨fuel, ?_⟩
  rw [checkSource, loopElements_eq hsource hlength hrefuses, if_neg (not_lt.2 hidx)]
  refine exists_checkElements (fun cell hcell => hcells cell (mem_of_mem_slice hcell)) ?_
  exact fun obj hobj =>
    hfuel _ (List.mem_filterMap.2 ⟨_, mem_of_mem_slice hobj, rfl⟩)

theorem copied_of_writeBlock {elements : List (Cell O)} (hvalid : Valid sourceIdx destIdx length)
    (hread : readBlock source.elements sourceIdx.toNat length.toNat =
      some (slice source sourceIdx length))
    (hwrite : writeBlock dest.elements destIdx.toNat
      ((slice source sourceIdx length).map (unboxed H dest.elementClass)) = some elements)
    (hstored : ∀ cell ∈ slice source sourceIdx length,
      IsStored H dest.elementClass (unboxed H dest.elementClass cell)) :
    Copied source dest sourceIdx destIdx length elements := by
  have hlength := length_readBlock hread
  have hread' := readBlock_writeBlock hwrite
  rw [List.length_map, hlength] at hread'
  refine ⟨hvalid.1, hvalid.2.1, hvalid.2.2, _, hread, hread', fun i hi => ?_, hstored⟩
  refine getElem?_writeBlock_of_outside hwrite ?_
  rwa [List.length_map, hlength]

theorem elementSize_eq (array : ElementArray H) : (T.klass array.klass).elementSize =
    getArrayElementSize T.toGroundedTable array.elementClass :=
  elementSize_of_isArray array.isArray

theorem copyMoved_spec (hsize : getArrayElementSize T.toGroundedTable dest.elementClass =
      getArrayElementSize T.toGroundedTable source.elementClass)
    (hsource : int32.Fits sourceIdx) (hdest : int32.Fits destIdx) (hlength : int32.Fits length)
    (hrefuses : refuses source dest sourceIdx destIdx length = false) :
    (Valid sourceIdx destIdx length → ∃ elements,
      writeBlock dest.elements destIdx.toNat (slice source sourceIdx length) = some elements ∧
        copyMoved source dest sourceIdx destIdx length = some ⟨.ok true, elements⟩) ∧
    (¬ Valid sourceIdx destIdx length → copyMoved source dest sourceIdx destIdx length = none) := by
  rw [copyMoved, if_neg (by rw [elementSize_eq, elementSize_eq, not_not]; exact hsize),
    moveElements]
  constructor
  · intro hvalid
    obtain ⟨hread, hslice, hle⟩ := hvalid.range hsource hdest hlength hrefuses
    have hwrite := writeBlock_of_le (hslice.symm ▸ hle)
    obtain ⟨hsource₀, hdest₀, hlength₀⟩ := hvalid
    rw [if_neg (by omega), hread, Option.bind_some, hwrite]
    exact ⟨_, rfl, rfl⟩
  · intro hvalid
    rw [Valid] at hvalid
    rw [if_pos (by omega)]
    rfl

theorem unboxed_eq {cell : Cell O} (hvalue : (T.klass dest.elementClass).valuetype = false) :
    unboxed H dest.elementClass cell = cell := by
  rw [unboxed.eq_def]
  split
  · rw [hvalue]
    rfl
  · rfl

end

/-! ### Unboxing -/

section

variable {source dest : ElementArray H} {sourceIdx destIdx length : ℤ} {fuel : ℕ}

theorem exists_reference (href : isReference T.toClassTable source.elementClass = true) :
    ∀ cell ∈ source.elements, ∃ obj, cell = .reference obj := by
  intro cell hcell
  have hform := source.ofClass cell hcell
  cases cell with
  | reference obj => exact ⟨obj, rfl⟩
  | bytes bs =>
    cases href.symm.trans hform.1

theorem isReference_of_unbox (hpath : path T source.elementClass dest.elementClass = .unbox) :
    isReference T.toClassTable source.elementClass = true := by
  rw [(path_unbox hpath).1, isReference, T.objectClass_type]

theorem isReference_of_cast (hpath : path T source.elementClass dest.elementClass = .cast) :
    isReference T.toClassTable source.elementClass = true := by
  obtain ⟨hne, -, hvalue, hsubclass⟩ := path_cast hpath
  rcases element_cases T.toCastTable (isElement source) with href | hpointer | hvalue'
  · exact href
  · rcases isSubclassOf_iff.1 hsubclass with ⟨-, hmem⟩ | hobject
    · obtain ⟨c, hparent⟩ := exists_parent_of_mem_bases hmem hne
      exact absurd hpointer (T.parent_class hparent).2.2.1
    · rw [hobject, T.objectClass_type] at hpointer
      cases hpointer
  · rw [hvalue] at hvalue'
    cases hvalue'

theorem length_unbox_eq {obj : O} {n : ℕ} {destClass : C}
    (hvalue : (T.klass destClass).valuetype = true) (hobj : IsInstance H obj destClass)
    (hsize : getArrayElementSize T.toGroundedTable destClass = some n) :
    if (T.klass destClass).nullabletype then (H.unbox obj).length < n
    else (H.unbox obj).length = n := by
  split_ifs with hnullable
  · have hklass := hobj.klass_eq_argument hnullable
    have hargument := (T.nullabletype _ hnullable).2.2.1
    have hinstance := T.argument_instanceSize _ hnullable
    have hle := Nullable.size_nullable T.msvc (hinstance ▸ T.instanceSize_lt _)
    have hoffset := Nullable.offset_bounds (T.argument destClass)
    have hn : n = ((T.argument destClass).nullable T.msvc).size :=
      Option.some.inj (hsize.symm.trans (T.elementSize_nullable _ hnullable))
    have hpayload : (H.unbox obj).length = (T.argument destClass).size := by
      rw [H.length_unbox obj (hklass ▸ hargument), hklass, Nullable.ValueClass.size, hinstance]
      rfl
    rw [Nullable.sizeofIl2CppObject] at hle
    omega
  · have hnullable := eq_false_of_ne_true hnullable
    have hklass := hobj.klass_eq hvalue hnullable
    rw [H.length_unbox obj (hklass ▸ hvalue), hklass]
    exact Option.some.inj ((T.elementSize_valuetype _ hvalue hnullable).symm.trans hsize)

variable (hsource : int32.Fits sourceIdx) (hdest : int32.Fits destIdx)
  (hlength : int32.Fits length)
  (hrefuses : refuses source dest sourceIdx destIdx length = false)
include hsource hdest hlength hrefuses

theorem copyUnboxed_eq (hvalid : Valid sourceIdx destIdx length)
    (hcheck : checkSource source dest sourceIdx length fuel = some true) :
    copyUnboxed source dest sourceIdx destIdx length fuel =
      let cells := slice source sourceIdx length
      let before := dest.elements.take destIdx.toNat
      unboxElements H ((T.klass dest.klass).elementSize.getD 0) cells before.length
        (before ++ List.replicate cells.length (.zero T.toElementTable dest.elementClass) ++
          dest.elements.drop (destIdx.toNat + cells.length)) := by
  obtain ⟨-, hslice, hle⟩ := hvalid.range hsource hdest hlength hrefuses
  obtain ⟨hsource₀, hdest₀, hlength₀⟩ := hvalid
  have hbefore : (dest.elements.take destIdx.toNat).length = destIdx.toNat :=
    List.length_take_of_le (by omega)
  have hclear : clearElements T.toElementTable dest.elementClass dest.elements destIdx length =
      some (dest.elements.take destIdx.toNat ++
        List.replicate length.toNat (.zero T.toElementTable dest.elementClass) ++
          dest.elements.drop (destIdx.toNat + length.toNat)) := by
    rw [clearElements, if_neg (by omega), writeBlock_of_le (by rwa [List.length_replicate]),
      List.length_replicate]
  rw [copyUnboxed, hcheck, hclear, loopElements_eq hsource hlength hrefuses,
    if_neg (not_lt.2 hsource₀)]
  dsimp only
  rw [hbefore, hslice]

theorem copyUnboxed_spec (hpath : path T source.elementClass dest.elementClass = .unbox)
    (hvalid : Valid sourceIdx destIdx length)
    (hcheck : checkSource source dest sourceIdx length fuel = some true) :
    (((T.klass dest.elementClass).nullabletype = true →
        leading (slice source sourceIdx length) = []) → ∃ elements,
      writeBlock dest.elements destIdx.toNat
          (partialCopy H dest.elementClass (slice source sourceIdx length)) = some elements ∧
        copyUnboxed source dest sourceIdx destIdx length fuel =
          some ⟨if (slice source sourceIdx length).any isNull then .error invalidCast
            else .ok true, elements⟩) ∧
    ((T.klass dest.elementClass).nullabletype = true →
      leading (slice source sourceIdx length) ≠ [] →
        copyUnboxed source dest sourceIdx destIdx length fuel = none) := by
  have hvalue := (path_unbox hpath).2
  have hcells : ∀ cell ∈ slice source sourceIdx length, ∃ obj, cell = .reference obj :=
    fun cell hcell => exists_reference (isReference_of_unbox hpath) cell (mem_of_mem_slice hcell)
  have hinstance : ∀ obj, .reference (some obj) ∈ slice source sourceIdx length →
      IsInstance H obj dest.elementClass := by
    obtain ⟨hsource₀, hmismatch⟩ := checkSource_eq_some hsource hlength hrefuses hcheck
    intro obj hobj
    by_contra h
    exact hmismatch.1 rfl ⟨hsource₀, obj, hobj, h⟩
  obtain ⟨n, hsize⟩ : ∃ n, getArrayElementSize T.toGroundedTable dest.elementClass = some n := by
    cases hnullable : (T.klass dest.elementClass).nullabletype with
    | true => exact ⟨_, T.elementSize_nullable _ hnullable⟩
    | false => exact ⟨_, T.elementSize_valuetype _ hvalue hnullable⟩
  obtain ⟨-, hslice, hle⟩ := hvalid.range hsource hdest hlength hrefuses
  rw [copyUnboxed_eq hsource hdest hlength hrefuses hvalid hcheck, elementSize_eq, hsize,
    Option.getD_some]
  dsimp only
  constructor
  · intro hnullable
    have hpayload : ∀ obj, .reference (some obj) ∈ leading (slice source sourceIdx length) →
        (H.unbox obj).length = n := by
      intro obj hobj
      have h := length_unbox_eq hvalue (hinstance obj (leading_subset _ hobj)) hsize
      rwa [if_neg] at h
      intro htrue
      rw [hnullable htrue] at hobj
      cases hobj
    rw [unboxElements_eq hvalue hcells hpayload]
    refine ⟨_, ?_, rfl⟩
    rw [writeBlock_of_le (by rw [length_partialCopy]; omega), length_partialCopy]
  · intro hnullable hleading
    generalize slice source sourceIdx length = cells at *
    cases cells with
    | nil => exact absurd rfl hleading
    | cons cell cells =>
      obtain ⟨obj, rfl⟩ := hcells cell List.mem_cons_self
      cases obj with
      | none => exact absurd (List.takeWhile_cons_of_neg Bool.false_ne_true) hleading
      | some obj =>
        have h := length_unbox_eq hvalue (hinstance obj List.mem_cons_self) hsize
        rw [if_pos hnullable] at h
        rw [unboxElements, readBlock, if_neg (by omega)]

end

/-! ### All or nothing -/

section

variable {source dest : ElementArray H} {sourceIdx destIdx length : ℤ}

theorem any_isNull_iff {cells : List (Cell O)} :
    cells.any isNull = true ↔ .reference none ∈ cells := by
  rw [List.any_eq_true]
  constructor
  · rintro ⟨cell, hcell, h⟩
    rcases cell with (_ | obj) | bs
    · exact hcell
    · cases h
    · cases h
  · exact fun h => ⟨_, h, rfl⟩

variable (hsource : int32.Fits sourceIdx) (hdest : int32.Fits destIdx)
  (hlength : int32.Fits length)
  (hrefuses : refuses source dest sourceIdx destIdx length = false)
include hsource hdest hlength hrefuses

theorem isAllOrNothing_unboxed_iff {elements : List (Cell O)}
    (hpath : path T source.elementClass dest.elementClass = .unbox)
    (hvalid : Valid sourceIdx destIdx length)
    (hwrite : writeBlock dest.elements destIdx.toNat
      (partialCopy H dest.elementClass (slice source sourceIdx length)) = some elements) :
    IsAllOrNothing source dest sourceIdx destIdx length
        ⟨if (slice source sourceIdx length).any isNull then .error invalidCast else .ok true,
          elements⟩ ↔
      (.reference none ∈ slice source sourceIdx length →
        readBlock dest.elements destIdx.toNat length.toNat =
          some (partialCopy H dest.elementClass (slice source sourceIdx length))) := by
  obtain ⟨hread, hslice, -⟩ := hvalid.range hsource hdest hlength hrefuses
  by_cases hnull : .reference none ∈ slice source sourceIdx length
  · rw [if_pos (any_isNull_iff.2 hnull)]
    have hsame : elements = dest.elements ↔ readBlock dest.elements destIdx.toNat length.toNat =
        some (partialCopy H dest.elementClass (slice source sourceIdx length)) := by
      have hpartial : (partialCopy H dest.elementClass (slice source sourceIdx length)).length =
          length.toNat := length_partialCopy.trans hslice
      rw [← hpartial, ← writeBlock_eq_self_iff, hwrite, Option.some_inj]
    exact ⟨fun h _ => hsame.1 (h.1 nofun), fun h => ⟨fun _ => hsame.2 (h hnull), nofun⟩⟩
  · rw [if_neg (mt any_isNull_iff.1 hnull)]
    refine iff_of_true ⟨fun hne => absurd rfl hne, fun _ => ?_⟩ fun h => absurd h hnull
    rw [partialCopy_of_not_null hnull] at hwrite
    refine copied_of_writeBlock hvalid hread hwrite fun cell hcell => ?_
    obtain ⟨obj, rfl⟩ :=
      exists_reference (isReference_of_unbox hpath) cell (mem_of_mem_slice hcell)
    cases obj with
    | none => exact absurd hcell hnull
    | some obj =>
      have hvalue := (path_unbox hpath).2
      rw [unboxed, if_pos hvalue]
      intro href
      rw [valuetype_of_reference T.toCastTable href] at hvalue
      cases hvalue

theorem allOrNothing_unbox_iff
    (hpath : path T source.elementClass dest.elementClass = .unbox)
    (hreturns : ∀ obj, .reference (some obj) ∈ source.elements →
      Returns T.toGroundedTable dest.elementClass (H.klass obj)) :
    AllOrNothing source dest sourceIdx destIdx length ↔
      Mismatch source dest sourceIdx length ∨
        Valid sourceIdx destIdx length ∧ Unboxable source dest sourceIdx destIdx length := by
  have hfastCopy (fuel : ℕ) : fastCopy source dest sourceIdx destIdx length fuel =
      copyUnboxed source dest sourceIdx destIdx length fuel := by
    rw [fastCopy, hrefuses, hpath]
    rfl
  have hcells := exists_reference (isReference_of_unbox hpath)
  constructor
  · rintro ⟨fuel, outcome, h, hall⟩
    rw [hfastCopy] at h
    cases hcheck : checkSource source dest sourceIdx length fuel with
    | none =>
      rw [copyUnboxed, hcheck] at h
      cases h
    | some b =>
      obtain ⟨hsource₀, hb⟩ := checkSource_eq_some hsource hlength hrefuses hcheck
      cases b with
      | false => exact .inl (not_not.1 fun hmismatch => Bool.false_ne_true (hb.2 hmismatch))
      | true =>
        have hvalid : Valid sourceIdx destIdx length := by
          by_contra hvalid
          rw [Valid] at hvalid
          rw [copyUnboxed, hcheck, clearElements, if_pos (by omega)] at h
          cases h
        obtain ⟨hspec, hfault⟩ :=
          copyUnboxed_spec hsource hdest hlength hrefuses hpath hvalid hcheck
        have hnullable : (T.klass dest.elementClass).nullabletype = true →
            leading (slice source sourceIdx length) = [] := by
          intro hnullable
          by_contra hleading
          rw [hfault hnullable hleading] at h
          cases h
        obtain ⟨elements, hwrite, hcopy⟩ := hspec hnullable
        cases hcopy.symm.trans h
        exact .inr ⟨hvalid, hnullable, (isAllOrNothing_unboxed_iff hsource hdest hlength hrefuses
          hpath hvalid hwrite).1 hall⟩
  · intro h
    have hsource₀ : 0 ≤ sourceIdx := h.elim And.left fun h => h.1.1
    obtain ⟨fuel, b, hcheck⟩ :=
      exists_checkSource hsource hlength hrefuses hcells hreturns hsource₀
    cases b with
    | false =>
      refine ⟨fuel, ⟨.ok false, dest.elements⟩, ?_, fun _ => rfl, nofun⟩
      rw [hfastCopy, copyUnboxed, hcheck]
    | true =>
      have hb := (checkSource_eq_some hsource hlength hrefuses hcheck).2
      obtain ⟨hvalid, hunboxable⟩ := h.resolve_left (hb.1 rfl)
      obtain ⟨elements, hwrite, hcopy⟩ := (copyUnboxed_spec hsource hdest hlength hrefuses hpath
        hvalid hcheck).1 hunboxable.nullable
      exact ⟨fuel, _, (hfastCopy fuel).trans hcopy, (isAllOrNothing_unboxed_iff hsource hdest
        hlength hrefuses hpath hvalid hwrite).2 hunboxable.null⟩

theorem allOrNothing_cast_iff
    (hpath : path T source.elementClass dest.elementClass = .cast)
    (hreturns : ∀ obj, .reference (some obj) ∈ source.elements →
      Returns T.toGroundedTable dest.elementClass (H.klass obj)) :
    AllOrNothing source dest sourceIdx destIdx length ↔
      Mismatch source dest sourceIdx length ∨ Valid sourceIdx destIdx length := by
  have hfastCopy {fuel : ℕ} {b : Bool}
      (hcheck : checkSource source dest sourceIdx length fuel = some b) :
      fastCopy source dest sourceIdx destIdx length fuel =
        if b then copyMoved source dest sourceIdx destIdx length
        else some ⟨.error invalidCast, dest.elements⟩ := by
    rw [fastCopy, hrefuses, hpath, hcheck]
    cases b <;> rfl
  obtain ⟨-, hvalue, hvalue', -⟩ := path_cast hpath
  have hcells := exists_reference (isReference_of_cast hpath)
  have hsize := (elementSize_of_ne_valuetype (isElement dest) hvalue).trans
    (elementSize_of_ne_valuetype (isElement source) hvalue').symm
  obtain ⟨hmoved, hfault⟩ := copyMoved_spec hsize hsource hdest hlength hrefuses
  constructor
  · rintro ⟨fuel, outcome, h, -⟩
    cases hcheck : checkSource source dest sourceIdx length fuel with
    | none =>
      rw [fastCopy, hrefuses, hpath, hcheck] at h
      cases h
    | some b =>
      have hb := (checkSource_eq_some hsource hlength hrefuses hcheck).2
      cases b with
      | false => exact .inl (not_not.1 fun hmismatch => Bool.false_ne_true (hb.2 hmismatch))
      | true =>
        refine .inr (not_not.1 fun hvalid => ?_)
        rw [hfastCopy hcheck, if_pos rfl, hfault hvalid] at h
        cases h
  · intro h
    have hsource₀ : 0 ≤ sourceIdx := h.elim And.left And.left
    obtain ⟨fuel, b, hcheck⟩ :=
      exists_checkSource hsource hlength hrefuses hcells hreturns hsource₀
    have hb := (checkSource_eq_some hsource hlength hrefuses hcheck).2
    cases b with
    | false => exact ⟨fuel, _, hfastCopy hcheck, fun _ => rfl, nofun⟩
    | true =>
      have hmismatch := hb.1 rfl
      have hvalid := h.resolve_left hmismatch
      obtain ⟨elements, hwrite, hcopy⟩ := hmoved hvalid
      refine ⟨fuel, _, (hfastCopy hcheck).trans hcopy, fun hne => absurd rfl hne, fun _ => ?_⟩
      have hunboxed : unboxed H dest.elementClass = id := funext fun _ => unboxed_eq hvalue
      refine copied_of_writeBlock hvalid (hvalid.range hsource hdest hlength hrefuses).1
        (by rwa [hunboxed, List.map_id]) fun cell hcell => ?_
      obtain ⟨obj, rfl⟩ := hcells cell (mem_of_mem_slice hcell)
      rw [unboxed_eq hvalue]
      rintro obj' rfl
      by_contra hobj
      exact hmismatch ⟨hsource₀, obj', hcell, hobj⟩

theorem allOrNothing_move_iff
    (hpath : path T source.elementClass dest.elementClass = .move) :
    AllOrNothing source dest sourceIdx destIdx length ↔ Valid sourceIdx destIdx length ∧
      (isReference T.toClassTable dest.elementClass = true →
        ∀ bs, .bytes bs ∈ slice source sourceIdx length → ∀ b ∈ bs, b = 0) := by
  have hfastCopy (fuel : ℕ) : fastCopy source dest sourceIdx destIdx length fuel =
      copyMoved source dest sourceIdx destIdx length := by
    rw [fastCopy, hrefuses, hpath]
    rfl
  have hsize : getArrayElementSize T.toGroundedTable dest.elementClass =
      getArrayElementSize T.toGroundedTable source.elementClass := by
    by_cases heq : source.elementClass = dest.elementClass
    · rw [heq]
    · obtain ⟨hvalue, hvalue', -⟩ := path_move hpath heq
      exact (elementSize_of_ne_valuetype (isElement dest) hvalue).trans
        (elementSize_of_ne_valuetype (isElement source) hvalue').symm
  obtain ⟨hmoved, hfault⟩ := copyMoved_spec hsize hsource hdest hlength hrefuses
  constructor
  · rintro ⟨fuel, outcome, h, hall⟩
    rw [hfastCopy] at h
    have hvalid : Valid sourceIdx destIdx length := by
      by_contra hvalid
      rw [hfault hvalid] at h
      cases h
    obtain ⟨elements, -, hcopy⟩ := hmoved hvalid
    cases hcopy.symm.trans h
    obtain ⟨-, -, -, cells, hcells, -, -, hstored⟩ := hall.2 rfl
    refine ⟨hvalid, fun href bs hbs => hstored (.bytes bs) ?_ href⟩
    rw [(hvalid.range hsource hdest hlength hrefuses).1] at hcells
    exact Option.some.inj hcells ▸ hbs
  · rintro ⟨hvalid, hbytes⟩
    obtain ⟨elements, hwrite, hcopy⟩ := hmoved hvalid
    have hunboxed : ∀ cell ∈ slice source sourceIdx length,
        unboxed H dest.elementClass cell = cell := by
      intro cell hcell
      cases cell with
      | bytes bs => rfl
      | reference obj =>
        refine unboxed_eq ?_
        by_cases heq : source.elementClass = dest.elementClass
        · exact heq ▸ valuetype_of_reference T.toCastTable
            (source.ofClass _ (mem_of_mem_slice hcell))
        · exact (path_move hpath heq).1
    refine ⟨0, _, (hfastCopy 0).trans hcopy, fun hne => absurd rfl hne, fun _ => ?_⟩
    refine copied_of_writeBlock hvalid (hvalid.range hsource hdest hlength hrefuses).1
      (by rwa [List.map_congr_left hunboxed, List.map_id']) fun cell hcell => ?_
    rw [hunboxed cell hcell]
    cases cell with
    | bytes bs => exact fun href => hbytes href bs hcell
    | reference obj =>
      rintro obj rfl
      have hobj := source.isInstance obj (mem_of_mem_slice hcell)
      by_cases heq : source.elementClass = dest.elementClass
      · exact heq ▸ hobj
      · obtain ⟨-, hvalue, hsubclass⟩ := path_move hpath heq
        exact isInstance_of_isSubclassOf hobj hvalue hsubclass

end

/-- **When `FastCopy` is all or nothing.**  It copies the whole range and returns true, or leaves
the destination as it was, exactly where the arguments are safe. -/
theorem fastCopy_allOrNothing_iff (source dest : ElementArray H) {sourceIdx destIdx length : ℤ}
    (hsource : int32.Fits sourceIdx) (hdest : int32.Fits destIdx) (hlength : int32.Fits length)
    (hreturns : ∀ obj, .reference (some obj) ∈ source.elements →
      Returns T.toGroundedTable dest.elementClass (H.klass obj)) :
    AllOrNothing source dest sourceIdx destIdx length ↔
      Safe source dest sourceIdx destIdx length := by
  rw [Safe]
  cases hrefuses : refuses source dest sourceIdx destIdx length with
  | true =>
    refine iff_of_true ⟨0, ⟨.ok false, dest.elements⟩, ?_, fun _ => rfl, nofun⟩ (.inl rfl)
    rw [fastCopy, hrefuses, if_pos rfl]
  | false =>
    rw [or_iff_right Bool.false_ne_true]
    cases hpath : path T source.elementClass dest.elementClass with
    | unbox => exact allOrNothing_unbox_iff hsource hdest hlength hrefuses hpath hreturns
    | cast => exact allOrNothing_cast_iff hsource hdest hlength hrefuses hpath hreturns
    | move => exact allOrNothing_move_iff hsource hdest hlength hrefuses hpath
    | refuse =>
      refine iff_of_true ⟨0, ⟨.ok false, dest.elements⟩, ?_, fun _ => rfl, nofun⟩ trivial
      rw [fastCopy, hrefuses, hpath]
      rfl

/-! ### A NULL behind a number -/

section

open NumberClass

/-- The classes of the numbers, with their hierarchies. -/
def numberTable : ArrayTable NumberClass where
  toElementTable := table
  typeHierarchy_eq := by
    intro c _
    cases c <;> rfl
  typeHierarchyDepth_eq := by
    intro c _
    cases c <;> rfl
  parent_class := by
    intro c p h
    cases c <;> cases h <;> exact ⟨rfl, not_or.2 ⟨nofun, nofun⟩, nofun, nofun⟩
  definition_parent := by
    intro c g h
    cases c <;> cases h
  objectClass_class := ⟨rfl, rfl⟩

/-- The boxed 5. -/
def five : Objects numberTable.toElementTable Unit := boxed int32 [5, 0, 0, 0] rfl

/-- `new object[] { 5, null }` -/
def objects : ElementArray five where
  klass := vector object
  bounded := false
  elements := [.reference (some ()), .reference none]
  isArray := .inl rfl
  length_lt := by decide
  ofClass := List.forall_mem_cons.2 ⟨rfl, List.forall_mem_cons.2 ⟨rfl, nofun⟩⟩
  isInstance := fun _ _ => .inl (accepts_object (T := numberTable.toHierarchyTable) int32)

/-- `new int[] { 1, 2 }` -/
def ints : ElementArray five where
  klass := vector int32
  bounded := false
  elements := [.bytes [1, 0, 0, 0], .bytes [2, 0, 0, 0]]
  isArray := .inl rfl
  length_lt := by decide
  ofClass := List.forall_mem_cons.2
    ⟨⟨rfl, size_eq int32⟩, List.forall_mem_cons.2 ⟨⟨rfl, size_eq int32⟩, nofun⟩⟩
  isInstance := by
    intro obj h
    simp at h

/-- The number alone is copied. -/
theorem fastCopy_allOrNothing_five : AllOrNothing objects ints 0 0 1 := by
  refine (fastCopy_allOrNothing_iff objects ints (by decide) (by decide) (by decide)
    fun _ _ => ⟨1, .inl rfl⟩).2 (.inr (.inr ⟨⟨le_rfl, le_rfl, zero_le_one⟩, nofun, fun h => ?_⟩))
  cases List.mem_singleton.1 h

/-- With the NULL behind it, the exception comes when the destination has been changed. -/
theorem fastCopy_null :
    (∀ fuel, fastCopy objects ints 0 0 2 (fuel + 1) =
      some ⟨.error invalidCast, [.bytes [5, 0, 0, 0], .bytes [0, 0, 0, 0]]⟩) ∧
      ¬ AllOrNothing objects ints 0 0 2 := by
  have hzero : (Cell.zero numberTable.toElementTable int32 : Cell Unit) =
      .bytes [0, 0, 0, 0] := by
    rw [Cell.zero, show getArrayElementSize numberTable.toGroundedTable int32 = some 4 from
      size_eq int32]
    rfl
  have hrun (fuel : ℕ) : fastCopy objects ints 0 0 2 (fuel + 1) =
      some ⟨.error invalidCast, [.bytes [5, 0, 0, 0], .bytes [0, 0, 0, 0]]⟩ := hzero ▸ rfl
  refine ⟨hrun, ?_⟩
  rintro ⟨fuel, outcome, h, hnothing, -⟩
  cases fuel with
  | zero => cases h
  | succ fuel =>
    cases (hrun fuel).symm.trans h
    cases hnothing nofun

end

end FastCopy

end Il2Cpp
