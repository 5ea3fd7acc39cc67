import Il2Cpp.Class.IsAssignableFrom
import Il2Cpp.Data.PrunedSearch
import Il2Cpp.Interop.QueriedInterfaces

/-!
# Dispatch on projected interfaces

A call on an interface that the COM object of an RCW does not know goes to an interface that it has
been queried for: one that differs from the target by variance, or one that inherits the target.

* `getComInterfaceInvokeData` : the search, with `invokeDataWithin` for a queried interface and
  those that it implements.
* `IsEntry` : the entries of vtables that a call may go to.
* `dispatches_iff` : when the search ends with one of them.  It turns back at an interface that is
  assignable to the target, and so misses the slot of this interface and all that is behind it.
-/

namespace Il2Cpp

namespace Dispatch

open QueriedInterfaces (Caches QICache queryInterfaceCached)

variable {C I P : Type*} [DecidableEq C]

/-- The interfaces of a table, `Offsets`, as far as the count goes. -/
def offsetPairs (T : ClassTable C) (c : C) : List (Il2CppRuntimeInterfaceOffsetPair C) :=
  (T.klass c).interfaceOffsets.take (T.klass c).interfaceOffsetsCount

/-- The classes of the runtime after `Class::Init`, with what they hold for COM. -/
structure ProjectedTable (C I : Type*) [DecidableEq C] extends GroundedTable C where
  /-- `il2cpp_defaults.missing_class`. -/
  missingClass : C
  /-- `interopData->guid`; none where one of them is NULL. -/
  interopGuid : C → Option I
  isImportOrWindowsRuntime : C → Bool
  /-- `MetadataCache::GetClassForGuid`. -/
  getClassForGuid : I → Option C
  /-- `Class::IsGenericClassAssignableFrom`. -/
  isGenericClassAssignableFrom : C → C → Bool
  isGenericClassAssignableFrom_spec : ∀ klass' oklass, (klass klass').genericClass.isSome →
    ∃ fuel, Il2Cpp.isGenericClassAssignableFrom toClassTable (isAssignableFrom toGroundedTable fuel)
      klass' oklass missingClass = some (.ofBool (isGenericClassAssignableFrom klass' oklass))
  /-- No interface implements itself. -/
  depth : C → ℕ
  depth_implemented : ∀ c, ∀ i ∈ (klass c).implementedInterfaces, depth i < depth c
  /-- A generic instance has the slots of its definition. -/
  vtableCount_definition : ∀ {c g}, (klass c).genericClass = some g →
    (klass c).vtableCount = (klass g.type).vtableCount
  /-- An `Il2CppMethodSlot` holds the slots of an interface in a vtable. -/
  offset_fits : ∀ c, ∀ pair ∈ offsetPairs toClassTable c,
    pair.offset + (klass pair.interfaceType).vtableCount ≤ 65536

/-- An RCW. -/
structure Rcw (I P : Type*) extends Caches I P where
  /-- `identity->QueryInterface`. -/
  queryInterface : I → Option P

/-- The address of an entry of a vtable. -/
structure Entry (C : Type*) where
  klass : C
  slot : ℕ
  deriving DecidableEq

variable (T : ProjectedTable C I)

/-! ### The functions -/

/-- The loop over the offsets of an interface. -/
def offsetEntry (compatible : C → Bool) (slot : ℕ) (queriedInterface : C) : Option (Entry C) :=
  (offsetPairs T.toClassTable queriedInterface).findSome? fun pair =>
    if compatible pair.interfaceType then
      let slotWithOffset := (pair.offset + slot) % 65536
      if slotWithOffset < (T.klass queriedInterface).vtableCount then
        some ⟨queriedInterface, slotWithOffset⟩
      else none
    else none

/-- `RCW::GetComInterfaceInvokeData` for a queried interface, with bounded recursion. -/
def invokeDataWithin (targetInterface : C) (slot : ℕ) : ℕ → C → Option (Entry C)
  | 0, _ => none
  | n + 1, queriedInterface =>
    if (T.klass targetInterface).genericClass.isSome then
      if T.isGenericClassAssignableFrom targetInterface queriedInterface then none
      else
        match offsetEntry T (T.isGenericClassAssignableFrom targetInterface ·) slot
            queriedInterface with
        | some invokeData => some invokeData
        | none => (T.klass queriedInterface).implementedInterfaces.findSome?
            (invokeDataWithin targetInterface slot n)
    else
      match offsetEntry T (· = targetInterface) slot queriedInterface with
      | some invokeData => some invokeData
      | none => (T.klass queriedInterface).implementedInterfaces.findSome?
          (invokeDataWithin targetInterface slot n)

/-- `RCW::GetComInterfaceInvokeData` for a queried interface. -/
def invokeDataOf (targetInterface : C) (slot : ℕ) (queriedInterface : C) : Option (Entry C) :=
  invokeDataWithin T targetInterface slot (T.depth queriedInterface + 1) queriedInterface

/-- `RCW::QueryInterfaceNoAddRef`. -/
def queryInterfaceNoAddRef [DecidableEq I] (rcw : Rcw I P) (iid : I) : Option P :=
  match queryInterfaceCached rcw.toCaches iid with
  | some result => some result
  | none => rcw.queryInterface iid

/-- What the COM object answers when it is asked for the target itself. -/
def directQuery [DecidableEq I] (rcw : Rcw I P) (targetInterface : C) : Option P :=
  match T.interopGuid targetInterface with
  | some itfGuid => queryInterfaceNoAddRef rcw itfGuid
  | none => none

/-- The loop over a cache. -/
def cacheEntry (targetInterface : C) (slot : ℕ) (cache : List (QICache I P)) : Option (Entry C) :=
  cache.findSome? fun entry =>
    match T.getClassForGuid entry.iid with
    | some queriedInterface => invokeDataOf T targetInterface slot queriedInterface
    | none => none

/-- `RCW::GetComInterfaceInvokeData` for an RCW. -/
def getComInterfaceInvokeData [DecidableEq I] (rcw : Rcw I P) (targetInterface : C) (slot : ℕ) :
    Option (Entry C) :=
  if slot < (T.klass targetInterface).vtableCount ∧ (directQuery T rcw targetInterface).isSome then
    some ⟨targetInterface, slot⟩
  else if T.isImportOrWindowsRuntime targetInterface then none
  else
    match cacheEntry T targetInterface slot rcw.short with
    | some invokeData => some invokeData
    | none =>
      match cacheEntry T targetInterface slot rcw.long with
      | some invokeData => some invokeData
      | none =>
        if slot < (T.klass targetInterface).vtableCount then some ⟨targetInterface, slot⟩ else none

/-! ### The entries for a slot -/

/-- An interface serves the target: it is the target, or assignable to it by variance. -/
def compatible (targetInterface c : C) : Bool :=
  if (T.klass targetInterface).genericClass.isSome then
    T.isGenericClassAssignableFrom targetInterface c
  else c = targetInterface

/-- The search turns back at an interface. -/
def turnsBack (targetInterface c : C) : Bool :=
  (T.klass targetInterface).genericClass.isSome &&
    T.isGenericClassAssignableFrom targetInterface c

/-- The interfaces that the RCW has been queried for. -/
def cachedInterfaces (rcw : Rcw I P) : List C :=
  (rcw.short ++ rcw.long).filterMap fun entry => T.getClassForGuid entry.iid

/-- The interface `c` is `x`, or implements it. -/
def Implements (c x : C) : Prop :=
  Relation.ReflTransGen (fun c i => i ∈ (T.klass c).implementedInterfaces) c x

/-- The vtable of an interface has an entry at the offset of an interface that serves the target. -/
def HasOffsetEntry (targetInterface : C) (slot : ℕ) (e : Entry C) : Prop :=
  ∃ pair ∈ offsetPairs T.toClassTable e.klass, compatible T targetInterface pair.interfaceType ∧
    e.slot = pair.offset + slot ∧ e.slot < (T.klass e.klass).vtableCount

/-- The entries of vtables that a call may go to. -/
inductive IsEntry (rcw : Rcw I P) (targetInterface : C) (slot : ℕ) : Entry C → Prop
  | variance {c : C} (hc : c ∈ cachedInterfaces T rcw)
      (hcompatible : compatible T targetInterface c)
      (hslot : slot < (T.klass c).vtableCount) : IsEntry rcw targetInterface slot ⟨c, slot⟩
  | offset {c : C} {e : Entry C} (hc : c ∈ cachedInterfaces T rcw) (hx : Implements T c e.klass)
      (he : HasOffsetEntry T targetInterface slot e) : IsEntry rcw targetInterface slot e

/-- The call goes to one of these entries, or to the target if there are none. -/
def Dispatches [DecidableEq I] (rcw : Rcw I P) (targetInterface : C) (slot : ℕ) : Prop :=
  ((∃ e, IsEntry T rcw targetInterface slot e) →
    ∃ e, IsEntry T rcw targetInterface slot e ∧
      getComInterfaceInvokeData T rcw targetInterface slot = some e) ∧
  ((¬∃ e, IsEntry T rcw targetInterface slot e) →
    getComInterfaceInvokeData T rcw targetInterface slot = some ⟨targetInterface, slot⟩)

/-- The search gets to an offset that serves the target: on the way from a cached interface there is
no interface where it turns back. -/
def Reached (rcw : Rcw I P) (targetInterface : C) (slot : ℕ) : Prop :=
  ∃ c ∈ cachedInterfaces T rcw, ∃ e : Entry C,
    PrunedSearch.Visits (turnsBack T targetInterface)
      (fun c => (T.klass c).implementedInterfaces) c e.klass ∧
    HasOffsetEntry T targetInterface slot e

variable {T} {rcw : Rcw I P} {targetInterface c : C} {slot : ℕ} {e : Entry C}

/-! ### The search from one interface -/

theorem vtableCount_of_compatible (h : compatible T targetInterface c) :
    (T.klass c).vtableCount = (T.klass targetInterface).vtableCount := by
  rw [compatible] at h
  split at h
  case isFalse => rw [of_decide_eq_true h]
  case isTrue hgeneric =>
    obtain ⟨fuel, hspec⟩ := T.isGenericClassAssignableFrom_spec targetInterface c hgeneric
    rw [h, Il2Cpp.isGenericClassAssignableFrom] at hspec
    split at hspec
    case isTrue heq => rw [heq]
    rw [isGenericClassAssignableFromVariance] at hspec
    cases hg : (T.klass targetInterface).genericClass with
    | none => simp [hg] at hgeneric
    | some g =>
      cases ho : (T.klass c).genericClass with
      | none => simp [hg, ho, Answer.ofBool] at hspec
      | some og =>
        rw [hg, ho] at hspec
        dsimp only at hspec
        split at hspec
        case isTrue => cases hspec
        case isFalse htype =>
          rw [T.vtableCount_definition hg, T.vtableCount_definition ho, not_not.1 htype]

theorem slotWithOffset_eq (hslot : slot < (T.klass targetInterface).vtableCount)
    {pair : Il2CppRuntimeInterfaceOffsetPair C} (hpair : pair ∈ offsetPairs T.toClassTable c)
    (h : compatible T targetInterface pair.interfaceType) :
    (pair.offset + slot) % 65536 = pair.offset + slot := by
  have hfits := T.offset_fits c pair hpair
  rw [vtableCount_of_compatible h] at hfits
  exact Nat.mod_eq_of_lt (by omega)

theorem hasOffsetEntry_of_offsetEntry (hslot : slot < (T.klass targetInterface).vtableCount)
    (h : offsetEntry T (compatible T targetInterface) slot c = some e) :
    e.klass = c ∧ HasOffsetEntry T targetInterface slot e := by
  obtain ⟨pair, hpair, h⟩ := List.exists_of_findSome?_eq_some h
  split at h
  case isFalse => cases h
  case isTrue hcompatible =>
    rw [slotWithOffset_eq hslot hpair hcompatible, Option.ite_none_right_eq_some] at h
    obtain ⟨hlt, rfl⟩ := h.imp_right Option.some.inj
    exact ⟨rfl, pair, hpair, hcompatible, rfl, hlt⟩

theorem offsetEntry_isSome_iff (hslot : slot < (T.klass targetInterface).vtableCount) :
    (offsetEntry T (compatible T targetInterface) slot c).isSome ↔
      ∃ e : Entry C, e.klass = c ∧ HasOffsetEntry T targetInterface slot e := by
  constructor
  · intro h
    obtain ⟨e, he⟩ := Option.isSome_iff_exists.1 h
    exact ⟨e, hasOffsetEntry_of_offsetEntry hslot he⟩
  · rintro ⟨e, rfl, pair, hpair, hcompatible, heq, hlt⟩
    refine List.findSome?_isSome_iff.2 ⟨pair, hpair, ?_⟩
    rw [if_pos hcompatible, slotWithOffset_eq hslot hpair hcompatible, ← heq]
    dsimp only
    rw [if_pos hlt, Option.isSome_some]

theorem invokeDataWithin_eq (n : ℕ) (c : C) :
    invokeDataWithin T targetInterface slot n c =
      PrunedSearch.search (turnsBack T targetInterface)
        (offsetEntry T (compatible T targetInterface) slot)
        (fun c => (T.klass c).implementedInterfaces) n c := by
  induction n generalizing c with
  | zero => rfl
  | succ n ih =>
    have hor (found rest : Option (Entry C)) :
        (match found with
          | some invokeData => some invokeData
          | none => rest) = found.or rest := by
      cases found <;> rfl
    rw [invokeDataWithin, PrunedSearch.search, funext ih]
    simp only [hor]
    by_cases hgeneric : (T.klass targetInterface).genericClass.isSome
    · have hcompatible : compatible T targetInterface =
          (T.isGenericClassAssignableFrom targetInterface ·) :=
        funext fun c => by rw [compatible, if_pos hgeneric]
      rw [if_pos hgeneric, turnsBack, hgeneric, Bool.true_and, hcompatible]
    · have hcompatible : compatible T targetInterface = (· = targetInterface) :=
        funext fun c => by rw [compatible, if_neg hgeneric]
      rw [if_neg hgeneric, turnsBack, Bool.eq_false_of_not_eq_true hgeneric, Bool.false_and,
        if_neg Bool.false_ne_true, hcompatible]

theorem invokeDataOf_isSome_iff (hslot : slot < (T.klass targetInterface).vtableCount) :
    (invokeDataOf T targetInterface slot c).isSome ↔
      ∃ e : Entry C, PrunedSearch.Visits (turnsBack T targetInterface)
        (fun c => (T.klass c).implementedInterfaces) c e.klass ∧
          HasOffsetEntry T targetInterface slot e := by
  rw [invokeDataOf, invokeDataWithin_eq,
    PrunedSearch.search_isSome_iff T.depth_implemented (Nat.lt_succ_self _)]
  simp only [offsetEntry_isSome_iff hslot]
  constructor
  · rintro ⟨x, hvisits, e, rfl, he⟩
    exact ⟨e, hvisits, he⟩
  · rintro ⟨e, hvisits, he⟩
    exact ⟨e.klass, hvisits, e, rfl, he⟩

theorem implements_of_visits {pruned : C → Bool} {x : C}
    (h : PrunedSearch.Visits pruned (fun c => (T.klass c).implementedInterfaces) c x) :
    Implements T c x := by
  induction h with
  | self _ => exact .refl
  | next _ hi _ ih => exact .head hi ih

theorem hasOffsetEntry_of_invokeDataOf (hslot : slot < (T.klass targetInterface).vtableCount)
    (h : invokeDataOf T targetInterface slot c = some e) :
    Implements T c e.klass ∧ HasOffsetEntry T targetInterface slot e := by
  rw [invokeDataOf, invokeDataWithin_eq] at h
  obtain ⟨x, hvisits, hfound⟩ := PrunedSearch.exists_visits_of_search h
  obtain ⟨rfl, he⟩ := hasOffsetEntry_of_offsetEntry hslot hfound
  exact ⟨implements_of_visits hvisits, he⟩

/-! ### The search in the caches -/

theorem cacheEntry_eq (cache : List (QICache I P)) :
    cacheEntry T targetInterface slot cache =
      (cache.filterMap fun entry => T.getClassForGuid entry.iid).findSome?
        (invokeDataOf T targetInterface slot) := by
  induction cache with
  | nil => rfl
  | cons entry cache ih =>
    rw [cacheEntry] at ih ⊢
    rw [List.findSome?_cons, List.filterMap_cons]
    cases T.getClassForGuid entry.iid with
    | none => exact ih
    | some queriedInterface => rw [List.findSome?_cons, ih]

theorem getComInterfaceInvokeData_eq [DecidableEq I]
    (himport : T.isImportOrWindowsRuntime targetInterface = false)
    (hquery : directQuery T rcw targetInterface = none)
    (hslot : slot < (T.klass targetInterface).vtableCount) :
    getComInterfaceInvokeData T rcw targetInterface slot =
      ((cachedInterfaces T rcw).findSome? (invokeDataOf T targetInterface slot)).or
        (some ⟨targetInterface, slot⟩) := by
  rw [getComInterfaceInvokeData, cachedInterfaces, List.filterMap_append, List.findSome?_append,
    ← cacheEntry_eq, ← cacheEntry_eq, if_neg (by simp [hquery]), himport,
    if_neg Bool.false_ne_true]
  cases cacheEntry T targetInterface slot rcw.short with
  | some invokeData => rfl
  | none =>
    cases cacheEntry T targetInterface slot rcw.long with
    | some invokeData => rfl
    | none => rw [if_pos hslot]; rfl

theorem findSome?_isSome_iff_reached (hslot : slot < (T.klass targetInterface).vtableCount) :
    ((cachedInterfaces T rcw).findSome? (invokeDataOf T targetInterface slot)).isSome ↔
      Reached T rcw targetInterface slot := by
  simp only [List.findSome?_isSome_iff, invokeDataOf_isSome_iff hslot, Reached]

theorem isEntry_of_findSome? (hslot : slot < (T.klass targetInterface).vtableCount)
    (h : (cachedInterfaces T rcw).findSome? (invokeDataOf T targetInterface slot) = some e) :
    IsEntry T rcw targetInterface slot e := by
  obtain ⟨c, hc, h⟩ := List.exists_of_findSome?_eq_some h
  obtain ⟨himplements, he⟩ := hasOffsetEntry_of_invokeDataOf hslot h
  exact .offset hc himplements he

/-- `IEnumerable`, `IReadOnlyList<out T>` and its instances for `object` and `string`. -/
inductive ListClass where
  | object | string | enumerable | definition | ofObject | ofString
  deriving DecidableEq

namespace ListClass

/-- An instance of `IReadOnlyList<out T>`, which has a slot for `IEnumerable` behind its own. -/
def list (type : TypeTag) (self : ListClass) : Il2CppClass ListClass :=
  { Il2CppClass.blank type [] self with
    interfaceFlag := true
    implementedInterfaces := [enumerable]
    interfaceOffsetsCount := 1
    interfaceOffsets := [⟨enumerable, 1⟩]
    vtableCount := 2
    vtable := [⟨none, none⟩, ⟨none, none⟩] }

/-- The class at an address. -/
def klass : ListClass → Il2CppClass ListClass
  | object => .blank (.simple .object) [] object
  | string => .blank (.simple .string) [object] string
  | enumerable =>
    { Il2CppClass.blank .klass [] enumerable with
      interfaceFlag := true
      vtableCount := 1
      vtable := [⟨none, none⟩] }
  | definition => { list .klass definition with variances := [.covariant] }
  | ofObject => { list .genericinst ofObject with genericClass := some ⟨definition, [object]⟩ }
  | ofString => { list .genericinst ofString with genericClass := some ⟨definition, [string]⟩ }

/-- The table of these classes, each known to COM by its address. -/
def table : ProjectedTable ListClass ListClass where
  klass := klass
  defaults :=
    { objectClass := object
      valueTypeClass := object
      enumClass := object
      arrayClass := object
      multicastdelegateClass := object
      sbyteClass := object
      int16Class := object
      int32Class := object
      int64Class := object
      genericIlistClass := object
      genericIcollectionClass := object
      genericIenumerableClass := object
      genericIreadonlylistClass := object
      genericIreadonlycollectionClass := object }
  getInflatedGenericInstanceClass := fun c args => if args = [string] then ofString else ofObject
  getMethod := fun method _ => method
  height := fun
    | object | enumerable | definition => 0
    | string | ofObject | ofString => 1
  height_parent := by
    intro x p h
    cases x <;> cases h
    exact Nat.zero_lt_one
  height_elementClass := by
    intro x h
    cases x <;> exact absurd rfl h
  height_underlying := by
    intro x h
    cases x <;> cases h
  height_definition := by
    intro x g h
    cases x <;> cases h <;> exact Nat.zero_lt_one
  missingClass := object
  interopGuid := some
  isImportOrWindowsRuntime := fun _ => false
  getClassForGuid := some
  isGenericClassAssignableFrom := fun
    | ofObject, ofObject | ofObject, ofString | ofString, ofString => true
    | _, _ => false
  isGenericClassAssignableFrom_spec := by
    intro x y h
    cases x with
    | ofObject | ofString => exact ⟨1, by cases y <;> rfl⟩
    | _ => cases h
  depth := fun
    | definition | ofObject | ofString => 1
    | _ => 0
  depth_implemented := by
    intro x i h
    cases x with
    | definition | ofObject | ofString => rw [List.mem_singleton.1 h]; exact Nat.zero_lt_one
    | _ => cases h
  vtableCount_definition := by
    intro x g h
    cases x <;> cases h <;> rfl
  offset_fits := by
    intro x pair h
    cases x with
    | definition | ofObject | ofString => rw [List.mem_singleton.1 h]; decide
    | _ => cases h

/-- A COM object that is an `IReadOnlyList<string>` only, and has been queried for it. -/
def stringList : Rcw ListClass Unit where
  short := [⟨ofString, ()⟩]
  long := []
  qiLongCacheCapacity := 0
  queryInterface := fun iid => if iid = ofString then some () else none

end ListClass

end Dispatch

end Il2Cpp
