import Il2Cpp.Data.ArrayValueMap

/-!
# Native symbols

`NativeSymbol::GetMethodFromNativeSymbol` finds the managed method that an instruction pointer is in.
It has the ranges of the methods from a symbol file, or only the pointers that methods are
registered with.  Addresses are natural numbers, and no range wraps around.

* `NativeSymbols` : the state after the initialization, with `Registered` for the methods.
* `getMethodFromNativeSymbol` : the function; `none` is a read behind an array.
* `IsMethodAt` : what is found at an address.
* `getMethodFromNativeSymbol_spec` : the function finds that.
-/

namespace Il2Cpp

/-- `SymbolInfo`. -/
structure SymbolInfo where
  address : ℕ
  length : ℕ

/-- `MethodDefinitionKey`; `M` is the type of method handles. -/
structure MethodDefinitionKey (M : Type) where
  method : ℕ
  methodHandle : M

/-- What differs between targets. -/
structure NativeTarget where
  /-- `IL2CPP_TARGET_ARMV7`, where `IL2CPP_POINTER_SPARE_BITS` is 3; it is 0 elsewhere. -/
  armv7 : Bool
  /-- `IL2CPP_MUTATE_METHOD_POINTERS`. -/
  mutateMethodPointers : Bool

namespace NativeTarget

variable (target : NativeTarget) {M : Type}

/-- `MaskSpareBits`. -/
def maskSpareBits (method : ℕ) : ℕ :=
  if target.armv7 then method - method % 4 else method

/-- `MethodInfoToMethodPointerConverter`. -/
def methodKey (methodInfo : MethodDefinitionKey M) : ℕ :=
  target.maskSpareBits methodInfo.method

/-- `NativeSymbolMutator`, where it is in use. -/
def mutated (method : MethodDefinitionKey M) : MethodDefinitionKey M :=
  if target.mutateMethodPointers then { method with method := method.method + 1 } else method

end NativeTarget

/-- `NativeMethodMap`. -/
abbrev NativeMethodMap (target : NativeTarget) (M : Type) : Type :=
  ArrayValueMap ℕ (MethodDefinitionKey M) target.methodKey (fun a b => decide (a < b))
    (fun a b => decide (a = b))

/-- The statics, after the initialization. -/
structure NativeSymbols (M : Type) where
  target : NativeTarget
  /-- `s_ImageBase`. -/
  imageBase : ℕ
  /-- `s_ManagedSectionStart` and `s_ManagedSectionEnd`, if the section exists. -/
  managedSection : Option (ℕ × ℕ)
  /-- `s_SymbolInfos`, with `s_SymbolCount` elements. -/
  symbolInfos : Array SymbolInfo
  /-- `s_NativeMethods`. -/
  nativeMethods : NativeMethodMap target M

namespace NativeSymbols

variable {M : Type} (s : NativeSymbols M)

/-- `RegisterMethods` has stored the methods, in some order that is sorted by key. -/
def Registered (managedMethods : List (MethodDefinitionKey M)) : Prop :=
  s.nativeMethods.values.toList.Perm (managedMethods.map s.target.mutated)

/-- `CompareEndOfSymbols`. -/
def compareEndOfSymbols (a b : SymbolInfo) : Bool :=
  a.address + a.length < b.address + b.length

/-- `FindSymbolInfoForNativeMethod`, `none` for NULL. -/
def findSymbolInfoForNativeMethod (nativeMethod : ℕ) : Option SymbolInfo :=
  let interiorSymbol : SymbolInfo := ⟨nativeMethod - s.imageBase, 0⟩
  -- `std::upper_bound`
  let containing := lowerBound s.symbolInfos fun b => !compareEndOfSymbols interiorSymbol b
  if h : containing < s.symbolInfos.size then
    let containingSymbol := s.symbolInfos[containing]
    if interiorSymbol.address ≠ containingSymbol.address ∧
        (interiorSymbol.address < containingSymbol.address ∨
          interiorSymbol.address - containingSymbol.address > containingSymbol.length) then none
    else some containingSymbol
  else none

/-- `IsInstructionPointerProbablyInManagedMethod`. -/
def isInstructionPointerProbablyInManagedMethod (managedMethodStart instructionPointer : ℕ) :
    Bool :=
  ((managedMethodStart : Int) - instructionPointer).natAbs < 5000

/-- The address is not below the image base, and it is in the managed section if there is one. -/
def inImage (nativeMethod : ℕ) : Bool :=
  s.imageBase ≤ nativeMethod &&
    s.managedSection.all fun range => range.1 ≤ nativeMethod && nativeMethod ≤ range.2

/-- The exact lookup of the start of the symbol that contains an address. -/
def lookupSymbol (nativeMethod : ℕ) : Option M :=
  match s.findSymbolInfoForNativeMethod nativeMethod with
  | none => none
  | some containingSymbol =>
    let key := s.target.maskSpareBits (s.imageBase + containingSymbol.address)
    s.nativeMethods.values[s.nativeMethods.findFirst key]?.map (·.methodHandle)

/-- The method before the first one that starts behind an address, where the first method stands for
the one before it. -/
def lookupMethod (nativeMethod : ℕ) : Option (Option M) :=
  let methodAfter := s.nativeMethods.upperBound nativeMethod
  let uncertain := s.managedSection.isNone &&
    match s.nativeMethods.values[methodAfter]? with
    | none => true
    | some method => !isInstructionPointerProbablyInManagedMethod method.method nativeMethod
  if uncertain then some none
  else s.nativeMethods.values[methodAfter - 1]?.map fun method => some method.methodHandle

/-- `NativeSymbol::GetMethodFromNativeSymbol`, where the inner `none` is NULL. -/
def getMethodFromNativeSymbol (nativeMethod : ℕ) : Option (Option M) :=
  if !s.inImage nativeMethod then some none
  else if s.symbolInfos.size > 0 then some (s.lookupSymbol nativeMethod)
  else s.lookupMethod nativeMethod

/-! ### What is found -/

/-- The symbols have disjoint ranges and are sorted. -/
def Sorted : Prop :=
  ∀ i j (hi : i < s.symbolInfos.size) (hj : j < s.symbolInfos.size), i < j →
    s.symbolInfos[i].address + s.symbolInfos[i].length ≤ s.symbolInfos[j].address

/-- The range of a symbol contains an address. -/
def Contains (symbol : SymbolInfo) (nativeMethod : ℕ) : Prop :=
  s.imageBase + symbol.address ≤ nativeMethod ∧
    nativeMethod < s.imageBase + symbol.address + symbol.length

/-- The address that a method is registered at, one above its start where pointers are mutated. -/
def registeredAt (method : MethodDefinitionKey M) : ℕ :=
  s.target.methodKey (s.target.mutated method)

/-- The last method that is registered at or below an address. -/
def IsLast (managedMethods : List (MethodDefinitionKey M)) (nativeMethod : ℕ)
    (method : MethodDefinitionKey M) : Prop :=
  method ∈ managedMethods ∧ s.registeredAt method ≤ nativeMethod ∧
    ∀ other ∈ managedMethods, s.registeredAt other ≤ nativeMethod →
      s.registeredAt other ≤ s.registeredAt method

/-- The first method that is registered above an address. -/
def IsNext (managedMethods : List (MethodDefinitionKey M)) (nativeMethod : ℕ)
    (method : MethodDefinitionKey M) : Prop :=
  method ∈ managedMethods ∧ nativeMethod < s.registeredAt method ∧
    ∀ other ∈ managedMethods, nativeMethod < s.registeredAt other →
      s.registeredAt method ≤ s.registeredAt other

/-- What is found at an address, `none` if there is no method. -/
inductive IsMethodAt (managedMethods : List (MethodDefinitionKey M)) (nativeMethod : ℕ) :
    Option M → Prop
  | outside : s.inImage nativeMethod = false → IsMethodAt managedMethods nativeMethod none
  /-- With symbols, a method that is registered at the start of the symbol around the address. -/
  | symbol (symbol : SymbolInfo) (method : MethodDefinitionKey M) :
    s.inImage nativeMethod → symbol ∈ s.symbolInfos → s.Contains symbol nativeMethod →
    method ∈ managedMethods →
    s.registeredAt method = s.target.maskSpareBits (s.imageBase + symbol.address) →
    IsMethodAt managedMethods nativeMethod (some method.methodHandle)
  | noSymbol : s.inImage nativeMethod → 0 < s.symbolInfos.size →
    (∀ symbol ∈ s.symbolInfos, s.Contains symbol nativeMethod → ∀ method ∈ managedMethods,
      s.registeredAt method ≠ s.target.maskSpareBits (s.imageBase + symbol.address)) →
    IsMethodAt managedMethods nativeMethod none
  /-- Without symbols, the last method if the managed section tells that it is one. -/
  | inSection (method : MethodDefinitionKey M) :
    s.inImage nativeMethod → s.symbolInfos.size = 0 → s.managedSection.isSome →
    s.IsLast managedMethods nativeMethod method →
    IsMethodAt managedMethods nativeMethod (some method.methodHandle)
  /-- Without a managed section, the last method if the next one is near. -/
  | near (method next : MethodDefinitionKey M) :
    s.inImage nativeMethod → s.symbolInfos.size = 0 → s.managedSection.isNone →
    s.IsLast managedMethods nativeMethod method → s.IsNext managedMethods nativeMethod next →
    (s.target.mutated next).method < nativeMethod + 5000 →
    IsMethodAt managedMethods nativeMethod (some method.methodHandle)
  | far (next : MethodDefinitionKey M) :
    s.inImage nativeMethod → s.symbolInfos.size = 0 → s.managedSection.isNone →
    s.IsNext managedMethods nativeMethod next →
    nativeMethod + 5000 ≤ (s.target.mutated next).method →
    IsMethodAt managedMethods nativeMethod none
  | noNext : s.inImage nativeMethod → s.symbolInfos.size = 0 → s.managedSection.isNone →
    (∀ method ∈ managedMethods, s.registeredAt method ≤ nativeMethod) →
    IsMethodAt managedMethods nativeMethod none

/-! ### Symbols -/

theorem natStrictWeakOrder :
    StrictWeakOrder (fun a b : ℕ => decide (a < b)) (fun a b => decide (a = b)) where
  irrefl a := by simp
  trans a b c := by simpa using Nat.lt_trans
  incomparable_iff a b := by simp; omega
  equals_trans a b c := by simpa using Eq.trans

variable {s}

theorem Sorted.partitioned (hsorted : s.Sorted) (interior : SymbolInfo) :
    Partitioned s.symbolInfos fun b => !compareEndOfSymbols interior b := by
  intro i j hi hj hij hbelow
  obtain rfl | hlt := Nat.eq_or_lt_of_le hij
  · exact hbelow
  · have := hsorted i j hi hj hlt
    simp only [compareEndOfSymbols, Bool.not_eq_true', decide_eq_false_iff_not] at hbelow ⊢
    omega

/-- **The containing symbol** of an address in the image is the one whose range it is in. -/
theorem findSymbolInfoForNativeMethod_eq_some_iff (hsorted : s.Sorted) {nativeMethod : ℕ}
    (hbase : s.imageBase ≤ nativeMethod) {symbol : SymbolInfo} :
    s.findSymbolInfoForNativeMethod nativeMethod = some symbol ↔
      symbol ∈ s.symbolInfos ∧ s.Contains symbol nativeMethod := by
  have hspec : ∀ i (hi : i < s.symbolInfos.size), s.symbolInfos[i].address +
      s.symbolInfos[i].length ≤ nativeMethod - s.imageBase ↔ i < lowerBound s.symbolInfos
        fun b => !compareEndOfSymbols ⟨nativeMethod - s.imageBase, 0⟩ b := by
    intro i hi
    rw [← lowerBound_spec (hsorted.partitioned _) hi]
    simp [compareEndOfSymbols]
  rw [findSymbolInfoForNativeMethod]
  constructor
  · intro h
    simp only at h
    split_ifs at h with hfound hguard
    cases h
    have hend := (hspec _ hfound).not.2 (Nat.lt_irrefl _)
    refine ⟨Array.getElem_mem hfound, ?_, ?_⟩ <;> omega
  · rintro ⟨hmem, hstart, hend⟩
    obtain ⟨i, hi, rfl⟩ := Array.mem_iff_getElem.1 hmem
    -- the symbols before this one end before it starts
    have hfirst : lowerBound s.symbolInfos
        (fun b => !compareEndOfSymbols ⟨nativeMethod - s.imageBase, 0⟩ b) = i := by
      refine Nat.le_antisymm (Nat.not_lt.1 fun hlt => ?_) (Nat.not_lt.1 fun hlt => ?_)
      · have := (hspec i hi).2 hlt
        omega
      · have hbefore := hsorted _ i (Nat.lt_trans hlt hi) hi hlt
        refine Nat.lt_irrefl _ ((hspec _ (Nat.lt_trans hlt hi)).1 ?_)
        omega
    simp only [hfirst, hi, ↓reduceDIte]
    rw [if_neg]
    omega

/-! ### Methods -/

theorem mutated_methodHandle (target : NativeTarget) (method : MethodDefinitionKey M) :
    (target.mutated method).methodHandle = method.methodHandle := by
  rw [NativeTarget.mutated]
  split_ifs <;> rfl

theorem registeredAt_le_iff {nativeMethod i : ℕ} {method : MethodDefinitionKey M}
    {hi : i < s.nativeMethods.values.size}
    (hentry : s.nativeMethods.values[i] = s.target.mutated method) :
    s.registeredAt method ≤ nativeMethod ↔ i < s.nativeMethods.upperBound nativeMethod := by
  rw [← ArrayValueMap.upperBound_spec natStrictWeakOrder nativeMethod hi, hentry,
    decide_eq_false_iff_not, Nat.not_lt]
  rfl

theorem registeredAt_le_of_le {i j : ℕ} {method other : MethodDefinitionKey M}
    {hi : i < s.nativeMethods.values.size} {hj : j < s.nativeMethods.values.size} (hij : i ≤ j)
    (hentry : s.nativeMethods.values[i] = s.target.mutated method)
    (hother : s.nativeMethods.values[j] = s.target.mutated other) :
    s.registeredAt method ≤ s.registeredAt other := by
  have := s.nativeMethods.sorted i j hi hj hij
  rw [hentry, hother, decide_eq_false_iff_not, Nat.not_lt] at this
  exact this

theorem probably_iff {managedMethods : List (MethodDefinitionKey M)} {nativeMethod : ℕ}
    {next : MethodDefinitionKey M}
    (hnext : s.IsNext managedMethods nativeMethod next) :
    isInstructionPointerProbablyInManagedMethod (s.target.mutated next).method nativeMethod ↔
      (s.target.mutated next).method < nativeMethod + 5000 := by
  have habove : nativeMethod < (s.target.mutated next).method := by
    refine Nat.lt_of_lt_of_le hnext.2.1 ?_
    rw [registeredAt, NativeTarget.methodKey, NativeTarget.maskSpareBits]
    split_ifs <;> omega
  rw [isInstructionPointerProbablyInManagedMethod, decide_eq_true_eq]
  omega

section

variable {managedMethods : List (MethodDefinitionKey M)} (hreg : s.Registered managedMethods)
include hreg

theorem Registered.mem_values {entry : MethodDefinitionKey M} :
    entry ∈ s.nativeMethods.values ↔
      ∃ method ∈ managedMethods, s.target.mutated method = entry := by
  rw [← Array.mem_toList_iff, hreg.mem_iff, List.mem_map]

theorem Registered.exists_method {i : ℕ} (hi : i < s.nativeMethods.values.size) :
    ∃ method ∈ managedMethods, s.nativeMethods.values[i] = s.target.mutated method := by
  obtain ⟨method, hmem, heq⟩ := hreg.mem_values.1 (Array.getElem_mem hi)
  exact ⟨method, hmem, heq.symm⟩

theorem Registered.exists_entry {method : MethodDefinitionKey M} (hmem : method ∈ managedMethods) :
    ∃ i, ∃ hi : i < s.nativeMethods.values.size,
      s.nativeMethods.values[i] = s.target.mutated method :=
  Array.mem_iff_getElem.1 (hreg.mem_values.2 ⟨method, hmem, rfl⟩)

theorem lookupSymbol_spec (hsorted : s.Sorted) {nativeMethod : ℕ}
    (himage : s.inImage nativeMethod) (hsymbols : 0 < s.symbolInfos.size) :
    s.IsMethodAt managedMethods nativeMethod (s.lookupSymbol nativeMethod) := by
  have hbase : s.imageBase ≤ nativeMethod := by
    rw [inImage, Bool.and_eq_true, decide_eq_true_eq] at himage
    exact himage.1
  have hiff (symbol : SymbolInfo) : s.findSymbolInfoForNativeMethod nativeMethod = some symbol ↔ _ :=
    findSymbolInfoForNativeMethod_eq_some_iff hsorted hbase
  rw [lookupSymbol]
  cases hfind : s.findSymbolInfoForNativeMethod nativeMethod with
  | none =>
    refine .noSymbol himage hsymbols fun symbol hmem hcontains => ?_
    rw [(hiff symbol).2 ⟨hmem, hcontains⟩] at hfind
    cases hfind
  | some symbol =>
    obtain ⟨hmem, hcontains⟩ := (hiff symbol).1 hfind
    simp only
    generalize hkey : s.target.maskSpareBits (s.imageBase + symbol.address) = key
    by_cases hend : s.nativeMethods.findFirst key = s.nativeMethods.end
    · -- no method is registered there, and no other symbol contains the address
      rw [hend, ArrayValueMap.end, Array.getElem?_eq_none (Nat.le_refl _), Option.map_none]
      refine .noSymbol himage hsymbols fun other hother hcontains' method hmethod heq => ?_
      have hsame := ((hiff other).2 ⟨hother, hcontains'⟩).symm.trans hfind
      cases hsame
      refine (ArrayValueMap.findFirst_ne_end_iff key natStrictWeakOrder).2
        ⟨_, hreg.mem_values.2 ⟨method, hmethod, rfl⟩, ?_⟩ hend
      exact decide_eq_true (heq.trans hkey)
    · obtain ⟨hi, hhas⟩ := ArrayValueMap.hasKey_findFirst key hend
      obtain ⟨method, hmethod, hentry⟩ := hreg.exists_method hi
      rw [Array.getElem?_eq_getElem hi, Option.map_some, hentry, mutated_methodHandle]
      refine .symbol symbol method himage hmem hcontains hmethod ?_
      rw [ArrayValueMap.hasKey, hentry] at hhas
      exact (of_decide_eq_true hhas).trans hkey.symm

theorem Registered.isLast {nativeMethod : ℕ} {first : MethodDefinitionKey M}
    (hmem : first ∈ managedMethods) (hle : s.registeredAt first ≤ nativeMethod) :
    ∃ method, s.IsLast managedMethods nativeMethod method ∧
      s.nativeMethods.values[s.nativeMethods.upperBound nativeMethod - 1]? =
        some (s.target.mutated method) := by
  obtain ⟨i, hi, hentry⟩ := hreg.exists_entry hmem
  have hbound := (registeredAt_le_iff hentry).1 hle
  have hsize := s.nativeMethods.upperBound_le natStrictWeakOrder nativeMethod
  have hlast : s.nativeMethods.upperBound nativeMethod - 1 < s.nativeMethods.values.size := by omega
  obtain ⟨method, hmethod, hentry'⟩ := hreg.exists_method hlast
  refine ⟨method, ⟨hmethod, (registeredAt_le_iff hentry').2 (by omega), fun other hother hle' => ?_⟩,
    by rw [Array.getElem?_eq_getElem hlast, hentry']⟩
  obtain ⟨j, hj, hentryj⟩ := hreg.exists_entry hother
  have := (registeredAt_le_iff hentryj).1 hle'
  exact registeredAt_le_of_le (by omega) hentryj hentry'

theorem Registered.isNext {nativeMethod : ℕ}
    (hlt : s.nativeMethods.upperBound nativeMethod < s.nativeMethods.values.size) :
    ∃ next, s.IsNext managedMethods nativeMethod next ∧
      s.nativeMethods.values[s.nativeMethods.upperBound nativeMethod]? =
        some (s.target.mutated next) := by
  obtain ⟨next, hnext, hentry⟩ := hreg.exists_method hlt
  refine ⟨next, ⟨hnext, Nat.not_le.1 fun hle => ?_, fun other hother hgt => ?_⟩,
    by rw [Array.getElem?_eq_getElem hlt, hentry]⟩
  · exact Nat.lt_irrefl _ ((registeredAt_le_iff hentry).1 hle)
  · obtain ⟨j, hj, hentryj⟩ := hreg.exists_entry hother
    have := (registeredAt_le_iff hentryj).not.1 (Nat.not_le.2 hgt)
    exact registeredAt_le_of_le (by omega) hentry hentryj

theorem lookupMethod_spec {nativeMethod : ℕ} (himage : s.inImage nativeMethod)
    (hsymbols : s.symbolInfos.size = 0)
    (hfirst : (∃ method ∈ managedMethods, s.registeredAt method ≤ nativeMethod) ∨
      s.managedSection.isNone ∧
        ∀ method ∈ managedMethods, nativeMethod + 5000 ≤ (s.target.mutated method).method) :
    ∃ result, s.lookupMethod nativeMethod = some result ∧
      s.IsMethodAt managedMethods nativeMethod result := by
  rw [lookupMethod]
  cases hsection : s.managedSection.isNone with
  | false =>
    obtain ⟨first, hmem, hle⟩ := hfirst.resolve_right (by simp [hsection])
    obtain ⟨method, hlast, hentry⟩ := hreg.isLast hmem hle
    exact ⟨some method.methodHandle, by simp [hentry, mutated_methodHandle],
      .inSection method himage hsymbols (by simpa using hsection) hlast⟩
  | true =>
    by_cases hlt : s.nativeMethods.upperBound nativeMethod < s.nativeMethods.values.size
    · obtain ⟨next, hnext, hentry⟩ := hreg.isNext hlt
      simp only [hentry, Bool.true_and]
      by_cases hnear : isInstructionPointerProbablyInManagedMethod (s.target.mutated next).method
          nativeMethod
      · have hdistance := (probably_iff hnext).1 hnear
        obtain ⟨first, hmem, hle⟩ := hfirst.resolve_right fun hfar =>
          absurd (hfar.2 next hnext.1) (by omega)
        obtain ⟨method, hlast, hentry'⟩ := hreg.isLast hmem hle
        exact ⟨some method.methodHandle, by simp [hnear, hentry', mutated_methodHandle],
          .near method next himage hsymbols hsection hlast hnext hdistance⟩
      · have hdistance := (probably_iff hnext).not.1 hnear
        exact ⟨none, by simp [hnear],
          .far next himage hsymbols hsection hnext (by omega)⟩
    · rw [Array.getElem?_eq_none (by omega)]
      refine ⟨none, rfl, .noNext himage hsymbols hsection fun method hmem => ?_⟩
      obtain ⟨i, hi, hentry⟩ := hreg.exists_entry hmem
      exact (registeredAt_le_iff hentry).2 (by omega)

/-- **Native symbol lookup.**  The function finds the method at an address.  Without symbols the
address is not below the first method, or it is far below that and there is no managed section. -/
theorem getMethodFromNativeSymbol_spec (hsorted : s.Sorted) {nativeMethod : ℕ}
    (hfirst : s.symbolInfos.size = 0 →
      (∃ method ∈ managedMethods, s.registeredAt method ≤ nativeMethod) ∨
      s.managedSection.isNone ∧
        ∀ method ∈ managedMethods, nativeMethod + 5000 ≤ (s.target.mutated method).method) :
    ∃ result, s.getMethodFromNativeSymbol nativeMethod = some result ∧
      s.IsMethodAt managedMethods nativeMethod result := by
  rw [getMethodFromNativeSymbol]
  cases himage : s.inImage nativeMethod with
  | false => exact ⟨none, rfl, .outside himage⟩
  | true =>
    by_cases hsymbols : s.symbolInfos.size > 0
    · exact ⟨_, if_pos hsymbols, lookupSymbol_spec hreg hsorted himage hsymbols⟩
    · have hempty : s.symbolInfos.size = 0 := by omega
      obtain ⟨result, hlookup, hfound⟩ := lookupMethod_spec hreg himage hempty (hfirst hempty)
      exact ⟨result, (if_neg hsymbols).trans hlookup, hfound⟩

end

end NativeSymbols

/-! ### Two methods -/

/-- Two methods that are far from each other. -/
def farMethods : List (MethodDefinitionKey ℕ) := [⟨1000, 0⟩, ⟨20000, 1⟩]

/-- They are registered one byte later. -/
def farSymbols (managedSection : Option (ℕ × ℕ)) : NativeSymbols ℕ where
  target := ⟨false, true⟩
  imageBase := 100
  managedSection := managedSection
  symbolInfos := #[]
  nativeMethods := ⟨#[⟨1001, 0⟩, ⟨20001, 1⟩], fun i j hi hj hij => by
    simp only [List.size_toArray, List.length_cons, List.length_nil] at hi hj
    interval_cases i <;> interval_cases j <;> simp_all [NativeTarget.methodKey,
      NativeTarget.maskSpareBits]⟩

namespace NativeSymbols

theorem farSymbols_registered (managedSection : Option (ℕ × ℕ)) :
    (farSymbols managedSection).Registered farMethods := .refl _

/-- With a managed section the first of them is found. -/
theorem getMethodFromNativeSymbol_spec_far :
    ∃ result, (farSymbols (some (1000, 30000))).getMethodFromNativeSymbol 1500 = some result ∧
      (farSymbols (some (1000, 30000))).IsMethodAt farMethods 1500 result :=
  getMethodFromNativeSymbol_spec (farSymbols_registered _) (fun i _ hi => absurd hi (Nat.not_lt_zero i))
    fun _ => .inl ⟨⟨1000, 0⟩, .head _, by decide⟩

/-- Without one, an address in the first of them is too far from the second. -/
theorem getMethodFromNativeSymbol_uncertain : ¬ ∀ (s : NativeSymbols ℕ)
    (managedMethods : List (MethodDefinitionKey ℕ)) (nativeMethod : ℕ)
    (method : MethodDefinitionKey ℕ), s.Registered managedMethods → s.symbolInfos.size = 0 →
      s.inImage nativeMethod → method ∈ managedMethods → method.method ≤ nativeMethod →
      (∀ other ∈ managedMethods, other.method ≤ nativeMethod → other.method ≤ method.method) →
      s.getMethodFromNativeSymbol nativeMethod = some (some method.methodHandle) := by
  intro h
  have hfound := h (farSymbols none) farMethods 1500 ⟨1000, 0⟩ (farSymbols_registered _) rfl rfl
    (.head _) (by decide) (by simp [farMethods])
  simp [getMethodFromNativeSymbol, inImage, lookupMethod, farSymbols, ArrayValueMap.upperBound,
    lowerBound, lowerBoundLoop, NativeTarget.methodKey, NativeTarget.maskSpareBits,
    isInstructionPointerProbablyInManagedMethod] at hfound

end NativeSymbols

end Il2Cpp
