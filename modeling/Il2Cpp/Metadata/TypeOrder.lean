import Il2Cpp.Metadata.TypeCompare
import Il2Cpp.Data.ArrayValueMap

/-!
# The order of types

`Il2CppTypeLess` orders the tables that map a type to its interop data.  A type is written out as
a list of tokens, its `sortKey`; the three-way comparison of two types is the lexicographic
comparison of their keys (`compare_eq_compareLex`), and so inherits the laws of an order.

* `Il2CppType.less_strictWeakOrder` : `Il2CppTypeLess` is a strict weak order, and two types are
  incomparable exactly when `AreEqual` holds.
* `typeLess_and_find` : a lookup in a table sorted by it misses no entry.
-/

namespace Il2Cpp

section

variable {α β : Type} [LinearOrder α] [LinearOrder β]

theorem compareValue_eq_compare (a b : α) : compareValue a b = Ord.compare a b := by
  unfold compareValue
  split_ifs with heq hlt
  · exact (compare_eq_iff_eq.2 heq).symm
  · exact (compare_lt_iff_lt.2 hlt).symm
  · exact (compare_gt_iff_gt.2 (lt_of_le_of_ne (not_lt.1 hlt) (Ne.symm heq))).symm

theorem compareValue_map {f : α → β} (hf : StrictMono f) (a b : α) :
    compareValue (f a) (f b) = compareValue a b := by
  simp only [compareValue, hf.injective.eq_iff, hf.lt_iff_lt]

instance : Std.TransCmp (compareValue (α := α)) :=
  (funext₂ compareValue_eq_compare : compareValue (α := α) = Ord.compare) ▸ inferInstance

instance : Std.LawfulEqCmp (compareValue (α := α)) where
  compare_self := compareValue_self _
  eq_of_compare := compareValue_eq_iff.1

end

namespace Il2CppType

variable {H P : Type}

/-- What a sort key consists of: numbers, type definition handles and generic parameter handles. -/
abbrev SortToken (H P : Type) : Type := ℕ ⊕ₗ (H ⊕ₗ P)

/-- A number as a token. -/
def num (n : ℕ) : SortToken H P := toLex (.inl n)

/-- A type definition handle as a token. -/
def handle (h : H) : SortToken H P := toLex (.inr (toLex (.inl h)))

/-- A generic parameter handle as a token. -/
def param (p : P) : SortToken H P := toLex (.inr (toLex (.inr p)))

mutual

/-- The tokens in the order in which `compare` looks at them. -/
def sortKey (t : Il2CppType H P) : List (SortToken H P) :=
  num t.type :: num t.byref.toNat ::
  match t with
  | simple .. => []
  | valuetype _ h | klass _ h => [handle h]
  | ptr _ e | szarray _ e => sortKey e
  | array _ e rank => num rank :: sortKey e
  | genericinst _ _ none => [num 0]
  | genericinst _ g (some i) => num 1 :: num i.length :: (sortKey g ++ sortKeys i)
  | var _ p | mvar _ p => [param p]

/-- The keys of the type arguments. -/
def sortKeys : List (Il2CppType H P) → List (SortToken H P)
  | [] => []
  | a :: as => sortKey a ++ sortKeys as

end

/-- Two types of one kind, their flags and contents being anything. -/
inductive SameKind : Il2CppType H P → Il2CppType H P → Prop
  | simple (a b : Bool) (tag : SimpleType) : SameKind (.simple a tag) (.simple b tag)
  | valuetype (a b : Bool) (h h' : H) : SameKind (.valuetype a h) (.valuetype b h')
  | klass (a b : Bool) (h h' : H) : SameKind (.klass a h) (.klass b h')
  | ptr (a b : Bool) (e e' : Il2CppType H P) : SameKind (.ptr a e) (.ptr b e')
  | szarray (a b : Bool) (e e' : Il2CppType H P) : SameKind (.szarray a e) (.szarray b e')
  | array (a b : Bool) (e e' : Il2CppType H P) (r r' : ℕ) :
      SameKind (.array a e r) (.array b e' r')
  | genericinst (a b : Bool) (g g' : Il2CppType H P) (i i' : Option (List (Il2CppType H P))) :
      SameKind (.genericinst a g i) (.genericinst b g' i')
  | var (a b : Bool) (p p' : P) : SameKind (.var a p) (.var b p')
  | mvar (a b : Bool) (p p' : P) : SameKind (.mvar a p) (.mvar b p')

theorem sameKind_of_type_eq {t1 t2 : Il2CppType H P} (ht : t1.type = t2.type) :
    SameKind t1 t2 := by
  cases t1 <;> cases t2 <;> simp only [type] at ht
  case simple.simple => exact SimpleType.toNat_inj ht ▸ .simple _ _ _
  case valuetype.valuetype => exact .valuetype ..
  case klass.klass => exact .klass ..
  case ptr.ptr => exact .ptr ..
  case szarray.szarray => exact .szarray ..
  case array.array => exact .array ..
  case genericinst.genericinst => exact .genericinst ..
  case var.var => exact .var ..
  case mvar.mvar => exact .mvar ..
  -- the remaining pairs have different tags
  all_goals first
    | exact absurd ht (by decide)
    | exact absurd (List.mem_of_elem_eq_true rfl) (ht ▸ SimpleType.toNat_ne _)
    | exact absurd (List.mem_of_elem_eq_true rfl) (ht.symm ▸ SimpleType.toNat_ne _)

variable [LinearOrder H] [LinearOrder P]

@[simp] theorem compareValue_num (m n : ℕ) :
    compareValue (num m : SortToken H P) (num n) = compareValue m n :=
  compareValue_map (fun _ _ h => Sum.Lex.inl_lt_inl_iff.2 h) m n

@[simp] theorem compareValue_handle (h h' : H) :
    compareValue (handle h : SortToken H P) (handle h') = compareValue h h' :=
  compareValue_map (fun _ _ h => Sum.Lex.inr_lt_inr_iff.2 (Sum.Lex.inl_lt_inl_iff.2 h)) h h'

@[simp] theorem compareValue_param (p p' : P) :
    compareValue (param p : SortToken H P) (param p') = compareValue p p' :=
  compareValue_map (fun _ _ h => Sum.Lex.inr_lt_inr_iff.2 (Sum.Lex.inr_lt_inr_iff.2 h)) p p'

@[simp] theorem compareValue_toNat (a b : Bool) :
    compareValue a.toNat b.toNat = compareValue a b := by
  cases a <;> cases b <;> rfl

theorem compare_of_type_ne {t1 t2 : Il2CppType H P} (ht : t1.type ≠ t2.type) :
    compare t1 t2 = compareValue t1.type t2.type := by
  unfold compare
  split
  · rename_i heq
    exact absurd (compareValue_eq_iff.1 heq) ht
  · rfl

theorem compare_of_byref_ne {t1 t2 : Il2CppType H P} (ht : t1.type = t2.type)
    (hb : t1.byref ≠ t2.byref) : compare t1 t2 = compareValue t1.byref t2.byref := by
  unfold compare
  rw [ht, compareValue_self]
  dsimp only
  split
  · rename_i heq
    exact absurd (compareValue_eq_iff.1 heq) hb
  · rfl

theorem compare_array (b : Bool) (e e' : Il2CppType H P) (r r' : ℕ) :
    compare (.array b e r) (.array b e' r') = (compareValue r r').then (compare e e') := by
  cases hr : compareValue r r' <;> simp [compare, type, byref, hr]

theorem compare_genericinst (b : Bool) (g g' : Il2CppType H P) (i i' : List (Il2CppType H P)) :
    compare (.genericinst b g (some i)) (.genericinst b g' (some i')) =
      (compareValue i.length i'.length).then ((compare g g').then (compareArgs i i')) := by
  cases hl : compareValue i.length i'.length <;> cases hg : compare g g' <;>
    simp [compare, type, byref, hl, hg]

theorem compareArgs_cons (a b : Il2CppType H P) (as bs : List (Il2CppType H P)) :
    compareArgs (a :: as) (b :: bs) = (compare a b).then (compareArgs as bs) := by
  cases hab : compare a b <;> simp [compareArgs, hab]

theorem then_of_ne_eq {o : Ordering} (h : o ≠ .eq) (o' : Ordering) : o.then o' = o := by
  cases o <;> first | rfl | exact absurd rfl h

mutual

/-- **Comparing two types compares their keys**, whatever follows the keys. -/
theorem compareLex_sortKey_append (t1 t2 : Il2CppType H P) (r1 r2 : List (SortToken H P)) :
    List.compareLex compareValue (sortKey t1 ++ r1) (sortKey t2 ++ r2) =
      (compare t1 t2).then (List.compareLex compareValue r1 r2) := by
  rw [sortKey.eq_def t1, sortKey.eq_def t2]
  simp only [List.cons_append, List.compareLex_cons_cons, compareValue_num, compareValue_toNat]
  by_cases ht : t1.type = t2.type
  · by_cases hb : t1.byref = t2.byref
    · simp only [ht, hb, compareValue_self, Ordering.eq_then]
      cases sameKind_of_type_eq ht <;> simp only [byref] at hb <;> subst hb
      case simple => simp [compare, type, byref]
      case valuetype => simp [compare, type, byref, List.compareLex_cons_cons]
      case klass => simp [compare, type, byref, List.compareLex_cons_cons]
      case var => simp [compare, type, byref, List.compareLex_cons_cons]
      case mvar => simp [compare, type, byref, List.compareLex_cons_cons]
      case ptr e e' => simpa [compare, type, byref] using compareLex_sortKey_append e e' r1 r2
      case szarray e e' => simpa [compare, type, byref] using compareLex_sortKey_append e e' r1 r2
      case array e e' r r' =>
        simp only [compare_array, List.cons_append, List.compareLex_cons_cons, compareValue_num,
          Ordering.then_assoc, compareLex_sortKey_append e e' r1 r2]
      case genericinst g g' i i' =>
        match i, i' with
        | none, none => simp [compare, type, byref, List.compareLex_cons_cons]
        | none, some i' =>
          simp [compare, type, byref, List.compareLex_cons_cons,
            show compareValue 0 1 = Ordering.lt from rfl]
        | some i, none =>
          simp [compare, type, byref, List.compareLex_cons_cons,
            show compareValue 1 0 = Ordering.gt from rfl]
        | some i, some i' =>
          simp only [compare_genericinst, compareValue_self, List.cons_append, List.append_assoc,
            List.compareLex_cons_cons, compareValue_num, Ordering.eq_then, Ordering.then_assoc,
            compareLex_sortKey_append g g']
          by_cases hl : i.length = i'.length
          · simp only [hl, compareValue_self, Ordering.eq_then,
              compareLex_sortKeys_append i i' hl r1 r2]
          · simp only [then_of_ne_eq (mt compareValue_eq_iff.1 hl)]
    · have hne := mt compareValue_eq_iff.1 hb
      rw [compare_of_byref_ne ht hb, then_of_ne_eq hne, then_of_ne_eq hne, ht, compareValue_self,
        Ordering.eq_then]
  · have hne := mt compareValue_eq_iff.1 ht
    rw [compare_of_type_ne ht, then_of_ne_eq hne, then_of_ne_eq hne]

theorem compareLex_sortKeys_append (as bs : List (Il2CppType H P)) (hl : as.length = bs.length)
    (r1 r2 : List (SortToken H P)) :
    List.compareLex compareValue (sortKeys as ++ r1) (sortKeys bs ++ r2) =
      (compareArgs as bs).then (List.compareLex compareValue r1 r2) := by
  match as, bs with
  | [], [] => simp [sortKeys, compareArgs]
  | a :: as, b :: bs =>
    simp only [sortKeys, compareArgs_cons, List.append_assoc, Ordering.then_assoc,
      compareLex_sortKey_append a b]
    rw [compareLex_sortKeys_append as bs (by simpa using hl) r1 r2]

end

theorem compare_eq_compareLex (t1 t2 : Il2CppType H P) :
    compare t1 t2 = List.compareLex compareValue (sortKey t1) (sortKey t2) := by
  simpa [List.compareLex_nil_nil] using (compareLex_sortKey_append t1 t2 [] []).symm

theorem areEqual_iff_sortKey {t1 t2 : Il2CppType H P} :
    areEqual t1 t2 = true ↔ sortKey t1 = sortKey t2 := by
  rw [areEqual, beq_iff_eq, compare_eq_compareLex, Std.LawfulEqCmp.compare_eq_iff_eq]

instance : Std.TransCmp (compare (H := H) (P := P)) where
  eq_swap {a b} := by
    simp only [compare_eq_compareLex]
    exact Std.OrientedCmp.eq_swap
  isLE_trans {a b c} := by
    simp only [compare_eq_compareLex]
    exact Std.TransCmp.isLE_trans

theorem less_strictWeakOrder : StrictWeakOrder (less (H := H) (P := P)) areEqual where
  irrefl a := by simp [less, Std.ReflCmp.compare_self]
  trans a b c hab hbc := by
    simp only [less, beq_iff_eq] at hab hbc ⊢
    exact Std.TransCmp.lt_trans hab hbc
  incomparable_iff a b := by
    simp only [less, areEqual, beq_iff_eq, beq_eq_false_iff_ne]
    have hswap : compare b a = (compare a b).swap := Std.OrientedCmp.eq_swap
    rw [hswap]
    cases compare a b <;> simp
  equals_trans a b c hab hbc := by
    rw [areEqual_iff_sortKey] at *
    exact hab.trans hbc

end Il2CppType

/-! ### Tables sorted by type -/

section

variable {H P : Type} [LinearOrder H] [LinearOrder P]

/-- A table of values that are looked up by their type. -/
abbrev TypeTable (V : Type) (toType : V → Il2CppType H P) : Type :=
  ArrayValueMap (Il2CppType H P) V toType Il2CppType.less Il2CppType.areEqual

/-- `Il2CppInteropData`; `D` stands for what it holds beside its type. -/
structure Il2CppInteropData (H P D : Type) where
  /-- The key. -/
  type : Il2CppType H P
  /-- The marshalling functions, the guid and the factory. -/
  data : D

/-- `InteropDataMap`. -/
abbrev InteropDataMap (H P D : Type) [LinearOrder H] [LinearOrder P] : Type :=
  TypeTable (Il2CppInteropData H P D) Il2CppInteropData.type

/-- `MetadataCache::GetInteropDataForType`. -/
def getInteropDataForType {D : Type} (interopData : InteropDataMap H P D)
    (type : Il2CppType H P) : Option (Il2CppInteropData H P D) :=
  if interopData.findFirst type = interopData.end then none
  else interopData.values[interopData.findFirst type]?

theorem getInteropDataForType_isSome {D : Type} (interopData : InteropDataMap H P D)
    (type : Il2CppType H P) :
    (getInteropDataForType interopData type).isSome ↔
      ∃ d ∈ interopData.values, d.type.areEqual type = true := by
  rw [← ArrayValueMap.findFirst_ne_end_iff type Il2CppType.less_strictWeakOrder]
  unfold getInteropDataForType
  split_ifs with h
  · simp [h]
  · obtain ⟨hi, -⟩ := ArrayValueMap.hasKey_findFirst type h
    simp [h, hi]

/-- **Types are totally ordered up to `AreEqual`, and a lookup in a sorted table misses nothing.** -/
theorem typeLess_and_find :
    (∀ t : Il2CppType H P, t.less t = false) ∧
    (∀ t1 t2 t3 : Il2CppType H P,
      t1.less t2 = true → t2.less t3 = true → t1.less t3 = true) ∧
    (∀ t1 t2 : Il2CppType H P,
      t1.less t2 = false ∧ t2.less t1 = false ↔ t1.areEqual t2 = true) ∧
    (∀ t1 t2 t3 : Il2CppType H P,
      t1.areEqual t2 = true → t2.areEqual t3 = true → t1.areEqual t3 = true) ∧
    ∀ (V : Type) (toType : V → Il2CppType H P) (m : TypeTable V toType) (key : Il2CppType H P),
      (m.findFirst key ≠ m.end ↔ ∃ v ∈ m.values, (toType v).areEqual key = true) ∧
      (m.findFirst key ≠ m.end →
        ∃ v, m.values[m.findFirst key]? = some v ∧ (toType v).areEqual key = true) ∧
      ∀ equalsPredicate : V → Bool,
        (m.find key equalsPredicate ≠ m.end ↔
          ∃ v ∈ m.values, (toType v).areEqual key = true ∧ equalsPredicate v = true) ∧
        (m.find key equalsPredicate ≠ m.end →
          ∃ v, m.values[m.find key equalsPredicate]? = some v ∧
            (toType v).areEqual key = true ∧ equalsPredicate v = true) := by
  have ho := Il2CppType.less_strictWeakOrder (H := H) (P := P)
  refine ⟨ho.irrefl, ho.trans, ho.incomparable_iff, ho.equals_trans, fun V toType m key =>
    ⟨ArrayValueMap.findFirst_ne_end_iff key ho, fun h => ?_, fun p =>
      ⟨ArrayValueMap.find_ne_end_iff key ho p, fun h => ?_⟩⟩⟩
  · obtain ⟨hi, hk⟩ := ArrayValueMap.hasKey_findFirst key h
    exact ⟨_, Array.getElem?_eq_getElem hi, hk⟩
  · obtain ⟨hi, hk, hp⟩ := ArrayValueMap.findLoop_sound key p _ h
    exact ⟨_, Array.getElem?_eq_getElem hi, hk, hp⟩

end

end Il2Cpp
