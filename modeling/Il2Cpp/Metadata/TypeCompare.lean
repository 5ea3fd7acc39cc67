import Il2Cpp.Metadata.Il2CppType

/-!
# Structural comparison of types

The three-way comparison behind `Il2CppTypeEqualityComparer`, `Il2CppTypeLess`,
`Il2CppGenericInstCompare` and `Il2CppSignatureCompare`.  A negative, zero or positive result of the
source is `.lt`, `.eq` or `.gt`.
-/

namespace Il2Cpp

/-- The template `Compare` for plain values. -/
def compareValue {α : Type} [LinearOrder α] (left right : α) : Ordering :=
  if left = right then .eq else if left < right then .lt else .gt

@[simp] theorem compareValue_eq_iff {α : Type} [LinearOrder α] {a b : α} :
    compareValue a b = .eq ↔ a = b := by
  unfold compareValue
  split_ifs with h <;> simp [h]

@[simp] theorem compareValue_self {α : Type} [LinearOrder α] (a : α) : compareValue a a = .eq :=
  compareValue_eq_iff.2 rfl

namespace Il2CppType

variable {H P : Type} [LinearOrder H] [LinearOrder P]

mutual

/-- `Compare` on types: first the tag, then `byref`, then what the tag selects. -/
def compare (t1 t2 : Il2CppType H P) : Ordering :=
  match compareValue t1.type t2.type with
  | .eq =>
    match compareValue t1.byref t2.byref with
    | .eq =>
      match t1, t2 with
      | valuetype _ h1, valuetype _ h2 | klass _ h1, klass _ h2 => compareValue h1 h2
      | ptr _ e1, ptr _ e2 | szarray _ e1, szarray _ e2 => compare e1 e2
      | array _ e1 r1, array _ e2 r2 =>
        match compareValue r1 r2 with
        | .eq => compare e1 e2
        | result => result
      -- this happens when maximum generic recursion is hit
      | genericinst _ _ none, genericinst _ _ none => .eq
      | genericinst _ _ none, genericinst _ _ (some _) => .lt
      | genericinst _ _ (some _), genericinst _ _ none => .gt
      | genericinst _ g1 (some i1), genericinst _ g2 (some i2) =>
        match compareValue i1.length i2.length with
        | .eq =>
          match compare g1 g2 with
          | .eq => compareArgs i1 i2
          | result => result
        | result => result
      | var _ p1, var _ p2 | mvar _ p1, mvar _ p2 => compareValue p1 p2
      | _, _ => .eq
    | result => result
  | result => result

/-- The loop over the type arguments of two instances with the same `type_argc`. -/
def compareArgs : List (Il2CppType H P) → List (Il2CppType H P) → Ordering
  | a :: as, b :: bs =>
    match compare a b with
    | .eq => compareArgs as bs
    | result => result
  | _, _ => .eq

end

/-- `Il2CppTypeEqualityComparer::AreEqual`. -/
def areEqual (t1 t2 : Il2CppType H P) : Bool := compare t1 t2 == .eq

/-- `Il2CppTypeLess`. -/
def less (t1 t2 : Il2CppType H P) : Bool := compare t1 t2 == .lt

end Il2CppType

variable {H P : Type} [LinearOrder H] [LinearOrder P]

/-- The loop over two lists of types of the same length, `AreEqual` at each index. -/
def allEqual : List (Il2CppType H P) → List (Il2CppType H P) → Bool
  | a :: as, b :: bs => if a.areEqual b then allEqual as bs else false
  | _, _ => true

/-- `Il2CppGenericInstCompare::AreEqual`. -/
def Il2CppGenericInst.areEqual (t1 t2 : Il2CppGenericInst H P) : Bool :=
  if t1.typeArgv.length ≠ t2.typeArgv.length then false else allEqual t1.typeArgv t2.typeArgv

/-- `KeyWrapper`: a key of a hash set, or one of its two reserved keys. -/
inductive KeyWrapper (T : Type) where
  | normal (key : T)
  | empty
  | deleted

/-- `Il2CppGenericInstCompare::Compare`. -/
def Il2CppGenericInst.compare : KeyWrapper (Il2CppGenericInst H P) →
    KeyWrapper (Il2CppGenericInst H P) → Bool
  | .normal t1, .normal t2 => t1.areEqual t2
  | .empty, .empty | .deleted, .deleted => true
  | _, _ => false

/-- `Il2CppSignatureCompare::Equals`. -/
def Il2CppSignature.equals (s1 s2 : Il2CppSignature H P) : Bool :=
  if s1.types.length ≠ s2.types.length then false else allEqual s1.types s2.types

end Il2Cpp
