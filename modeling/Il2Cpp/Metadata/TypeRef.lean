import Il2Cpp.Metadata.TypeSubst
import Il2Cpp.Data.Intern

/-!
# Type descriptions with their addresses

`Il2CppType` describes a type up to what the comparison and the hash look at.  Inflating and
interning also read the other fields: the attributes of a description, and the addresses of the
generic instances and generic classes, which are compared as pointers.  A `TypeRef` has these
fields; `TypeRef.erase` forgets them.

The keys of the three interning tables follow, with the hash and the comparison of each:
lists of type arguments (`GenericInst`), generic classes and generic methods.
-/

namespace Il2Cpp

/-- The flags of a description that inflating looks at. -/
structure TypeFlags where
  /-- Param attributes or field flags. -/
  attrs : ℕ := 0
  /-- Whether it is a reference. -/
  byref : Bool := false
  deriving DecidableEq

/-- A generic type definition: its own description has no flags. -/
structure GenericTypeDefinition (H : Type) where
  /-- `IL2CPP_TYPE_VALUETYPE` or `IL2CPP_TYPE_CLASS`. -/
  valuetype : Bool
  /-- Its handle. -/
  typeHandle : H
  deriving DecidableEq

/-- A type description.  A generic instance carries its `Il2CppGenericClass` : the address, the
type definition, and the address and the arguments of its `class_inst`. -/
inductive TypeRef (H P : Type) where
  | simple (flags : TypeFlags) (tag : SimpleType)
  | valuetype (flags : TypeFlags) (typeHandle : H)
  | klass (flags : TypeFlags) (typeHandle : H)
  | ptr (flags : TypeFlags) (type : TypeRef H P)
  | szarray (flags : TypeFlags) (type : TypeRef H P)
  | array (flags : TypeFlags) (etype : TypeRef H P) (rank : ℕ)
  | genericinst (flags : TypeFlags) (genericClass : ℕ) (type : GenericTypeDefinition H) (classInst : ℕ)
      (typeArgv : List (TypeRef H P))
  /-- A generic class whose `class_inst` is NULL: the maximum generic recursion was hit. -/
  | genericinstNull (flags : TypeFlags) (genericClass : ℕ) (type : GenericTypeDefinition H)
  | var (flags : TypeFlags) (genericParameterHandle : P)
  | mvar (flags : TypeFlags) (genericParameterHandle : P)

/-- `Il2CppGenericInst` : a list of type arguments at an address. -/
abbrev GenericInst (H P : Type) : Type := Obj (List (TypeRef H P))

/-- What `Il2CppGenericClass` is looked up by. -/
structure ClassKey (H P : Type) where
  /-- The generic type definition. -/
  type : GenericTypeDefinition H
  /-- `context.class_inst` ; the context has no method instantiation. -/
  classInst : GenericInst H P

/-- What `Il2CppGenericMethod` is looked up by; `M` stands for the method definitions. -/
structure MethodKey (M H P : Type) where
  /-- The method definition. -/
  methodDefinition : M
  /-- `context.class_inst`. -/
  classInst : Option (GenericInst H P)
  /-- `context.method_inst`. -/
  methodInst : Option (GenericInst H P)

/-- `Il2CppGenericContext`. -/
structure GenericContext (H P : Type) where
  /-- The instantiation corresponding to the class generic parameters. -/
  classInst : Option (GenericInst H P)
  /-- The instantiation corresponding to the method generic parameters. -/
  methodInst : Option (GenericInst H P)

variable {M H P : Type}

/-- The description of a type definition. -/
def GenericTypeDefinition.erase (d : GenericTypeDefinition H) : Il2CppType H P :=
  if d.valuetype then .valuetype false d.typeHandle else .klass false d.typeHandle

namespace TypeRef

/-- The `attrs` and `byref` fields. -/
def flags : TypeRef H P → TypeFlags
  | simple f _ | valuetype f _ | klass f _ | ptr f _ | szarray f _ | array f _ _
  | genericinst f .. | genericinstNull f .. | var f _ | mvar f _ => f

/-- A copy of the description with other flags. -/
def withFlags (f : TypeFlags) : TypeRef H P → TypeRef H P
  | simple _ tag => simple f tag
  | valuetype _ h => valuetype f h
  | klass _ h => klass f h
  | ptr _ e => ptr f e
  | szarray _ e => szarray f e
  | array _ e rank => array f e rank
  | genericinst _ gc d ci argv => genericinst f gc d ci argv
  | genericinstNull _ gc d => genericinstNull f gc d
  | var _ p => var f p
  | mvar _ p => mvar f p

mutual

/-- What the comparison and the hash see. -/
def erase : TypeRef H P → Il2CppType H P
  | simple f tag => .simple f.byref tag
  | valuetype f h => .valuetype f.byref h
  | klass f h => .klass f.byref h
  | ptr f e => .ptr f.byref e.erase
  | szarray f e => .szarray f.byref e.erase
  | array f e rank => .array f.byref e.erase rank
  | genericinst f _ d _ argv => .genericinst f.byref d.erase (some (eraseArgs argv))
  | genericinstNull f _ d => .genericinst f.byref d.erase none
  | var f p => .var f.byref p
  | mvar f p => .mvar f.byref p

/-- `erase` on every type of a list. -/
def eraseArgs : List (TypeRef H P) → List (Il2CppType H P)
  | [] => []
  | a :: as => a.erase :: eraseArgs as

end

theorem eraseArgs_eq_map (as : List (TypeRef H P)) : eraseArgs as = as.map erase := by
  induction as with
  | nil => rfl
  | cons a as ih => rw [eraseArgs, ih, List.map_cons]

@[simp] theorem flags_withFlags (f : TypeFlags) (t : TypeRef H P) : (t.withFlags f).flags = f := by
  cases t <;> rfl

theorem withFlags_self (t : TypeRef H P) : t.withFlags t.flags = t := by cases t <;> rfl

theorem erase_withFlags (f : TypeFlags) (t : TypeRef H P) :
    (t.withFlags f).erase = t.erase.withByref f.byref := by
  cases t <;> simp [withFlags, erase, Il2CppType.withByref]

theorem byref_erase (t : TypeRef H P) : t.erase.byref = t.flags.byref := by
  cases t <;> simp [erase, Il2CppType.byref, flags]

/-- What the comparison sees of two descriptions is the same. -/
def SameKey (t u : TypeRef H P) : Prop := t.erase.sortKey = u.erase.sortKey

/-- The keys that the comparison sees of a list of types. -/
def keys (as : List (TypeRef H P)) : List (List (Il2CppType.SortToken H P)) :=
  as.map fun a => a.erase.sortKey

theorem map_sortKey_eraseArgs (as : List (TypeRef H P)) :
    (eraseArgs as).map Il2CppType.sortKey = keys as := by
  rw [eraseArgs_eq_map, List.map_map]
  rfl

end TypeRef

/-! ### The hashes -/

open HashUtils

/-- `HashUtils::AlignedPointerHash` ; NULL is address 0. -/
def alignedPointerHash {K : Type} (ptr : Option (Obj K)) : UInt64 :=
  ptr.elim 0 fun o => UInt64.ofNat o.addr >>> 3

/-- `Il2CppGenericInstHash::Hash`. -/
def instHash (addr : H → UInt64) (argv : List (TypeRef H P)) : Option UInt64 :=
  Il2CppGenericInst.hash addr ⟨TypeRef.eraseArgs argv⟩

/-- `Il2CppGenericContextHash::Hash`, which takes the pointers. -/
def contextHash (classInst methodInst : Option (GenericInst H P)) : UInt64 :=
  combine (alignedPointerHash classInst) (alignedPointerHash methodInst)

/-- `Il2CppGenericClassHash::Hash`. -/
def classHash (addr : H → UInt64) (k : ClassKey H P) : Option UInt64 :=
  (Il2CppType.hash addr (k.type.erase : Il2CppType H P)).map fun containerHash =>
    combine containerHash (contextHash (some k.classInst) none)

/-- `Il2CppGenericMethodHash::Hash` ; `token` is the token of a method definition. -/
def methodHash (token : M → UInt64) (k : MethodKey M H P) : Option UInt64 :=
  some (combine (token k.methodDefinition) (contextHash k.classInst k.methodInst))

/-! ### The comparisons -/

/-- Two pointers are the same. -/
def sameAddr {K : Type} (ptr ptr' : Option (Obj K)) : Bool := ptr.map Obj.addr == ptr'.map Obj.addr

/-- `Il2CppGenericMethodCompare::Equals`, which compares the contexts by their pointers. -/
def methodEqual [DecidableEq M] (k k' : MethodKey M H P) : Bool :=
  if k.methodDefinition ≠ k'.methodDefinition then false
  else sameAddr k.classInst k'.classInst && sameAddr k.methodInst k'.methodInst

variable [LinearOrder H] [LinearOrder P]

/-- `Il2CppGenericInstCompare::AreEqual`. -/
def instEqual (as bs : List (TypeRef H P)) : Bool :=
  Il2CppGenericInst.areEqual ⟨TypeRef.eraseArgs as⟩ ⟨TypeRef.eraseArgs bs⟩

/-- `Il2CppGenericClassCompare::Compare`. -/
def classEqual (k k' : ClassKey H P) : Bool :=
  if !Il2CppType.areEqual (k.type.erase : Il2CppType H P) k'.type.erase then false
  else Il2CppGenericInst.compare (.normal ⟨TypeRef.eraseArgs k.classInst.key⟩)
    (.normal ⟨TypeRef.eraseArgs k'.classInst.key⟩)

end Il2Cpp
