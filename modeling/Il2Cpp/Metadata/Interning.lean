import Il2Cpp.Metadata.TypeRef
import Il2Cpp.LTS.Basic

/-!
# The interning tables of the metadata layer

`MetadataCache::GetGenericInst`, `GenericMetadata::GetGenericClass` and
`MetadataCache::GetGenericMethod`, each over a hash set of its own.  A generic class is compared by
the contents of its `class_inst` but hashed by its address, a generic method is compared and hashed
by the addresses of its instances; so both rely on the instances being interned themselves.

* `InternEnv` : what the tables are run with, the lookups of the three hash sets among it.
* `Tables.Canonical` : the invariant of the three tables.
* `exec_spec` : one call on canonical tables; `interning_canonical` : any two calls of a run.
* `interning_not_canonical` : two calls with equal instances that are not interned.
-/

namespace Il2Cpp

variable {M H P : Type}

/-! ### Laws of the comparisons -/

theorem methodEqual_iff [DecidableEq M] {k k' : MethodKey M H P} :
    methodEqual k k' = true ↔ k.methodDefinition = k'.methodDefinition ∧
      k.classInst.map Obj.addr = k'.classInst.map Obj.addr ∧
      k.methodInst.map Obj.addr = k'.methodInst.map Obj.addr := by
  rw [methodEqual]
  split_ifs with h <;> simp_all [sameAddr]

/-- Argument lists whose hash does not fault. -/
def Hashable (as : List (TypeRef H P)) : Prop :=
  Il2CppType.allInstantiated (TypeRef.eraseArgs as) = true

theorem instHash_isSome (addr : H → UInt64) {as : List (TypeRef H P)} :
    (instHash addr as).isSome = true ↔ Hashable as := by
  rw [instHash, Il2CppGenericInst.hash, Il2CppType.hashArgs_isSome_iff, Hashable]

theorem alignedPointerHash_congr {K : Type} {ptr ptr' : Option (Obj K)}
    (h : ptr.map Obj.addr = ptr'.map Obj.addr) :
    alignedPointerHash ptr = alignedPointerHash ptr' := by
  cases ptr <;> cases ptr' <;> simp_all [alignedPointerHash]

section

variable [LinearOrder H] [LinearOrder P]

theorem allEqual_iff {as bs : List (Il2CppType H P)} (hl : as.length = bs.length) :
    allEqual as bs = true ↔ as.map Il2CppType.sortKey = bs.map Il2CppType.sortKey := by
  induction as generalizing bs with
  | nil => cases bs <;> simp_all [allEqual]
  | cons a as ih =>
    cases bs with
    | nil => simp at hl
    | cons b bs =>
      simp only [allEqual, Bool.if_false_right, Bool.and_eq_true, decide_eq_true_eq,
        Il2CppType.areEqual_iff_sortKey, List.map_cons, List.cons.injEq, ih (by simpa using hl)]

theorem instEqual_iff {as bs : List (TypeRef H P)} :
    instEqual as bs = true ↔ TypeRef.keys as = TypeRef.keys bs := by
  rw [← TypeRef.map_sortKey_eraseArgs, ← TypeRef.map_sortKey_eraseArgs, instEqual,
    Il2CppGenericInst.areEqual]
  split_ifs with hl
  · simp only [false_iff]
    exact fun h => hl (by simpa using congrArg List.length h)
  · exact allEqual_iff (not_not.1 hl)

theorem GenericTypeDefinition.areEqual_iff {d d' : GenericTypeDefinition H} :
    Il2CppType.areEqual (d.erase : Il2CppType H P) d'.erase = true ↔ d = d' := by
  obtain ⟨v, h⟩ := d
  obtain ⟨v', h'⟩ := d'
  cases v <;> cases v' <;>
    simp [Il2CppType.areEqual, GenericTypeDefinition.erase, Il2CppType.compare, Il2CppType.type,
      Il2CppType.byref, show compareValue 17 18 = Ordering.lt from rfl,
      show compareValue 18 17 = Ordering.gt from rfl]

theorem classEqual_iff {k k' : ClassKey H P} :
    classEqual k k' = true ↔
      k.type = k'.type ∧ instEqual k.classInst.key k'.classInst.key = true := by
  rw [← GenericTypeDefinition.areEqual_iff (P := P), classEqual]
  split_ifs with h <;> simp_all [instEqual, Il2CppGenericInst.compare]

theorem keyLaws_insts (addr : H → UInt64) :
    KeyLaws (instHash addr) (instEqual (H := H) (P := P)) Hashable where
  refl a _ := instEqual_iff.2 rfl
  symm a b _ _ h := instEqual_iff.2 (instEqual_iff.1 h).symm
  trans a b c _ _ _ h h' := instEqual_iff.2 ((instEqual_iff.1 h).trans (instEqual_iff.1 h'))
  hash_eq a b ha hb h := by
    have heq : Il2CppGenericInst.compare (.normal ⟨TypeRef.eraseArgs a⟩)
        (.normal ⟨TypeRef.eraseArgs b⟩) = true := h
    obtain ⟨v, hv, hv'⟩ := (Il2CppGenericInst.hashAgrees_iff addr heq).2 ha
    exact hv.trans hv'.symm
  hash_isSome a ha := (instHash_isSome addr).2 ha

theorem keyLaws_classes (addr : H → UInt64) {insts : InternTable (List (TypeRef H P))}
    (hc : Canonical instEqual Hashable insts) :
    KeyLaws (classHash addr) classEqual fun k : ClassKey H P => k.classInst ∈ insts.entries where
  refl a _ := classEqual_iff.2 ⟨rfl, instEqual_iff.2 rfl⟩
  symm a b _ _ h := by
    rw [classEqual_iff, instEqual_iff] at *
    exact ⟨h.1.symm, h.2.symm⟩
  trans a b c _ _ _ h h' := by
    rw [classEqual_iff, instEqual_iff] at *
    exact ⟨h.1.trans h'.1, h.2.trans h'.2⟩
  hash_eq a b ha hb h := by
    obtain ⟨htype, hinst⟩ := classEqual_iff.1 h
    have hinst := hc.unique _ ha _ hb hinst
    rw [classHash, classHash, htype, hinst]
  hash_isSome a _ := by
    obtain ⟨⟨v, h⟩, i⟩ := a
    cases v <;> simp [classHash, GenericTypeDefinition.erase, Il2CppType.hash]

end

theorem keyLaws_methods [DecidableEq M] (token : M → UInt64) (S : MethodKey M H P → Prop) :
    KeyLaws (methodHash token) methodEqual S where
  refl a _ := methodEqual_iff.2 ⟨rfl, rfl, rfl⟩
  symm a b _ _ h := by
    rw [methodEqual_iff] at *
    exact ⟨h.1.symm, h.2.1.symm, h.2.2.symm⟩
  trans a b c _ _ _ h h' := by
    rw [methodEqual_iff] at *
    exact ⟨h.1.trans h'.1, h.2.1.trans h'.2.1, h.2.2.trans h'.2.2⟩
  hash_eq a b _ _ h := by
    obtain ⟨hdef, hclass, hmethod⟩ := methodEqual_iff.1 h
    rw [methodHash, methodHash, hdef, contextHash, contextHash, alignedPointerHash_congr hclass,
      alignedPointerHash_congr hmethod]
  hash_isSome _ _ := rfl

/-! ### The tables -/

/-- What the tables are run with: the lookups of the three hash sets.  `addr` is the value of a type
definition handle and `token` the token of a method definition. -/
structure InternEnv (P : Type) [DecidableEq M] [LinearOrder H] [LinearOrder P]
    (addr : H → UInt64) (token : M → UInt64) where
  /-- The lookup of `s_GenericInstSet`. -/
  insts : Lookup (K := List (TypeRef H P)) (instHash addr) instEqual
  /-- The lookup of `s_GenericClassSet`. -/
  classes : Lookup (K := ClassKey H P) (classHash addr) classEqual
  /-- The lookup of `s_GenericMethodSet`. -/
  methods : Lookup (K := MethodKey M H P) (methodHash token) methodEqual

/-- The three sets. -/
structure Tables (M H P : Type) where
  /-- `s_GenericInstSet`. -/
  insts : InternTable (List (TypeRef H P))
  /-- `s_GenericClassSet`. -/
  classes : InternTable (ClassKey H P)
  /-- `s_GenericMethodSet`. -/
  methods : InternTable (MethodKey M H P)

/-- The sets before anything is in them. -/
def Tables.init : Tables M H P := ⟨.empty, .empty, .empty⟩

section

variable [DecidableEq M] [LinearOrder H] [LinearOrder P] {addr : H → UInt64} {token : M → UInt64}
  (env : InternEnv P addr token)

/-- `MetadataCache::GetGenericInst`. -/
def getGenericInst (types : List (TypeRef H P)) (s : Tables M H P) :
    Option (GenericInst H P × Tables M H P) := do
  -- the first lookup only holds the lock of the set
  let _ ← instHash addr types
  match env.insts.find s.insts.entries types with
  | some foundInst => some (foundInst, s)
  | none =>
    -- the second lookup, and the insertion, hold `g_MetadataLock`
    let (inst, insts) ← s.insts.intern env.insts types
    some (inst, { s with insts := insts })

/-- `GenericMetadata::GetGenericClass`. -/
def getGenericClass (genericTypeDefinition : GenericTypeDefinition H) (inst : GenericInst H P)
    (s : Tables M H P) : Option (Obj (ClassKey H P) × Tables M H P) := do
  let (genericClass, classes) ← s.classes.intern env.classes ⟨genericTypeDefinition, inst⟩
  some (genericClass, { s with classes := classes })

/-- `MetadataCache::GetGenericMethod`. -/
def getGenericMethod (methodDefinition : M) (classInst methodInst : Option (GenericInst H P))
    (s : Tables M H P) : Option (Obj (MethodKey M H P) × Tables M H P) := do
  let (method, methods) ← s.methods.intern env.methods ⟨methodDefinition, classInst, methodInst⟩
  some (method, { s with methods := methods })

theorem getGenericInst_eq (types : List (TypeRef H P)) (s : Tables M H P) :
    getGenericInst env types s = (s.insts.intern env.insts types).map fun r =>
      (r.1, { s with insts := r.2 }) := by
  unfold getGenericInst InternTable.intern
  cases hh : instHash addr types with
  | none => rfl
  | some v =>
    cases hf : env.insts.find s.insts.entries types with
    | some e => simp
    | none => simp

theorem getGenericClass_eq (d : GenericTypeDefinition H) (i : GenericInst H P)
    (s : Tables M H P) :
    getGenericClass env d i s = (s.classes.intern env.classes ⟨d, i⟩).map fun r =>
      (r.1, { s with classes := r.2 }) := by
  unfold getGenericClass
  cases s.classes.intern env.classes ⟨d, i⟩ <;> rfl

theorem getGenericMethod_eq (m : M) (ci mi : Option (GenericInst H P)) (s : Tables M H P) :
    getGenericMethod env m ci mi s = (s.methods.intern env.methods ⟨m, ci, mi⟩).map fun r =>
      (r.1, { s with methods := r.2 }) := by
  unfold getGenericMethod
  cases s.methods.intern env.methods ⟨m, ci, mi⟩ <;> rfl

end

/-- The instances of a method key are objects of the table of instances. -/
def MethodKey.Interned (insts : InternTable (List (TypeRef H P))) (k : MethodKey M H P) : Prop :=
  (∀ i ∈ k.classInst, i ∈ insts.entries) ∧ ∀ i ∈ k.methodInst, i ∈ insts.entries

/-- The invariant of the three sets. -/
structure Tables.Canonical [DecidableEq M] [LinearOrder H] [LinearOrder P]
    (s : Tables M H P) : Prop where
  insts : Il2Cpp.Canonical instEqual Hashable s.insts
  classes : Il2Cpp.Canonical classEqual (fun k => k.classInst ∈ s.insts.entries) s.classes
  methods : Il2Cpp.Canonical methodEqual (MethodKey.Interned s.insts) s.methods

/-! ### Calls -/

/-- A call of one of the three functions. -/
inductive InternCall (M H P : Type) where
  | getGenericInst (types : List (TypeRef H P))
  | getGenericClass (genericTypeDefinition : GenericTypeDefinition H) (inst : GenericInst H P)
  | getGenericMethod (methodDefinition : M) (classInst methodInst : Option (GenericInst H P))

/-- The pointer that a call returns, together with what it points to. -/
inductive InternResult (M H P : Type) where
  | inst (ptr : GenericInst H P)
  | genericClass (ptr : Obj (ClassKey H P))
  | method (ptr : Obj (MethodKey M H P))

/-- The address that is returned. -/
def InternResult.addr : InternResult M H P → ℕ
  | inst ptr => ptr.addr
  | genericClass ptr => ptr.addr
  | method ptr => ptr.addr

/-- Calls of one function with structurally equal arguments. -/
def InternCall.Equal [LinearOrder H] [LinearOrder P] : InternCall M H P → InternCall M H P → Prop
  | getGenericInst types, getGenericInst types' => instEqual types types' = true
  | getGenericClass d inst, getGenericClass d' inst' =>
    d = d' ∧ instEqual inst.key inst'.key = true
  | getGenericMethod m ci mi, getGenericMethod m' ci' mi' =>
    m = m' ∧ ci.map (TypeRef.keys ∘ Obj.key) = ci'.map (TypeRef.keys ∘ Obj.key) ∧
      mi.map (TypeRef.keys ∘ Obj.key) = mi'.map (TypeRef.keys ∘ Obj.key)
  | _, _ => False

/-- The call that an object was asked for with, up to structural equality. -/
def InternResult.call : InternResult M H P → InternCall M H P
  | inst ptr => .getGenericInst ptr.key
  | genericClass ptr => .getGenericClass ptr.key.type ptr.key.classInst
  | method ptr => .getGenericMethod ptr.key.methodDefinition ptr.key.classInst ptr.key.methodInst

/-- The arguments of a call are what the callers pass: types that are not cut off, and instances
that are interned. -/
def InternCall.Interned (s : Tables M H P) : InternCall M H P → Prop
  | getGenericInst types => Hashable types
  | getGenericClass _ inst => inst ∈ s.insts.entries
  | getGenericMethod m ci mi => MethodKey.Interned s.insts ⟨m, ci, mi⟩

/-- Nothing is ever removed from the sets. -/
structure Tables.Le (s s' : Tables M H P) : Prop where
  insts : s.insts.entries ⊆ s'.insts.entries
  classes : s.classes.entries ⊆ s'.classes.entries
  methods : s.methods.entries ⊆ s'.methods.entries

theorem Tables.Le.refl (s : Tables M H P) : s.Le s :=
  ⟨List.Subset.refl _, List.Subset.refl _, List.Subset.refl _⟩

theorem Tables.Le.trans {s s' s'' : Tables M H P} (h : s.Le s') (h' : s'.Le s'') : s.Le s'' :=
  ⟨fun _ he => h'.insts (h.insts he), fun _ he => h'.classes (h.classes he),
    fun _ he => h'.methods (h.methods he)⟩

theorem InternCall.Interned.mono {s s' : Tables M H P} {c : InternCall M H P}
    (h : c.Interned s) (hle : s.Le s') : c.Interned s' := by
  cases c with
  | getGenericInst types => exact h
  | getGenericClass d i => exact hle.insts h
  | getGenericMethod m ci mi =>
    exact ⟨fun i hi => hle.insts (h.1 i hi), fun i hi => hle.insts (h.2 i hi)⟩

section

variable [DecidableEq M] [LinearOrder H] [LinearOrder P] {addr : H → UInt64} {token : M → UInt64}
  (env : InternEnv P addr token)

/-- Run a call. -/
def InternCall.exec (s : Tables M H P) :
    InternCall M H P → Option (InternResult M H P × Tables M H P)
  | getGenericInst types => (Il2Cpp.getGenericInst env types s).map fun r => (.inst r.1, r.2)
  | getGenericClass d inst =>
    (Il2Cpp.getGenericClass env d inst s).map fun r => (.genericClass r.1, r.2)
  | getGenericMethod m ci mi =>
    (Il2Cpp.getGenericMethod env m ci mi s).map fun r => (.method r.1, r.2)

/-- Sequences of calls; a label is a call with what it returned. -/
def interning : LTS (Tables M H P) (InternCall M H P × InternResult M H P) where
  step s l s' := l.1.exec env s = some (l.2, s')

variable {env}

/-- The object that a call returned is in its set, and the set finds it equal to what the call
asked for. -/
def InternResult.Answers (s : Tables M H P) : InternCall M H P → InternResult M H P → Prop
  | .getGenericInst types, inst ptr => ptr ∈ s.insts.entries ∧ instEqual types ptr.key = true
  | .getGenericClass d i, genericClass ptr =>
    ptr ∈ s.classes.entries ∧ classEqual ⟨d, i⟩ ptr.key = true
  | .getGenericMethod m ci mi, method ptr =>
    ptr ∈ s.methods.entries ∧ methodEqual ⟨m, ci, mi⟩ ptr.key = true
  | _, _ => False

theorem InternResult.Answers.mono {s s' : Tables M H P} {c : InternCall M H P}
    {r : InternResult M H P} (h : r.Answers s c) (hle : s.Le s') : r.Answers s' c := by
  cases c <;> cases r <;> first | exact h.elim | skip
  · exact ⟨hle.insts h.1, h.2⟩
  · exact ⟨hle.classes h.1, h.2⟩
  · exact ⟨hle.methods h.1, h.2⟩

theorem getGenericInst_spec {s s' : Tables M H P} {types : List (TypeRef H P)}
    {inst : GenericInst H P} (hs : s.Canonical) (ht : Hashable types)
    (h : getGenericInst env types s = some (inst, s')) :
    s'.Canonical ∧ s.Le s' ∧ inst ∈ s'.insts.entries ∧ instEqual types inst.key = true ∧
      ∀ e ∈ s'.insts.entries, e ∈ s.insts.entries ∨ e.key = types := by
  simp only [getGenericInst_eq, Option.map_eq_some_iff, Prod.mk.injEq] at h
  obtain ⟨⟨e, insts⟩, h, rfl, rfl⟩ := h
  have hl := keyLaws_insts (P := P) addr
  have hsub := (InternTable.entries_suffix h).subset
  exact ⟨⟨InternTable.intern_canonical hl hs.insts ht h, hs.classes.mono fun _ hk => hsub hk,
      hs.methods.mono fun _ hk => ⟨fun i hi => hsub (hk.1 i hi), fun i hi => hsub (hk.2 i hi)⟩⟩,
    ⟨hsub, List.Subset.refl _, List.Subset.refl _⟩, InternTable.mem_entries h,
    InternTable.intern_equal (hl.refl _ ht) h, fun _ he => InternTable.mem_or_key_eq h he⟩

theorem getGenericClass_spec {s s' : Tables M H P} {d : GenericTypeDefinition H}
    {i : GenericInst H P} {c : Obj (ClassKey H P)} (hs : s.Canonical)
    (hi : i ∈ s.insts.entries) (h : getGenericClass env d i s = some (c, s')) :
    s'.Canonical ∧ s.Le s' ∧ c ∈ s'.classes.entries ∧ classEqual ⟨d, i⟩ c.key = true ∧
      s'.insts = s.insts := by
  simp only [getGenericClass_eq, Option.map_eq_some_iff, Prod.mk.injEq] at h
  obtain ⟨⟨e, classes⟩, h, rfl, rfl⟩ := h
  have hl := keyLaws_classes addr hs.insts
  have hk : (⟨d, i⟩ : ClassKey H P).classInst ∈ s.insts.entries := hi
  exact ⟨⟨hs.insts, InternTable.intern_canonical hl hs.classes hk h, hs.methods⟩,
    ⟨List.Subset.refl _, (InternTable.entries_suffix h).subset, List.Subset.refl _⟩,
    InternTable.mem_entries h, InternTable.intern_equal (hl.refl ⟨d, i⟩ hk) h, rfl⟩

theorem getGenericMethod_spec {s s' : Tables M H P} {m : M} {ci mi : Option (GenericInst H P)}
    {o : Obj (MethodKey M H P)} (hs : s.Canonical) (hk : MethodKey.Interned s.insts ⟨m, ci, mi⟩)
    (h : getGenericMethod env m ci mi s = some (o, s')) :
    s'.Canonical ∧ s.Le s' ∧ o ∈ s'.methods.entries ∧ methodEqual ⟨m, ci, mi⟩ o.key = true := by
  simp only [getGenericMethod_eq, Option.map_eq_some_iff, Prod.mk.injEq] at h
  obtain ⟨⟨e, methods⟩, h, rfl, rfl⟩ := h
  have hl := keyLaws_methods token (MethodKey.Interned s.insts)
  exact ⟨⟨hs.insts, hs.classes, InternTable.intern_canonical hl hs.methods hk h⟩,
    ⟨List.Subset.refl _, List.Subset.refl _, (InternTable.entries_suffix h).subset⟩,
    InternTable.mem_entries h, InternTable.intern_equal (hl.refl ⟨m, ci, mi⟩ hk) h⟩

/-- **One call** on canonical sets. -/
theorem exec_spec {s s' : Tables M H P} {c : InternCall M H P} {r : InternResult M H P}
    (hs : s.Canonical) (hc : c.Interned s) (h : c.exec env s = some (r, s')) :
    s'.Canonical ∧ s.Le s' ∧ r.Answers s' c := by
  cases c <;> simp only [InternCall.exec, Option.map_eq_some_iff, Prod.mk.injEq] at h <;>
    obtain ⟨⟨o, s''⟩, hget, rfl, rfl⟩ := h
  case getGenericInst types =>
    obtain ⟨hcan, hle, hmem, hequal, -⟩ := getGenericInst_spec hs hc hget
    exact ⟨hcan, hle, hmem, hequal⟩
  case getGenericClass d i =>
    obtain ⟨hcan, hle, hmem, hequal, -⟩ := getGenericClass_spec hs hc hget
    exact ⟨hcan, hle, hmem, hequal⟩
  case getGenericMethod m ci mi => exact getGenericMethod_spec hs hc hget

theorem getGenericInst_isSome (env : InternEnv P addr token) (s : Tables M H P)
    {types : List (TypeRef H P)} (ht : Hashable types) :
    ∃ inst s', getGenericInst env types s = some (inst, s') := by
  obtain ⟨e, t, h⟩ := InternTable.intern_isSome env.insts s.insts
    ((keyLaws_insts addr).hash_isSome _ ht)
  exact ⟨_, _, by simp only [getGenericInst_eq, h, Option.map_some]; rfl⟩

theorem getGenericClass_isSome (env : InternEnv P addr token) {s : Tables M H P}
    (hs : s.Canonical) (d : GenericTypeDefinition H) {i : GenericInst H P}
    (hi : i ∈ s.insts.entries) : ∃ c s', getGenericClass env d i s = some (c, s') := by
  obtain ⟨e, t, h⟩ := InternTable.intern_isSome env.classes s.classes
    ((keyLaws_classes addr hs.insts).hash_isSome ⟨d, i⟩ hi)
  exact ⟨_, _, by simp only [getGenericClass_eq, h, Option.map_some]; rfl⟩

theorem exec_isSome (env : InternEnv P addr token) {s : Tables M H P} {c : InternCall M H P}
    (hs : s.Canonical) (hc : c.Interned s) : ∃ r s', c.exec env s = some (r, s') := by
  cases c with
  | getGenericInst types =>
    obtain ⟨e, t, h⟩ := getGenericInst_isSome env s hc
    exact ⟨_, _, by simp only [InternCall.exec, h, Option.map_some]; rfl⟩
  | getGenericClass d i =>
    obtain ⟨e, t, h⟩ := getGenericClass_isSome env hs d hc
    exact ⟨_, _, by simp only [InternCall.exec, h, Option.map_some]; rfl⟩
  | getGenericMethod m ci mi =>
    obtain ⟨e, t, h⟩ := InternTable.intern_isSome env.methods s.methods
      ((keyLaws_methods token fun _ => True).hash_isSome ⟨m, ci, mi⟩ trivial)
    exact ⟨_, _, by simp only [InternCall.exec, getGenericMethod_eq, h, Option.map_some]; rfl⟩

theorem map_addr_eq_iff {insts : InternTable (List (TypeRef H P))}
    (hc : Canonical instEqual Hashable insts) {i i' : Option (GenericInst H P)}
    (hi : ∀ e ∈ i, e ∈ insts.entries) (hi' : ∀ e ∈ i', e ∈ insts.entries) :
    i.map Obj.addr = i'.map Obj.addr ↔
      i.map (TypeRef.keys ∘ Obj.key) = i'.map (TypeRef.keys ∘ Obj.key) := by
  cases i <;> cases i' <;> simp only [Option.map_none, Option.map_some, reduceCtorEq,
    Option.some.injEq, Function.comp_apply]
  rename_i e e'
  have he := hi e rfl
  have he' := hi' e' rfl
  constructor
  · intro h
    rw [hc.addr_inj e he e' he' h]
  · intro h
    rw [hc.unique e he e' he' (instEqual_iff.2 h)]

/-- Two pointers to objects of one kind are the same. -/
def InternResult.SamePtr : InternResult M H P → InternResult M H P → Prop
  | inst ptr, inst ptr' => ptr.addr = ptr'.addr
  | genericClass ptr, genericClass ptr' => ptr.addr = ptr'.addr
  | method ptr, method ptr' => ptr.addr = ptr'.addr
  | _, _ => False

theorem samePtr_iff {s : Tables M H P} {c c' : InternCall M H P} {r r' : InternResult M H P}
    (hs : s.Canonical) (hc : c.Interned s) (hc' : c'.Interned s) (hr : r.Answers s c)
    (hr' : r'.Answers s c') : r.SamePtr r' ↔ c.Equal c' := by
  cases c <;> cases r <;> first | exact hr.elim | skip
  all_goals cases c' <;> cases r' <;> first | exact hr'.elim | exact Iff.rfl | skip
  · exact hs.insts.addr_eq_iff (keyLaws_insts fun _ => 0) hr.1 hr'.1 hc hc' hr.2 hr'.2
  · exact (hs.classes.addr_eq_iff (keyLaws_classes (fun _ => 0) hs.insts) hr.1 hr'.1
      (show ClassKey.classInst ⟨_, _⟩ ∈ _ from hc) (show ClassKey.classInst ⟨_, _⟩ ∈ _ from hc')
      hr.2 hr'.2).trans classEqual_iff
  · refine (hs.methods.addr_eq_iff (keyLaws_methods (fun _ => 0) _) hr.1 hr'.1 hc hc' hr.2
      hr'.2).trans (methodEqual_iff.trans ?_)
    simp only [InternCall.Equal, map_addr_eq_iff hs.insts hc.1 hc'.1,
      map_addr_eq_iff hs.insts hc.2 hc'.2]

theorem equal_call {s : Tables M H P} {c : InternCall M H P} {r : InternResult M H P}
    (hs : s.Canonical) (hc : c.Interned s) (hr : r.Answers s c) : c.Equal r.call := by
  cases c <;> cases r <;> first | exact hr.elim | skip
  · exact hr.2
  · exact classEqual_iff.1 hr.2
  · obtain ⟨hdef, hclass, hmethod⟩ := methodEqual_iff.1 hr.2
    have hm := hs.methods.mem _ hr.1
    exact ⟨hdef, (map_addr_eq_iff hs.insts hc.1 hm.1).1 hclass,
      (map_addr_eq_iff hs.insts hc.2 hm.2).1 hmethod⟩

theorem run_spec {s s' : Tables M H P} (hs : s.Canonical)
    (h : (interning env).ReachWith (fun s l => l.1.Interned s) s s') :
    s'.Canonical ∧ s.Le s' :=
  h.invariant (I := fun s' => s'.Canonical ∧ s.Le s') ⟨hs, .refl s⟩ fun _ _ _ ⟨hs₁, hle⟩ hg hst =>
    ⟨(exec_spec hs₁ hg hst).1, hle.trans (exec_spec hs₁ hg hst).2.1⟩

theorem Tables.init_canonical : (Tables.init : Tables M H P).Canonical :=
  ⟨.empty _ _, .empty _ _, .empty _ _⟩

/-- **Interning is canonical.**  Take any two calls of a run from canonical sets whose calls have
interned arguments.  They return one pointer exactly when their arguments are structurally equal,
each returned object is structurally equal to what was asked for, and after them no structure is
twice in its set; every such call returns. -/
theorem interning_canonical {s₀ s₁ s₁' s₂ s₂' : Tables M H P} {c c' : InternCall M H P}
    {r r' : InternResult M H P} (h₀ : s₀.Canonical)
    (hr₁ : (interning env).ReachWith (fun s l => l.1.Interned s) s₀ s₁) (hc : c.Interned s₁)
    (hst : c.exec env s₁ = some (r, s₁'))
    (hr₂ : (interning env).ReachWith (fun s l => l.1.Interned s) s₁' s₂) (hc' : c'.Interned s₂)
    (hst' : c'.exec env s₂ = some (r', s₂')) :
    (r.SamePtr r' ↔ c.Equal c') ∧ c.Equal r.call ∧ c'.Equal r'.call ∧
      (s₂'.insts.entries.Pairwise fun e e' => instEqual e.key e'.key = false) ∧
      (s₂'.classes.entries.Pairwise fun e e' => classEqual e.key e'.key = false) ∧
      (s₂'.methods.entries.Pairwise fun e e' => methodEqual e.key e'.key = false) ∧
      ∀ d : InternCall M H P, d.Interned s₂' → ∃ x t, d.exec env s₂' = some (x, t) := by
  obtain ⟨hs₁, -⟩ := run_spec h₀ hr₁
  obtain ⟨hs₁', hle₁, hans⟩ := exec_spec hs₁ hc hst
  obtain ⟨hs₂, hle⟩ := run_spec hs₁' hr₂
  obtain ⟨hs₂', hle₂, hans'⟩ := exec_spec hs₂ hc' hst'
  -- what the first call was given and returned is still there after the second
  have hci := hc.mono (hle₁.trans (hle.trans hle₂))
  have hansi := hans.mono (hle.trans hle₂)
  have hc'i := hc'.mono hle₂
  exact ⟨samePtr_iff hs₂' hci hc'i hansi hans', equal_call hs₂' hci hansi,
    equal_call hs₂' hc'i hans', hs₂'.insts.pairwise, hs₂'.classes.pairwise, hs₂'.methods.pairwise,
    fun d hd => exec_isSome env hs₂' hd⟩

end

/-- The tables run with sets that compare the hashes before the keys. -/
def InternEnv.byHash : InternEnv (M := ℕ) (H := ℕ) ℕ UInt64.ofNat UInt64.ofNat :=
  ⟨.byHash _ _, .byHash _ _, .byHash _ _⟩

/-- Asking twice for the arguments `[int]` of an instance. -/
theorem interning_canonical_twice :
    ∃ (r r' : InternResult ℕ ℕ ℕ) (s₁ s₂ : Tables ℕ ℕ ℕ),
      (InternCall.getGenericInst [.simple {} .i4]).exec .byHash .init = some (r, s₁) ∧
      (InternCall.getGenericInst [.simple {} .i4]).exec .byHash s₁ = some (r', s₂) ∧
      r.SamePtr r' := by
  refine ⟨_, _, _, _, rfl, rfl, ?_⟩
  refine (interning_canonical Tables.init_canonical .init ?_
    (rfl : (InternCall.getGenericInst [.simple {} .i4]).exec .byHash .init = _) .init ?_
    (rfl : (InternCall.getGenericInst [.simple {} .i4]).exec .byHash _ = _)).1.2 ?_
  · exact (rfl : Il2CppType.allInstantiated (H := ℕ) (P := ℕ) [.simple false .i4] = true)
  · exact (rfl : Il2CppType.allInstantiated (H := ℕ) (P := ℕ) [.simple false .i4] = true)
  · exact (rfl : instEqual (H := ℕ) (P := ℕ) [.simple {} .i4] [.simple {} .i4] = true)

/-- Two structurally equal instances that are not interned make two generic methods. -/
theorem interning_not_canonical :
    ¬ ∀ (c c' : InternCall ℕ ℕ ℕ) (r r' : InternResult ℕ ℕ ℕ) (s₁ s₂ : Tables ℕ ℕ ℕ),
      c.exec .byHash .init = some (r, s₁) → c'.exec .byHash s₁ = some (r', s₂) →
        (r.SamePtr r' ↔ c.Equal c') := by
  intro h
  have hiff := h (.getGenericMethod 0 (some ⟨1, [.simple {} .i4]⟩) none)
    (.getGenericMethod 0 (some ⟨2, [.simple {} .i4]⟩) none) _ _ _ _ rfl rfl
  exact absurd (show (0 : ℕ) = 1 from hiff.2 ⟨rfl, rfl, rfl⟩) (by decide)

end Il2Cpp
