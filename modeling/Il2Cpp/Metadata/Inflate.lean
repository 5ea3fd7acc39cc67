import Il2Cpp.Metadata.Interning

/-!
# Inflating types

`GenericMetadata::InflateIfNeeded` with the interning tables it goes through, and
`GenericMetadata::ContainsGenericParameters`.

A result is `none` where the code dereferences NULL or reads past the arguments of an instance;
`some (none, _)` is the NULL that stands for an instance that was cut off.

* `inflateIfNeeded_spec` : inflating returns a type that is, for `AreEqual`, the substitution
  instance of the type (`Il2CppType.subst`), and keeps the tables well-formed.
* `inflateIfNeeded_unbound` : a type without bound parameters comes back as the same object.
* `inflateIfNeeded_laws` : composition, flags, unbound and closed types.
-/

namespace Il2Cpp

variable {M H P : Type}

section

variable [DecidableEq M] [LinearOrder H] [LinearOrder P] {addr : H → UInt64} {token : M → UInt64}
  (env : InternEnv P addr token) (num : P → ℕ) (context : GenericContext H P)

/-- `InflateGenericParameterIfNeeded` ; `num` is the number of a generic parameter. -/
def inflateGenericParameterIfNeeded (type : TypeRef H P) (genericParameterHandle : P)
    (inst : Option (GenericInst H P)) : Option (TypeRef H P) := do
  let inst ← inst
  let genericArgument ← inst.key[num genericParameterHandle]?
  if genericArgument.flags.attrs = type.flags.attrs ∧
      genericArgument.flags.byref = type.flags.byref then
    some genericArgument
  else some (genericArgument.withFlags type.flags)

mutual

/-- `GenericMetadata::InflateIfNeeded`. -/
def inflateIfNeeded (s : Tables M H P) : TypeRef H P → Option (Option (TypeRef H P) × Tables M H P)
  | type@(.var _ p) => do
    let inflated ← inflateGenericParameterIfNeeded num type p context.classInst
    some (some inflated, s)
  | type@(.mvar _ p) =>
    match context.methodInst with
    | some _ => do
      let inflated ← inflateGenericParameterIfNeeded num type p context.methodInst
      some (some inflated, s)
    | none => some (some type, s)
  | type@(.array flags etype rank) => do
    let (inflatedElementType, s) ← inflateIfNeeded s etype
    let inflatedElementType ← inflatedElementType
    if !inflatedElementType.erase.areEqual etype.erase then
      some (some (.array flags inflatedElementType rank), s)
    else some (some type, s)
  | type@(.ptr flags etype) => do
    let (inflatedElementType, s) ← inflateIfNeeded s etype
    let inflatedElementType ← inflatedElementType
    if !inflatedElementType.erase.areEqual etype.erase then
      some (some (.ptr flags inflatedElementType), s)
    else some (some type, s)
  | type@(.szarray flags etype) => do
    let (inflatedElementType, s) ← inflateIfNeeded s etype
    let inflatedElementType ← inflatedElementType
    if !inflatedElementType.erase.areEqual etype.erase then
      some (some (.szarray flags inflatedElementType), s)
    else some (some type, s)
  -- this is a generic type that was too deeply nested to generate
  | .genericinstNull .. => some (none, s)
  | type@(.genericinst flags genericClass d _ typeArgv) => do
    let (inflatedArgs, s) ← inflateArgs s typeArgv
    let (inflatedInst, s) ← getGenericInst env inflatedArgs s
    let (inflatedClass, s) ← getGenericClass env d inflatedInst s
    if inflatedClass.addr ≠ genericClass then
      some (some (.genericinst flags inflatedClass.addr inflatedClass.key.type
        inflatedClass.key.classInst.addr inflatedClass.key.classInst.key), s)
    else some (some type, s)
  | type => some (some type, s)

/-- The loop of `GetInflatedGenericIntance` over the arguments. -/
def inflateArgs (s : Tables M H P) :
    List (TypeRef H P) → Option (List (TypeRef H P) × Tables M H P)
  | [] => some ([], s)
  | a :: as => do
    let (inflated, s) ← inflateIfNeeded s a
    -- `GetGenericInst` hashes the arguments, and would dereference a NULL one
    let inflated ← inflated
    let (inflatedArgs, s) ← inflateArgs s as
    some (inflated :: inflatedArgs, s)

end

/-- `GenericMetadata::GetInflatedGenericIntance`. -/
def getInflatedGenericIntance (inst : Option (GenericInst H P)) (s : Tables M H P) :
    Option (Option (GenericInst H P) × Tables M H P) :=
  match inst with
  | none => some (none, s)
  | some inst => do
    let (inflatedArgs, s) ← inflateArgs env num context s inst.key
    let (inflated, s) ← getGenericInst env inflatedArgs s
    some (some inflated, s)

end

mutual

/-- `GenericMetadata::ContainsGenericParameters` on a type.  (`IL2CPP_TYPE_BYREF` carries no
`data.type` : being a reference is a flag.) -/
def containsGenericParameters : TypeRef H P → Option Bool
  | .var .. | .mvar .. => some true
  | .genericinst _ _ _ _ typeArgv => containsGenericParametersArgs typeArgv
  -- `inst->type_argc` with `inst == NULL`
  | .genericinstNull .. => none
  | .array _ etype _ | .szarray _ etype | .ptr _ etype => containsGenericParameters etype
  | _ => some false

/-- `GenericMetadata::ContainsGenericParameters` on an instance. -/
def containsGenericParametersArgs : List (TypeRef H P) → Option Bool
  | [] => some false
  | a :: as => do
    if ← containsGenericParameters a then some true else containsGenericParametersArgs as

end

/-! ### Objects of the tables -/

namespace TypeRef

section

variable {motive : TypeRef H P → Prop} (simple : ∀ f tag, motive (.simple f tag))
  (valuetype : ∀ f h, motive (.valuetype f h)) (klass : ∀ f h, motive (.klass f h))
  (ptr : ∀ f e, motive e → motive (.ptr f e)) (szarray : ∀ f e, motive e → motive (.szarray f e))
  (array : ∀ f e rank, motive e → motive (.array f e rank))
  (genericinst : ∀ f gc d ci argv, (∀ a ∈ argv, motive a) →
    motive (.genericinst f gc d ci argv))
  (genericinstNull : ∀ f gc d, motive (.genericinstNull f gc d))
  (var : ∀ f p, motive (.var f p)) (mvar : ∀ f p, motive (.mvar f p))
include simple valuetype klass ptr szarray array genericinst genericinstNull var mvar

/-- Induction over a description with a hypothesis for each type argument. -/
@[elab_as_elim]
theorem induction_args (t : TypeRef H P) : motive t := by
  induction t using TypeRef.rec (motive_2 := fun as => ∀ a ∈ as, motive a) with
  | simple f tag => exact simple f tag
  | valuetype f h => exact valuetype f h
  | klass f h => exact klass f h
  | ptr f e ih => exact ptr f e ih
  | szarray f e ih => exact szarray f e ih
  | array f e rank ih => exact array f e rank ih
  | genericinst f gc d ci argv ih => exact genericinst f gc d ci argv ih
  | genericinstNull f gc d => exact genericinstNull f gc d
  | var f p => exact var f p
  | mvar f p => exact mvar f p
  | nil => contradiction
  | cons a as iha ihas =>
    rcases List.mem_cons.1 ‹_› with rfl | h
    exacts [iha, ihas _ h]

end

mutual

/-- The generic classes and instances of the description are objects of the tables. -/
def Interned (s : Tables M H P) : TypeRef H P → Prop
  | ptr _ e | szarray _ e | array _ e _ => Interned s e
  | genericinst _ gc d ci argv =>
    ⟨ci, argv⟩ ∈ s.insts.entries ∧ ⟨gc, ⟨d, ⟨ci, argv⟩⟩⟩ ∈ s.classes.entries ∧ InternedArgs s argv
  | _ => True

/-- `Interned` for every type of a list. -/
def InternedArgs (s : Tables M H P) : List (TypeRef H P) → Prop
  | [] => True
  | a :: as => Interned s a ∧ InternedArgs s as

end

theorem internedArgs_iff {s : Tables M H P} {as : List (TypeRef H P)} :
    InternedArgs s as ↔ ∀ a ∈ as, Interned s a := by
  induction as with
  | nil => simp [InternedArgs]
  | cons a as ih => simp [InternedArgs, ih]

theorem Interned.mono {s s' : Tables M H P} (hle : s.Le s') (t : TypeRef H P)
    (h : t.Interned s) : t.Interned s' := by
  induction t using induction_args with
  | simple | valuetype | klass | genericinstNull | var | mvar => trivial
  | ptr f e ih | szarray f e ih | array f e rank ih => exact ih h
  | genericinst f gc d ci argv ih =>
    simp only [Interned, internedArgs_iff] at h ⊢
    exact ⟨hle.insts h.1, hle.classes h.2.1, fun a ha => ih a ha (h.2.2 a ha)⟩

theorem interned_withFlags {s : Tables M H P} (f : TypeFlags) {t : TypeRef H P} :
    (t.withFlags f).Interned s ↔ t.Interned s := by
  cases t <;> rfl

/-- No instance of the description is cut off. -/
def Full (t : TypeRef H P) : Prop := t.erase.Within (fun _ => True) fun _ => True

theorem within_genericinst {pv pm : P → Prop} {f : TypeFlags} {gc ci : ℕ}
    {d : GenericTypeDefinition H} {argv : List (TypeRef H P)} :
    (genericinst f gc d ci argv).erase.Within pv pm ↔ ∀ a ∈ argv, a.erase.Within pv pm := by
  simp [erase, Il2CppType.Within, Il2CppType.withinArgs_iff, eraseArgs_eq_map]

theorem hashable_iff {as : List (TypeRef H P)} :
    Hashable as ↔ ∀ a ∈ as, a.erase.instantiated = true := by
  induction as with
  | nil => simp [Hashable, eraseArgs, Il2CppType.allInstantiated]
  | cons a as ih =>
    rw [Hashable] at ih
    simp [Hashable, eraseArgs, Il2CppType.allInstantiated, ih]

theorem Full.instantiated (t : TypeRef H P) (h : t.Full) : t.erase.instantiated = true := by
  induction t using induction_args with
  | simple | valuetype | klass | var | mvar => rfl
  | ptr f e ih | szarray f e ih => exact ih h
  | array f e rank ih => rfl
  | genericinst f gc d ci argv ih =>
    have hd : (d.erase : Il2CppType H P).instantiated = true := by
      unfold GenericTypeDefinition.erase
      split <;> rfl
    simp only [erase, Il2CppType.instantiated, hd, Bool.true_and]
    exact hashable_iff.2 fun a ha => ih a ha (within_genericinst.1 h a ha)
  | genericinstNull f gc d => exact h.elim

/-- The part of a description at the end of a path. -/
def occurrence : TypeRef H P → List TypeStep → Option (TypeRef H P)
  | t, [] => some t
  | ptr _ e, .element :: path | szarray _ e, .element :: path | array _ e _, .element :: path =>
    e.occurrence path
  | genericinst _ _ _ _ argv, .argument n :: path => argv[n]?.bind fun a => a.occurrence path
  | _, _ :: _ => none

theorem occurrence_erase (t : TypeRef H P) (path : List TypeStep) :
    t.erase.occurrence path = (t.occurrence path).map erase := by
  induction path generalizing t with
  | nil => simp [occurrence, Il2CppType.occurrence]
  | cons step path ih =>
    cases t <;> cases step <;>
      simp [occurrence, Il2CppType.occurrence, erase, ih, eraseArgs_eq_map, Option.map_bind,
        Option.bind_map]

end TypeRef

/-! ### Contexts as substitutions -/

namespace GenericContext

variable (num : P → ℕ) (context : GenericContext H P)

/-- The argument of a context for a class parameter. -/
def classArg (p : P) : Option (TypeRef H P) := context.classInst.bind fun i => i.key[num p]?

/-- The argument of a context for a method parameter. -/
def methodArg (p : P) : Option (TypeRef H P) := context.methodInst.bind fun i => i.key[num p]?

/-- What inflating with a context replaces the parameters by. -/
def subst : TypeSubst H P where
  var p := (context.classArg num p).map TypeRef.erase
  mvar p := (context.methodArg num p).map TypeRef.erase

/-- The context has an argument for a class parameter. -/
def BindsVar (p : P) : Prop := (context.classArg num p).isSome = true

/-- The context has an argument for a method parameter, if it has arguments for those at all. -/
def BindsMvar (p : P) : Prop := context.methodInst ≠ none → (context.methodArg num p).isSome = true

/-- The parameters of a type are in the range of the instances, as the code asserts. -/
def Binds (t : TypeRef H P) : Prop :=
  t.erase.Within (context.BindsVar num) (context.BindsMvar num)

/-- The arguments of a context. -/
def Arg (a : TypeRef H P) : Prop :=
  (∃ i ∈ context.classInst, a ∈ i.key) ∨ ∃ i ∈ context.methodInst, a ∈ i.key

/-- The arguments of a context are not cut off and their instances are in the tables. -/
structure WellFormed (s : Tables M H P) : Prop where
  full : ∀ a, context.Arg a → a.Full
  interned : ∀ a, context.Arg a → a.Interned s

theorem WellFormed.mono {context : GenericContext H P} {s s' : Tables M H P}
    (h : context.WellFormed s) (hle : s.Le s') : context.WellFormed s' :=
  ⟨h.full, fun a ha => (h.interned a ha).mono hle⟩

theorem arg_of_classArg {p : P} {a : TypeRef H P} (h : context.classArg num p = some a) :
    context.Arg a := by
  obtain ⟨i, hi, ha⟩ := Option.bind_eq_some_iff.1 h
  exact .inl ⟨i, hi, List.mem_of_getElem? ha⟩

theorem arg_of_methodArg {p : P} {a : TypeRef H P} (h : context.methodArg num p = some a) :
    context.Arg a := by
  obtain ⟨i, hi, ha⟩ := Option.bind_eq_some_iff.1 h
  exact .inr ⟨i, hi, List.mem_of_getElem? ha⟩

end GenericContext

/-- The tables are canonical, and so are the arguments of the instances in them. -/
structure Tables.WellFormed [DecidableEq M] [LinearOrder H] [LinearOrder P]
    (s : Tables M H P) : Prop where
  canonical : s.Canonical
  interned : ∀ e ∈ s.insts.entries, ∀ a ∈ e.key, a.Interned s

/-! ### The specification of inflating -/

section

variable [DecidableEq M] [LinearOrder H] [LinearOrder P] {addr : H → UInt64} {token : M → UInt64}
  {env : InternEnv P addr token} {num : P → ℕ} {context : GenericContext H P}

/-- `u` is what inflating `t` with a context returns, the tables going from `s` to `s'`. -/
structure Inflates (num : P → ℕ) (context : GenericContext H P) (s : Tables M H P)
    (t u : TypeRef H P) (s' : Tables M H P) : Prop where
  wf : s'.WellFormed
  le : s.Le s'
  /-- Its generic classes are objects of the tables. -/
  interned : u.Interned s'
  /-- It is the substitution instance of `t`. -/
  key : u.erase.sortKey = (t.erase.subst (context.subst num)).sortKey
  /-- Along the element types the flags are those of `t`. -/
  flags : ∀ path e, (∀ step ∈ path, step = .element) → t.occurrence path = some e →
    ∃ e', u.occurrence path = some e' ∧ e'.flags = e.flags

omit [DecidableEq M] [LinearOrder H] [LinearOrder P] in
theorem inflateGenericParameterIfNeeded_eq (t : TypeRef H P) (p : P)
    (inst : Option (GenericInst H P)) :
    inflateGenericParameterIfNeeded num t p inst =
      (inst.bind fun i => i.key[num p]?).map fun a => a.withFlags t.flags := by
  cases inst with
  | none => rfl
  | some i =>
    simp only [inflateGenericParameterIfNeeded, Option.bind_eq_bind, Option.bind_some]
    cases i.key[num p]? with
    | none => rfl
    | some a =>
      simp only [Option.bind_some, Option.map_some]
      split_ifs with hf
      · have hf : a.flags = t.flags := by
          cases ha : a.flags; cases ht : t.flags; simp_all
        rw [← hf, a.withFlags_self]
      · rfl

omit [DecidableEq M] [LinearOrder H] [LinearOrder P] in
theorem GenericContext.Binds.full {t : TypeRef H P} (h : context.Binds num t) : t.Full :=
  Il2CppType.within_mono (fun _ _ => trivial) (fun _ _ => trivial) _ h

omit [DecidableEq M] [LinearOrder H] [LinearOrder P] in
theorem full_subst {s : Tables M H P} (hc : context.WellFormed s) {t : TypeRef H P}
    (ht : t.Full) :
    (t.erase.subst (context.subst num)).Within (fun _ => True) fun _ => True := by
  refine Il2CppType.within_subst (fun p _ => ?_) (fun p _ => ?_) _ ht
  · cases h : context.classArg num p with
    | none => simp [GenericContext.subst, h]
    | some a =>
      simpa [GenericContext.subst, h, TypeRef.Full] using
        hc.full a (context.arg_of_classArg num h)
  · cases h : context.methodArg num p with
    | none => simp [GenericContext.subst, h]
    | some a =>
      simpa [GenericContext.subst, h, TypeRef.Full] using
        hc.full a (context.arg_of_methodArg num h)

theorem Inflates.full {s s' : Tables M H P} {t u : TypeRef H P} (hc : context.WellFormed s)
    (ht : t.Full) (h : Inflates num context s t u s') : u.Full :=
  Il2CppType.within_congr h.key.symm (full_subst hc ht)

theorem Inflates.self {s : Tables M H P} (hs : s.WellFormed) {t : TypeRef H P}
    (ht : t.Interned s) (hk : t.erase.sortKey = (t.erase.subst (context.subst num)).sortKey) :
    Inflates num context s t t s :=
  ⟨hs, .refl s, ht, hk, fun _ e _ he => ⟨e, he, rfl⟩⟩

theorem Inflates.arg {s : Tables M H P} (hs : s.WellFormed) (hc : context.WellFormed s)
    {t a : TypeRef H P} (ha : context.Arg a)
    (ht : ∀ step path, t.occurrence (step :: path) = none)
    (hk : (t.erase.subst (context.subst num)) = a.erase.withByref t.flags.byref) :
    Inflates num context s t (a.withFlags t.flags) s where
  wf := hs
  le := .refl s
  interned := (TypeRef.interned_withFlags _).2 (hc.interned a ha)
  key := by rw [hk, TypeRef.erase_withFlags]
  flags path e _ he := by
    cases path with
    | nil =>
      obtain rfl : t = e := by simpa [TypeRef.occurrence] using he
      exact ⟨_, rfl, TypeRef.flags_withFlags _ _⟩
    | cons step path => simp [ht] at he

/-- The kinds of types with an element type. -/
inductive Container where
  | ptr
  | szarray
  | array (rank : ℕ)

/-- The type of a kind with given flags and element type. -/
def Container.of (k : Container) (f : TypeFlags) (e : TypeRef H P) : TypeRef H P :=
  match k with
  | ptr => .ptr f e
  | szarray => .szarray f e
  | array rank => .array f e rank

theorem inflateIfNeeded_container (k : Container) (f : TypeFlags) (e : TypeRef H P)
    (s : Tables M H P) :
    inflateIfNeeded env num context s (k.of f e) =
      (inflateIfNeeded env num context s e).bind fun r => r.1.bind fun u =>
        if !u.erase.areEqual e.erase then some (some (k.of f u), r.2)
        else some (some (k.of f e), r.2) := by
  cases k <;> rfl

theorem Inflates.container {s s' : Tables M H P} {e u : TypeRef H P} (k : Container)
    (f : TypeFlags) (h : Inflates num context s e u s') :
    Inflates num context s (k.of f e) (k.of f u) s' where
  wf := h.wf
  le := h.le
  interned := by cases k <;> exact h.interned
  key := by
    cases k <;> simp [Container.of, TypeRef.erase, Il2CppType.subst, Il2CppType.sortKey,
      Il2CppType.type, Il2CppType.byref, h.key]
  flags path a hpath ha := by
    cases path with
    | nil =>
      obtain rfl : k.of f e = a := by simpa [TypeRef.occurrence] using ha
      exact ⟨_, rfl, by cases k <;> rfl⟩
    | cons step path =>
      obtain rfl := hpath step List.mem_cons_self
      have ha' : e.occurrence path = some a := by cases k <;> exact ha
      obtain ⟨a', hu, hf⟩ := h.flags path a (fun x hx => hpath x (List.mem_cons_of_mem _ hx)) ha'
      exact ⟨a', by cases k <;> exact hu, hf⟩

/-- `args` are what inflating the types `as` returns, the tables going from `s` to `s'`. -/
structure InflatesArgs (num : P → ℕ) (context : GenericContext H P) (s : Tables M H P)
    (as args : List (TypeRef H P)) (s' : Tables M H P) : Prop where
  wf : s'.WellFormed
  le : s.Le s'
  interned : ∀ u ∈ args, u.Interned s'
  full : ∀ u ∈ args, u.Full
  keys : TypeRef.keys args = as.map fun a => (a.erase.subst (context.subst num)).sortKey

theorem Tables.WellFormed.getGenericInst {s s' : Tables M H P} {types : List (TypeRef H P)}
    {inst : GenericInst H P} (hs : s.WellFormed) (ht : Hashable types)
    (hi : ∀ a ∈ types, a.Interned s) (h : Il2Cpp.getGenericInst env types s = some (inst, s')) :
    s'.WellFormed := by
  obtain ⟨hcan, hle, -, -, hold⟩ := getGenericInst_spec hs.canonical ht h
  refine ⟨hcan, fun e he a ha => ?_⟩
  rcases hold e he with he | he
  · exact (hs.interned e he a ha).mono hle
  · exact (hi a (he ▸ ha)).mono hle

theorem Tables.WellFormed.getGenericClass {s s' : Tables M H P} {d : GenericTypeDefinition H}
    {i : GenericInst H P} {c : Obj (ClassKey H P)} (hs : s.WellFormed) (hi : i ∈ s.insts.entries)
    (h : Il2Cpp.getGenericClass env d i s = some (c, s')) : s'.WellFormed := by
  obtain ⟨hcan, hle, -, -, hinsts⟩ := getGenericClass_spec hs.canonical hi h
  exact ⟨hcan, fun e he a ha => (hs.interned e (hinsts ▸ he) a ha).mono hle⟩

theorem InflatesArgs.getGenericInst {s s₁ : Tables M H P} {as args : List (TypeRef H P)}
    (env : InternEnv P addr token) (h : InflatesArgs num context s as args s₁) :
    ∃ (inst : GenericInst H P) (s' : Tables M H P),
      Il2Cpp.getGenericInst env args s₁ = some (inst, s') ∧ s'.WellFormed ∧ s₁.Le s' ∧
      inst ∈ s'.insts.entries ∧ TypeRef.keys args = TypeRef.keys inst.key := by
  have hhash : Hashable args := TypeRef.hashable_iff.2 fun u hu => (h.full u hu).instantiated
  obtain ⟨inst, s', hget⟩ := getGenericInst_isSome env s₁ hhash
  obtain ⟨-, hle, hmem, hequal, -⟩ := getGenericInst_spec h.wf.canonical hhash hget
  exact ⟨inst, s', hget, h.wf.getGenericInst hhash h.interned hget, hle, hmem,
    instEqual_iff.1 hequal⟩

theorem inflateArgs_spec {as : List (TypeRef H P)}
    (ih : ∀ a ∈ as, ∀ s : Tables M H P, s.WellFormed → context.WellFormed s → a.Interned s →
      context.Binds num a → ∃ u s', inflateIfNeeded env num context s a = some (some u, s') ∧
        Inflates num context s a u s')
    (s : Tables M H P) (hs : s.WellFormed) (hc : context.WellFormed s)
    (hi : ∀ a ∈ as, a.Interned s) (hb : ∀ a ∈ as, context.Binds num a) :
    ∃ args s', inflateArgs env num context s as = some (args, s') ∧
      InflatesArgs num context s as args s' := by
  induction as generalizing s with
  | nil => exact ⟨[], s, rfl, hs, .refl s, nofun, nofun, rfl⟩
  | cons a as ihas =>
    obtain ⟨u, s₁, hu, h⟩ := ih a List.mem_cons_self s hs hc (hi a List.mem_cons_self)
      (hb a List.mem_cons_self)
    obtain ⟨args, s₂, hargs, hr⟩ := ihas (fun b hb => ih b (List.mem_cons_of_mem _ hb)) s₁ h.wf
      (hc.mono h.le) (fun b hb => (hi b (List.mem_cons_of_mem _ hb)).mono h.le)
      (fun b hb' => hb b (List.mem_cons_of_mem _ hb'))
    refine ⟨u :: args, s₂, by simp [inflateArgs, hu, hargs], hr.wf, h.le.trans hr.le, ?_, ?_, ?_⟩
    · rintro x hx
      rcases List.mem_cons.1 hx with rfl | hx
      exacts [h.interned.mono hr.le, hr.interned x hx]
    · rintro x hx
      rcases List.mem_cons.1 hx with rfl | hx
      exacts [h.full hc (hb a List.mem_cons_self).full, hr.full x hx]
    · rw [List.map_cons, ← hr.keys, TypeRef.keys, List.map_cons, h.key]
      rfl

theorem inflateIfNeeded_container_spec (k : Container) (f : TypeFlags) {e u : TypeRef H P}
    {s s' : Tables M H P} (he : e.Interned s)
    (hu : inflateIfNeeded env num context s e = some (some u, s'))
    (h : Inflates num context s e u s') :
    ∃ u s', inflateIfNeeded env num context s (k.of f e) = some (some u, s') ∧
      Inflates num context s (k.of f e) u s' := by
  rw [inflateIfNeeded_container, hu]
  cases heq : u.erase.areEqual e.erase with
  | false => exact ⟨k.of f u, s', by simp [heq], h.container k f⟩
  | true =>
    have hself : Inflates num context s e e s' :=
      ⟨h.wf, h.le, he.mono h.le, (Il2CppType.areEqual_iff_sortKey.1 heq).symm.trans h.key,
        fun _ a _ ha => ⟨a, ha, rfl⟩⟩
    exact ⟨k.of f e, s', by simp [heq], hself.container k f⟩

/-- A generic instance: the class of the inflated arguments is looked up, and the description is
copied unless it is the class that it has. -/
theorem inflateIfNeeded_genericinst_spec {f : TypeFlags} {gc ci : ℕ}
    {d : GenericTypeDefinition H} {argv args : List (TypeRef H P)} {s s₁ : Tables M H P}
    (ht : (TypeRef.genericinst f gc d ci argv).Interned s)
    (hargs : inflateArgs env num context s argv = some (args, s₁))
    (h : InflatesArgs num context s argv args s₁) :
    ∃ u s', inflateIfNeeded env num context s (.genericinst f gc d ci argv) = some (some u, s') ∧
      Inflates num context s (.genericinst f gc d ci argv) u s' := by
  obtain ⟨inst, s₂, hinst, hs₂, hle₂, hmem, hkeys⟩ := h.getGenericInst env
  obtain ⟨c, s₃, hclass⟩ := getGenericClass_isSome env hs₂.canonical d hmem
  obtain ⟨hcan, hle₃, hc, hequal, -⟩ := getGenericClass_spec hs₂.canonical hmem hclass
  obtain ⟨hd, hequal⟩ := classEqual_iff.1 hequal
  have hd : d = c.key.type := hd
  have hle := h.le.trans (hle₂.trans hle₃)
  have hinst' := hcan.classes.mem c hc
  have hs₃ := hs₂.getGenericClass hmem hclass
  -- in both cases the result is made from the class that was found
  have hu : inflateIfNeeded env num context s (.genericinst f gc d ci argv) =
      some (some (.genericinst f c.addr c.key.type c.key.classInst.addr c.key.classInst.key),
        s₃) := by
    simp only [inflateIfNeeded, Option.bind_eq_bind, hargs, hinst, hclass, Option.bind_some]
    split_ifs with hne
    · rfl
    · have heq := hcan.classes.addr_inj c hc _ (hle.classes ht.2.1) (not_not.1 hne)
      rw [heq]
  refine ⟨_, s₃, hu, hs₃, hle, ⟨hinst', hc, ?_⟩, ?_, ?_⟩
  · exact TypeRef.internedArgs_iff.2 fun a ha => hs₃.interned _ hinst' a ha
  · have hk : TypeRef.keys c.key.classInst.key =
        argv.map fun a => (a.erase.subst (context.subst num)).sortKey := by
      rw [← instEqual_iff.1 hequal, ← hkeys, h.keys]
    simp only [TypeRef.erase, Il2CppType.subst]
    refine Il2CppType.sortKey_genericinst_congr _ (by rw [hd]) ?_
    rw [TypeRef.map_sortKey_eraseArgs, hk, TypeRef.eraseArgs_eq_map, Il2CppType.substArgs_eq_map,
      List.map_map, List.map_map]
    rfl
  · intro path e hpath he
    cases path with
    | nil =>
      obtain rfl : _ = e := Option.some.inj he
      exact ⟨_, rfl, rfl⟩
    | cons step path =>
      obtain rfl := hpath step List.mem_cons_self
      cases he

/-- **Inflating returns the substitution instance.** -/
theorem inflateIfNeeded_spec (s : Tables M H P) (hs : s.WellFormed) (hc : context.WellFormed s)
    (t : TypeRef H P) (ht : t.Interned s) (hb : context.Binds num t) :
    ∃ u s', inflateIfNeeded env num context s t = some (some u, s') ∧
      Inflates num context s t u s' := by
  induction t using TypeRef.induction_args generalizing s with
  | simple f tag => exact ⟨_, s, rfl, .self hs ht rfl⟩
  | valuetype f h => exact ⟨_, s, rfl, .self hs ht rfl⟩
  | klass f h => exact ⟨_, s, rfl, .self hs ht rfl⟩
  | ptr f e ih =>
    obtain ⟨u, s', hu, h⟩ := ih s hs hc ht hb
    exact inflateIfNeeded_container_spec .ptr f ht hu h
  | szarray f e ih =>
    obtain ⟨u, s', hu, h⟩ := ih s hs hc ht hb
    exact inflateIfNeeded_container_spec .szarray f ht hu h
  | array f e rank ih =>
    obtain ⟨u, s', hu, h⟩ := ih s hs hc ht hb
    exact inflateIfNeeded_container_spec (.array rank) f ht hu h
  | genericinst f gc d ci argv ih =>
    obtain ⟨args, s₁, hargs, h⟩ := inflateArgs_spec
      (fun a ha s hs hc hi hb => ih a ha s hs hc hi hb) s hs hc
      (TypeRef.internedArgs_iff.1 ht.2.2) (TypeRef.within_genericinst.1 hb)
    exact inflateIfNeeded_genericinst_spec ht hargs h
  | genericinstNull f gc d => exact hb.elim
  | var f p =>
    obtain ⟨a, ha⟩ := Option.isSome_iff_exists.1 hb
    refine ⟨a.withFlags f, s, ?_, .arg hs hc (context.arg_of_classArg num ha) ?_ ?_⟩
    · have ha : (context.classInst.bind fun i => i.key[num p]?) = some a := ha
      simp [inflateIfNeeded, inflateGenericParameterIfNeeded_eq, ha, TypeRef.flags]
    · exact fun step path => by cases step <;> rfl
    · simp [TypeRef.erase, Il2CppType.subst, GenericContext.subst, ha, TypeRef.flags]
  | mvar f p =>
    cases hm : context.methodInst with
    | none =>
      refine ⟨_, s, by simp only [inflateIfNeeded, hm], .self hs ht ?_⟩
      simp [TypeRef.erase, Il2CppType.subst, GenericContext.subst, GenericContext.methodArg, hm]
    | some i =>
      obtain ⟨a, ha⟩ := Option.isSome_iff_exists.1 (hb (by simp [hm]))
      refine ⟨a.withFlags f, s, ?_, .arg hs hc (context.arg_of_methodArg num ha) ?_ ?_⟩
      · have ha : (context.methodInst.bind fun i => i.key[num p]?) = some a := ha
        rw [hm] at ha
        simp only [inflateIfNeeded, inflateGenericParameterIfNeeded_eq, hm, ha]
        rfl
      · exact fun step path => by cases step <;> rfl
      · simp [TypeRef.erase, Il2CppType.subst, GenericContext.subst, ha, TypeRef.flags]

/-! ### Types without bound parameters -/

theorem inflateArgs_eq_self {s : Tables M H P} {as : List (TypeRef H P)}
    (h : ∀ a ∈ as, inflateIfNeeded env num context s a = some (some a, s)) :
    inflateArgs env num context s as = some (as, s) := by
  induction as with
  | nil => rfl
  | cons a as ih =>
    simp [inflateArgs, h a List.mem_cons_self, ih fun b hb => h b (List.mem_cons_of_mem _ hb)]

theorem inflateIfNeeded_container_self {s : Tables M H P} (k : Container) (f : TypeFlags)
    {e : TypeRef H P} (h : inflateIfNeeded env num context s e = some (some e, s)) :
    inflateIfNeeded env num context s (k.of f e) = some (some (k.of f e), s) := by
  have he : e.erase.areEqual e.erase = true := Il2CppType.areEqual_iff_sortKey.2 rfl
  simp [inflateIfNeeded_container, h, he]

/-- **A type that mentions no bound parameter comes back as the same object**, and the tables are
not changed. -/
theorem inflateIfNeeded_unbound {s : Tables M H P} (hs : s.WellFormed) (t : TypeRef H P)
    (ht : t.Interned s)
    (hb : t.erase.Within (fun _ => False) fun _ => context.methodInst = none) :
    inflateIfNeeded env num context s t = some (some t, s) := by
  induction t using TypeRef.induction_args with
  | simple | valuetype | klass => rfl
  | ptr f e ih => exact inflateIfNeeded_container_self .ptr f (ih ht hb)
  | szarray f e ih => exact inflateIfNeeded_container_self .szarray f (ih ht hb)
  | array f e rank ih => exact inflateIfNeeded_container_self (.array rank) f (ih ht hb)
  | genericinst f gc d ci argv ih =>
    obtain ⟨hinst, hclass, hargv⟩ := ht
    have hargs : inflateArgs env num context s argv = some (argv, s) :=
      inflateArgs_eq_self fun a ha => ih a ha (TypeRef.internedArgs_iff.1 hargv a ha)
        (TypeRef.within_genericinst.1 hb a ha)
    have hgi : getGenericInst env argv s = some (⟨ci, argv⟩, s) := by
      rw [getGenericInst_eq, InternTable.intern_eq_self env.insts (keyLaws_insts addr)
        hs.canonical.insts (hs.canonical.insts.mem _ hinst) hinst (instEqual_iff.2 rfl)]
      rfl
    have hgc : getGenericClass env d ⟨ci, argv⟩ s = some (⟨gc, ⟨d, ⟨ci, argv⟩⟩⟩, s) := by
      rw [getGenericClass_eq, InternTable.intern_eq_self env.classes
        (keyLaws_classes addr hs.canonical.insts) hs.canonical.classes hinst hclass
        (classEqual_iff.2 ⟨rfl, instEqual_iff.2 rfl⟩)]
      rfl
    simp [inflateIfNeeded, hargs, hgi, hgc]
  | genericinstNull f gc d => exact hb.elim
  | var f p => exact hb.elim
  | mvar f p =>
    have hm : context.methodInst = none := hb
    simp only [inflateIfNeeded, hm]

/-! ### Flags and closed types -/

theorem Inflates.byref {s s' : Tables M H P} {t u e : TypeRef H P} {path : List TypeStep}
    (h : Inflates num context s t u s') (he : t.occurrence path = some e) :
    ∃ e', u.occurrence path = some e' ∧ e'.flags.byref = e.flags.byref := by
  have ht : t.erase.occurrence path = some e.erase := by rw [TypeRef.occurrence_erase, he]; rfl
  obtain ⟨x, hx, hk⟩ := Il2CppType.occurrence_congr h.key.symm
    (Il2CppType.occurrence_subst (context.subst num) ht)
  rw [TypeRef.occurrence_erase] at hx
  obtain ⟨e', he', rfl⟩ := Option.map_eq_some_iff.1 hx
  refine ⟨e', he', ?_⟩
  rw [← TypeRef.byref_erase, ← TypeRef.byref_erase, ← Il2CppType.byref_eq_of_sortKey hk,
    Il2CppType.byref_subst]

omit [DecidableEq M] [LinearOrder H] [LinearOrder P] in
theorem containsGenericParameters_eq_false_iff (t : TypeRef H P) :
    containsGenericParameters t = some false ↔
      t.erase.Within (fun _ => False) fun _ => False := by
  induction t using TypeRef.induction_args with
  | simple | valuetype | klass => exact ⟨fun _ => trivial, fun _ => rfl⟩
  | ptr f e ih | szarray f e ih | array f e rank ih => exact ih
  | genericinst f gc d ci argv ih =>
    rw [TypeRef.within_genericinst, containsGenericParameters]
    induction argv with
    | nil => simp [containsGenericParametersArgs]
    | cons a as ihas =>
      have iha := ih a List.mem_cons_self
      have ihas := ihas fun b hb => ih b (List.mem_cons_of_mem _ hb)
      simp only [containsGenericParametersArgs, List.forall_mem_cons, ← iha, ← ihas]
      rcases containsGenericParameters a with _ | (_ | _) <;> simp
  | genericinstNull f gc d => simp [containsGenericParameters, TypeRef.erase, Il2CppType.Within]
  | var f p => simp [containsGenericParameters, TypeRef.erase, Il2CppType.Within]
  | mvar f p => simp [containsGenericParameters, TypeRef.erase, Il2CppType.Within]

/-- **Closed arguments for all parameters make a closed type.** -/
theorem Inflates.closed {s s' : Tables M H P} {t u : TypeRef H P}
    (h : Inflates num context s t u s') (hb : context.Binds num t)
    (hm : t.erase.Within (fun _ => True) fun _ => context.methodInst ≠ none)
    (hc : ∀ a, context.Arg a → containsGenericParameters a = some false) :
    containsGenericParameters u = some false := by
  rw [containsGenericParameters_eq_false_iff]
  have hw : t.erase.Within (context.BindsVar num)
      fun p => (context.methodArg num p).isSome = true :=
    Il2CppType.within_mono (fun _ hp => hp.1) (fun _ hp => hp.1 hp.2) _
      (Il2CppType.within_and _ hb hm)
  refine Il2CppType.within_congr h.key.symm
    (Il2CppType.within_subst (fun p hp => ?_) (fun p hp => ?_) _ hw)
  · obtain ⟨a, ha⟩ := Option.isSome_iff_exists.1 hp
    simpa [GenericContext.subst, ha] using
      (containsGenericParameters_eq_false_iff a).1 (hc a (context.arg_of_classArg num ha))
  · obtain ⟨a, ha⟩ := Option.isSome_iff_exists.1 hp
    simpa [GenericContext.subst, ha] using
      (containsGenericParameters_eq_false_iff a).1 (hc a (context.arg_of_methodArg num ha))

end

/-! ### Composition -/

section

variable [DecidableEq M] [LinearOrder H] [LinearOrder P] {addr : H → UInt64} {token : M → UInt64}
  (env : InternEnv P addr token) (num : P → ℕ)

/-- A context with another one applied to its arguments.  Without arguments for the method
parameters it leaves these in place, so that the other one replaces them. -/
def composeContext (context₁ context₂ : GenericContext H P) (s : Tables M H P) :
    Option (GenericContext H P × Tables M H P) := do
  let (classInst, s) ← getInflatedGenericIntance env num context₂ context₁.classInst s
  match context₁.methodInst with
  | none => some (⟨classInst, context₂.methodInst⟩, s)
  | some inst => do
    let (methodInst, s) ← getInflatedGenericIntance env num context₂ (some inst) s
    some (⟨classInst, methodInst⟩, s)

variable {env num} {context : GenericContext H P}

theorem getInflatedGenericIntance_spec {s : Tables M H P} (hs : s.WellFormed)
    (hc : context.WellFormed s) {inst : Option (GenericInst H P)}
    (hi : ∀ i ∈ inst, ∀ a ∈ i.key, a.Interned s ∧ context.Binds num a) :
    ∃ j s', getInflatedGenericIntance env num context inst s = some (j, s') ∧
      s'.WellFormed ∧ s.Le s' ∧ (∀ i ∈ j, ∀ a ∈ i.key, a.Full ∧ a.Interned s') ∧
      ∀ n : ℕ, (j.bind fun i => i.key[n]?).map (fun a : TypeRef H P => a.erase.sortKey) =
        (inst.bind fun i => i.key[n]?).map fun a : TypeRef H P =>
          (a.erase.subst (context.subst num)).sortKey := by
  cases inst with
  | none => exact ⟨none, s, rfl, hs, .refl s, nofun, fun n => rfl⟩
  | some i =>
    have hi := hi i rfl
    obtain ⟨args, s₁, hargs, h⟩ :
        ∃ args s₁, inflateArgs env num context s i.key = some (args, s₁) ∧
          InflatesArgs num context s i.key args s₁ :=
      inflateArgs_spec (fun a _ s hs hc hi hb => inflateIfNeeded_spec s hs hc a hi hb) s hs hc
        (fun a ha => (hi a ha).1) fun a ha => (hi a ha).2
    obtain ⟨j, s₂, hj, hs₂, hle, hmem, hkeys⟩ := h.getGenericInst env
    have hkeys := hkeys.symm.trans h.keys
    refine ⟨some j, s₂, by simp [getInflatedGenericIntance, hargs, hj], hs₂, h.le.trans hle, ?_,
      fun n => ?_⟩
    · rintro _ ⟨⟩ a ha
      have hak : a.erase.sortKey ∈ TypeRef.keys j.key := List.mem_map_of_mem ha
      rw [hkeys, List.mem_map] at hak
      obtain ⟨b, hb, hbk⟩ := hak
      exact ⟨Il2CppType.within_congr hbk (full_subst hc (hi b hb).2.full),
        hs₂.interned j hmem a ha⟩
    · simpa [TypeRef.keys] using congrArg (·[n]?) hkeys

/-- What composing two contexts gives, as substitutions. -/
structure Composes (num : P → ℕ) (context₁ context₂ context : GenericContext H P) : Prop where
  classArg : ∀ p, (context.classArg num p).map (fun a => a.erase.sortKey) =
    (context₁.classArg num p).map fun a => (a.erase.subst (context₂.subst num)).sortKey
  methodArg : context₁.methodInst ≠ none → ∀ p,
    (context.methodArg num p).map (fun a => a.erase.sortKey) =
      (context₁.methodArg num p).map fun a => (a.erase.subst (context₂.subst num)).sortKey
  methodInst : context₁.methodInst = none → context.methodInst = context₂.methodInst

omit [DecidableEq M] [LinearOrder H] [LinearOrder P] in
theorem Composes.subst_eq {context₁ context₂ context : GenericContext H P}
    (h : Composes num context₁ context₂ context) {t : TypeRef H P} (hb : context₁.Binds num t) :
    (t.erase.subst ((context₁.subst num).comp (context₂.subst num))).sortKey =
      (t.erase.subst (context.subst num)).sortKey := by
  refine Il2CppType.subst_congr (fun p hp => ?_) (fun p hp => ?_) _ hb
  · obtain ⟨a, ha⟩ := Option.isSome_iff_exists.1 hp
    have hk := h.classArg p
    simp only [ha, Option.map_some, Option.map_eq_some_iff] at hk
    obtain ⟨b, hb, hk⟩ := hk
    simp [TypeSubst.comp, GenericContext.subst, ha, hb, hk]
  · by_cases hm : context₁.methodInst = none
    · simp [TypeSubst.comp, GenericContext.subst, GenericContext.methodArg, hm, h.methodInst hm]
    · obtain ⟨a, ha⟩ := Option.isSome_iff_exists.1 (hp hm)
      have hk := h.methodArg hm p
      simp only [ha, Option.map_some, Option.map_eq_some_iff] at hk
      obtain ⟨b, hb, hk⟩ := hk
      simp [TypeSubst.comp, GenericContext.subst, ha, hb, hk]

omit [DecidableEq M] [LinearOrder H] [LinearOrder P] in
theorem Composes.binds {context₁ context₂ context : GenericContext H P}
    (h : Composes num context₁ context₂ context) {t : TypeRef H P} (hb : context₁.Binds num t)
    (hm : t.erase.Within (fun _ => True)
      fun p => context₁.methodInst = none → context₂.BindsMvar num p) : context.Binds num t := by
  refine Il2CppType.within_mono (fun p hp => ?_) (fun p hp => ?_) _ (Il2CppType.within_and _ hb hm)
  · have hk := congrArg Option.isSome (h.classArg p)
    have hp₁ : (context₁.classArg num p).isSome = true := hp.1
    simpa [GenericContext.BindsVar] using hk.trans (by simpa using hp₁)
  · intro hne
    by_cases hm₁ : context₁.methodInst = none
    · have := hp.2 hm₁
      simp only [GenericContext.BindsMvar, GenericContext.methodArg, h.methodInst hm₁] at this hne ⊢
      exact this hne
    · have hk := congrArg Option.isSome (h.methodArg hm₁ p)
      have hs := hp.1 hm₁
      simpa using hk.trans (by simpa using hs)

theorem composeContext_spec {s : Tables M H P} {context₁ context₂ : GenericContext H P}
    (hs : s.WellFormed) (hc₁ : context₁.WellFormed s) (hc₂ : context₂.WellFormed s)
    (hb : ∀ a, context₁.Arg a → context₂.Binds num a) :
    ∃ context s', composeContext env num context₁ context₂ s = some (context, s') ∧
      s'.WellFormed ∧ s.Le s' ∧ context.WellFormed s' ∧ Composes num context₁ context₂ context := by
  obtain ⟨j, s₁, hj, hs₁, hle₁, hargs, hkeys⟩ :
      ∃ j s₁, getInflatedGenericIntance env num context₂ context₁.classInst s = some (j, s₁) ∧ _ :=
    getInflatedGenericIntance_spec hs hc₂ fun i hi a ha =>
      ⟨hc₁.interned a (.inl ⟨i, hi, ha⟩), hb a (.inl ⟨i, hi, ha⟩)⟩
  cases hm : context₁.methodInst with
  | none =>
    refine ⟨⟨j, context₂.methodInst⟩, s₁, by simp [composeContext, hj, hm], hs₁, hle₁,
      ⟨?_, ?_⟩, ⟨fun p => hkeys (num p), fun hne => absurd hm hne, fun _ => rfl⟩⟩
    · rintro a (⟨i, hi, ha⟩ | ⟨i, hi, ha⟩)
      exacts [(hargs i hi a ha).1, hc₂.full a (.inr ⟨i, hi, ha⟩)]
    · rintro a (⟨i, hi, ha⟩ | ⟨i, hi, ha⟩)
      exacts [(hargs i hi a ha).2, (hc₂.interned a (.inr ⟨i, hi, ha⟩)).mono hle₁]
  | some k =>
    have hc₁' := hc₁.mono hle₁
    obtain ⟨l, s₂, hl, hs₂, hle₂, hargs', hkeys'⟩ :
        ∃ l s₂, getInflatedGenericIntance env num context₂ (some k) s₁ = some (l, s₂) ∧ _ :=
      getInflatedGenericIntance_spec hs₁ (hc₂.mono hle₁) fun i hi a ha =>
        have hmem := (⟨i, hm ▸ hi, ha⟩ : ∃ i ∈ context₁.methodInst, a ∈ i.key)
        ⟨hc₁'.interned a (.inr hmem), hb a (.inr hmem)⟩
    refine ⟨⟨j, l⟩, s₂, by simp [composeContext, hj, hm, hl], hs₂, hle₁.trans hle₂, ⟨?_, ?_⟩,
      ⟨fun p => hkeys (num p), fun _ p => ?_, fun h => by simp [hm] at h⟩⟩
    · rintro a (⟨i, hi, ha⟩ | ⟨i, hi, ha⟩)
      exacts [(hargs i hi a ha).1, (hargs' i hi a ha).1]
    · rintro a (⟨i, hi, ha⟩ | ⟨i, hi, ha⟩)
      exacts [((hargs i hi a ha).2).mono hle₂, (hargs' i hi a ha).2]
    · simpa [GenericContext.methodArg, hm] using hkeys' (num p)

/-- **Inflating twice is inflating with the composed context.** -/
theorem inflateIfNeeded_compose {s : Tables M H P} {context₁ context₂ : GenericContext H P}
    {t : TypeRef H P} (hs : s.WellFormed) (hc₁ : context₁.WellFormed s)
    (hc₂ : context₂.WellFormed s) (ht : t.Interned s) (hb : context₁.Binds num t)
    (hb₂ : ∀ a, context₁.Arg a → context₂.Binds num a)
    (hm : t.erase.Within (fun _ => True)
      fun p => context₁.methodInst = none → context₂.BindsMvar num p) :
    ∃ u₁ s₁ u₂ s₂ context s₃ u₃ s₄,
      inflateIfNeeded env num context₁ s t = some (some u₁, s₁) ∧
      inflateIfNeeded env num context₂ s₁ u₁ = some (some u₂, s₂) ∧
      composeContext env num context₁ context₂ s₂ = some (context, s₃) ∧
      inflateIfNeeded env num context s₃ t = some (some u₃, s₄) ∧
      u₂.erase.areEqual u₃.erase = true := by
  obtain ⟨u₁, s₁, hu₁, h₁⟩ := inflateIfNeeded_spec s hs hc₁ t ht hb
  -- what the first context leaves or puts in is bound by the second
  have hbu : context₂.Binds num u₁ := by
    refine Il2CppType.within_congr h₁.key.symm
      (Il2CppType.within_subst (fun p hp => ?_) (fun p hp => ?_) _ (Il2CppType.within_and _ hb hm))
    · obtain ⟨a, ha⟩ := Option.isSome_iff_exists.1 hp.1
      simpa [GenericContext.subst, GenericContext.Binds, ha] using
        hb₂ a (context₁.arg_of_classArg num ha)
    · cases ha : context₁.methodArg num p with
      | none =>
        have hnone : context₁.methodInst = none := by
          by_contra hne
          have := hp.1 hne
          simp [ha] at this
        simpa [GenericContext.subst, ha] using hp.2 hnone
      | some a =>
        simpa [GenericContext.subst, GenericContext.Binds, ha] using
          hb₂ a (context₁.arg_of_methodArg num ha)
  obtain ⟨u₂, s₂, hu₂, h₂⟩ := inflateIfNeeded_spec s₁ h₁.wf (hc₂.mono h₁.le) u₁
    h₁.interned hbu
  have hle := h₁.le.trans h₂.le
  obtain ⟨context, s₃, hcomp, hs₃, hle₃, hc, hcs⟩ := composeContext_spec h₂.wf
    (hc₁.mono hle) (hc₂.mono hle) hb₂
  obtain ⟨u₃, s₄, hu₃, h₃⟩ := inflateIfNeeded_spec s₃ hs₃ hc t
    (ht.mono (hle.trans hle₃)) (hcs.binds hb hm)
  refine ⟨u₁, s₁, u₂, s₂, context, s₃, u₃, s₄, hu₁, hu₂, hcomp, hu₃, ?_⟩
  rw [Il2CppType.areEqual_iff_sortKey, h₂.key, h₃.key, ← hcs.subst_eq hb,
    ← Il2CppType.subst_subst]
  exact Il2CppType.sortKey_subst_congr _ h₁.key

/-- **Inflating is substitution.**  It composes, keeps flags, leaves types without bound parameters
alone and closes types. -/
theorem inflateIfNeeded_laws (env : InternEnv P addr token) (num : P → ℕ) {s : Tables M H P}
    (hs : s.WellFormed) :
    (∀ (context₁ context₂ : GenericContext H P) (t : TypeRef H P), context₁.WellFormed s →
      context₂.WellFormed s → t.Interned s → context₁.Binds num t →
      (∀ a, context₁.Arg a → context₂.Binds num a) →
      (t.erase.Within (fun _ => True)
        fun p => context₁.methodInst = none → context₂.BindsMvar num p) →
      ∃ u₁ s₁ u₂ s₂ context s₃ u₃ s₄,
        inflateIfNeeded env num context₁ s t = some (some u₁, s₁) ∧
        inflateIfNeeded env num context₂ s₁ u₁ = some (some u₂, s₂) ∧
        composeContext env num context₁ context₂ s₂ = some (context, s₃) ∧
        inflateIfNeeded env num context s₃ t = some (some u₃, s₄) ∧
        u₂.erase.areEqual u₃.erase = true) ∧
    (∀ (context : GenericContext H P) (t : TypeRef H P), context.WellFormed s → t.Interned s →
      context.Binds num t →
      ∃ u s', inflateIfNeeded env num context s t = some (some u, s') ∧
        (∀ path e, t.occurrence path = some e → ∃ e', u.occurrence path = some e' ∧
          e'.flags.byref = e.flags.byref ∧
          ((∀ step ∈ path, step = .element) → e'.flags.attrs = e.flags.attrs)) ∧
        (t.erase.Within (fun _ => True) (fun _ => context.methodInst ≠ none) →
          (∀ a, context.Arg a → containsGenericParameters a = some false) →
          containsGenericParameters u = some false)) ∧
    ∀ (context : GenericContext H P) (t : TypeRef H P), t.Interned s →
      t.erase.Within (fun _ => False) (fun _ => context.methodInst = none) →
      inflateIfNeeded env num context s t = some (some t, s) := by
  refine ⟨fun _ _ _ hc₁ hc₂ ht hb hb₂ hm => inflateIfNeeded_compose hs hc₁ hc₂ ht hb hb₂ hm,
    fun context t hc ht hb => ?_, fun _ t ht hb => inflateIfNeeded_unbound hs t ht hb⟩
  obtain ⟨u, s', hu, h⟩ := inflateIfNeeded_spec s hs hc t ht hb
  refine ⟨u, s', hu, fun path e he => ?_, fun hm hcl => h.closed hb hm hcl⟩
  obtain ⟨e', he', hbyref⟩ := h.byref he
  refine ⟨e', he', hbyref, fun hpath => ?_⟩
  obtain ⟨e'', he'', hflags⟩ := h.flags path e hpath he
  rw [he'] at he''
  rw [Option.some.inj he'', hflags]

theorem Tables.init_wellFormed : (Tables.init : Tables M H P).WellFormed :=
  ⟨init_canonical, nofun⟩

end

/-- `T` with `T := U[]`, then `U := int`. -/
theorem inflateIfNeeded_laws_szarray :
    ∃ u₁ s₁ u₂ s₂ context s₃ u₃ s₄,
      inflateIfNeeded .byHash id ⟨some ⟨0, [.szarray {} (.mvar {} 0)]⟩, none⟩ .init (.var {} 0) =
        some (some u₁, s₁) ∧
      inflateIfNeeded .byHash id ⟨none, some ⟨1, [.simple {} .i4]⟩⟩ s₁ u₁ = some (some u₂, s₂) ∧
      composeContext .byHash id ⟨some ⟨0, [.szarray {} (.mvar {} 0)]⟩, none⟩
        ⟨none, some ⟨1, [.simple {} .i4]⟩⟩ s₂ = some (context, s₃) ∧
      inflateIfNeeded .byHash id context s₃ (.var {} 0) = some (some u₃, s₄) ∧
      u₂.erase.areEqual u₃.erase = true := by
  refine (inflateIfNeeded_laws .byHash id Tables.init_wellFormed).1 _ _ _ ⟨?_, ?_⟩ ⟨?_, ?_⟩
    trivial rfl ?_ trivial
  · rintro a (⟨_, ⟨⟩, ha⟩ | ⟨_, ⟨⟩, _⟩)
    obtain rfl := List.mem_singleton.1 ha
    trivial
  · rintro a (⟨_, ⟨⟩, ha⟩ | ⟨_, ⟨⟩, _⟩)
    obtain rfl := List.mem_singleton.1 ha
    trivial
  · rintro a (⟨_, ⟨⟩, _⟩ | ⟨_, ⟨⟩, ha⟩)
    obtain rfl := List.mem_singleton.1 ha
    trivial
  · rintro a (⟨_, ⟨⟩, _⟩ | ⟨_, ⟨⟩, ha⟩)
    obtain rfl := List.mem_singleton.1 ha
    trivial
  · rintro a (⟨_, ⟨⟩, ha⟩ | ⟨_, ⟨⟩, _⟩)
    obtain rfl := List.mem_singleton.1 ha
    exact fun _ => rfl

/-- Tables with the instances `[int]` and `[T]`, the `T` having attributes, and a class of the
latter. -/
def attrsTables : Tables ℕ ℕ ℕ where
  insts := ⟨[⟨1, [.var ⟨5, false⟩ 0]⟩, ⟨0, [.simple {} .i4]⟩], 2⟩
  classes := ⟨[⟨0, ⟨⟨false, 7⟩, ⟨1, [.var ⟨5, false⟩ 0]⟩⟩⟩], 1⟩
  methods := .empty

/-- Inflating does not compose when the arguments of the method parameters stay missing, it does
not keep the attributes of type arguments, and it does not close a type whose method parameters
have no arguments. -/
theorem inflateIfNeeded_limits :
    (¬ ∀ (context₁ context₂ : GenericContext ℕ ℕ) (t u₁ u₂ u₃ : TypeRef ℕ ℕ)
        (ci mi : Option (GenericInst ℕ ℕ)) (s₁ s₂ s₃ s₄ s₅ : Tables ℕ ℕ ℕ),
      inflateIfNeeded .byHash id context₁ .init t = some (some u₁, s₁) →
      inflateIfNeeded .byHash id context₂ s₁ u₁ = some (some u₂, s₂) →
      getInflatedGenericIntance .byHash id context₂ context₁.classInst s₂ = some (ci, s₃) →
      getInflatedGenericIntance .byHash id context₂ context₁.methodInst s₃ = some (mi, s₄) →
      inflateIfNeeded .byHash id ⟨ci, mi⟩ s₄ t = some (some u₃, s₅) →
      u₂.erase.areEqual u₃.erase = true) ∧
    (¬ ∀ (context : GenericContext ℕ ℕ) (t u : TypeRef ℕ ℕ) (s s' : Tables ℕ ℕ ℕ),
      s.WellFormed → context.WellFormed s → t.Interned s →
      inflateIfNeeded .byHash id context s t = some (some u, s') →
      ∀ path e, t.occurrence path = some e →
        ∃ e', u.occurrence path = some e' ∧ e'.flags.attrs = e.flags.attrs) ∧
    ¬ ∀ (context : GenericContext ℕ ℕ) (t u : TypeRef ℕ ℕ) (s' : Tables ℕ ℕ ℕ),
      (∀ a, context.Arg a → containsGenericParameters a = some false) →
      inflateIfNeeded .byHash id context .init t = some (some u, s') →
      containsGenericParameters u = some false := by
  refine ⟨fun h => ?_, fun h => ?_, fun h => ?_⟩
  · have := h ⟨none, none⟩ ⟨none, some ⟨0, [.simple {} .i4]⟩⟩ (.mvar {} 0) _ _ _ _ _ _ _ _ _ _
      rfl rfl rfl rfl rfl
    exact absurd this (by decide)
  · -- `[int]` is interned before `[int]` with attributes is asked for
    have hs₁ : (⟨⟨[⟨0, [.simple {} .i4]⟩], 1⟩, .empty, .empty⟩ : Tables ℕ ℕ ℕ).WellFormed :=
      Tables.init_wellFormed.getGenericInst (by exact rfl) (by simp [TypeRef.Interned])
        (rfl : getGenericInst .byHash [.simple {} .i4] .init = some (⟨0, _⟩, _))
    have hs₂ : (⟨⟨[⟨1, [.var ⟨5, false⟩ 0]⟩, ⟨0, [.simple {} .i4]⟩], 2⟩, .empty, .empty⟩ :
        Tables ℕ ℕ ℕ).WellFormed :=
      hs₁.getGenericInst (by exact rfl) (by simp [TypeRef.Interned])
        (rfl : getGenericInst .byHash [.var ⟨5, false⟩ 0] _ = some (⟨1, _⟩, _))
    have hs₃ : attrsTables.WellFormed :=
      hs₂.getGenericClass List.mem_cons_self
        (rfl : getGenericClass .byHash ⟨false, 7⟩ _ _ = some (⟨0, _⟩, _))
    have harg : ∀ a, (⟨some ⟨9, [.simple {} .i4]⟩, none⟩ : GenericContext ℕ ℕ).Arg a →
        a = .simple {} .i4 := by
      rintro a (⟨_, ⟨⟩, ha⟩ | ⟨_, ⟨⟩, _⟩)
      exact List.mem_singleton.1 ha
    have hu : inflateIfNeeded .byHash id ⟨some ⟨9, [.simple {} .i4]⟩, none⟩ attrsTables
        (.genericinst {} 0 ⟨false, 7⟩ 1 [.var ⟨5, false⟩ 0]) =
      some (some (.genericinst {} 1 ⟨false, 7⟩ 0 [.simple {} .i4]), _) := rfl
    obtain ⟨e', he', hf⟩ := h _ (.genericinst {} 0 ⟨false, 7⟩ 1 [.var ⟨5, false⟩ 0]) _ _ _ hs₃
      ⟨fun a ha => harg a ha ▸ trivial, fun a ha => harg a ha ▸ trivial⟩
      ⟨List.mem_cons_self, List.mem_cons_self, trivial, trivial⟩ hu [.argument 0] _ rfl
    cases he'
    exact absurd hf (by decide)
  · have := h ⟨some ⟨0, [.simple {} .i4]⟩, none⟩ (.mvar {} 0) _ _ ?_ rfl
    · exact absurd this (by decide)
    · rintro a (⟨_, ⟨⟩, ha⟩ | ⟨_, ⟨⟩, _⟩)
      obtain rfl := List.mem_singleton.1 ha
      rfl

end Il2Cpp
