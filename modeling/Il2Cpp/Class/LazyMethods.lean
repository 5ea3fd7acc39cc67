import Il2Cpp.Class.MethodSetup

/-!
# Lazy method tables

The method tables of a generic type definition and of its instances are filled by
`SetupVirtualMethods`, `SetupCCtorMethods` and `SetupMethods`, in any order, and `SetupVTable` calls
them for the methods it needs.  An instance inflates the methods of the definition, whose table may
have been allocated without being complete.

* `State`, `exec` : a definition with any number of instances, and the calls.
* `Ready` : a call on an instance finds no NULL in the part of the definition's table that it reads.
* `Inv` : what is published in a table, in any reachable state.
* `lazy_tables` : the main result.
-/

namespace Il2Cpp

namespace LazyMethods

open MethodSetup (ClassMethods GenericTypeDefinition Il2CppMetadataMethodInfo InflatedMethod
  MethodRef allocated)

/-- What a slot of the definition's vtable refers to. -/
inductive VTableSlot where
  /-- A method of the class, by its index. -/
  | own (index : ℕ)
  /-- A generic method that is made from a method of the class. -/
  | ref (index : ℕ)
  /-- Nothing, or a method of another class. -/
  | other
  deriving DecidableEq

/-- A generic type definition with what `Class::Init` and `Class::SetupVTable` look at. -/
structure LazyDefinition extends GenericTypeDefinition where
  vtable : List VTableSlot
  own_lt : ∀ index, .own index ∈ vtable → index < infos.length
  ref_lt : ∀ index, .ref index ∈ vtable → index < infos.length
  /-- `has_finalize`. -/
  hasFinalize : Bool
  /-- `event_count` is not 0. -/
  hasEvents : Bool

/-- An instance of the definition. -/
structure Instance where
  methods : ClassMethods InflatedMethod := {}
  isVtableInitialized : Bool := false

/-- A definition and its instances, which `I` names. -/
structure State (I : Type) where
  definition : ClassMethods MethodRef := {}
  /-- The number of arrays of methods that were allocated. -/
  blocks : ℕ := 0
  initialized : Bool := false
  isVtableInitialized : Bool := false
  /-- `s_MethodInfoDefinitionTable`, at the methods of the class. -/
  methodInfoDefinitionTable : ℕ → Option MethodRef := fun _ => none
  insts : I → Instance := fun _ => {}

/-- The functions that fill a method table. -/
inductive SetupFunction where
  | methods | virtualMethods | cctorMethods
  deriving DecidableEq

namespace SetupFunction

variable (D : GenericTypeDefinition)

/-- `Class::SetupMethods`, `Class::SetupVirtualMethods` or `Class::SetupCCtorMethods` on the
definition. -/
def onDefinition : SetupFunction → MethodSetup.State → MethodSetup.State
  | methods => MethodSetup.setupMethods D
  | virtualMethods => MethodSetup.setupVirtualMethods D
  | cctorMethods => MethodSetup.setupCCtorMethods D

/-- The same on an instance. -/
def onInstance : SetupFunction → MethodSetup.State → Option MethodSetup.State
  | methods => MethodSetup.setupInstanceMethods D
  | virtualMethods => MethodSetup.setupInstanceVirtualMethods D
  | cctorMethods => MethodSetup.setupInstanceCCtorMethods D

/-- The function has nothing to do. -/
def Done {M : Type} (c : ClassMethods M) : SetupFunction → Prop
  | methods => D.infos.length = 0 ∨ c.isMethodsInitialized
  | virtualMethods => D.infos.length = 0 ∨ c.isMethodsInitialized ∨ c.isVirtualMethodInitialized
  | cctorMethods => D.infos.length = 0 ∨ !D.hasCctor ∨ c.isCctorInitialized

instance {M : Type} (c : ClassMethods M) : (f : SetupFunction) → Decidable (f.Done D c)
  | methods | virtualMethods | cctorMethods => inferInstanceAs (Decidable (_ ∨ _))

end SetupFunction

section

variable {I : Type} [DecidableEq I] (D : LazyDefinition)

/-- A setup function on the definition. -/
def State.onDefinition (s : State I) (f : SetupFunction) : State I :=
  let t := f.onDefinition D.toGenericTypeDefinition
    { definition := s.definition, blocks := s.blocks }
  { s with definition := t.definition, blocks := t.blocks }

/-- `GlobalMetadata::GetMethodInfoFromMethodDefinitionIndex`, and the function of that name for
virtual methods, which calls `SetupVirtualMethods`.  Reading a table that does not exist is a
fault. -/
def getMethodInfoFromMethodDefinitionIndex (f : SetupFunction) (index : ℕ) (s : State I) :
    Option (Option MethodRef × State I) :=
  match s.methodInfoDefinitionTable index with
  | some method => some (some method, s)
  | none => do
    let s := s.onDefinition D f
    let methods ← s.definition.methods
    let method ← methods[index]?
    let table := Function.update s.methodInfoDefinitionTable index method
    some (method, { s with methodInfoDefinitionTable := table })

/-- What `SetupVTable` does for a slot.  Making a generic method from a NULL is a fault. -/
def setupSlot (f : SetupFunction) (s : State I) : VTableSlot → Option (State I)
  | .own index => do
    let (_, s) ← getMethodInfoFromMethodDefinitionIndex D f index s
    some s
  | .ref index => do
    let (method, s) ← getMethodInfoFromMethodDefinitionIndex D .methods index s
    let _ ← method
    some s
  | .other => some s

/-- `Class::SetupVTable` on the definition. -/
def setupVTable (s : State I) : Option (State I) :=
  if s.isVtableInitialized then some s
  else do
    let s ← D.vtable.foldlM (setupSlot D .virtualMethods) s
    some { s with isVtableInitialized := true }

/-- What `InitLocked` does for the vtable. -/
def initVTable (fullSetup : Bool) (s : State I) : Option (State I) :=
  if D.hasFinalize || fullSetup then setupVTable D s else some s

/-- `Class::InitLocked` on the definition; the argument is `g_class_full_setup_mode`. -/
def initLocked (fullSetup : Bool) (s : State I) : Option (State I) :=
  if s.initialized then some s
  else do
    let s ← initVTable D fullSetup (if fullSetup then s.onDefinition D .methods else s)
    let s := if D.hasEvents then s.onDefinition D .methods else s
    some { s with initialized := true }

/-- A setup function on an instance. -/
def setupInstance (f : SetupFunction) (fullSetup : Bool) (i : I) (s : State I) :
    Option (State I) :=
  if f.Done D.toGenericTypeDefinition (s.insts i).methods then some s
  else do
    let s ← initLocked D fullSetup s
    let t ← f.onInstance D.toGenericTypeDefinition
      { definition := s.definition, inst := (s.insts i).methods, blocks := s.blocks }
    some { s with
      definition := t.definition
      blocks := t.blocks
      insts := Function.update s.insts i { s.insts i with methods := t.inst } }

/-- `Class::SetupVTable` on an instance. -/
def setupInstanceVTable (i : I) (s : State I) : Option (State I) :=
  if (s.insts i).isVtableInitialized then some s
  else do
    let s ← setupVTable D s
    let s ← D.vtable.foldlM (setupSlot D .methods) s
    some { s with
      insts := Function.update s.insts i { s.insts i with isVtableInitialized := true } }

/-- A call on one of the classes. -/
inductive Call (I : Type) where
  | setup (f : SetupFunction)
  | setupVTable
  | init (fullSetup : Bool)
  | getMethodInfo (index : ℕ)
  | setupInstance (f : SetupFunction) (fullSetup : Bool) (i : I)
  | setupInstanceVTable (i : I)

/-- A call; `none` where it dereferences NULL. -/
def exec (s : State I) : Call I → Option (State I)
  | .setup f => some (s.onDefinition D f)
  | .setupVTable => setupVTable D s
  | .init fullSetup => initLocked D fullSetup s
  | .getMethodInfo index =>
    if index < D.infos.length then
      (getMethodInfoFromMethodDefinitionIndex D .methods index s).map Prod.snd
    else some s
  | .setupInstance f fullSetup i => setupInstance D f fullSetup i s
  | .setupInstanceVTable i => setupInstanceVTable D i s

/-- Calls in any order. -/
def calls : LTS (State I) (Call I) := .ofFun (exec D)

end

/-! ### What is in a table -/

section

variable {M : Type} (D : GenericTypeDefinition)

/-- `methods[index]` is this method. -/
def Published (c : ClassMethods M) (index : ℕ) (method : M) : Prop :=
  (allocated D c)[index]? = some (some method)

/-- The methods of a table stay where they are. -/
def Keeps (c c' : ClassMethods M) : Prop :=
  ∀ index method, Published D c index method → Published D c' index method

/-- No entry of the table is NULL. -/
def Complete (c : ClassMethods M) : Prop :=
  ∀ index < D.infos.length, ∃ method, Published D c index method

variable {D}

theorem Keeps.refl (c : ClassMethods M) : Keeps D c c := fun _ _ h => h

theorem Keeps.trans {c c' c'' : ClassMethods M} (h : Keeps D c c') (h' : Keeps D c' c'') :
    Keeps D c c'' := fun index method hm => h' index method (h index method hm)

theorem Complete.keeps {c c' : ClassMethods M} (h : Complete D c) (hk : Keeps D c c') :
    Complete D c' := by
  intro index hlt
  obtain ⟨method, hm⟩ := h index hlt
  exact ⟨method, hk index method hm⟩

theorem published_of_methods {c : ClassMethods M} {table : List (Option M)}
    (hc : c.methods = some table) {index : ℕ} {method : M} :
    Published D c index method ↔ table[index]? = some (some method) := by
  rw [Published, allocated, hc, Option.getD_some]

end

/-! ### The setup functions on the definition -/

section

variable {D : GenericTypeDefinition} {s : MethodSetup.State}

open MethodSetup (Invariant Fills fillFrom CreatesEmpty)

theorem keeps_of_fills {block : ℕ} {c c' : ClassMethods MethodRef}
    (h : Fills block (allocated D c) (allocated D c')) : Keeps D c c' := by
  intro index method hm
  have hlt : index < (allocated D c).length := (List.getElem?_eq_some_iff.1 hm).1
  have hlt' : index < (allocated D c').length := h.entries.length_eq ▸ hlt
  rw [Published, List.getElem?_eq_getElem hlt] at hm
  rw [Published, List.getElem?_eq_getElem hlt']
  rcases h.entries.get hlt hlt' with heq | ⟨hnone, -⟩
  · exact (congrArg some heq).trans hm
  · exact absurd ((congrArg some hnone).symm.trans hm) nofun

theorem onDefinition_keeps (f : SetupFunction) (h : Invariant D s) :
    Keeps D s.definition (f.onDefinition D s).definition := by
  cases f with
  | methods =>
    rw [SetupFunction.onDefinition, MethodSetup.setupMethods]
    dsimp only
    split_ifs
    · exact .refl _
    · exact fun index method hm => hm
    · refine keeps_of_fills (MethodSetup.fills_fillFrom h.table fun _ _ hc => ?_)
      simpa using hc
  | virtualMethods =>
    rw [SetupFunction.onDefinition, MethodSetup.setupVirtualMethods]
    split_ifs with hflags
    · exact .refl _
    · simp only [not_or, Bool.not_eq_true] at hflags
      exact keeps_of_fills (MethodSetup.fills_fillFrom h.table
        (h.virtual_empty hflags.2.1 hflags.2.2))
  | cctorMethods =>
    rw [SetupFunction.onDefinition, MethodSetup.setupCCtorMethods]
    split_ifs with hflags
    · exact .refl _
    · simp only [not_or, Bool.not_eq_true, Bool.not_eq_false'] at hflags
      cases hl : MethodSetup.lastCCtor D.infos with
      | none => exact fun index method hm => hm
      | some index =>
        have hempty := h.cctor_empty hflags.2.1 hflags.2.2 hl
        exact keeps_of_fills (MethodSetup.fills_set h.table hempty)

end

/-! ### The definition -/

section

variable {D : GenericTypeDefinition}

open MethodSetup (Invariant fillFrom)

/-- What holds of the definition after any calls. -/
structure DefinitionOk (D : GenericTypeDefinition) (t : MethodSetup.State) : Prop where
  invariant : Invariant D t
  exists_methods : t.definition.isMethodsInitialized = true ∨
    t.definition.isVirtualMethodInitialized = true → t.definition.methods ≠ none
  complete : t.definition.isMethodsInitialized = true → Complete D t.definition

theorem definitionOk_init : DefinitionOk D {} :=
  ⟨MethodSetup.invariant_init D, by simp, nofun⟩

theorem fillFrom_isNone {block offset index : ℕ} {infos : List Il2CppMetadataMethodInfo}
    {methods : List (Option MethodRef)} (hl : methods.length = infos.length) {k : ℕ}
    (hk : k < infos.length) :
    ∃ p, (fillFrom (fun _ method => method.isNone) block offset index infos methods)[k]? =
      some (some p) := by
  induction infos generalizing methods offset index k with
  | nil => cases hk
  | cons info infos ih =>
    cases methods with
    | nil => cases hl
    | cons method methods =>
      have htail (offset : ℕ) {k : ℕ} (hk : k < infos.length) :
          ∃ p, (fillFrom (fun _ method => method.isNone) block offset (index + 1) infos
            methods)[k]? = some (some p) := ih (Nat.succ.inj hl) hk
      cases method with
      | none =>
        cases k with
        | zero => exact ⟨_, rfl⟩
        | succ k => exact htail (offset + 1) (Nat.lt_of_succ_lt_succ hk)
      | some p =>
        cases k with
        | zero => exact ⟨p, rfl⟩
        | succ k => exact htail offset (Nat.lt_of_succ_lt_succ hk)

theorem complete_setupMethods {t : MethodSetup.State} (h : DefinitionOk D t) :
    Complete D (MethodSetup.setupMethods D t).definition := by
  have hlength := h.invariant.table.length
  intro k hk
  rw [MethodSetup.setupMethods]
  dsimp only
  split_ifs with hdone hfilled
  · rcases hdone with hzero | hflag
    · omega
    · exact h.complete hflag k hk
  · -- every entry is counted
    have hall := List.countP_eq_length.1 (hfilled.symm.trans hlength.symm)
    have hlt : k < (allocated D t.definition).length := by omega
    obtain ⟨method, hm⟩ := Option.isSome_iff_exists.1 (hall _ (List.getElem_mem hlt))
    refine ⟨method, ?_⟩
    show (allocated D t.definition)[k]? = _
    rw [List.getElem?_eq_getElem hlt, hm]
  · exact fillFrom_isNone hlength hk

theorem Invariant.onDefinition {t : MethodSetup.State} (h : Invariant D t) (f : SetupFunction) :
    Invariant D (f.onDefinition D t) := by
  cases f with
  | methods => exact h.setupMethods
  | virtualMethods => exact h.setupVirtualMethods
  | cctorMethods => exact h.setupCCtorMethods

theorem exists_methods_onDefinition {t : MethodSetup.State} (h : DefinitionOk D t)
    (f : SetupFunction) :
    (f.onDefinition D t).definition.isMethodsInitialized = true ∨
      (f.onDefinition D t).definition.isVirtualMethodInitialized = true →
    (f.onDefinition D t).definition.methods ≠ none := by
  cases f with
  | methods =>
    rw [SetupFunction.onDefinition, MethodSetup.setupMethods]
    dsimp only
    split_ifs
    · exact h.exists_methods
    · rintro _ ⟨⟩
    · rintro _ ⟨⟩
  | virtualMethods =>
    rw [SetupFunction.onDefinition, MethodSetup.setupVirtualMethods]
    split_ifs
    · exact h.exists_methods
    · rintro _ ⟨⟩
  | cctorMethods =>
    rw [SetupFunction.onDefinition, MethodSetup.setupCCtorMethods]
    split_ifs
    · exact h.exists_methods
    · rintro _ ⟨⟩

theorem isMethodsInitialized_onDefinition {t : MethodSetup.State} {f : SetupFunction}
    (hf : f ≠ .methods) : (f.onDefinition D t).definition.isMethodsInitialized =
      t.definition.isMethodsInitialized := by
  cases f with
  | methods => exact absurd rfl hf
  | virtualMethods =>
    rw [SetupFunction.onDefinition, MethodSetup.setupVirtualMethods]
    split_ifs <;> rfl
  | cctorMethods =>
    rw [SetupFunction.onDefinition, MethodSetup.setupCCtorMethods]
    split_ifs <;> rfl

theorem DefinitionOk.onDefinition {t : MethodSetup.State} (h : DefinitionOk D t)
    (f : SetupFunction) : DefinitionOk D (f.onDefinition D t) := by
  refine ⟨Invariant.onDefinition h.invariant f, exists_methods_onDefinition h f, fun hflag => ?_⟩
  by_cases hf : f = .methods
  · subst hf
    exact complete_setupMethods h
  · rw [isMethodsInitialized_onDefinition hf] at hflag
    exact (h.complete hflag).keeps (onDefinition_keeps f h.invariant)

theorem methods_onDefinition {t : MethodSetup.State} (h : DefinitionOk D t) {f : SetupFunction}
    (hf : f ≠ .cctorMethods) (hn : D.infos.length ≠ 0) :
    ∃ table, (f.onDefinition D t).definition.methods = some table ∧
      table.length = D.infos.length := by
  have hok := h.onDefinition f
  have hne : (f.onDefinition D t).definition.methods ≠ none := by
    refine hok.exists_methods ?_
    cases f with
    | methods =>
      left
      rw [SetupFunction.onDefinition, MethodSetup.setupMethods]
      dsimp only
      split_ifs with hdone
      · exact hdone.resolve_left hn
      · rfl
      · rfl
    | virtualMethods =>
      rw [SetupFunction.onDefinition, MethodSetup.setupVirtualMethods]
      split_ifs with hdone
      · exact hdone.resolve_left hn
      · exact .inr rfl
    | cctorMethods => exact absurd rfl hf
  obtain ⟨table, htable⟩ := Option.ne_none_iff_exists'.1 hne
  refine ⟨table, htable, ?_⟩
  have hlength := hok.invariant.table.length
  rwa [allocated, htable, Option.getD_some] at hlength

end

/-! ### The loops over the definition -/

section

variable {D : GenericTypeDefinition}

/-- The loop for the static constructor stops at this method. -/
def StopsAt (D : GenericTypeDefinition) (definitions : List (Option MethodRef))
    (methods : List (Option InflatedMethod)) (index : ℕ) : Prop :=
  methods[index]? = some none ∧ ∃ method, definitions[index]? = some (some method) ∧
    (D.infos[method.token]?).any (·.isCCtor) = true

/-- The loop reads a NULL: at an entry that the instance has not, and which the loop for the static
constructor gets to. -/
def ReadsNull (D : GenericTypeDefinition) (f : SetupFunction)
    (definitions : List (Option MethodRef)) (methods : List (Option InflatedMethod)) : Prop :=
  ∃ index, methods[index]? = some none ∧ definitions[index]? = some none ∧
    (f = .cctorMethods → ∀ earlier < index, ¬ StopsAt D definitions methods earlier)

/-- The loop of a setup function. -/
def SetupFunction.inflate (D : GenericTypeDefinition) : SetupFunction →
    List (Option MethodRef) → List (Option InflatedMethod) → Option (List (Option InflatedMethod))
  | methods | virtualMethods => MethodSetup.inflateMissing
  | cctorMethods => MethodSetup.inflateCCtor D

theorem inflateMissing_eq_none {definitions : List (Option MethodRef)}
    {methods : List (Option InflatedMethod)} :
    MethodSetup.inflateMissing definitions methods = none ↔
      ∃ index : ℕ, methods[index]? = some none ∧ definitions[index]? = some none := by
  induction definitions generalizing methods with
  | nil => cases methods <;> simp [MethodSetup.inflateMissing]
  | cons definition definitions ih =>
    cases methods with
    | nil => simp [MethodSetup.inflateMissing]
    | cons method methods =>
      rw [← Nat.or_exists_add_one]
      simp only [List.getElem?_cons_zero, List.getElem?_cons_succ, ← ih]
      cases method with
      | some method => simp [MethodSetup.inflateMissing]
      | none => cases definition <;> simp [MethodSetup.inflateMissing]

theorem inflateCCtor_eq_none {definitions : List (Option MethodRef)}
    {methods : List (Option InflatedMethod)} :
    MethodSetup.inflateCCtor D definitions methods = none ↔
      ∃ index : ℕ, methods[index]? = some none ∧ definitions[index]? = some none ∧
        ∀ earlier < index, ¬ StopsAt D definitions methods earlier := by
  induction definitions generalizing methods with
  | nil => cases methods <;> simp [MethodSetup.inflateCCtor]
  | cons definition definitions ih =>
    cases methods with
    | nil => simp [MethodSetup.inflateCCtor]
    | cons method methods =>
      have hsucc (k : ℕ) : StopsAt D (definition :: definitions) (method :: methods) (k + 1) ↔
          StopsAt D definitions methods k := Iff.rfl
      have hforall (k : ℕ) :
          (∀ earlier < k + 1, ¬ StopsAt D (definition :: definitions) (method :: methods) earlier) ↔
          ¬ StopsAt D (definition :: definitions) (method :: methods) 0 ∧
            ∀ earlier < k, ¬ StopsAt D definitions methods earlier := by
        rw [Nat.forall_lt_succ_left]
        exact Iff.rfl
      rw [← Nat.or_exists_add_one]
      simp only [List.getElem?_cons_zero, List.getElem?_cons_succ, hforall]
      cases method with
      | some method =>
        have hzero : ¬ StopsAt D (definition :: definitions) (some method :: methods) 0 := by
          simp [StopsAt]
        simp [MethodSetup.inflateCCtor, hzero, ← ih]
      | none =>
        cases definition with
        | none => simp [MethodSetup.inflateCCtor]
        | some d =>
          have hzero : StopsAt D (some d :: definitions) (none :: methods) 0 ↔
              (D.infos[d.token]?).any (·.isCCtor) = true := by
            simp [StopsAt]
          by_cases hstop : (D.infos[d.token]?).any (·.isCCtor) = true
          · simp [MethodSetup.inflateCCtor, hzero, hstop]
          · simp [MethodSetup.inflateCCtor, hzero, hstop, ← ih]

theorem inflate_eq_none {f : SetupFunction} {definitions : List (Option MethodRef)}
    {methods : List (Option InflatedMethod)} :
    f.inflate D definitions methods = none ↔ ReadsNull D f definitions methods := by
  cases f with
  | methods | virtualMethods =>
    simpa [SetupFunction.inflate, ReadsNull] using inflateMissing_eq_none
  | cctorMethods => simpa [SetupFunction.inflate, ReadsNull] using inflateCCtor_eq_none

/-- The entries of the instance stay where they are. -/
def Stay (methods methods' : List (Option InflatedMethod)) : Prop :=
  List.Forall₂ (fun method method' : Option InflatedMethod => method = none ∨ method' = method)
    methods methods'

theorem inflateMissing_stay {definitions : List (Option MethodRef)}
    {methods methods' : List (Option InflatedMethod)} (hl : definitions.length = methods.length)
    (h : MethodSetup.inflateMissing definitions methods = some methods') :
    Stay methods methods' ∧ ∀ method ∈ methods', method.isSome = true := by
  induction definitions generalizing methods methods' with
  | nil =>
    obtain rfl := List.length_eq_zero_iff.1 hl.symm
    obtain rfl : [] = methods' := Option.some.inj h
    exact ⟨.nil, by simp⟩
  | cons definition definitions ih =>
    cases methods with
    | nil => cases hl
    | cons method methods =>
      cases method with
      | some method =>
        obtain ⟨rest, hrest, rfl⟩ := Option.map_eq_some_iff.1 h
        obtain ⟨hstay, hsome⟩ := ih (Nat.succ.inj hl) hrest
        exact ⟨.cons (.inr rfl) hstay, List.forall_mem_cons.2 ⟨rfl, hsome⟩⟩
      | none =>
        simp only [MethodSetup.inflateMissing, Option.bind_eq_bind, Option.bind_eq_some_iff] at h
        obtain ⟨d, -, h⟩ := h
        obtain ⟨rest, hrest, rfl⟩ := Option.map_eq_some_iff.1 h
        obtain ⟨hstay, hsome⟩ := ih (Nat.succ.inj hl) hrest
        exact ⟨.cons (.inl rfl) hstay, List.forall_mem_cons.2 ⟨rfl, hsome⟩⟩

theorem Stay.refl (methods : List (Option InflatedMethod)) : Stay methods methods :=
  List.forall₂_same.2 fun _ _ => .inr rfl

theorem inflateCCtor_stay {definitions : List (Option MethodRef)}
    {methods methods' : List (Option InflatedMethod)} (hl : definitions.length = methods.length)
    (h : MethodSetup.inflateCCtor D definitions methods = some methods') :
    Stay methods methods' := by
  induction definitions generalizing methods methods' with
  | nil =>
    obtain rfl := List.length_eq_zero_iff.1 hl.symm
    obtain rfl : [] = methods' := Option.some.inj h
    exact .nil
  | cons definition definitions ih =>
    cases methods with
    | nil => cases hl
    | cons method methods =>
      cases method with
      | some method =>
        obtain ⟨rest, hrest, rfl⟩ := Option.map_eq_some_iff.1 h
        exact .cons (.inr rfl) (ih (Nat.succ.inj hl) hrest)
      | none =>
        simp only [MethodSetup.inflateCCtor, Option.bind_eq_bind, Option.bind_eq_some_iff] at h
        obtain ⟨d, -, h⟩ := h
        split_ifs at h
        · -- the loop ends at the static constructor
          obtain rfl := Option.some.inj h
          exact .cons (.inl rfl) (Stay.refl methods)
        · obtain ⟨rest, hrest, rfl⟩ := Option.map_eq_some_iff.1 h
          exact .cons (.inr rfl) (ih (Nat.succ.inj hl) hrest)

theorem inflate_stay {f : SetupFunction} {definitions : List (Option MethodRef)}
    {methods methods' : List (Option InflatedMethod)} (hl : definitions.length = methods.length)
    (h : f.inflate D definitions methods = some methods') : Stay methods methods' := by
  cases f with
  | methods | virtualMethods => exact (inflateMissing_stay hl h).1
  | cctorMethods => exact inflateCCtor_stay hl h

theorem inflate_inPlace (f : SetupFunction) : MethodSetup.InflatesInPlace (f.inflate D) := by
  cases f with
  | methods | virtualMethods => exact MethodSetup.inflateMissing_inPlace
  | cctorMethods => exact MethodSetup.inflateCCtor_inPlace

theorem Stay.getElem? {methods methods' : List (Option InflatedMethod)} (h : Stay methods methods')
    {index : ℕ} {method : InflatedMethod} (hm : methods[index]? = some (some method)) :
    methods'[index]? = some (some method) := by
  have hlt : index < methods.length := (List.getElem?_eq_some_iff.1 hm).1
  have hlt' : index < methods'.length := h.length_eq ▸ hlt
  rw [List.getElem?_eq_getElem hlt] at hm
  rw [List.getElem?_eq_getElem hlt']
  rcases h.get hlt hlt' with hnone | heq
  · exact absurd (hm.symm.trans (congrArg some hnone)) nofun
  · exact (congrArg some heq).trans hm

end

/-! ### An instance -/

section

variable {D : GenericTypeDefinition}

/-- What holds of an instance after any calls: each of its methods is inflated from the method of
the definition at the same index. -/
structure InstanceOk (D : GenericTypeDefinition) (definition : ClassMethods MethodRef)
    (c : ClassMethods InflatedMethod) : Prop where
  length : (allocated D c).length = D.infos.length
  complete : c.isMethodsInitialized = true ∨ c.isVirtualMethodInitialized = true → Complete D c
  inflated : ∀ index method, Published D c index method →
    Published D definition index method.methodDefinition

theorem InstanceOk.keeps {definition definition' : ClassMethods MethodRef}
    {c : ClassMethods InflatedMethod} (h : InstanceOk D definition c)
    (hk : Keeps D definition definition') : InstanceOk D definition' c :=
  ⟨h.length, h.complete, fun index method hm => hk _ _ (h.inflated index method hm)⟩

theorem instanceOk_init (definition : ClassMethods MethodRef) :
    InstanceOk D definition {} := by
  refine ⟨List.length_replicate, by simp, fun index method hm => ?_⟩
  simp [Published, allocated, List.getElem?_replicate] at hm

/-- The flags that a setup function sets on an instance. -/
def SetupFunction.flags (D : GenericTypeDefinition) (c : ClassMethods InflatedMethod) :
    SetupFunction → ClassMethods InflatedMethod
  | methods =>
    { c with
      isMethodsInitialized := true
      isCctorInitialized := c.isCctorInitialized || D.hasCctor }
  | virtualMethods => { c with isVirtualMethodInitialized := true }
  | cctorMethods => { c with isCctorInitialized := true }

theorem onInstance_of_not_done {f : SetupFunction} {t : MethodSetup.State}
    (h : ¬ f.Done D t.inst) :
    f.onInstance D t =
      MethodSetup.genericSetup D (f.inflate D) { t with inst := f.flags D t.inst } := by
  cases f <;> exact if_neg h

theorem length_ne_zero_of_not_done {M : Type} {f : SetupFunction} {c : ClassMethods M}
    (h : ¬ f.Done D c) : D.infos.length ≠ 0 := by
  rintro hzero
  cases f <;> exact h (.inl hzero)

/-- The definition that the loop goes over: `SetupMethods` makes it if there is none. -/
def definitionFor (D : GenericTypeDefinition) (t : MethodSetup.State) : MethodSetup.State :=
  if t.definition.methods.isNone then MethodSetup.setupMethods D t else t

theorem setupMethods_inst (t : MethodSetup.State) :
    (MethodSetup.setupMethods D t).inst = t.inst := by
  rw [MethodSetup.setupMethods]
  dsimp only
  split_ifs <;> rfl

theorem definitionFor_inst (t : MethodSetup.State) : (definitionFor D t).inst = t.inst := by
  unfold definitionFor
  split_ifs
  · exact setupMethods_inst t
  · rfl

theorem DefinitionOk.definitionFor {t : MethodSetup.State} (h : DefinitionOk D t) :
    DefinitionOk D (definitionFor D t) := by
  unfold LazyMethods.definitionFor
  split_ifs
  · exact h.onDefinition .methods
  · exact h

theorem definitionFor_keeps {t : MethodSetup.State} (h : DefinitionOk D t) :
    Keeps D t.definition (definitionFor D t).definition := by
  unfold definitionFor
  split_ifs
  · exact onDefinition_keeps .methods h.invariant
  · exact .refl _

theorem exists_definitionFor {t : MethodSetup.State} (h : DefinitionOk D t)
    (hn : D.infos.length ≠ 0) :
    ∃ table, (definitionFor D t).definition.methods = some table ∧
      table.length = D.infos.length := by
  unfold definitionFor
  split_ifs with hnone
  · exact methods_onDefinition h (f := .methods) (by simp) hn
  · obtain ⟨table, htable⟩ :=
      Option.ne_none_iff_exists'.1 (mt Option.isNone_iff_eq_none.2 hnone)
    refine ⟨table, htable, ?_⟩
    have hlength := h.invariant.table.length
    rwa [allocated, htable, Option.getD_some] at hlength

theorem genericSetup_eq {t : MethodSetup.State} {table : List (Option MethodRef)}
    (htable : (definitionFor D t).definition.methods = some table) (f : SetupFunction) :
    MethodSetup.genericSetup D (f.inflate D) t =
      (f.inflate D table (allocated D t.inst)).map fun methods =>
        { definitionFor D t with inst := { t.inst with methods := some methods } } := by
  have hinst := definitionFor_inst (D := D) t
  unfold MethodSetup.genericSetup
  unfold definitionFor at htable hinst ⊢
  simp only [htable, hinst, Option.bind_eq_bind, Option.bind_some]
  cases f.inflate D table (allocated D t.inst) <;> rfl

/-! ### A setup function on an instance -/

variable {t t' : MethodSetup.State}

theorem DefinitionOk.withInst {definition : ClassMethods MethodRef} {blocks : ℕ}
    (h : DefinitionOk D { definition := definition, blocks := blocks })
    {c : ClassMethods InflatedMethod} (hc : InstanceOk D definition c) :
    DefinitionOk D { definition := definition, inst := c, blocks := blocks } :=
  ⟨⟨h.invariant.table, h.invariant.cctor, h.invariant.virtual, fun {index method} hm =>
    h.invariant.table.token (hc.inflated index method hm)⟩, h.exists_methods, h.complete⟩

theorem DefinitionOk.forget (h : DefinitionOk D t) :
    DefinitionOk D { definition := t.definition, blocks := t.blocks } :=
  ⟨⟨h.invariant.table, h.invariant.cctor, h.invariant.virtual, (MethodSetup.invariant_init D).inst⟩,
    h.exists_methods, h.complete⟩

theorem flags_methods (f : SetupFunction) (c : ClassMethods InflatedMethod) :
    (f.flags D c).methods = c.methods := by
  cases f <;> rfl

theorem allocated_flags (f : SetupFunction) (c : ClassMethods InflatedMethod) :
    allocated D (f.flags D c) = allocated D c := by
  rw [allocated, flags_methods, ← allocated]

theorem DefinitionOk.withFlags (h : DefinitionOk D t) (f : SetupFunction) :
    DefinitionOk D { t with inst := f.flags D t.inst } :=
  ⟨h.invariant.withFlags (flags_methods f t.inst), h.exists_methods, h.complete⟩

theorem Complete.not_readsNull {c : ClassMethods MethodRef} (h : Complete D c)
    {table : List (Option MethodRef)} (htable : c.methods = some table)
    (hlength : table.length = D.infos.length) (f : SetupFunction)
    (methods : List (Option InflatedMethod)) : ¬ ReadsNull D f table methods := by
  rintro ⟨index, -, hnull, -⟩
  have hlt : index < table.length := (List.getElem?_eq_some_iff.1 hnull).1
  obtain ⟨method, hm⟩ := h index (hlength ▸ hlt)
  rw [published_of_methods htable, hnull] at hm
  cases hm

/-- **A NULL of the definition** is dereferenced when the table exists and the loop reads it. -/
theorem onInstance_eq_none_iff (hd : DefinitionOk D t) {f : SetupFunction}
    (hdone : ¬ f.Done D t.inst) :
    f.onInstance D t = none ↔
      ∃ table, t.definition.methods = some table ∧ ReadsNull D f table (allocated D t.inst) := by
  have hn := length_ne_zero_of_not_done hdone
  have hd := hd.withFlags f
  obtain ⟨table, htable, hlength⟩ := exists_definitionFor hd hn
  rw [onInstance_of_not_done hdone, genericSetup_eq htable, Option.map_eq_none_iff,
    inflate_eq_none, allocated_flags]
  cases hmethods : t.definition.methods with
  | none =>
    -- `SetupMethods` makes the whole table
    have hcomplete :
        Complete D (definitionFor D { t with inst := f.flags D t.inst }).definition := by
      rw [definitionFor, if_pos (by simp [hmethods])]
      exact complete_setupMethods hd
    simpa using hcomplete.not_readsNull htable hlength f _
  | some table' =>
    -- the loop goes over the table as it is, be it complete or not
    have heq : definitionFor D { t with inst := f.flags D t.inst } =
        { t with inst := f.flags D t.inst } := if_neg (by simp [hmethods])
    rw [heq, hmethods] at htable
    obtain rfl := Option.some.inj htable
    simp

theorem complete_of_inflate {f : SetupFunction} (hf : f ≠ .cctorMethods)
    {c c' : ClassMethods InflatedMethod} (hc : (allocated D c).length = D.infos.length)
    {table : List (Option MethodRef)} (hlengths : table.length = (allocated D c).length)
    {methods : List (Option InflatedMethod)}
    (h : f.inflate D table (allocated D c) = some methods) :
    Complete D { c' with methods := some methods } := by
  have hmissing : MethodSetup.inflateMissing table (allocated D c) = some methods := by
    cases f with
    | methods | virtualMethods => exact h
    | cctorMethods => exact absurd rfl hf
  obtain ⟨hstay, hsome⟩ := inflateMissing_stay hlengths hmissing
  intro index hlt
  have hlt' : index < methods.length := by
    rw [← hstay.length_eq, hc]
    exact hlt
  obtain ⟨method, hm⟩ := Option.isSome_iff_exists.1 (hsome _ (List.getElem_mem hlt'))
  refine ⟨method, ?_⟩
  show methods[index]? = _
  rw [List.getElem?_eq_getElem hlt', hm]

theorem onInstance_spec (hd : DefinitionOk D t) (hc : InstanceOk D t.definition t.inst)
    {f : SetupFunction} (hdone : ¬ f.Done D t.inst) (h : f.onInstance D t = some t') :
    DefinitionOk D { definition := t'.definition, blocks := t'.blocks } ∧
      Keeps D t.definition t'.definition ∧ InstanceOk D t'.definition t'.inst ∧
      Keeps D t.inst t'.inst ∧ (f = .methods → t'.inst.isMethodsInitialized = true) := by
  have hn := length_ne_zero_of_not_done hdone
  have hd := hd.withFlags f
  obtain ⟨table, htable, hlength⟩ := exists_definitionFor hd hn
  rw [onInstance_of_not_done hdone, genericSetup_eq htable, allocated_flags] at h
  obtain ⟨methods, hinflate, rfl⟩ := Option.map_eq_some_iff.1 h
  have hlengths : table.length = (allocated D t.inst).length := hlength.trans hc.length.symm
  have hstay := inflate_stay hlengths hinflate
  have hkeeps : Keeps D t.definition
      (definitionFor D { t with inst := f.flags D t.inst }).definition := definitionFor_keeps hd
  have hinst : Keeps D t.inst { f.flags D t.inst with methods := some methods } :=
    fun index method hm => hstay.getElem? hm
  refine ⟨hd.definitionFor.forget, hkeeps, ⟨?_, ?_, ?_⟩, hinst, ?_⟩
  · exact hstay.length_eq.symm.trans hc.length
  · -- `cctorMethods` fills one entry only, but sets neither of the two flags
    intro hflag
    by_cases hf : f = .cctorMethods
    · subst hf
      exact (hc.complete hflag).keeps hinst
    · exact complete_of_inflate hf hc.length hlengths hinflate
  · intro index method hm
    rcases inflate_inPlace f _ _ _ hinflate index method hm with hold | hnew
    · exact hkeeps _ _ (hc.inflated index method hold)
    · exact (published_of_methods htable).2 hnew
  · rintro rfl
    rfl

end

/-! ### The invariant -/

section

variable {I : Type} {D : LazyDefinition} {s s' s'' : State I}

/-- What is published in the tables. -/
structure Inv (D : LazyDefinition) (s : State I) : Prop where
  definition : DefinitionOk D.toGenericTypeDefinition
    { definition := s.definition, blocks := s.blocks }
  table : ∀ index method, s.methodInfoDefinitionTable index = some method →
    Published D.toGenericTypeDefinition s.definition index method
  insts : ∀ i, InstanceOk D.toGenericTypeDefinition s.definition (s.insts i).methods

theorem inv_init : Inv D ({} : State I) :=
  ⟨definitionOk_init, nofun, fun _ => instanceOk_init _⟩

/-- The definition is set up further, and the instances stay. -/
structure Advances (D : LazyDefinition) (s s' : State I) : Prop where
  inv : Inv D s'
  keeps : Keeps D.toGenericTypeDefinition s.definition s'.definition
  insts : s'.insts = s.insts

theorem Advances.refl (hs : Inv D s) : Advances D s s := ⟨hs, .refl _, rfl⟩

theorem Advances.trans (h : Advances D s s') (h' : Advances D s' s'') : Advances D s s'' :=
  ⟨h'.inv, h.keeps.trans h'.keeps, h'.insts.trans h.insts⟩

theorem Inv.onDefinition (hs : Inv D s) (f : SetupFunction) :
    Advances D s (s.onDefinition D f) := by
  have hk : Keeps D.toGenericTypeDefinition s.definition (s.onDefinition D f).definition :=
    onDefinition_keeps f hs.definition.invariant
  refine ⟨⟨(hs.definition.onDefinition f).forget, ?_, ?_⟩, hk, rfl⟩
  · intro index method hm
    exact hk _ _ (hs.table index method hm)
  · exact fun i => (hs.insts i).keeps hk

theorem Advances.congr (h : Advances D s s') (hdefinition : s''.definition = s'.definition)
    (hblocks : s''.blocks = s'.blocks) (hinsts : s''.insts = s'.insts)
    (htable : ∀ index method, s''.methodInfoDefinitionTable index = some method →
      Published D.toGenericTypeDefinition s'.definition index method) : Advances D s s'' := by
  refine ⟨⟨?_, ?_, ?_⟩, ?_, hinsts.trans h.insts⟩
  · rw [hdefinition, hblocks]
    exact h.inv.definition
  · rwa [hdefinition]
  · rw [hdefinition, hinsts]
    exact h.inv.insts
  · rw [hdefinition]
    exact h.keeps

/-- **The table of the definitions** gives a method for an index, which is not NULL where
`SetupMethods` was called. -/
theorem getMethodInfo_advances (hs : Inv D s) {f : SetupFunction} (hf : f ≠ .cctorMethods)
    {index : ℕ} (hlt : index < D.infos.length) :
    ∃ method s', getMethodInfoFromMethodDefinitionIndex D f index s = some (method, s') ∧
      Advances D s s' ∧ (f = .methods → method ≠ none) := by
  unfold getMethodInfoFromMethodDefinitionIndex
  cases hcached : s.methodInfoDefinitionTable index with
  | some method => exact ⟨some method, s, rfl, .refl hs, fun _ => nofun⟩
  | none =>
    have hadvances := hs.onDefinition f
    obtain ⟨methods, hmethods, hlength⟩ :=
      methods_onDefinition hs.definition hf (Nat.ne_of_gt (Nat.zero_lt_of_lt hlt))
    have hmethods : (s.onDefinition D f).definition.methods = some methods := hmethods
    have hentry : methods[index]? = some methods[index] := List.getElem?_eq_getElem _
    simp only [hmethods, hentry, Option.bind_eq_bind, Option.bind_some]
    refine ⟨_, _, rfl, hadvances.congr rfl rfl rfl ?_, ?_⟩
    · intro k method hk
      dsimp only at hk
      by_cases hindex : k = index
      · subst hindex
        rw [Function.update_self] at hk
        rw [published_of_methods hmethods, hentry, hk]
      · rw [Function.update_of_ne hindex] at hk
        exact hadvances.inv.table k method hk
    · -- only `virtualMethods` may leave the entry empty
      rintro rfl hnull
      have hcomplete : Complete D.toGenericTypeDefinition (s.onDefinition D .methods).definition :=
        complete_setupMethods hs.definition
      obtain ⟨method, hm⟩ := hcomplete index hlt
      rw [published_of_methods hmethods, hentry, hnull] at hm
      cases hm

theorem setupSlot_advances (hs : Inv D s) {f : SetupFunction} (hf : f ≠ .cctorMethods)
    {slot : VTableSlot} (hslot : slot ∈ D.vtable) :
    ∃ s', setupSlot D f s slot = some s' ∧ Advances D s s' := by
  cases slot with
  | own index =>
    obtain ⟨method, s', h, hadvances, -⟩ := getMethodInfo_advances hs hf (D.own_lt index hslot)
    exact ⟨s', by simp [setupSlot, h], hadvances⟩
  | ref index =>
    obtain ⟨method, s', h, hadvances, hne⟩ :=
      getMethodInfo_advances hs (f := .methods) (by simp) (D.ref_lt index hslot)
    obtain ⟨method, rfl⟩ := Option.ne_none_iff_exists'.1 (hne rfl)
    exact ⟨s', by simp [setupSlot, h], hadvances⟩
  | other => exact ⟨s, rfl, .refl hs⟩

theorem setupSlots_advances (hs : Inv D s) {f : SetupFunction} (hf : f ≠ .cctorMethods)
    {slots : List VTableSlot} (hslots : ∀ slot ∈ slots, slot ∈ D.vtable) :
    ∃ s', slots.foldlM (setupSlot D f) s = some s' ∧ Advances D s s' := by
  induction slots generalizing s with
  | nil => exact ⟨s, rfl, .refl hs⟩
  | cons slot slots ih =>
    obtain ⟨hslot, hslots⟩ := List.forall_mem_cons.1 hslots
    obtain ⟨s₁, h₁, hadvances₁⟩ := setupSlot_advances hs hf hslot
    obtain ⟨s₂, h₂, hadvances₂⟩ := ih hadvances₁.inv hslots
    refine ⟨s₂, ?_, hadvances₁.trans hadvances₂⟩
    rw [List.foldlM_cons, h₁]
    exact h₂

theorem setupVTable_advances (hs : Inv D s) :
    ∃ s', setupVTable D s = some s' ∧ Advances D s s' := by
  unfold setupVTable
  split_ifs
  · exact ⟨s, rfl, .refl hs⟩
  · obtain ⟨s', h, hadvances⟩ := setupSlots_advances hs (f := .virtualMethods) (by simp)
      fun _ => id
    rw [h]
    exact ⟨_, rfl, hadvances.congr rfl rfl rfl hadvances.inv.table⟩

theorem initVTable_advances (hs : Inv D s) (fullSetup : Bool) :
    ∃ s', initVTable D fullSetup s = some s' ∧ Advances D s s' := by
  unfold initVTable
  split_ifs
  · exact setupVTable_advances hs
  · exact ⟨s, rfl, .refl hs⟩

theorem Inv.onDefinitionIf (hs : Inv D s) (condition : Bool) :
    Advances D s (if condition = true then s.onDefinition D .methods else s) := by
  split_ifs
  · exact hs.onDefinition .methods
  · exact .refl hs

theorem initLocked_advances (hs : Inv D s) (fullSetup : Bool) :
    ∃ s', initLocked D fullSetup s = some s' ∧ Advances D s s' := by
  by_cases hinit : s.initialized = true
  · exact ⟨s, if_pos hinit, .refl hs⟩
  · have h₁ := hs.onDefinitionIf fullSetup
    obtain ⟨s₂, hvtable, h₂⟩ := initVTable_advances h₁.inv fullSetup
    have h₃ := h₂.inv.onDefinitionIf D.hasEvents
    have h := (h₁.trans h₂).trans h₃
    let s₃ : State I := if D.hasEvents then s₂.onDefinition D .methods else s₂
    refine ⟨{ s₃ with initialized := true }, ?_, h.congr rfl rfl rfl h.inv.table⟩
    rw [initLocked, if_neg hinit, hvtable]
    rfl

/-! ### Calls -/

/-- A call dereferences no NULL: a setup function that has something to do on an instance finds,
after `InitLocked`, no table of the definition, or one without a NULL where its loop reads. -/
def Ready (D : LazyDefinition) (s : State I) : Call I → Prop
  | .setupInstance f fullSetup i =>
    f.Done D.toGenericTypeDefinition (s.insts i).methods ∨
      ∀ s', initLocked D fullSetup s = some s' → ∀ table, s'.definition.methods = some table →
        ¬ ReadsNull D.toGenericTypeDefinition f table
          (allocated D.toGenericTypeDefinition (s.insts i).methods)
  | _ => True

/-- What a call leaves. -/
structure Leaves (D : LazyDefinition) (s s' : State I) : Prop where
  inv : Inv D s'
  definition : Keeps D.toGenericTypeDefinition s.definition s'.definition
  insts : ∀ i, Keeps D.toGenericTypeDefinition (s.insts i).methods (s'.insts i).methods

theorem Advances.leaves (h : Advances D s s') : Leaves D s s' :=
  ⟨h.inv, h.keeps, fun _ => h.insts ▸ .refl _⟩

variable [DecidableEq I]

theorem setupInstance_iff (hs : Inv D s) (f : SetupFunction) (fullSetup : Bool) (i : I) :
    setupInstance D f fullSetup i s ≠ none ↔ Ready D s (.setupInstance f fullSetup i) := by
  by_cases hdone : f.Done D.toGenericTypeDefinition (s.insts i).methods
  · simp [setupInstance, Ready, hdone]
  · obtain ⟨s₁, hinit, hadvances⟩ := initLocked_advances hs fullSetup
    have hc : InstanceOk D.toGenericTypeDefinition s₁.definition (s.insts i).methods :=
      hadvances.insts ▸ hadvances.inv.insts i
    have hnone := onInstance_eq_none_iff (hadvances.inv.definition.withInst hc) hdone
    have hinsts : (s₁.insts i).methods = (s.insts i).methods := by rw [hadvances.insts]
    have hsetup : setupInstance D f fullSetup i s = none ↔
        f.onInstance D.toGenericTypeDefinition
          { definition := s₁.definition, inst := (s.insts i).methods, blocks := s₁.blocks } =
          none := by
      simp only [setupInstance, hdone, if_false, hinit, Option.bind_eq_bind, Option.bind_some,
        hinsts]
      cases f.onInstance D.toGenericTypeDefinition
        { definition := s₁.definition, inst := (s.insts i).methods, blocks := s₁.blocks } <;> simp
    rw [Ne, hsetup, hnone]
    simp only [Ready, hdone, false_or, hinit, Option.some.injEq, forall_eq']
    push Not
    rfl

theorem exists_of_setupInstance (hs : Inv D s) {f : SetupFunction} {fullSetup : Bool} {i : I}
    (hdone : ¬ f.Done D.toGenericTypeDefinition (s.insts i).methods)
    (h : setupInstance D f fullSetup i s = some s') :
    ∃ s₁ t, Advances D s s₁ ∧
      InstanceOk D.toGenericTypeDefinition s₁.definition (s.insts i).methods ∧
      f.onInstance D.toGenericTypeDefinition
        { definition := s₁.definition, inst := (s.insts i).methods, blocks := s₁.blocks } =
        some t ∧
      s' = { s₁ with
        definition := t.definition
        blocks := t.blocks
        insts := Function.update s₁.insts i { s₁.insts i with methods := t.inst } } := by
  obtain ⟨s₁, hinit, hadvances⟩ := initLocked_advances hs fullSetup
  have hc : InstanceOk D.toGenericTypeDefinition s₁.definition (s.insts i).methods :=
    hadvances.insts ▸ hadvances.inv.insts i
  have hinsts : (s₁.insts i).methods = (s.insts i).methods := by rw [hadvances.insts]
  simp only [setupInstance, hdone, if_false, hinit, Option.bind_eq_bind, Option.bind_some, hinsts,
    Option.bind_eq_some_iff] at h
  obtain ⟨t, ht, h⟩ := h
  exact ⟨s₁, t, hadvances, hc, ht, (Option.some.inj h).symm⟩

theorem setupInstance_leaves (hs : Inv D s) {f : SetupFunction} {fullSetup : Bool} {i : I}
    (h : setupInstance D f fullSetup i s = some s') : Leaves D s s' := by
  by_cases hdone : f.Done D.toGenericTypeDefinition (s.insts i).methods
  · obtain rfl : s = s' := by simpa [setupInstance, hdone] using h
    exact (Advances.refl hs).leaves
  · obtain ⟨s₁, t, hadvances, hc, ht, rfl⟩ := exists_of_setupInstance hs hdone h
    obtain ⟨hd, hdefinition, hinstance, hkeeps, -⟩ :=
      onInstance_spec (hadvances.inv.definition.withInst hc) hc hdone ht
    refine ⟨⟨hd, ?_, ?_⟩, hadvances.keeps.trans hdefinition, ?_⟩
    · exact fun index method hm => hdefinition _ _ (hadvances.inv.table index method hm)
    · intro j
      by_cases hj : j = i
      · subst hj
        simpa using hinstance
      · simpa [Function.update_of_ne hj] using (hadvances.inv.insts j).keeps hdefinition
    · intro j
      by_cases hj : j = i
      · subst hj
        simpa using hkeeps
      · simpa [Function.update_of_ne hj, hadvances.insts] using Keeps.refl _

theorem setupInstanceVTable_leaves (hs : Inv D s) (i : I) :
    ∃ s', setupInstanceVTable D i s = some s' ∧ Leaves D s s' := by
  unfold setupInstanceVTable
  split_ifs
  · exact ⟨s, rfl, (Advances.refl hs).leaves⟩
  · obtain ⟨s₁, h₁, hadvances₁⟩ := setupVTable_advances hs
    obtain ⟨s₂, h₂, hadvances₂⟩ :=
      setupSlots_advances hadvances₁.inv (f := .methods) (by simp) fun _ => id
    simp only [h₁, h₂, Option.bind_eq_bind, Option.bind_some]
    have hleaves := (hadvances₁.trans hadvances₂).leaves
    have hmethods (j : I) :
        (Function.update s₂.insts i { s₂.insts i with isVtableInitialized := true } j).methods =
          (s₂.insts j).methods := by
      by_cases hj : j = i
      · subst hj
        simp
      · simp [Function.update_of_ne hj]
    refine ⟨_, rfl, ⟨hleaves.inv.definition, hleaves.inv.table, fun j => ?_⟩, hleaves.definition,
      fun j => ?_⟩
    · rw [hmethods]
      exact hleaves.inv.insts j
    · rw [hmethods]
      exact hleaves.insts j

theorem exec_spec (hs : Inv D s) (call : Call I) :
    (exec D s call ≠ none ↔ Ready D s call) ∧ ∀ s', exec D s call = some s' → Leaves D s s' := by
  -- the calls that are always ready
  have hadvances {call : Call I} (hready : Ready D s call ↔ True)
      (h : ∃ s', exec D s call = some s' ∧ Leaves D s s') :
      (exec D s call ≠ none ↔ Ready D s call) ∧ ∀ s', exec D s call = some s' → Leaves D s s' := by
    obtain ⟨s', hexec, hleaves⟩ := h
    refine ⟨by simp [hexec, hready], fun s'' h => ?_⟩
    obtain rfl := Option.some.inj (hexec.symm.trans h)
    exact hleaves
  cases call with
  | setup f => exact hadvances Iff.rfl ⟨_, rfl, (hs.onDefinition f).leaves⟩
  | setupVTable =>
    obtain ⟨s', h, h'⟩ := setupVTable_advances hs
    exact hadvances Iff.rfl ⟨s', h, h'.leaves⟩
  | init fullSetup =>
    obtain ⟨s', h, h'⟩ := initLocked_advances hs fullSetup
    exact hadvances Iff.rfl ⟨s', h, h'.leaves⟩
  | getMethodInfo index =>
    refine hadvances Iff.rfl ?_
    rw [exec]
    split_ifs with hlt
    · obtain ⟨method, s', h, h', -⟩ := getMethodInfo_advances hs (f := .methods) (by simp) hlt
      exact ⟨s', by rw [h]; rfl, h'.leaves⟩
    · exact ⟨s, rfl, (Advances.refl hs).leaves⟩
  | setupInstance f fullSetup i =>
    exact ⟨setupInstance_iff hs f fullSetup i, fun s' h => setupInstance_leaves hs h⟩
  | setupInstanceVTable i => exact hadvances Iff.rfl (setupInstanceVTable_leaves hs i)

theorem inv_reachable (h : (calls D).Reachable ({} : State I) s) : Inv D s :=
  h.invariant inv_init fun _ call _ hs _ hst => ((exec_spec hs call).2 _ hst).inv

theorem isMethodsInitialized_setupInstance {fullSetup : Bool} {i : I} (hs : Inv D s)
    (h : setupInstance D .methods fullSetup i s = some s') :
    D.infos.length = 0 ∨ (s'.insts i).methods.isMethodsInitialized = true := by
  by_cases hdone : SetupFunction.methods.Done D.toGenericTypeDefinition (s.insts i).methods
  · obtain rfl : s = s' := by simpa [setupInstance, hdone] using h
    exact hdone
  · right
    obtain ⟨s₁, t, hadvances, hc, ht, rfl⟩ := exists_of_setupInstance hs hdone h
    obtain ⟨-, -, -, -, hflag⟩ :=
      onInstance_spec (hadvances.inv.definition.withInst hc) hc hdone ht
    simpa using hflag rfl

/-- **Lazy method tables**: in every run, a call dereferences no NULL of the definition if and only
if it is ready; no call replaces a method that is published; after `SetupMethods` no method of the
class is NULL, and those of an instance are inflated from the methods of the definition at their
indexes. -/
theorem lazy_tables (h : (calls D).Reachable ({} : State I) s) :
    (∀ call, exec D s call ≠ none ↔ Ready D s call) ∧
    (∀ call s', exec D s call = some s' →
      Keeps D.toGenericTypeDefinition s.definition s'.definition ∧
      ∀ i, Keeps D.toGenericTypeDefinition (s.insts i).methods (s'.insts i).methods) ∧
    (∀ s', exec D s (.setup .methods) = some s' →
      Complete D.toGenericTypeDefinition s'.definition) ∧
    ∀ fullSetup i s', exec D s (.setupInstance .methods fullSetup i) = some s' →
      Complete D.toGenericTypeDefinition (s'.insts i).methods ∧
      ∀ index method, Published D.toGenericTypeDefinition (s'.insts i).methods index method →
        Published D.toGenericTypeDefinition s'.definition index method.methodDefinition := by
  have hs := inv_reachable h
  refine ⟨fun call => (exec_spec hs call).1, fun call s' hexec => ?_, fun s' hexec => ?_,
    fun fullSetup i s' hexec => ?_⟩
  · have hleaves := (exec_spec hs call).2 s' hexec
    exact ⟨hleaves.definition, hleaves.insts⟩
  · obtain rfl := Option.some.inj hexec
    exact complete_setupMethods hs.definition
  · have hinst := ((exec_spec hs _).2 s' hexec).inv.insts i
    refine ⟨?_, hinst.inflated⟩
    rcases isMethodsInitialized_setupInstance hs hexec with hzero | hflag
    · intro index hlt
      omega
    · exact hinst.complete (.inl hflag)

/-- A virtual method and another one. -/
def virtualAndOther : LazyDefinition where
  infos := [⟨true, false⟩, ⟨false, false⟩]
  hasCctor := false
  cctor_static := by decide
  vtable := [.own 0]
  own_lt := by simp
  ref_lt := by simp
  hasFinalize := false
  hasEvents := false

/-- When `SetupMethods` has completed the table of the definition, the instance is set up. -/
theorem lazy_tables_completed :
    ∃ s s' : State Unit, (calls virtualAndOther).Reachable {} s ∧
      exec virtualAndOther s (.setupInstance .methods false ()) = some s' ∧
      Complete virtualAndOther.toGenericTypeDefinition (s'.insts ()).methods := by
  have hrun : (calls virtualAndOther).Reachable ({} : State Unit) _ :=
    .step (l := .setup .methods) (.step (l := .setup .virtualMethods) .init trivial rfl) trivial rfl
  refine ⟨_, _, hrun, rfl, ?_⟩
  exact ((lazy_tables hrun).2.2.2 false () _ rfl).1

/-- `SetupVTable` on the instance makes the virtual methods of the definition only, and then
`SetupMethods` on the instance inflates a NULL. -/
theorem lazy_tables_vtableFirst :
    ¬ ∀ (D : LazyDefinition) (s : State Unit), (calls D).Reachable {} s →
      exec D s (.setupInstance .methods false ()) ≠ none := by
  intro h
  have hrun : (calls virtualAndOther).Reachable ({} : State Unit) _ :=
    .step (l := .setupInstanceVTable ()) .init trivial rfl
  exact h virtualAndOther _ hrun rfl

end

end LazyMethods

end Il2Cpp
