import Il2Cpp.LTS.Basic

/-!
# Setting up the methods of a generic class

The method table of a class is filled by three functions: `SetupVirtualMethods` makes the virtual
methods, `SetupCCtorMethods` the static constructor, and `SetupMethods` what is still missing.  Each
allocates the methods that it makes as one array.  `GetGenericInstanceMethodFromDefintion` finds the
index of a method by subtracting the address of the first method of the class.

* `setup` : the calls of the three functions on a generic type definition and on an instance of it.
* `Invariant` : the methods of one array stand in the table in the order of the array.
* `OneArray` : the methods up to an index are from one array.
* `getGenericInstanceMethodFromDefintion_iff` : those are the methods that are found.
-/

namespace Il2Cpp

namespace MethodSetup

/-- What the setup functions look at in the metadata of a method. -/
structure Il2CppMetadataMethodInfo where
  /-- `flags` has `METHOD_ATTRIBUTE_VIRTUAL`. -/
  isVirtual : Bool
  /-- `flags` has `METHOD_ATTRIBUTE_SPECIAL_NAME`, and the name is `.cctor`. -/
  isCCtor : Bool
  deriving DecidableEq

/-- A generic type definition. -/
structure GenericTypeDefinition where
  /-- The metadata of its methods; `method_count` is their number. -/
  infos : List Il2CppMetadataMethodInfo
  /-- `has_cctor`. -/
  hasCctor : Bool
  /-- Static constructors are static. -/
  cctor_static : ∀ info ∈ infos, info.isCCtor = true → info.isVirtual = false

/-- A `MethodInfo` of the definition: an element of an allocated array, and the index of its
metadata. -/
structure MethodRef where
  /-- The allocation. -/
  block : ℕ
  /-- The index in the array. -/
  offset : ℕ
  /-- Which method it describes. -/
  token : ℕ
  deriving DecidableEq

/-- A `MethodInfo` of the instance. -/
structure InflatedMethod where
  /-- `genericMethod->methodDefinition`. -/
  methodDefinition : MethodRef
  deriving DecidableEq

/-- The fields of `Il2CppClass` that the setup functions use. -/
structure ClassMethods (M : Type) where
  isMethodsInitialized : Bool := false
  isVirtualMethodInitialized : Bool := false
  isCctorInitialized : Bool := false
  /-- The method table; its entries are NULL until the methods are made. -/
  methods : Option (List (Option M)) := none

/-- A definition with one of its instances. -/
structure State where
  definition : ClassMethods MethodRef := {}
  inst : ClassMethods InflatedMethod := {}
  /-- The number of arrays that were allocated. -/
  blocks : ℕ := 0

/-! ### The definition -/

/-- The loop that makes methods one after the other in the array `block` : `newMethod` points to the
element `offset` of it. -/
def fillFrom (creates : Il2CppMetadataMethodInfo → Option MethodRef → Bool) (block : ℕ) :
    ℕ → ℕ → List Il2CppMetadataMethodInfo → List (Option MethodRef) → List (Option MethodRef)
  | offset, index, info :: infos, method :: methods =>
    if creates info method then
      some ⟨block, offset, index⟩ :: fillFrom creates block (offset + 1) (index + 1) infos methods
    else method :: fillFrom creates block offset (index + 1) infos methods
  | _, _, _, _ => []

/-- The last index with a static constructor. -/
def lastCCtor : List Il2CppMetadataMethodInfo → Option ℕ
  | [] => none
  | info :: infos =>
    match lastCCtor infos with
    | some index => some (index + 1)
    | none => if info.isCCtor then some 0 else none

section

variable (D : GenericTypeDefinition)

/-- The method table, allocated if it does not exist. -/
def allocated {M : Type} (c : ClassMethods M) : List (Option M) :=
  c.methods.getD (List.replicate D.infos.length none)

/-- `Class::SetupMethods` on the definition. -/
def setupMethods (s : State) : State :=
  let c := s.definition
  if D.infos.length = 0 ∨ c.isMethodsInitialized then s
  else
    let c := { c with
      isMethodsInitialized := true
      isCctorInitialized := c.isCctorInitialized || D.hasCctor
      methods := some (allocated D c) }
    let filledMethodCount := (allocated D c).countP Option.isSome
    if D.infos.length = filledMethodCount then { s with definition := c }
    else
      { s with
        definition := { c with
          methods := some (fillFrom (fun _ method => method.isNone) s.blocks 0 0 D.infos
            (allocated D c)) }
        blocks := s.blocks + 1 }

/-- `Class::SetupVirtualMethods` on the definition. -/
def setupVirtualMethods (s : State) : State :=
  let c := s.definition
  if D.infos.length = 0 ∨ c.isMethodsInitialized ∨ c.isVirtualMethodInitialized then s
  else
    { s with
      definition := { c with
        isVirtualMethodInitialized := true
        methods := some (fillFrom (fun info _ => info.isVirtual) s.blocks 0 0 D.infos
          (allocated D c)) }
      blocks := s.blocks + 1 }

/-- `Class::SetupCCtorMethods` on the definition. -/
def setupCCtorMethods (s : State) : State :=
  let c := s.definition
  if D.infos.length = 0 ∨ !D.hasCctor ∨ c.isCctorInitialized then s
  else
    { s with
      definition := { c with
        isCctorInitialized := true
        methods := some <| match lastCCtor D.infos with
          | some index => (allocated D c).set index (some ⟨s.blocks, 0, index⟩)
          | none => allocated D c }
      blocks := s.blocks + 1 }

/-! ### The instance -/

/-- The loop of `GenericClass::SetupMethods`; inflating a NULL is a fault. -/
def inflateMissing : List (Option MethodRef) → List (Option InflatedMethod) →
    Option (List (Option InflatedMethod))
  | definition :: definitions, method :: methods =>
    match method with
    | some method => (inflateMissing definitions methods).map (some method :: ·)
    | none => do
      let methodDefinition ← definition
      (inflateMissing definitions methods).map (some ⟨methodDefinition⟩ :: ·)
  | _, _ => some []

/-- The loop of `GenericClass::SetupCCtorMethods`; reading the name of a NULL is a fault. -/
def inflateCCtor : List (Option MethodRef) → List (Option InflatedMethod) →
    Option (List (Option InflatedMethod))
  | definition :: definitions, method :: methods =>
    match method with
    | some method => (inflateCCtor definitions methods).map (some method :: ·)
    | none => do
      let methodDefinition ← definition
      if (D.infos[methodDefinition.token]?).any (·.isCCtor) then
        some (some ⟨methodDefinition⟩ :: methods)
      else (inflateCCtor definitions methods).map (none :: ·)
  | _, _ => some []

/-- `GenericClass::SetupMethods` and `GenericClass::SetupCCtorMethods`, with `inflate` for the
loop. -/
def genericSetup (inflate : List (Option MethodRef) → List (Option InflatedMethod) →
    Option (List (Option InflatedMethod))) (s : State) : Option State := do
  let s := if s.definition.methods.isNone then setupMethods D s else s
  let definitions ← s.definition.methods
  let methods ← inflate definitions (allocated D s.inst)
  some { s with inst := { s.inst with methods := some methods } }

/-- `Class::SetupMethods` on the instance.  What `Class::InitLocked` does to the definition before
are calls on the definition. -/
def setupInstanceMethods (s : State) : Option State :=
  let c := s.inst
  if D.infos.length = 0 ∨ c.isMethodsInitialized then some s
  else genericSetup D inflateMissing { s with
    inst := { c with
      isMethodsInitialized := true
      isCctorInitialized := c.isCctorInitialized || D.hasCctor } }

/-- `Class::SetupVirtualMethods` on the instance. -/
def setupInstanceVirtualMethods (s : State) : Option State :=
  let c := s.inst
  if D.infos.length = 0 ∨ c.isMethodsInitialized ∨ c.isVirtualMethodInitialized then some s
  else genericSetup D inflateMissing { s with
    inst := { c with isVirtualMethodInitialized := true } }

/-- `Class::SetupCCtorMethods` on the instance. -/
def setupInstanceCCtorMethods (s : State) : Option State :=
  let c := s.inst
  if D.infos.length = 0 ∨ !D.hasCctor ∨ c.isCctorInitialized then some s
  else genericSetup D (inflateCCtor D) { s with inst := { c with isCctorInitialized := true } }

/-- A call of a setup function on one of the two classes. -/
inductive SetupCall where
  | methods | virtualMethods | cctorMethods
  | instanceMethods | instanceVirtualMethods | instanceCCtorMethods
  deriving DecidableEq

/-- A call of a setup function; `none` where it faults. -/
def SetupCall.exec (s : State) : SetupCall → Option State
  | methods => some (setupMethods D s)
  | virtualMethods => some (setupVirtualMethods D s)
  | cctorMethods => some (setupCCtorMethods D s)
  | instanceMethods => setupInstanceMethods D s
  | instanceVirtualMethods => setupInstanceVirtualMethods D s
  | instanceCCtorMethods => setupInstanceCCtorMethods D s

/-- Setup calls in any order. -/
def setup : LTS State SetupCall := .ofFun (SetupCall.exec D)

end

/-- `Class::GetGenericInstanceMethodFromDefintion` ; `none` where it subtracts pointers that are not
into one array, or reads a table that does not exist or past its end. -/
def getGenericInstanceMethodFromDefintion (s : State) (methodDefinition : MethodRef) :
    Option (Option InflatedMethod) := do
  let first ← (← s.definition.methods).head?
  let first ← first
  if methodDefinition.block ≠ first.block ∨ methodDefinition.offset < first.offset then none
  else
    let index := methodDefinition.offset - first.offset
    (← s.inst.methods)[index]?

/-! ### Tables that are filled array by array -/

/-- The entry is from the array `block`. -/
def inBlock (block : ℕ) (method : Option MethodRef) : Bool := method.any (·.block = block)

theorem inBlock_iff {block : ℕ} {method : Option MethodRef} :
    inBlock block method = true ↔ ∃ p, method = some p ∧ p.block = block := by
  cases method <;> simp [inBlock]

/-- A method table of the definition.  The methods of one array stand in the order of the array. -/
structure TableOk (D : GenericTypeDefinition) (blocks : ℕ) (table : List (Option MethodRef)) :
    Prop where
  length : table.length = D.infos.length
  token : ∀ {k : ℕ} {p : MethodRef}, table[k]? = some (some p) → p.token = k
  offset : ∀ {k : ℕ} {p : MethodRef}, table[k]? = some (some p) →
    p.offset = (table.take k).countP (inBlock p.block)
  block : ∀ {k : ℕ} {p : MethodRef}, table[k]? = some (some p) → p.block < blocks

/-- The array `block` has been put in empty entries of a table, in order. -/
structure Fills (block : ℕ) (table table' : List (Option MethodRef)) : Prop where
  entries : List.Forall₂ (fun method method' : Option MethodRef => method' = method ∨
    method = none ∧ ∃ p, method' = some p ∧ p.block = block) table table'
  placed : ∀ {k : ℕ} {p : MethodRef}, table'[k]? = some (some p) → p.block = block →
    p.token = k ∧ p.offset = (table'.take k).countP (inBlock block)

theorem countP_eq_of_entries {block b : ℕ} (hb : b ≠ block)
    {table table' : List (Option MethodRef)}
    (h : List.Forall₂ (fun method method' : Option MethodRef => method' = method ∨
      method = none ∧ ∃ p, method' = some p ∧ p.block = block) table table') :
    table'.countP (inBlock b) = table.countP (inBlock b) := by
  induction h with
  | nil => rfl
  | cons hentry _ ih =>
    rcases hentry with rfl | ⟨rfl, p, rfl, rfl⟩
    · rw [List.countP_cons, List.countP_cons, ih]
    · rw [List.countP_cons, List.countP_cons, ih]
      simp [inBlock, Ne.symm hb]

theorem TableOk.fills {D : GenericTypeDefinition} {block : ℕ}
    {table table' : List (Option MethodRef)} (h : TableOk D block table)
    (hf : Fills block table table') : TableOk D (block + 1) table' := by
  have hentry {k : ℕ} {p : MethodRef} (hp : table'[k]? = some (some p)) :
      table[k]? = some (some p) ∨ p.block = block := by
    have hlt : k < table'.length := (List.getElem?_eq_some_iff.1 hp).1
    have hlt' : k < table.length := hf.entries.length_eq ▸ hlt
    rcases hf.entries.get hlt' hlt with heq | ⟨-, q, hq, hblock⟩
    · have heq : table[k] = table'[k] := heq.symm
      exact .inl (by rw [List.getElem?_eq_getElem hlt', heq, ← List.getElem?_eq_getElem hlt, hp])
    · have hq : table'[k] = some q := hq
      have hqp : some (some q) = some (some p) := by
        rw [← hq, ← List.getElem?_eq_getElem hlt, hp]
      cases hqp
      exact .inr hblock
  refine ⟨hf.entries.length_eq ▸ h.length, fun {k p} hp => ?_, fun {k p} hp => ?_,
    fun {k p} hp => ?_⟩
  · rcases hentry hp with hold | hnew
    · exact h.token hold
    · exact (hf.placed hp hnew).1
  · rcases hentry hp with hold | hnew
    · have hne : p.block ≠ block := Nat.ne_of_lt (h.block hold)
      rw [h.offset hold, countP_eq_of_entries hne (List.forall₂_take k hf.entries)]
    · rw [(hf.placed hp hnew).2, hnew]
  · rcases hentry hp with hold | hnew
    · exact Nat.lt_succ_of_lt (h.block hold)
    · exact hnew ▸ Nat.lt_succ_self _

/-- Where a loop makes methods the entries are empty. -/
def CreatesEmpty (creates : Il2CppMetadataMethodInfo → Option MethodRef → Bool)
    (infos : List Il2CppMetadataMethodInfo) (methods : List (Option MethodRef)) : Prop :=
  ∀ {k : ℕ} {info : Il2CppMetadataMethodInfo} {method : Option MethodRef},
    infos[k]? = some info → methods[k]? = some method → creates info method = true → method = none

theorem CreatesEmpty.tail {creates : Il2CppMetadataMethodInfo → Option MethodRef → Bool}
    {info : Il2CppMetadataMethodInfo} {infos : List Il2CppMetadataMethodInfo}
    {method : Option MethodRef} {methods : List (Option MethodRef)}
    (h : CreatesEmpty creates (info :: infos) (method :: methods)) :
    CreatesEmpty creates infos methods :=
  fun {k} _ _ hi hm => h (k := k + 1) hi hm

section

variable {creates : Il2CppMetadataMethodInfo → Option MethodRef → Bool} {block : ℕ}
  {infos : List Il2CppMetadataMethodInfo} {methods : List (Option MethodRef)}

theorem fillFrom_entries (hl : methods.length = infos.length)
    (h : CreatesEmpty creates infos methods) (offset index : ℕ) :
    List.Forall₂ (fun method method' : Option MethodRef => method' = method ∨
      method = none ∧ ∃ p, method' = some p ∧ p.block = block) methods
      (fillFrom creates block offset index infos methods) := by
  induction infos generalizing methods offset index with
  | nil =>
    obtain rfl := List.length_eq_zero_iff.1 hl
    exact .nil
  | cons info infos ih =>
    cases methods with
    | nil => cases hl
    | cons method methods =>
      rw [fillFrom]
      split
      · rename_i hc
        exact .cons (.inr ⟨h (k := 0) rfl rfl hc, _, rfl, rfl⟩)
          (ih (Nat.succ.inj hl) h.tail _ _)
      · exact .cons (.inl rfl) (ih (Nat.succ.inj hl) h.tail _ _)

theorem fillFrom_placed (hfresh : ∀ p, some p ∈ methods → p.block ≠ block) (offset index : ℕ)
    {k : ℕ} {p : MethodRef}
    (hp : (fillFrom creates block offset index infos methods)[k]? = some (some p))
    (hb : p.block = block) : p.token = index + k ∧ p.offset = offset +
      ((fillFrom creates block offset index infos methods).take k).countP (inBlock block) := by
  induction infos generalizing methods offset index k with
  | nil => simp [fillFrom] at hp
  | cons info infos ih =>
    cases methods with
    | nil => simp [fillFrom] at hp
    | cons method methods =>
      have hfresh' : ∀ p, some p ∈ methods → p.block ≠ block :=
        fun p hp => hfresh p (List.mem_cons_of_mem _ hp)
      rw [fillFrom] at hp ⊢
      split
      · rw [if_pos ‹_›] at hp
        cases k with
        | zero =>
          cases hp
          exact ⟨rfl, rfl⟩
        | succ k =>
          obtain ⟨htoken, hoffset⟩ := ih hfresh' _ _ hp
          refine ⟨by omega, ?_⟩
          rw [List.take_succ_cons, List.countP_cons, hoffset]
          simp [inBlock]
          omega
      · rw [if_neg ‹_›] at hp
        cases k with
        | zero =>
          cases hp
          exact absurd hb (hfresh p List.mem_cons_self)
        | succ k =>
          obtain ⟨htoken, hoffset⟩ := ih hfresh' _ _ hp
          refine ⟨by omega, ?_⟩
          have hhead : inBlock block method = false := by
            cases method with
            | none => rfl
            | some q => simpa [inBlock] using hfresh q List.mem_cons_self
          rw [List.take_succ_cons, List.countP_cons, hoffset, hhead]
          simp

theorem TableOk.fresh {D : GenericTypeDefinition} (h : TableOk D block methods) :
    ∀ p, some p ∈ methods → p.block ≠ block := by
  intro p hp
  obtain ⟨k, hk⟩ := List.mem_iff_getElem?.1 hp
  exact Nat.ne_of_lt (h.block hk)

theorem fills_fillFrom {D : GenericTypeDefinition} (h : TableOk D block methods)
    (hc : CreatesEmpty creates D.infos methods) :
    Fills block methods (fillFrom creates block 0 0 D.infos methods) where
  entries := fillFrom_entries h.length hc 0 0
  placed hp hb := by simpa using fillFrom_placed h.fresh 0 0 hp hb

theorem fills_set {D : GenericTypeDefinition} (h : TableOk D block methods) {index : ℕ}
    (hindex : methods[index]? = some none) :
    Fills block methods (methods.set index (some ⟨block, 0, index⟩)) where
  entries := by
    refine List.forall₂_iff_get.2 ⟨by simp, fun k hk hk' => ?_⟩
    simp only [List.get_eq_getElem, List.getElem_set]
    split
    · rename_i heq
      subst heq
      rw [List.getElem?_eq_getElem hk] at hindex
      exact .inr ⟨Option.some.inj hindex, _, rfl, rfl⟩
    · exact .inl rfl
  placed {k p} hp hb := by
    rw [List.getElem?_set] at hp
    split at hp
    · rename_i heq
      subst heq
      have hnone : (methods.take index).countP (inBlock block) = 0 := by
        refine List.countP_eq_zero.2 fun method hmethod => ?_
        cases method with
        | none => simp [inBlock]
        | some q => simpa [inBlock] using h.fresh q (List.mem_of_mem_take hmethod)
      split at hp
      · cases hp
        refine ⟨rfl, ?_⟩
        rw [List.take_set_of_le (Nat.le_refl _), hnone]
      · cases hp
    · exact absurd hb (h.fresh p (List.mem_of_getElem? hp))

end

/-! ### The invariant -/

theorem lastCCtor_spec {infos : List Il2CppMetadataMethodInfo} {index : ℕ}
    (h : lastCCtor infos = some index) :
    ∃ info, infos[index]? = some info ∧ info.isCCtor = true := by
  induction infos generalizing index with
  | nil => cases h
  | cons info infos ih =>
    rw [lastCCtor] at h
    cases hl : lastCCtor infos with
    | some i =>
      rw [hl] at h
      cases h
      exact ih hl
    | none =>
      rw [hl] at h
      dsimp only at h
      split at h
      · cases h
        exact ⟨info, rfl, ‹_›⟩
      · cases h

section

variable (D : GenericTypeDefinition)

/-- What holds of the two classes after any setup calls. -/
structure Invariant (s : State) : Prop where
  table : TableOk D s.blocks (allocated D s.definition)
  /-- Before the other two functions only static constructors have been made. -/
  cctor : s.definition.isMethodsInitialized = false →
    s.definition.isVirtualMethodInitialized = false →
    ∀ {k : ℕ} {p : MethodRef} {info : Il2CppMetadataMethodInfo},
      (allocated D s.definition)[k]? = some (some p) → D.infos[k]? = some info →
      info.isCCtor = true
  /-- Before the static constructor only virtual methods have been made. -/
  virtual : D.hasCctor = true → s.definition.isCctorInitialized = false →
    ∀ {k : ℕ} {p : MethodRef} {info : Il2CppMetadataMethodInfo},
      (allocated D s.definition)[k]? = some (some p) → D.infos[k]? = some info →
      info.isVirtual = true
  /-- The methods of the instance are in the places of what they were inflated from. -/
  inst : ∀ {k : ℕ} {m : InflatedMethod}, (allocated D s.inst)[k]? = some (some m) →
    m.methodDefinition.token = k

theorem tableOk_replicate (blocks : ℕ) :
    TableOk D blocks (List.replicate D.infos.length none) where
  length := List.length_replicate
  token h := by simp [List.getElem?_replicate] at h
  offset h := by simp [List.getElem?_replicate] at h
  block h := by simp [List.getElem?_replicate] at h

theorem invariant_init : Invariant D {} where
  table := tableOk_replicate D 0
  cctor _ _ _ _ _ h := by simp [allocated, List.getElem?_replicate] at h
  virtual _ _ _ _ _ h := by simp [allocated, List.getElem?_replicate] at h
  inst h := by simp [allocated, List.getElem?_replicate] at h

variable {D}

theorem TableOk.mono {blocks blocks' : ℕ} {table : List (Option MethodRef)}
    (h : TableOk D blocks table) (hle : blocks ≤ blocks') : TableOk D blocks' table :=
  ⟨h.length, h.token, h.offset, fun hp => Nat.lt_of_lt_of_le (h.block hp) hle⟩

theorem fillFrom_cases {creates : Il2CppMetadataMethodInfo → Option MethodRef → Bool} {block : ℕ}
    {infos : List Il2CppMetadataMethodInfo} {methods : List (Option MethodRef)} {offset index k : ℕ}
    {p : MethodRef} {info : Il2CppMetadataMethodInfo}
    (hp : (fillFrom creates block offset index infos methods)[k]? = some (some p))
    (hi : infos[k]? = some info) :
    methods[k]? = some (some p) ∨ ∃ method, creates info method = true := by
  induction infos generalizing methods offset index k with
  | nil => cases hi
  | cons info' infos ih =>
    cases methods with
    | nil => simp [fillFrom] at hp
    | cons method methods =>
      rw [fillFrom] at hp
      split at hp
      · cases k with
        | zero =>
          cases hi
          exact .inr ⟨method, ‹_›⟩
        | succ k => exact @ih methods _ _ k hp hi
      · cases k with
        | zero => exact .inl hp
        | succ k => exact @ih methods _ _ k hp hi

theorem Invariant.setupMethods {s : State} (h : Invariant D s) :
    Invariant D (setupMethods D s) := by
  rw [MethodSetup.setupMethods]
  split
  · exact h
  dsimp only
  split
  · exact ⟨h.table, nofun, fun hc hflag => by simp [hc] at hflag, h.inst⟩
  · have hempty : CreatesEmpty (fun _ method => method.isNone) D.infos
        (allocated D s.definition) := fun _ _ hc => by simpa using hc
    exact ⟨h.table.fills (fills_fillFrom h.table hempty), nofun,
      fun hc hflag => by simp [hc] at hflag, h.inst⟩

theorem Invariant.virtual_empty {s : State} (h : Invariant D s)
    (hmethods : s.definition.isMethodsInitialized = false)
    (hvirtual : s.definition.isVirtualMethodInitialized = false) :
    CreatesEmpty (fun info _ => info.isVirtual) D.infos (allocated D s.definition) := by
  intro k info method hi hm hc
  cases method with
  | none => rfl
  | some p =>
    -- a static constructor is not virtual
    have hcctor := h.cctor hmethods hvirtual hm hi
    simp [D.cctor_static info (List.mem_of_getElem? hi) hcctor] at hc

theorem Invariant.setupVirtualMethods {s : State} (h : Invariant D s) :
    Invariant D (setupVirtualMethods D s) := by
  rw [MethodSetup.setupVirtualMethods]
  split
  · exact h
  rename_i hflags
  simp only [not_or, Bool.not_eq_true] at hflags
  have hempty : CreatesEmpty (fun info _ => info.isVirtual) D.infos (allocated D s.definition) :=
    h.virtual_empty hflags.2.1 hflags.2.2
  refine ⟨h.table.fills (fills_fillFrom h.table hempty), fun _ => nofun, ?_, h.inst⟩
  intro hc hflag k p info hp hi
  rcases fillFrom_cases hp hi with hold | ⟨-, hvirtual⟩
  · exact h.virtual hc hflag hold hi
  · exact hvirtual

theorem Invariant.cctor_empty {s : State} (h : Invariant D s) (hcctor : D.hasCctor = true)
    (hflag : s.definition.isCctorInitialized = false) {index : ℕ}
    (hl : lastCCtor D.infos = some index) :
    (allocated D s.definition)[index]? = some none := by
  obtain ⟨info, hinfo, hisCCtor⟩ := lastCCtor_spec hl
  have hlt : index < (allocated D s.definition).length :=
    h.table.length ▸ (List.getElem?_eq_some_iff.1 hinfo).1
  rw [List.getElem?_eq_getElem hlt]
  cases hentry : (allocated D s.definition)[index] with
  | none => rfl
  | some p =>
    have hp : (allocated D s.definition)[index]? = some (some p) := by
      rw [List.getElem?_eq_getElem hlt, hentry]
    have hvirtual := h.virtual hcctor hflag hp hinfo
    simp [D.cctor_static info (List.mem_of_getElem? hinfo) hisCCtor] at hvirtual

theorem Invariant.setupCCtorMethods {s : State} (h : Invariant D s) :
    Invariant D (setupCCtorMethods D s) := by
  rw [MethodSetup.setupCCtorMethods]
  split
  · exact h
  rename_i hflags
  simp only [not_or, Bool.not_eq_true, Bool.not_eq_false'] at hflags
  cases hl : lastCCtor D.infos with
  | none => exact ⟨h.table.mono (Nat.le_succ _), h.cctor, fun _ => nofun, h.inst⟩
  | some index =>
    obtain ⟨info, hinfo, hcctor⟩ := lastCCtor_spec hl
    have hnone := h.cctor_empty hflags.2.1 hflags.2.2 hl
    refine ⟨h.table.fills (fills_set h.table hnone), ?_, fun _ => nofun, h.inst⟩
    intro hm hv k p info' hp hi
    have hp : ((allocated D s.definition).set index (some ⟨s.blocks, 0, index⟩))[k]? =
        some (some p) := hp
    rw [List.getElem?_set] at hp
    split at hp
    · rename_i heq
      subst heq
      rw [hinfo] at hi
      cases hi
      exact hcctor
    · exact h.cctor hm hv hp hi

/-- What a loop over the table of the instance leaves in its entries. -/
def InflatesInPlace (inflate : List (Option MethodRef) → List (Option InflatedMethod) →
    Option (List (Option InflatedMethod))) : Prop :=
  ∀ (definitions : List (Option MethodRef)) (methods methods' : List (Option InflatedMethod)),
    inflate definitions methods = some methods' → ∀ (k : ℕ) (m : InflatedMethod),
      methods'[k]? = some (some m) →
        methods[k]? = some (some m) ∨ definitions[k]? = some (some m.methodDefinition)

theorem inflateMissing_inPlace : InflatesInPlace inflateMissing := by
  intro definitions methods methods' h k m hm
  induction definitions generalizing methods methods' k with
  | nil => cases methods <;> cases h <;> simp at hm
  | cons definition definitions ih =>
    cases methods with
    | nil => cases h; simp at hm
    | cons method methods =>
      cases method with
      | some method =>
        obtain ⟨rest, hrest, rfl⟩ := Option.map_eq_some_iff.1 h
        cases k with
        | zero => exact .inl hm
        | succ k => exact ih _ _ hrest _ hm
      | none =>
        simp only [inflateMissing, Option.bind_eq_bind, Option.bind_eq_some_iff] at h
        obtain ⟨d, rfl, h⟩ := h
        obtain ⟨rest, hrest, rfl⟩ := Option.map_eq_some_iff.1 h
        cases k with
        | zero =>
          cases hm
          exact .inr rfl
        | succ k => exact ih _ _ hrest _ hm

theorem inflateCCtor_inPlace : InflatesInPlace (inflateCCtor D) := by
  intro definitions methods methods' h k m hm
  induction definitions generalizing methods methods' k with
  | nil => cases methods <;> cases h <;> simp at hm
  | cons definition definitions ih =>
    cases methods with
    | nil => cases h; simp at hm
    | cons method methods =>
      have hrest {head : Option InflatedMethod}
          (h : (inflateCCtor D definitions methods).map (head :: ·) = some methods')
          (hhead : head = method) :
          (method :: methods)[k]? = some (some m) ∨
            (definition :: definitions)[k]? = some (some m.methodDefinition) := by
        obtain ⟨rest, hrest, rfl⟩ := Option.map_eq_some_iff.1 h
        cases k with
        | zero => exact .inl (hhead ▸ hm)
        | succ k => exact ih _ _ hrest _ hm
      cases method with
      | some method => exact hrest h rfl
      | none =>
        simp only [inflateCCtor, Option.bind_eq_bind, Option.bind_eq_some_iff] at h
        obtain ⟨d, rfl, h⟩ := h
        split at h
        · cases h
          cases k with
          | zero =>
            cases hm
            exact .inr rfl
          | succ k => exact .inl hm
        · exact hrest h rfl

theorem Invariant.genericSetup {s s' : State} (h : Invariant D s)
    {inflate : List (Option MethodRef) → List (Option InflatedMethod) →
      Option (List (Option InflatedMethod))} (hinflate : InflatesInPlace inflate)
    (hs : genericSetup D inflate s = some s') : Invariant D s' := by
  simp only [MethodSetup.genericSetup, Option.bind_eq_bind, Option.bind_eq_some_iff] at hs
  obtain ⟨definitions, hdefinitions, methods, hmethods, hs⟩ := hs
  cases hs
  have hd : Invariant D
      (if s.definition.methods.isNone then MethodSetup.setupMethods D s else s) := by
    split
    · exact h.setupMethods
    · exact h
  revert hdefinitions hmethods
  generalize (if s.definition.methods.isNone then MethodSetup.setupMethods D s else s) = t at hd ⊢
  intro hdefinitions hmethods
  refine ⟨hd.table, hd.cctor, hd.virtual, fun {k m} hm => ?_⟩
  rcases hinflate _ _ _ hmethods k m hm with hold | hnew
  · exact hd.inst hold
  · have hp : (allocated D t.definition)[k]? = some (some m.methodDefinition) := by
      rw [allocated, hdefinitions]
      exact hnew
    exact hd.table.token hp

theorem Invariant.withFlags {s : State} (h : Invariant D s) {c : ClassMethods InflatedMethod}
    (hc : c.methods = s.inst.methods) : Invariant D { s with inst := c } :=
  ⟨h.table, h.cctor, h.virtual, fun hm => h.inst (by rw [allocated, ← hc]; exact hm)⟩

/-- **One setup call** keeps the invariant. -/
theorem Invariant.exec {s s' : State} (h : Invariant D s) (call : SetupCall)
    (hs : call.exec D s = some s') : Invariant D s' := by
  cases call with
  | methods => exact Option.some.inj hs ▸ h.setupMethods
  | virtualMethods => exact Option.some.inj hs ▸ h.setupVirtualMethods
  | cctorMethods => exact Option.some.inj hs ▸ h.setupCCtorMethods
  | instanceMethods =>
    simp only [SetupCall.exec, setupInstanceMethods] at hs
    split at hs
    · exact Option.some.inj hs ▸ h
    · refine Invariant.genericSetup ?_ inflateMissing_inPlace hs
      exact h.withFlags rfl
  | instanceVirtualMethods =>
    simp only [SetupCall.exec, setupInstanceVirtualMethods] at hs
    split at hs
    · exact Option.some.inj hs ▸ h
    · refine Invariant.genericSetup ?_ inflateMissing_inPlace hs
      exact h.withFlags rfl
  | instanceCCtorMethods =>
    simp only [SetupCall.exec, setupInstanceCCtorMethods] at hs
    split at hs
    · exact Option.some.inj hs ▸ h
    · refine Invariant.genericSetup ?_ inflateCCtor_inPlace hs
      exact h.withFlags rfl

variable (D) in
theorem invariant_reachable {s : State} (h : (setup D).Reachable {} s) : Invariant D s :=
  h.invariant (invariant_init D) fun _ call _ hs _ hst => hs.exec call hst

/-! ### Finding the method of an instance -/

/-- `methods[index]` of the definition. -/
def State.methodAt (s : State) (index : ℕ) : Option (Option MethodRef) :=
  s.definition.methods.bind fun methods => methods[index]?

/-- `methods[index]` of the instance. -/
def State.instanceMethodAt (s : State) (index : ℕ) : Option (Option InflatedMethod) :=
  s.inst.methods.bind fun methods => methods[index]?

/-- The methods of the definition up to an index are from one array, made by one setup call. -/
def OneArray (s : State) (index : ℕ) : Prop :=
  ∃ block, ∀ k ≤ index, ∃ p, s.methodAt k = some (some p) ∧ p.block = block

theorem TableOk.oneArray_iff {blocks : ℕ} {table : List (Option MethodRef)}
    (h : TableOk D blocks table) {index : ℕ} {p : MethodRef}
    (hp : table[index]? = some (some p)) :
    p.offset = index ↔ ∀ k ≤ index, ∃ q, table[k]? = some (some q) ∧ q.block = p.block := by
  have hlt : index < table.length := (List.getElem?_eq_some_iff.1 hp).1
  have hlen : (table.take index).length = index := by
    rw [List.length_take]
    omega
  have hcount : (table.take index).countP (inBlock p.block) = index ↔
      ∀ method ∈ table.take index, inBlock p.block method = true := by
    rw [← List.countP_eq_length, hlen]
  rw [h.offset hp, hcount]
  constructor
  · intro hall k hk
    rcases Nat.lt_or_eq_of_le hk with hk | rfl
    · have hget : table[k]? = some table[k] := List.getElem?_eq_getElem (Nat.lt_trans hk hlt)
      have hin := hall _ (List.mem_of_getElem? ((List.getElem?_take_of_lt hk).trans hget))
      obtain ⟨q, hq, hblock⟩ := inBlock_iff.1 hin
      exact ⟨q, hq ▸ hget, hblock⟩
    · exact ⟨p, hp, rfl⟩
  · intro hall method hmethod
    obtain ⟨k, hk⟩ := List.mem_iff_getElem?.1 hmethod
    have hklt : k < index := by
      have := (List.getElem?_eq_some_iff.1 hk).1
      omega
    obtain ⟨q, hq, hblock⟩ := hall k (Nat.le_of_lt hklt)
    rw [List.getElem?_take_of_lt hklt, hq] at hk
    exact inBlock_iff.2 ⟨q, (Option.some.inj hk).symm, hblock⟩

/-- **The method that is found.**  After any setup calls on the definition and the instance, let a
method of the definition and the entry of the instance at its index exist.  If the methods up to the
index are from one array, then the entry is what is returned; and if it is not NULL, then only
then. -/
theorem getGenericInstanceMethodFromDefintion_iff {s : State} (h : (setup D).Reachable {} s)
    {index : ℕ} {methodDefinition : MethodRef}
    (hdefinition : s.methodAt index = some (some methodDefinition)) {entry : Option InflatedMethod}
    (hentry : s.instanceMethodAt index = some entry) :
    (OneArray s index → getGenericInstanceMethodFromDefintion s methodDefinition = some entry) ∧
      (entry ≠ none → getGenericInstanceMethodFromDefintion s methodDefinition = some entry →
        OneArray s index) := by
  have hinv := invariant_reachable D h
  obtain ⟨table, htable, hp⟩ := Option.bind_eq_some_iff.1 hdefinition
  obtain ⟨methods, hmethods, he⟩ := Option.bind_eq_some_iff.1 hentry
  have hok : TableOk D s.blocks table := by
    have := hinv.table
    rwa [allocated, htable] at this
  have hinst {k : ℕ} {m : InflatedMethod} (hm : methods[k]? = some (some m)) :
      m.methodDefinition.token = k := hinv.inst (by rwa [allocated, hmethods])
  have hone : OneArray s index ↔
      ∀ k ≤ index, ∃ q, table[k]? = some (some q) ∧ q.block = methodDefinition.block := by
    simp only [OneArray, State.methodAt, htable, Option.bind_some]
    refine ⟨fun ⟨block, hall⟩ => ?_, fun hall => ⟨_, hall⟩⟩
    obtain ⟨q, hq, rfl⟩ := hall index (Nat.le_refl _)
    cases hp.symm.trans hq
    exact hall
  rw [hone, ← hok.oneArray_iff hp]
  have hfirst : table.head? = table[0]? := List.head?_eq_getElem?
  simp only [getGenericInstanceMethodFromDefintion, htable, hmethods, Option.bind_eq_bind,
    Option.bind_some, hfirst]
  constructor
  · intro hoffset
    obtain ⟨q, hq, hblock⟩ := (hok.oneArray_iff hp).1 hoffset 0 (Nat.zero_le _)
    have hzero : q.offset = 0 := by simpa using hok.offset hq
    simp [hq, hblock, hzero, hoffset, he]
  · intro hne hfound
    obtain ⟨m, rfl⟩ := Option.ne_none_iff_exists'.1 hne
    obtain ⟨first, hq, hfound⟩ := Option.bind_eq_some_iff.1 hfound
    obtain ⟨q, rfl, hindex⟩ := Option.bind_eq_some_iff.1 hfound
    have hzero : q.offset = 0 := by simpa using hok.offset hq
    split at hindex
    · cases hindex
    · have htoken := hinst hindex
      rw [hinst he, hzero] at htoken
      omega

end

/-! ### Definitions with virtual methods -/

/-- Two virtual methods with another method between them. -/
def twoVirtual : GenericTypeDefinition where
  infos := [⟨true, false⟩, ⟨false, false⟩, ⟨true, false⟩]
  hasCctor := false
  cctor_static := by decide

/-- The state after some setup calls. -/
def afterCalls (D : GenericTypeDefinition) (calls : List SetupCall) : Option State :=
  LTS.execWith (SetupCall.exec D) (fun _ _ => True) {} calls

theorem reachable_afterCalls {D : GenericTypeDefinition} {calls : List SetupCall} {s : State}
    (h : afterCalls D calls = some s) : (setup D).Reachable {} s :=
  LTS.reachWith_of_execWith .init h

/-- When `SetupMethods` comes first the last method is found. -/
theorem getGenericInstanceMethodFromDefintion_methods_first :
    ∃ (s : State) (p : MethodRef) (m : InflatedMethod), (setup twoVirtual).Reachable {} s ∧
      s.methodAt 2 = some (some p) ∧ s.instanceMethodAt 2 = some (some m) ∧
      getGenericInstanceMethodFromDefintion s p = some (some m) := by
  have hmethods : ∀ k ≤ 2, ((afterCalls twoVirtual [.methods, .instanceMethods]).bind
      fun s => s.methodAt k) = some (some ⟨0, k, k⟩) := by decide
  have hentry : ((afterCalls twoVirtual [.methods, .instanceMethods]).bind
      fun s => s.instanceMethodAt 2) = some (some ⟨⟨0, 2, 2⟩⟩) := by decide
  obtain ⟨s, hs⟩ : ∃ s, afterCalls twoVirtual [.methods, .instanceMethods] = some s := ⟨_, rfl⟩
  simp only [hs, Option.bind_some] at hmethods hentry
  have hone : OneArray s 2 := ⟨0, fun k hk => ⟨_, hmethods k hk, rfl⟩⟩
  have hlast := hmethods 2 (Nat.le_refl _)
  exact ⟨s, _, _, reachable_afterCalls hs, hlast, hentry,
    (getGenericInstanceMethodFromDefintion_iff (reachable_afterCalls hs) hlast hentry).1 hone⟩

/-- When `SetupVirtualMethods` comes first the method between the virtual ones is taken for the last
one. -/
theorem getGenericInstanceMethodFromDefintion_virtual_first :
    ¬ ∀ (D : GenericTypeDefinition) (s : State) (index : ℕ) (methodDefinition : MethodRef)
      (m : InflatedMethod), (setup D).Reachable {} s →
        s.methodAt index = some (some methodDefinition) →
        s.instanceMethodAt index = some (some m) →
        getGenericInstanceMethodFromDefintion s methodDefinition = some (some m) := by
  intro h
  have hrun := reachable_afterCalls
    (rfl : afterCalls twoVirtual [.virtualMethods, .methods, .instanceMethods] = some _)
  have hfound := h twoVirtual _ 2 _ _ hrun rfl rfl
  exact absurd hfound (by decide)

end MethodSetup

end Il2Cpp
