import Il2Cpp.LTS.Threads

/-!
# The cache of runtime callable wrappers

`vm/RCW.cpp`: a runtime callable wrapper (RCW) is the managed object that stands for a COM object.
It is created once for each identity of a COM object: the cache maps the identity to a weak handle
on the RCW.  Creating one takes a reference to the identity, which the finalizer of the RCW gives
back.

* `State.getOrCreateRCW`, `State.finish`, `State.register`, `State.cleanup` : the functions.  While
  `GetOrCreateRCW` finds out the class of the RCW it runs managed code, which can call it again, so
  it is cut in two there.
* `step` : what happens, with `Marshal.ReleaseComObject` and the collector.
* `rcwCache_balances` : references, handles and RCWs balance after exactly the runs that never
  unbox a COM object and never drop an entry of the cache.
* `oneLive` : one live RCW for each identity, in more runs.
-/

namespace Il2Cpp

namespace RCW

variable {Identity : Type*}

/-- A weak GC handle. -/
abbrev Handle := ℕ

/-- The address of an RCW. -/
abbrev Ptr := ℕ

/-- A reference to an identity: the `ref`-th that `GetIdentity` returned. -/
abbrev Ref := ℕ

/-! ### The 32-bit counter -/

/-- The largest `int32_t`. -/
def int32Max : ℤ := 2147483647

/-- `os::Atomic::Increment` of an `int32_t`. -/
def increment (n : ℤ) : ℤ := if n = int32Max then -int32Max - 1 else n + 1

/-- `os::Atomic::Decrement` of an `int32_t`. -/
def decrement (n : ℤ) : ℤ := if n = -int32Max - 1 then int32Max else n - 1

theorem one_lt_increment {n : ℤ} (h0 : 0 < n) (hn : n ≠ int32Max) : 1 < increment n := by
  rw [increment, if_neg hn]
  omega

theorem decrement_of_pos {n : ℤ} (h0 : 0 < n) : decrement n = n - 1 := by
  have hne : n ≠ -int32Max - 1 := by rw [int32Max]; omega
  rw [decrement, if_neg hne]

/-! ### The state -/

/-- The life of an RCW. -/
inductive Phase
  | live
  /-- `Marshal.ReleaseComObject` has counted it down to 0 -/
  | released
  /-- the collector has queued its finalizer -/
  | queued
  /-- its finalizer has called `RCW::Cleanup` and released the identity -/
  | cleaned
  deriving DecidableEq

/-- An RCW. -/
structure Il2CppComObject (Identity : Type*) where
  identity : Identity
  /-- An `int32_t`. -/
  refCount : ℤ
  /-- Of its class. -/
  isImportOrWindowsRuntime : Bool
  /-- The reference to the identity; none when the caller of `RCW::Register` took it. -/
  ref : Option Ref
  phase : Phase

/-- A call of `GetOrCreateRCW` that has not found an RCW, while it finds out the class. -/
structure Call (Identity : Type*) where
  identity : Identity
  ref : Ref

/-- The cache, the RCWs and their handles. -/
structure State (Identity : Type*) where
  rcws : List (Il2CppComObject Identity)
  /-- `s_RCWCache`. -/
  cache : Identity → Option Handle
  /-- What the handles made by `GCHandle::NewWeakref` point to. -/
  weakHandles : List (Option Ptr)
  /-- The arguments of the calls of `GCHandle::Free`: `RCW.cpp` does not call it. -/
  freed : List Handle
  /-- How many references `GetIdentity` has returned. -/
  references : ℕ
  /-- The references that were given back. -/
  released : List Ref
  /-- The calls of the thread that has `s_RCWCacheMutex`, the innermost one first. -/
  calls : List (Call Identity)

def init : State Identity := ⟨[], fun _ => none, [], [], 0, [], []⟩

/-- What a COM object answers. -/
structure ComObject (Identity : Type*) where
  /-- It is a COM callable wrapper: `QueryInterface` finds `IManagedObjectHolder`. -/
  isManagedObjectHolder : Bool
  /-- What `QueryInterface` of `IUnknown` returns; none is an error. -/
  identity : Option Identity

/-- What `GetOrCreateRCW` comes to. -/
inductive Result
  /-- the object of the COM callable wrapper -/
  | managedObject
  | rcw (p : Ptr)
  | raised
  /-- the class has to be found out -/
  | pending
  deriving DecidableEq

/-- What becomes of a call when the class is found out. -/
inductive Answer
  /-- `ReboxIfBoxed` has returned an object -/
  | reboxed
  /-- an exception -/
  | raised
  /-- the class of the RCW, and its `is_import_or_windows_runtime` -/
  | objectClass (isImportOrWindowsRuntime : Bool)

namespace State

variable (s : State Identity)

/-- `GCHandle::GetTarget`, with the RCW at that address. -/
def getTarget (weakRef : Handle) : Option (Ptr × Il2CppComObject Identity) :=
  s.weakHandles[weakRef]?.join.bind fun p => s.rcws[p]?.map fun obj => (p, obj)

theorem getTarget_eq_some {s : State Identity} {h : Handle} {p : Ptr}
    {a : Il2CppComObject Identity} :
    s.getTarget h = some (p, a) ↔ s.weakHandles[h]? = some (some p) ∧ s.rcws[p]? = some a := by
  simp only [getTarget, Option.bind_eq_some_iff, Option.join_eq_some_iff, Option.map_eq_some_iff,
    Prod.mk.injEq]
  constructor
  · rintro ⟨p', hw, a', ha, rfl, rfl⟩
    exact ⟨hw, ha⟩
  · rintro ⟨hw, ha⟩
    exact ⟨p, hw, a, ha, rfl, rfl⟩

variable [DecidableEq Identity]

/-- `s_RCWCache.erase`. -/
def erase (identity : Identity) : State Identity :=
  { s with cache := Function.update s.cache identity none }

/-- `s_RCWCache.insert`, which keeps an entry that is there. -/
def insert (identity : Identity) (weakRef : Handle) : State Identity :=
  if s.cache identity = none then
    { s with cache := Function.update s.cache identity (some weakRef) }
  else s

/-- A new RCW, with a handle that is inserted into the cache. -/
def create (identity : Identity) (isImportOrWindowsRuntime : Bool) (ref : Option Ref) :
    State Identity :=
  { s with
    rcws := s.rcws ++ [⟨identity, 1, isImportOrWindowsRuntime, ref, .live⟩]
    weakHandles := s.weakHandles ++ [some s.rcws.length] : State Identity }.insert identity
      s.weakHandles.length

/-- `RCW::Register`. -/
def register (identity : Identity) (isImportOrWindowsRuntime : Bool) : State Identity :=
  s.create identity isImportOrWindowsRuntime none

/-- The part of `GetOrCreateRCW` that looks for an RCW in the cache, and erases the entry of a dead
one. -/
def lookup (identity : Identity) : State Identity × Option Ptr :=
  match s.cache identity with
  | none => (s, none)
  | some weakRef =>
    match s.getTarget weakRef with
    | none => (s.erase identity, none)
    | some (p, obj) =>
      let obj := { obj with refCount := increment obj.refCount }
      let s := { s with rcws := s.rcws.set p obj }
      if 1 < obj.refCount then (s, some p) else (s.erase identity, none)

/-- `GetIdentity` returns a reference. -/
def getIdentity : State Identity := { s with references := s.references + 1 }

/-- `identity->Release()`. -/
def release (ref : Ref) : State Identity := { s with released := ref :: s.released }

/-- A call begins to find out the class. -/
def enter (call : Call Identity) : State Identity := { s with calls := call :: s.calls }

/-- `GetOrCreateRCW`.  `isImportOrWindowsRuntime` is of the class of a sealed class instance. -/
def getOrCreateRCW (isSealedClassInstance : Bool) (comObject : ComObject Identity)
    (isImportOrWindowsRuntime : Bool) : State Identity × Result :=
  if isSealedClassInstance = false ∧ comObject.isManagedObjectHolder = true then
    (s, .managedObject)
  else
    match comObject.identity with
    | none => (s, .raised)
    | some identity =>
      let ref := s.references
      match s.getIdentity.lookup identity with
      | (s, some p) => (s.release ref, .rcw p)
      | (s, none) =>
        if isSealedClassInstance then
          (s.create identity isImportOrWindowsRuntime (some ref), .rcw s.rcws.length)
        else (s.enter ⟨identity, ref⟩, .pending)

/-- The rest of the innermost call of `GetOrCreateRCW`. -/
def finish (answer : Answer) : Option (State Identity × Result) :=
  match s.calls with
  | [] => none
  | call :: calls =>
    let s := { s with calls := calls }
    match answer with
    | .reboxed => some (s, .managedObject)
    | .raised => some (s, .raised)
    | .objectClass isImportOrWindowsRuntime =>
      some (s.create call.identity isImportOrWindowsRuntime (some call.ref), .rcw s.rcws.length)

/-- `RCW::Cleanup` of the RCW `p`, without its queried interfaces. -/
def cleanup (p : Ptr) (rcw : Il2CppComObject Identity) : State Identity :=
  if rcw.isImportOrWindowsRuntime then
    match s.cache rcw.identity with
    | none => s
    | some weakRef =>
      match s.getTarget weakRef with
      | none => s.erase rcw.identity
      | some (obj, _) => if obj = p then s.erase rcw.identity else s
  else s

/-- The finalizer of an RCW, after `RCW::Cleanup`: it releases the identity. -/
def releaseIdentity (p : Ptr) (rcw : Il2CppComObject Identity) : State Identity :=
  { s with
    rcws := s.rcws.set p { rcw with phase := .cleaned }
    released := rcw.ref.toList ++ s.released }

/-- `Marshal::ReleaseComObjectInternal`, without the call of the finalizer. -/
def releaseComObject (p : Ptr) (rcw : Il2CppComObject Identity) : State Identity :=
  let newRefCount := decrement rcw.refCount
  { s with
    rcws := s.rcws.set p { rcw with
      refCount := newRefCount
      phase := if newRefCount = 0 ∧ rcw.phase = .live then .released else rcw.phase } }

/-- The collector finds the RCW unreachable: it clears the weak handle, and queues the
finalizer. -/
def collect (p : Ptr) (rcw : Il2CppComObject Identity) : State Identity :=
  { s with
    rcws := s.rcws.set p { rcw with
      phase := if rcw.phase = .live then .queued else rcw.phase }
    weakHandles := s.weakHandles.map fun t => if t = some p then none else t }

end State

/-- What happens. -/
inductive Label (Identity : Type*)
  | register (identity : Identity) (isImportOrWindowsRuntime : Bool)
  | getOrCreate (isSealedClassInstance : Bool) (comObject : ComObject Identity)
    (isImportOrWindowsRuntime : Bool)
  | finish (answer : Answer)
  | releaseComObject (p : Ptr)
  | collect (p : Ptr)
  | cleanup (p : Ptr)

variable [DecidableEq Identity]

def step (s : State Identity) : Label Identity → Option (State Identity)
  | .register identity isImportOrWindowsRuntime =>
    some (s.register identity isImportOrWindowsRuntime)
  | .getOrCreate isSealedClassInstance comObject isImportOrWindowsRuntime =>
    some (s.getOrCreateRCW isSealedClassInstance comObject isImportOrWindowsRuntime).1
  | .finish answer => (s.finish answer).map Prod.fst
  | .releaseComObject p => s.rcws[p]?.map (s.releaseComObject p)
  | .collect p => s.rcws[p]?.map (s.collect p)
  | .cleanup p => s.rcws[p]?.bind fun rcw =>
    if rcw.phase ≠ .cleaned then some ((s.cleanup p rcw).releaseIdentity p rcw) else none

/-- The transition system of the cache. -/
def lts : LTS (State Identity) (Label Identity) := .ofFun step

/-! ### The references to the identities -/

/-- The RCW is going to give back the reference. -/
def Il2CppComObject.owns (ref : Ref) (rcw : Il2CppComObject Identity) : Bool :=
  rcw.ref = some ref ∧ rcw.phase ≠ .cleaned

/-- The call has the reference. -/
def Call.owns (ref : Ref) (call : Call Identity) : Bool := call.ref = ref

namespace State

variable (s : State Identity)

/-- How many RCWs and calls own the reference. -/
def owners (ref : Ref) : ℕ :=
  s.rcws.countP (Il2CppComObject.owns ref) + s.calls.countP (Call.owns ref)

/-- How often the reference was given back or is owned. -/
def holders (ref : Ref) : ℕ := s.released.count ref + s.owners ref

/-- Each reference has been given back or is owned, by one RCW that is not cleaned up or by one
call. -/
def IdentitiesOwned : Prop := ∀ ref < s.references, s.released.count ref + s.owners ref = 1

/-- Each weak handle is stored in the cache or was freed. -/
def HandlesStored : Prop :=
  ∀ h < s.weakHandles.length, (∃ identity, s.cache identity = some h) ∨ h ∈ s.freed

/-- At most one RCW of an identity is live. -/
def OneLive : Prop :=
  ∀ (p q : Ptr) (a b : Il2CppComObject Identity),
    s.rcws[p]? = some a → s.rcws[q]? = some b → a.phase = .live → b.phase = .live →
    a.identity = b.identity → p = q

/-- What the cache is to guarantee. -/
structure Balances : Prop where
  identities : s.IdentitiesOwned
  handles : s.HandlesStored
  oneLive : s.OneLive

/-- The entry of the identity, if there is one, is of an RCW that is not dead. -/
def Usable (identity : Identity) : Prop :=
  ∀ weakRef ∈ s.cache identity, ∃ target ∈ s.getTarget weakRef, 1 < increment target.2.refCount

instance (identity : Identity) : Decidable (s.Usable identity) :=
  inferInstanceAs (Decidable (∀ weakRef ∈ s.cache identity,
    ∃ target ∈ s.getTarget weakRef, 1 < increment target.2.refCount))

end State

/-- No COM object is unboxed, and no exception is raised after `GetIdentity`. -/
def ReturnsReferences (_ : State Identity) : Label Identity → Prop
  | .finish .reboxed | .finish .raised => False
  | _ => True

/-- No entry of the cache is erased, and each new RCW is inserted. -/
def KeepsEntries (s : State Identity) : Label Identity → Prop
  | .register identity _ => s.cache identity = none
  | .getOrCreate isSealedClassInstance comObject _ =>
    (isSealedClassInstance = true ∨ comObject.isManagedObjectHolder = false) →
      ∀ identity ∈ comObject.identity, s.Usable identity
  | .finish (.objectClass _) => ∀ call ∈ s.calls.head?, s.cache call.identity = none
  | .cleanup p => ∀ rcw ∈ s.rcws[p]?, rcw.isImportOrWindowsRuntime = true →
      ∀ weakRef ∈ s.cache rcw.identity, ∃ target ∈ s.getTarget weakRef, target.1 ≠ p
  | _ => True

/-- Both. -/
def Regular (s : State Identity) (l : Label Identity) : Prop :=
  ReturnsReferences s l ∧ KeepsEntries s l

instance (s : State Identity) : ∀ l, Decidable (ReturnsReferences s l)
  | .finish .reboxed | .finish .raised => .isFalse id
  | .finish (.objectClass _) | .register .. | .getOrCreate .. | .releaseComObject _ | .collect _
  | .cleanup _ => .isTrue trivial

instance (s : State Identity) : ∀ l, Decidable (KeepsEntries s l)
  | .register identity _ => inferInstanceAs (Decidable (s.cache identity = none))
  | .getOrCreate isSealedClassInstance comObject _ => inferInstanceAs (Decidable
      ((isSealedClassInstance = true ∨ comObject.isManagedObjectHolder = false) →
        ∀ identity ∈ comObject.identity, s.Usable identity))
  | .finish (.objectClass _) =>
    inferInstanceAs (Decidable (∀ call ∈ s.calls.head?, s.cache call.identity = none))
  | .cleanup p => inferInstanceAs (Decidable (∀ rcw ∈ s.rcws[p]?,
      rcw.isImportOrWindowsRuntime = true →
        ∀ weakRef ∈ s.cache rcw.identity, ∃ target ∈ s.getTarget weakRef, target.1 ≠ p))
  | .finish .reboxed | .finish .raised | .releaseComObject _ | .collect _ => .isTrue trivial

instance (s : State Identity) (l : Label Identity) : Decidable (Regular s l) :=
  inferInstanceAs (Decidable (_ ∧ _))

namespace State

variable {s t : State Identity} {identity : Identity} {p : Ptr}
  {a b : Il2CppComObject Identity}

theorem lookup_cases (s : State Identity) (identity : Identity) :
    (s.cache identity = none ∧ s.lookup identity = (s, none)) ∨
    (∃ h, s.cache identity = some h ∧ s.getTarget h = none ∧
      s.lookup identity = (s.erase identity, none)) ∨
    (∃ h p obj, s.cache identity = some h ∧ s.getTarget h = some (p, obj) ∧
      1 < increment obj.refCount ∧ s.lookup identity =
        ({ s with rcws := s.rcws.set p { obj with refCount := increment obj.refCount } }, some p)) ∨
    (∃ h p obj, s.cache identity = some h ∧ s.getTarget h = some (p, obj) ∧
      ¬ 1 < increment obj.refCount ∧ s.lookup identity =
        ({ s with rcws := s.rcws.set p { obj with refCount := increment obj.refCount } }.erase
          identity, none)) := by
  cases hc : s.cache identity with
  | none => exact .inl ⟨rfl, by rw [lookup, hc]⟩
  | some h =>
    right
    cases ht : s.getTarget h with
    | none => exact .inl ⟨h, rfl, ht, by rw [lookup, hc]; simp only [ht]⟩
    | some x =>
      obtain ⟨p, obj⟩ := x
      right
      by_cases h1 : 1 < increment obj.refCount
      · exact .inl ⟨h, p, obj, rfl, ht, h1, by rw [lookup, hc]; simp only [ht, if_pos h1]⟩
      · exact .inr ⟨h, p, obj, rfl, ht, h1, by rw [lookup, hc]; simp only [ht, if_neg h1]⟩

theorem getOrCreateRCW_cases (s : State Identity) (sealed : Bool)
    (comObject : ComObject Identity) (i : Bool) :
    ((s.getOrCreateRCW sealed comObject i).1 = s ∧
      ((sealed = false ∧ comObject.isManagedObjectHolder = true) ∨ comObject.identity = none)) ∨
    ∃ identity, comObject.identity = some identity ∧
      (sealed = true ∨ comObject.isManagedObjectHolder = false) ∧
      ((∃ p, (s.getIdentity.lookup identity).2 = some p ∧
          (s.getOrCreateRCW sealed comObject i).1 =
            (s.getIdentity.lookup identity).1.release s.references) ∨
        ((s.getIdentity.lookup identity).2 = none ∧ sealed = true ∧
          (s.getOrCreateRCW sealed comObject i).1 =
            (s.getIdentity.lookup identity).1.create identity i (some s.references)) ∨
        ((s.getIdentity.lookup identity).2 = none ∧ sealed = false ∧
          (s.getOrCreateRCW sealed comObject i).1 =
            (s.getIdentity.lookup identity).1.enter ⟨identity, s.references⟩)) := by
  by_cases hm : sealed = false ∧ comObject.isManagedObjectHolder = true
  · exact .inl ⟨by rw [getOrCreateRCW, if_pos hm], .inl hm⟩
  · cases hid : comObject.identity with
    | none => exact .inl ⟨by rw [getOrCreateRCW, if_neg hm, hid], .inr rfl⟩
    | some identity =>
      have hs : sealed = true ∨ comObject.isManagedObjectHolder = false := by
        cases sealed <;> cases hh : comObject.isManagedObjectHolder <;> simp_all
      refine .inr ⟨identity, rfl, hs, ?_⟩
      rw [getOrCreateRCW, if_neg hm, hid]
      simp only
      generalize s.getIdentity.lookup identity = found
      obtain ⟨t, _ | p⟩ := found
      · cases sealed with
        | true => exact .inr (.inl ⟨rfl, rfl, rfl⟩)
        | false => exact .inr (.inr ⟨rfl, rfl, rfl⟩)
      · exact .inl ⟨p, rfl, rfl⟩

theorem cleanup_cases (s : State Identity) (p : Ptr) (a : Il2CppComObject Identity) :
    (s.cleanup p a = s ∧ (a.isImportOrWindowsRuntime = true →
      ∀ h ∈ s.cache a.identity, ∃ target ∈ s.getTarget h, target.1 ≠ p)) ∨
    (s.cleanup p a = s.erase a.identity ∧ a.isImportOrWindowsRuntime = true ∧
      ∃ h, s.cache a.identity = some h ∧ ∀ target ∈ s.getTarget h, target.1 = p) := by
  rw [cleanup]
  split_ifs with hi
  · cases hc : s.cache a.identity with
    | none => exact .inl ⟨rfl, by simp⟩
    | some h =>
      cases ht : s.getTarget h with
      | none => exact .inr ⟨by simp only [ht], hi, h, rfl, by simp [ht]⟩
      | some target =>
        by_cases hp : target.1 = p
        · exact .inr ⟨by simp only [ht, if_pos hp], hi, h, rfl, by simp [ht, hp]⟩
        · exact .inl ⟨by simp only [ht, if_neg hp], by rintro - _ ⟨⟩; exact ⟨target, ht, hp⟩⟩
  · exact .inl ⟨rfl, fun h => absurd h hi⟩

theorem finish_cases {answer : Answer} (h : (s.finish answer).map Prod.fst = some t) :
    ∃ call u, s = u.enter call ∧
      ((t = u ∧ (answer = .reboxed ∨ answer = .raised)) ∨
        ∃ i, answer = .objectClass i ∧ t = u.create call.identity i (some call.ref)) := by
  obtain ⟨⟨t', r⟩, ht, rfl⟩ := Option.map_eq_some_iff.1 h
  rw [finish] at ht
  split at ht
  · cases ht
  · rename_i call calls hcalls
    have hs : s = ({ s with calls := calls } : State Identity).enter call := by
      rw [enter, ← hcalls]
    refine ⟨call, { s with calls := calls }, hs, ?_⟩
    cases answer with
    | reboxed => cases ht; exact .inl ⟨rfl, .inl rfl⟩
    | raised => cases ht; exact .inl ⟨rfl, .inr rfl⟩
    | objectClass i => cases ht; exact .inr ⟨i, rfl, rfl⟩

/-! ### A step and the references -/

@[simp] theorem holders_erase (r : Ref) : (s.erase identity).holders r = s.holders r := rfl

@[simp] theorem erase_references : (s.erase identity).references = s.references := rfl

@[simp] theorem create_references {i : Bool} {ref : Option Ref} :
    (s.create identity i ref).references = s.references := by
  rw [create, insert]
  split_ifs <;> rfl

theorem holders_create (i : Bool) (ref : Option Ref) (r : ℕ) :
    (s.create identity i ref).holders r = s.holders r + (decide (ref = some r)).toNat := by
  let rcw : Il2CppComObject Identity := ⟨identity, 1, i, ref, .live⟩
  have h : (s.create identity i ref).holders r = s.released.count r +
      ((s.rcws ++ [rcw]).countP (Il2CppComObject.owns r) + s.calls.countP (Call.owns r)) := by
    rw [create, insert]
    split_ifs <;> rfl
  have howns : rcw.owns r = decide (ref = some r) := by simp [Il2CppComObject.owns, rcw]
  rw [h, holders, owners, List.countP_append, List.countP_singleton, howns]
  cases decide (ref = some r) <;> simp
  omega

omit [DecidableEq Identity] in
theorem holders_set (ha : s.rcws[p]? = some a) (b : Il2CppComObject Identity) (r : ℕ) :
    ({ s with rcws := s.rcws.set p b } : State Identity).holders r + (a.owns r).toNat =
      s.holders r + (b.owns r).toNat := by
  obtain ⟨n, hn, hset⟩ := countP_set_append (p := Il2CppComObject.owns r) ha
  have := hset b []
  rw [List.append_nil, List.countP_nil] at this
  simp only [holders, owners, this, hn]
  omega

omit [DecidableEq Identity] in
theorem holders_release (ref r : ℕ) :
    (s.release ref).holders r = s.holders r + (decide (ref = r)).toNat := by
  simp only [release, holders, owners, List.count_cons, beq_eq_decide]
  cases decide (ref = r) <;> simp
  omega

omit [DecidableEq Identity] in
theorem holders_enter (call : Call Identity) (r : ℕ) :
    (s.enter call).holders r = s.holders r + (call.owns r).toNat := by
  simp only [enter, holders, owners, List.countP_cons]
  cases call.owns r <;> simp
  omega

theorem lookup_frame (s : State Identity) (identity : Identity) :
    (s.lookup identity).1.references = s.references ∧
      ∀ r, (s.lookup identity).1.holders r = s.holders r := by
  have hset {h : Handle} {p : Ptr} {obj : Il2CppComObject Identity}
      (ht : s.getTarget h = some (p, obj)) (r : Ref) :
      ({ s with rcws := s.rcws.set p { obj with refCount := increment obj.refCount } } :
        State Identity).holders r = s.holders r :=
    Nat.add_right_cancel (holders_set (getTarget_eq_some.1 ht).2 _ r)
  obtain ⟨-, h⟩ | ⟨_, -, -, h⟩ | ⟨_, p, obj, -, ht, -, h⟩ | ⟨_, p, obj, -, ht, -, h⟩ :=
    lookup_cases s identity <;> rw [h]
  · exact ⟨rfl, fun _ => rfl⟩
  · exact ⟨rfl, fun _ => rfl⟩
  · exact ⟨rfl, hset ht⟩
  · exact ⟨rfl, hset ht⟩

/-- The references that a step obtains are owned or given back after it, and it does not change
how often the others are. -/
def Returns (s t : State Identity) : Prop :=
  s.references ≤ t.references ∧ ∀ r : ℕ,
    t.holders r = s.holders r + (decide (s.references ≤ r ∧ r < t.references)).toNat

omit [DecidableEq Identity] in
theorem returns_of_eq (href : t.references = s.references)
    (h : ∀ r : ℕ, t.holders r = s.holders r) : s.Returns t := by
  refine ⟨Nat.le_of_eq href.symm, fun r => ?_⟩
  rw [h, href, decide_eq_false (by omega)]
  rfl

omit [DecidableEq Identity] in
theorem returns_of_new (href : t.references = s.references + 1)
    (h : ∀ r : ℕ, t.holders r = s.holders r + (decide (s.references = r)).toNat) :
    s.Returns t := by
  refine ⟨by omega, fun r => ?_⟩
  rw [h, href]
  have hiff : s.references = r ↔ s.references ≤ r ∧ r < s.references + 1 := by omega
  simp only [hiff]

theorem getOrCreateRCW_returns (s : State Identity) (sealed : Bool)
    (comObject : ComObject Identity) (i : Bool) :
    s.Returns (s.getOrCreateRCW sealed comObject i).1 := by
  obtain ⟨h, -⟩ | ⟨identity, -, -, h⟩ := getOrCreateRCW_cases s sealed comObject i
  · rw [h]
    exact returns_of_eq rfl fun _ => rfl
  · obtain ⟨href, hhold⟩ := lookup_frame s.getIdentity identity
    obtain ⟨p, -, h⟩ | ⟨-, -, h⟩ | ⟨-, -, h⟩ := h
    · rw [h]
      refine returns_of_new href fun r => ?_
      rw [holders_release, hhold]
      rfl
    · rw [h]
      refine returns_of_new (create_references.trans href) fun r => ?_
      rw [holders_create, hhold]
      simp only [Option.some_inj]
      rfl
    · rw [h]
      refine returns_of_new href fun r => ?_
      rw [holders_enter, hhold]
      rfl

omit [DecidableEq Identity] in
theorem holders_releaseIdentity (hp : s.rcws[p]? = some a) (ha : a.phase ≠ .cleaned) (r : ℕ) :
    (s.releaseIdentity p a).holders r = s.holders r := by
  have hset := holders_set hp { a with phase := .cleaned } r
  have hold : a.owns r = decide (a.ref = some r) := by simp [Il2CppComObject.owns, ha]
  have hnew : Il2CppComObject.owns r { a with phase := .cleaned } = false := by
    simp [Il2CppComObject.owns]
  have hcount : a.ref.toList.count r = (decide (a.ref = some r)).toNat := by
    cases a.ref with
    | none => rfl
    | some r' => by_cases h : r' = r <;> simp [h]
  rw [hold, hnew, Bool.toNat_false, Nat.add_zero] at hset
  rw [← hset]
  simp only [holders, owners, releaseIdentity, List.count_append, hcount]
  omega

theorem holders_cleanup (s : State Identity) (p : Ptr) (a : Il2CppComObject Identity) :
    (s.cleanup p a).rcws = s.rcws ∧ (s.cleanup p a).references = s.references ∧
      ∀ r, (s.cleanup p a).holders r = s.holders r := by
  obtain ⟨h, -⟩ | ⟨h, -⟩ := cleanup_cases s p a <;> rw [h] <;> exact ⟨rfl, rfl, fun _ => rfl⟩

omit [DecidableEq Identity] in
theorem holders_update (hp : s.rcws[p]? = some a) (hb : b.ref = a.ref)
    (hphase : b.phase = .cleaned ↔ a.phase = .cleaned) (r : ℕ) :
    ({ s with rcws := s.rcws.set p b } : State Identity).holders r = s.holders r := by
  have howns : b.owns r = a.owns r := by
    simp only [Il2CppComObject.owns, hb, ne_eq, hphase]
  have := holders_set hp b r
  rw [howns] at this
  exact Nat.add_right_cancel this

end State

theorem step_references {s t : State Identity} {l : Label Identity} (ht : step s l = some t) :
    (ReturnsReferences s l ∧ s.Returns t) ∨
      (¬ ReturnsReferences s l ∧ ∃ call : Call Identity, t.references = s.references ∧
        ∀ r, s.holders r = t.holders r + (call.owns r).toNat) := by
  cases l with
  | register identity i =>
    cases ht
    refine .inl ⟨trivial, State.returns_of_eq State.create_references fun r => ?_⟩
    rw [State.register, State.holders_create]
    rfl
  | getOrCreate sealed comObject i =>
    cases ht
    exact .inl ⟨trivial, State.getOrCreateRCW_returns s sealed comObject i⟩
  | finish answer =>
    obtain ⟨call, u, rfl, ⟨rfl, ha⟩ | ⟨i, rfl, rfl⟩⟩ := State.finish_cases ht
    · refine .inr ⟨?_, call, rfl, State.holders_enter call⟩
      obtain rfl | rfl := ha <;> exact id
    · refine .inl ⟨trivial, State.returns_of_eq State.create_references fun r => ?_⟩
      rw [State.holders_create, State.holders_enter]
      simp only [Option.some_inj]
      rfl
  | releaseComObject p =>
    obtain ⟨a, ha, rfl⟩ := Option.map_eq_some_iff.1 ht
    refine .inl ⟨trivial, State.returns_of_eq rfl (State.holders_update ha rfl ?_)⟩
    split_ifs with h
    · simp [h.2]
    · rfl
  | collect p =>
    obtain ⟨a, ha, rfl⟩ := Option.map_eq_some_iff.1 ht
    refine .inl ⟨trivial, State.returns_of_eq rfl (State.holders_update ha rfl ?_)⟩
    split_ifs with h
    · simp [h]
    · rfl
  | cleanup p =>
    obtain ⟨a, ha, ht⟩ := Option.bind_eq_some_iff.1 ht
    obtain ⟨hphase, ⟨⟩⟩ := Option.ite_none_right_eq_some.1 ht
    obtain ⟨hrcws, href, hhold⟩ := State.holders_cleanup s p a
    refine .inl ⟨trivial, State.returns_of_eq href fun r => ?_⟩
    rw [State.holders_releaseIdentity (hrcws ▸ ha) hphase, hhold]

/-- No reference is given back twice or owned by two, and those that were not obtained are not
held. -/
structure State.Tally (s : State Identity) : Prop where
  le_one : ∀ r, s.holders r ≤ 1
  eq_zero : ∀ r, s.references ≤ r → s.holders r = 0

theorem tally {s : State Identity} (h : lts.Reachable init s) : s.Tally := by
  refine h.invariant (I := State.Tally) ⟨fun _ => Nat.zero_le 1, fun _ _ => rfl⟩ ?_
  rintro s l t ⟨h1, h0⟩ - ht
  obtain ⟨-, hle, hhold⟩ | ⟨-, call, href, hhold⟩ := step_references ht
  · refine ⟨fun r => ?_, fun r hr => ?_⟩
    · rw [hhold]
      by_cases hr : s.references ≤ r
      · rw [h0 r hr, Nat.zero_add]
        exact Bool.toNat_le _
      · rw [decide_eq_false (fun h => hr h.1)]
        exact h1 r
    · rw [hhold, h0 r (Nat.le_trans hle hr), decide_eq_false (fun h => Nat.not_lt.2 hr h.2)]
      rfl
  · refine ⟨fun r => ?_, fun r hr => ?_⟩
    · exact Nat.le_trans (Nat.le.intro (hhold r).symm) (h1 r)
    · have := h0 r (href ▸ hr)
      have := hhold r
      omega

theorem identitiesOwned_step {s t : State Identity} {l : Label Identity}
    (hs : lts.Reachable init s) (ht : step s l = some t) :
    t.IdentitiesOwned ↔ s.IdentitiesOwned ∧ ReturnsReferences s l := by
  obtain ⟨hl, hle, hhold⟩ | ⟨hnot, call, href, hhold⟩ := step_references ht
  · have hold {r : ℕ} (hr : r < s.references) : t.holders r = s.holders r := by
      rw [hhold, decide_eq_false fun h => Nat.not_le.2 hr h.1]
      rfl
    constructor
    · intro hown
      refine ⟨fun r hr => ?_, hl⟩
      have h1 : t.holders r = 1 := hown r (Nat.lt_of_lt_of_le hr hle)
      rwa [hold hr] at h1
    · rintro ⟨hown, -⟩ r hr
      change t.holders r = 1
      by_cases hr' : r < s.references
      · rw [hold hr']
        exact hown r hr'
      · rw [hhold, (tally hs).eq_zero r (Nat.not_lt.1 hr'), decide_eq_true ⟨Nat.not_lt.1 hr', hr⟩]
        rfl
  · refine ⟨fun hown => ?_, fun h => absurd h.2 hnot⟩
    -- the reference of the call was held once, and is not held any more
    have hcall := hhold call.ref
    rw [Call.owns, decide_eq_true rfl, Bool.toNat_true] at hcall
    have hle := (tally hs).le_one call.ref
    have hlt : call.ref < s.references := by
      by_contra hge
      have := (tally hs).eq_zero call.ref (Nat.not_lt.1 hge)
      omega
    have : t.holders call.ref = 1 := hown call.ref (href ▸ hlt)
    omega

/-! ### A step and the handles -/

namespace State

variable {s t : State Identity} {identity : Identity} {p : Ptr}
  {a b : Il2CppComObject Identity}

/-- The handles in the cache were created, and no two identities have the same. -/
structure Wf (s : State Identity) : Prop where
  lt : ∀ identity h, s.cache identity = some h → h < s.weakHandles.length
  inj : ∀ i j h, s.cache i = some h → s.cache j = some h → i = j
  freed : s.freed = []

omit [DecidableEq Identity] in
theorem not_handlesStored {h : Handle} (hf : s.freed = []) (hlt : h < s.weakHandles.length)
    (hc : ∀ identity, s.cache identity ≠ some h) : ¬ s.HandlesStored := by
  intro hs
  obtain ⟨identity, hi⟩ | hmem := hs h hlt
  · exact hc identity hi
  · rw [hf] at hmem
    cases hmem

omit [DecidableEq Identity] in
theorem Wf.of_le (hs : s.Wf) (hf : t.freed = s.freed)
    (hl : s.weakHandles.length ≤ t.weakHandles.length) (hc : t.cache = s.cache) : t.Wf where
  lt i h hi := Nat.lt_of_lt_of_le (hs.lt i h (hc ▸ hi)) hl
  inj i j h hi hj := hs.inj i j h (hc ▸ hi) (hc ▸ hj)
  freed := hf.trans hs.freed

theorem Wf.of_erase (hs : s.Wf) (hf : t.freed = s.freed)
    (hl : s.weakHandles.length ≤ t.weakHandles.length)
    (hc : t.cache = Function.update s.cache identity none) : t.Wf := by
  have hsub (i : Identity) (h : Handle) (hi : t.cache i = some h) : s.cache i = some h := by
    rw [hc] at hi
    by_cases hid : i = identity
    · rw [hid, Function.update_self] at hi
      cases hi
    · rwa [Function.update_of_ne hid] at hi
  exact ⟨fun i h hi => Nat.lt_of_lt_of_le (hs.lt i h (hsub i h hi)) hl,
    fun i j h hi hj => hs.inj i j h (hsub i h hi) (hsub j h hj), hf.trans hs.freed⟩

theorem Wf.of_insert (hs : s.Wf) (hf : t.freed = s.freed)
    (hl : t.weakHandles.length = s.weakHandles.length + 1)
    (hc : t.cache = Function.update s.cache identity (some s.weakHandles.length)) : t.Wf where
  lt i h hi := by
    rw [hc] at hi
    rw [hl]
    by_cases hid : i = identity
    · rw [hid, Function.update_self, Option.some_inj] at hi
      exact hi ▸ Nat.lt_succ_self _
    · rw [Function.update_of_ne hid] at hi
      exact Nat.lt_succ_of_lt (hs.lt i h hi)
  inj i j h hi hj := by
    have hnew (k : Identity) (hk : s.cache k = some h) : s.weakHandles.length ≠ h :=
      (Nat.ne_of_lt (hs.lt k h hk)).symm
    rw [hc] at hi hj
    by_cases hid : i = identity <;> by_cases hjd : j = identity
    · rw [hid, hjd]
    · rw [hid, Function.update_self, Option.some_inj] at hi
      rw [Function.update_of_ne hjd] at hj
      exact absurd hi (hnew j hj)
    · rw [hjd, Function.update_self, Option.some_inj] at hj
      rw [Function.update_of_ne hid] at hi
      exact absurd hj (hnew i hi)
    · rw [Function.update_of_ne hid] at hi
      rw [Function.update_of_ne hjd] at hj
      exact hs.inj i j h hi hj
  freed := hf.trans hs.freed

/-- A step that keeps the entries, and stores the handle that it creates, if any. -/
def Stores (s t : State Identity) : Prop :=
  t.freed = s.freed ∧
    ((t.weakHandles.length = s.weakHandles.length ∧ t.cache = s.cache) ∨
      ∃ identity, s.cache identity = none ∧ t.weakHandles.length = s.weakHandles.length + 1 ∧
        t.cache = Function.update s.cache identity (some s.weakHandles.length))

theorem Stores.wf (h : s.Stores t) (hs : s.Wf) : t.Wf := by
  obtain ⟨hf, ⟨hl, hc⟩ | ⟨identity, -, hl, hc⟩⟩ := h
  · exact hs.of_le hf (Nat.le_of_eq hl.symm) hc
  · exact hs.of_insert hf hl hc

theorem Stores.handlesStored_iff (h : s.Stores t) : t.HandlesStored ↔ s.HandlesStored := by
  obtain ⟨hf, ⟨hl, hc⟩ | ⟨identity, hnone, hl, hc⟩⟩ := h
  · simp only [HandlesStored, hf, hl, hc]
  · simp only [HandlesStored, hf, hl, hc]
    constructor
    · intro ht h hlt
      obtain ⟨i, hi⟩ | hmem := ht h (Nat.lt_succ_of_lt hlt)
      · by_cases hid : i = identity
        · rw [hid, Function.update_self, Option.some_inj] at hi
          exact absurd hi (Nat.ne_of_gt hlt)
        · exact .inl ⟨i, by rwa [Function.update_of_ne hid] at hi⟩
      · exact .inr hmem
    · intro hs h hlt
      obtain rfl | hlt := Nat.eq_or_lt_of_le (Nat.le_of_lt_succ hlt)
      · exact .inl ⟨identity, Function.update_self ..⟩
      · obtain ⟨i, hi⟩ | hmem := hs h hlt
        · have hid : i ≠ identity := by
            rintro rfl
            rw [hnone] at hi
            cases hi
          exact .inl ⟨i, by rwa [Function.update_of_ne hid]⟩
        · exact .inr hmem

theorem create_entries (s : State Identity) (identity : Identity) (i : Bool) (ref : Option Ref) :
    (s.create identity i ref).freed = s.freed ∧
      (s.create identity i ref).weakHandles.length = s.weakHandles.length + 1 ∧
      (s.create identity i ref).cache = if s.cache identity = none then
        Function.update s.cache identity (some s.weakHandles.length) else s.cache := by
  rw [create, insert]
  split_ifs <;> simp

theorem lookup_entries (s : State Identity) (identity : Identity) :
    (s.lookup identity).1.freed = s.freed ∧
      (s.lookup identity).1.weakHandles = s.weakHandles ∧
      ((s.Usable identity ∧ (s.lookup identity).1.cache = s.cache ∧
          ((s.lookup identity).2 = none → s.cache identity = none)) ∨
        ((∃ h, s.cache identity = some h) ∧ (s.lookup identity).2 = none ∧
          ¬ s.Usable identity ∧
          (s.lookup identity).1.cache = Function.update s.cache identity none)) := by
  obtain ⟨hc, h⟩ | ⟨w, hc, ht, h⟩ | ⟨w, p, obj, hc, ht, h1, h⟩ | ⟨w, p, obj, hc, ht, h1, h⟩ :=
    lookup_cases s identity <;> rw [h]
  · exact ⟨rfl, rfl, .inl ⟨by simp [Usable, hc], rfl, fun _ => hc⟩⟩
  · exact ⟨rfl, rfl, .inr ⟨⟨w, hc⟩, rfl, by simp [Usable, hc, ht], rfl⟩⟩
  · refine ⟨rfl, rfl, .inl ⟨fun w' hw => ?_, rfl, fun hnone => by cases hnone⟩⟩
    cases hc.symm.trans hw
    exact ⟨(p, obj), ht, h1⟩
  · refine ⟨rfl, rfl, .inr ⟨⟨w, hc⟩, rfl, fun hu => ?_, rfl⟩⟩
    obtain ⟨target, htarget, h2⟩ := hu w hc
    cases ht.symm.trans htarget
    exact h1 h2

theorem create_stores (h : s.cache identity = none) (i : Bool) (ref : Option Ref) :
    s.Stores (s.create identity i ref) := by
  obtain ⟨hf, hl, hc⟩ := create_entries s identity i ref
  rw [if_pos h] at hc
  exact ⟨hf, .inr ⟨identity, h, hl, hc⟩⟩

theorem Wf.create (hs : s.Wf) {w : Handle} (h : s.cache identity = some w) (i : Bool)
    (ref : Option Ref) :
    (s.create identity i ref).Wf ∧ ¬ (s.create identity i ref).HandlesStored := by
  obtain ⟨hf, hl, hc⟩ := create_entries s identity i ref
  rw [if_neg (by simp [h])] at hc
  refine ⟨hs.of_le hf (by omega) hc, ?_⟩
  refine not_handlesStored (h := s.weakHandles.length) (hf.trans hs.freed) ?_ ?_
  · rw [hl]
    exact Nat.lt_succ_self _
  intro j hj
  rw [hc] at hj
  exact Nat.lt_irrefl _ (hs.lt j _ hj)

theorem Wf.lost (hs : s.Wf) {w : Handle} (h : s.cache identity = some w)
    (hf : t.freed = s.freed) (hl : s.weakHandles.length ≤ t.weakHandles.length)
    (hc : ∀ i, i ≠ identity → t.cache i = s.cache i) (hne : t.cache identity ≠ some w) :
    ¬ t.HandlesStored := by
  have hlt := Nat.lt_of_lt_of_le (hs.lt identity w h) hl
  refine not_handlesStored (hf.trans hs.freed) hlt fun i hi => ?_
  by_cases hid : i = identity
  · exact hne (hid ▸ hi)
  · rw [hc i hid] at hi
    exact hid (hs.inj i identity w hi h)

theorem getOrCreateRCW_stores {sealed i : Bool} {comObject : ComObject Identity}
    (hl : KeepsEntries s (.getOrCreate sealed comObject i)) :
    s.Stores (s.getOrCreateRCW sealed comObject i).1 := by
  obtain ⟨h, -⟩ | ⟨identity, hid, hsealed, h⟩ := getOrCreateRCW_cases s sealed comObject i
  · rw [h]
    exact ⟨rfl, .inl ⟨rfl, rfl⟩⟩
  · obtain ⟨hf, hw, hu⟩ := lookup_entries s.getIdentity identity
    have huse : s.getIdentity.Usable identity := hl hsealed identity hid
    obtain ⟨-, hc, hnone⟩ | ⟨-, -, hnot, -⟩ := hu
    · obtain ⟨p, -, h⟩ | ⟨h2, -, h⟩ | ⟨-, -, h⟩ := h
      · rw [h]
        exact ⟨hf, .inl ⟨congrArg List.length hw, hc⟩⟩
      · rw [h]
        obtain ⟨hf', hl', hc'⟩ := create_entries (s.getIdentity.lookup identity).1 identity i
          (some s.references)
        rw [hc, if_pos (hnone h2), hw] at hc'
        rw [hw] at hl'
        exact ⟨hf'.trans hf, .inr ⟨identity, hnone h2, hl', hc'⟩⟩
      · rw [h]
        exact ⟨hf, .inl ⟨congrArg List.length hw, hc⟩⟩
    · exact absurd huse hnot

theorem Wf.getOrCreateRCW (hs : s.Wf) {sealed i : Bool} {comObject : ComObject Identity}
    (hl : ¬ KeepsEntries s (.getOrCreate sealed comObject i)) :
    (s.getOrCreateRCW sealed comObject i).1.Wf ∧
      ¬ (s.getOrCreateRCW sealed comObject i).1.HandlesStored := by
  obtain ⟨-, h⟩ | ⟨identity, hid, hsealed, h⟩ := getOrCreateRCW_cases s sealed comObject i
  · refine absurd (fun hr identity hid => ?_) hl
    obtain ⟨rfl, hm⟩ | hnone := h
    · rw [hm] at hr
      simp at hr
    · rw [hnone] at hid
      cases hid
  · obtain ⟨hf, hw, hu⟩ := lookup_entries s.getIdentity identity
    have hlen : (s.getIdentity.lookup identity).1.weakHandles.length = s.weakHandles.length :=
      congrArg List.length hw
    obtain ⟨huse, -⟩ | ⟨⟨w, hentry⟩, hnone, -, hc⟩ := hu
    · refine absurd (fun _ identity' hid' => ?_) hl
      cases hid.symm.trans hid'
      exact huse
    · have hother (j : Identity) (hj : j ≠ identity) :
          (s.getIdentity.lookup identity).1.cache j = s.cache j := by
        rw [hc, Function.update_of_ne hj]
        rfl
      obtain ⟨p, hp, -⟩ | ⟨-, -, h⟩ | ⟨-, -, h⟩ := h
      · rw [hnone] at hp
        cases hp
      · rw [h]
        obtain ⟨hf', hl', hc'⟩ := create_entries (s.getIdentity.lookup identity).1 identity i
          (some s.references)
        rw [if_pos (by rw [hc, Function.update_self]), hlen, hc, Function.update_idem] at hc'
        rw [hlen] at hl'
        refine ⟨hs.of_insert (hf'.trans hf) hl' hc', ?_⟩
        refine hs.lost hentry (hf'.trans hf) (by omega) (fun j hj => ?_) ?_
        · rw [hc', Function.update_of_ne hj]
          rfl
        · rw [hc', Function.update_self, ne_eq, Option.some_inj]
          exact Nat.ne_of_gt (hs.lt identity w hentry)
      · rw [h]
        refine ⟨hs.of_erase hf (Nat.le_of_eq hlen.symm) hc, ?_⟩
        refine hs.lost hentry hf (Nat.le_of_eq hlen.symm) hother ?_
        change (s.getIdentity.lookup identity).1.cache identity ≠ some w
        rw [hc, Function.update_self]
        simp

end State

theorem step_entries {s t : State Identity} {l : Label Identity} (hs : s.Wf)
    (ht : step s l = some t) :
    (KeepsEntries s l ∧ s.Stores t) ∨ (¬ KeepsEntries s l ∧ t.Wf ∧ ¬ t.HandlesStored) := by
  cases l with
  | register identity i =>
    cases ht
    cases hc : s.cache identity with
    | none => exact .inl ⟨hc, State.create_stores hc i none⟩
    | some w => exact .inr ⟨by simp [KeepsEntries, hc], hs.create hc i none⟩
  | getOrCreate sealed comObject i =>
    cases ht
    by_cases hl : KeepsEntries s (.getOrCreate sealed comObject i)
    · exact .inl ⟨hl, State.getOrCreateRCW_stores hl⟩
    · exact .inr ⟨hl, hs.getOrCreateRCW hl⟩
  | finish answer =>
    obtain ⟨call, u, rfl, ⟨rfl, ha⟩ | ⟨i, rfl, rfl⟩⟩ := State.finish_cases ht
    · refine .inl ⟨?_, rfl, .inl ⟨rfl, rfl⟩⟩
      obtain rfl | rfl := ha <;> trivial
    · have hu : u.Wf := ⟨hs.lt, hs.inj, hs.freed⟩
      cases hc : u.cache call.identity with
      | none =>
        refine .inl ⟨fun call' hcall => ?_, State.create_stores hc i _⟩
        cases hcall
        exact hc
      | some w =>
        refine .inr ⟨fun hl => ?_, hu.create hc i _⟩
        have : u.cache call.identity = none := hl call rfl
        rw [hc] at this
        cases this
  | releaseComObject p =>
    obtain ⟨a, ha, rfl⟩ := Option.map_eq_some_iff.1 ht
    exact .inl ⟨trivial, rfl, .inl ⟨rfl, rfl⟩⟩
  | collect p =>
    obtain ⟨a, ha, rfl⟩ := Option.map_eq_some_iff.1 ht
    exact .inl ⟨trivial, rfl, .inl ⟨List.length_map .., rfl⟩⟩
  | cleanup p =>
    obtain ⟨a, ha, ht⟩ := Option.bind_eq_some_iff.1 ht
    obtain ⟨hphase, ⟨⟩⟩ := Option.ite_none_right_eq_some.1 ht
    obtain ⟨h, hkeep⟩ | ⟨h, hi, w, hc, hp⟩ := State.cleanup_cases s p a
    · refine .inl ⟨fun rcw hrcw => ?_, by rw [h]; rfl, .inl (by rw [h]; exact ⟨rfl, rfl⟩)⟩
      cases ha.symm.trans hrcw
      exact hkeep
    · refine .inr ⟨fun hl => ?_, ?_, ?_⟩
      · obtain ⟨target, htarget, hne⟩ := hl a ha hi w hc
        exact hne (hp target htarget)
      · rw [h]
        exact hs.of_erase rfl (Nat.le_refl _) rfl
      · rw [h]
        refine hs.lost hc rfl (Nat.le_refl _) (fun i hi => Function.update_of_ne hi _ _) ?_
        change Function.update s.cache a.identity none a.identity ≠ some w
        rw [Function.update_self]
        simp

theorem wf {s : State Identity} (h : lts.Reachable init s) : s.Wf := by
  refine h.invariant (I := State.Wf) ⟨nofun, nofun, rfl⟩ fun s l t hs _ ht => ?_
  obtain ⟨-, hst⟩ | ⟨-, hw, -⟩ := step_entries hs ht
  · exact hst.wf hs
  · exact hw

theorem handlesStored_step {s t : State Identity} {l : Label Identity} (hs : s.Wf)
    (ht : step s l = some t) : t.HandlesStored ↔ s.HandlesStored ∧ KeepsEntries s l := by
  obtain ⟨hl, hst⟩ | ⟨hl, -, hnot⟩ := step_entries hs ht
  · exact hst.handlesStored_iff.trans (and_iff_left hl).symm
  · exact ⟨fun h => absurd h hnot, fun h => absurd h.2 hl⟩

/-! ### One live RCW for each identity -/

/-- Each new RCW is of an identity without an entry, and the count of a live RCW does not
overflow. -/
def InsertsFresh (s : State Identity) : Label Identity → Prop
  | .register identity _ => s.cache identity = none
  | .getOrCreate isSealedClassInstance comObject _ =>
    (isSealedClassInstance = true ∨ comObject.isManagedObjectHolder = false) →
      ∀ identity ∈ comObject.identity, ∀ weakRef ∈ s.cache identity,
        ∀ target ∈ s.getTarget weakRef, target.2.phase = .live → target.2.refCount ≠ int32Max
  | .finish (.objectClass _) => ∀ call ∈ s.calls.head?, s.cache call.identity = none
  | _ => True

namespace State

variable {s t : State Identity} {identity : Identity} {p : Ptr}
  {a b : Il2CppComObject Identity}

/-- A live RCW has a positive count, and is the one that the cache has for its identity. -/
def Cached (s : State Identity) : Prop :=
  ∀ p a, s.rcws[p]? = some a → a.phase = .live →
    0 < a.refCount ∧ ∃ h, s.cache a.identity = some h ∧ s.weakHandles[h]? = some (some p)

omit [DecidableEq Identity] in
theorem Cached.oneLive (hs : s.Cached) : s.OneLive := by
  intro p q a b hp hq ha hb hid
  obtain ⟨-, h, hc, hw⟩ := hs p a hp ha
  obtain ⟨-, h', hc', hw'⟩ := hs q b hq hb
  rw [hid, hc'] at hc
  cases hc
  rw [hw'] at hw
  cases hw
  rfl

theorem Cached.create (hs : s.Cached) (hc : s.cache identity = none) (i : Bool)
    (ref : Option Ref) : (s.create identity i ref).Cached := by
  intro p a hp ha
  rw [State.create, insert, if_pos hc] at hp ⊢
  simp only at hp ⊢
  by_cases hlt : p < s.rcws.length
  · rw [List.getElem?_append_left hlt] at hp
    obtain ⟨hpos, h, hh, hw⟩ := hs p a hp ha
    have hid : a.identity ≠ identity := by
      rintro rfl
      rw [hc] at hh
      cases hh
    refine ⟨hpos, h, by rwa [Function.update_of_ne hid], ?_⟩
    rw [List.getElem?_append_left (List.getElem?_eq_some_iff.1 hw).1, hw]
  · obtain ⟨n, rfl⟩ := Nat.exists_eq_add_of_le (Nat.not_lt.1 hlt)
    rw [List.getElem?_append_right (Nat.le_add_right ..), Nat.add_sub_cancel_left] at hp
    cases n with
    | succ n => cases hp
    | zero =>
      cases hp
      exact ⟨Int.one_pos, _, Function.update_self .., by simp⟩

omit [DecidableEq Identity] in
theorem Cached.set (hs : s.Cached) (hp : s.rcws[p]? = some a) (hid : b.identity = a.identity)
    (hb : b.phase = .live → a.phase = .live ∧ 0 < b.refCount) :
    ({ s with rcws := s.rcws.set p b } : State Identity).Cached := by
  intro q c hq hc
  simp only [List.getElem?_set] at hq
  split_ifs at hq with hpq hlt
  · cases hq
    obtain ⟨ha, hpos⟩ := hb hc
    obtain ⟨-, hh⟩ := hs p a hp ha
    rw [← hpq, hid]
    exact ⟨hpos, hh⟩
  · exact hs q c hq hc

theorem Cached.erase (hs : s.Cached)
    (hdead : ∀ (q : Ptr) (b : Il2CppComObject Identity), s.rcws[q]? = some b →
      b.phase = .live → b.identity ≠ identity) :
    (s.erase identity).Cached := by
  intro q b hq hb
  obtain ⟨hpos, h, hh, hw⟩ := hs q b hq hb
  exact ⟨hpos, h, (Function.update_of_ne (hdead q b hq hb) _ _).trans hh, hw⟩

omit [DecidableEq Identity] in
theorem Cached.collect (hs : s.Cached) (hdead : ∀ b, s.rcws[p]? = some b → b.phase ≠ .live) :
    ({ s with weakHandles := s.weakHandles.map fun t => if t = some p then none else t } :
      State Identity).Cached := by
  intro q b hq hb
  obtain ⟨hpos, h, hh, hw⟩ := hs q b hq hb
  have hne : q ≠ p := by
    rintro rfl
    exact hdead b hq hb
  exact ⟨hpos, h, hh, by simp [hw, hne]⟩

theorem Cached.lookup (hs : s.Cached) (hno : ∀ weakRef ∈ s.cache identity,
      ∀ target ∈ s.getTarget weakRef, target.2.phase = .live → target.2.refCount ≠ int32Max) :
    (s.lookup identity).1.Cached ∧
      ((s.lookup identity).2 = none → (s.lookup identity).1.cache identity = none) := by
  obtain ⟨hc, h⟩ | ⟨w, hc, ht, h⟩ | ⟨w, p, obj, hc, ht, h1, h⟩ | ⟨w, p, obj, hc, ht, h1, h⟩ :=
    lookup_cases s identity <;> rw [h]
  · exact ⟨hs, fun _ => hc⟩
  · refine ⟨hs.erase fun q b hq hb => ?_, fun _ => Function.update_self ..⟩
    rintro rfl
    obtain ⟨-, w', hw', htarget⟩ := hs q b hq hb
    cases hc.symm.trans hw'
    rw [getTarget_eq_some.2 ⟨htarget, hq⟩] at ht
    cases ht
  · refine ⟨hs.set (getTarget_eq_some.1 ht).2 rfl fun hb => ⟨hb, ?_⟩, fun hnone => by cases hnone⟩
    exact Int.lt_trans Int.one_pos h1
  · have hobj := (getTarget_eq_some.1 ht).2
    have hdead : obj.phase ≠ .live := fun hl =>
      h1 (one_lt_increment (hs p obj hobj hl).1 (hno w hc _ ht hl))
    have hset := hs.set (b := { obj with refCount := increment obj.refCount }) hobj rfl
      fun hb => absurd hb hdead
    refine ⟨hset.erase fun q b hq hb => ?_, fun _ => Function.update_self ..⟩
    -- the entry is of `p`, which is not live
    rintro rfl
    obtain ⟨-, w', hw', htarget⟩ := hset q b hq hb
    cases hc.symm.trans hw'
    cases (getTarget_eq_some.1 ht).1.symm.trans htarget
    rw [List.getElem?_set_self (List.getElem?_eq_some_iff.1 hobj).1] at hq
    cases hq
    exact hdead hb

end State

theorem step_cached {s t : State Identity} {l : Label Identity} (hs : s.Cached)
    (hl : InsertsFresh s l) (ht : step s l = some t) : t.Cached := by
  cases l with
  | register identity i =>
    cases ht
    exact hs.create hl i none
  | getOrCreate sealed comObject i =>
    cases ht
    obtain ⟨h, -⟩ | ⟨identity, hid, hsealed, h⟩ := State.getOrCreateRCW_cases s sealed comObject i
    · rwa [h]
    · have hs' : s.getIdentity.Cached := hs
      obtain ⟨hcached, hnone⟩ := hs'.lookup (hl hsealed identity hid)
      obtain ⟨p, -, h⟩ | ⟨h2, -, h⟩ | ⟨-, -, h⟩ := h
      · rw [h]
        exact hcached
      · rw [h]
        exact hcached.create (hnone h2) i _
      · rw [h]
        exact hcached
  | finish answer =>
    obtain ⟨call, u, rfl, ⟨rfl, -⟩ | ⟨i, rfl, rfl⟩⟩ := State.finish_cases ht
    · exact hs
    · have hu : u.Cached := hs
      exact hu.create (hl call rfl) i _
  | releaseComObject p =>
    obtain ⟨a, ha, rfl⟩ := Option.map_eq_some_iff.1 ht
    refine hs.set ha rfl fun hb => ?_
    simp only at hb ⊢
    split_ifs at hb with h0
    obtain ⟨hpos, -⟩ := hs p a ha hb
    rw [decrement_of_pos hpos] at h0 ⊢
    have hne : a.refCount - 1 ≠ 0 := fun h => h0 ⟨h, hb⟩
    exact ⟨hb, by omega⟩
  | collect p =>
    obtain ⟨a, ha, rfl⟩ := Option.map_eq_some_iff.1 ht
    have hset := hs.set (b := { a with phase := if a.phase = .live then .queued else a.phase }) ha
      rfl fun hb => by
        simp only at hb
        split_ifs at hb with h
        exact absurd hb h
    refine hset.collect fun b hb => ?_
    rw [List.getElem?_set_self (List.getElem?_eq_some_iff.1 ha).1] at hb
    cases hb
    simp only
    split_ifs with h
    · simp
    · exact h
  | cleanup p =>
    obtain ⟨a, ha, ht⟩ := Option.bind_eq_some_iff.1 ht
    obtain ⟨-, ⟨⟩⟩ := Option.ite_none_right_eq_some.1 ht
    have hset := hs.set (b := { a with phase := .cleaned }) ha rfl fun hb => by cases hb
    obtain ⟨h, -⟩ | ⟨h, -, w, hc, hp⟩ := State.cleanup_cases s p a
    · rw [h]
      exact hset
    · rw [h]
      refine hset.erase fun q b hq hb hid => ?_
      -- a live RCW of the identity would be `p`, which is cleaned up
      obtain ⟨-, w', hw', htarget⟩ := hset q b hq hb
      rw [hid] at hw'
      cases hc.symm.trans hw'
      by_cases hpq : p = q
      · subst hpq
        rw [List.getElem?_set_self (List.getElem?_eq_some_iff.1 ha).1] at hq
        cases hq
        cases hb
      · rw [List.getElem?_set_ne hpq] at hq
        exact hpq (hp _ (State.getTarget_eq_some.2 ⟨htarget, hq⟩)).symm

/-- **At most one RCW of an identity is live**, when each new one is inserted into the cache and
the count of a live one does not overflow: whatever is released, collected and cleaned up. -/
theorem oneLive {s : State Identity} (h : lts.ReachWith InsertsFresh init s) : s.OneLive := by
  have hs : s.Cached :=
    h.invariant (fun _ _ hp => by cases hp) fun _ _ _ hs hl ht => step_cached hs hl ht
  exact hs.oneLive

/-! ### All three -/

omit [DecidableEq Identity] in
theorem InsertsFresh.of_keepsEntries {s : State Identity} {l : Label Identity}
    (hl : KeepsEntries s l) : InsertsFresh s l := by
  cases l with
  | register identity i => exact hl
  | getOrCreate sealed comObject i =>
    intro hsealed identity hid w hw target htarget _ hmax
    obtain ⟨target', htarget', h1⟩ := hl hsealed identity hid w hw
    cases htarget.symm.trans htarget'
    rw [hmax] at h1
    exact absurd h1 (by decide)
  | finish answer =>
    cases answer with
    | objectClass i => exact hl
    | reboxed => trivial
    | raised => trivial
  | releaseComObject p => trivial
  | collect p => trivial
  | cleanup p => trivial

/-- **The cache balances** after exactly the runs that unbox no COM object, raise no exception
after `GetIdentity`, erase no entry and insert each new RCW. -/
theorem rcwCache_balances {s : State Identity} :
    lts.ReachWith Regular init s ↔ lts.Reachable init s ∧ s.Balances := by
  have hiff : lts.ReachWith Regular init s ↔
      lts.Reachable init s ∧ s.IdentitiesOwned ∧ s.HandlesStored := by
    refine LTS.reachWith_iff (P := fun s : State Identity => s.IdentitiesOwned ∧ s.HandlesStored)
      ⟨fun r hr => absurd hr (Nat.not_lt_zero r), fun h hh => absurd hh (Nat.not_lt_zero h)⟩ ?_
    intro s l t hs ht
    rw [identitiesOwned_step hs ht, handlesStored_step (wf hs) ht, Regular]
    exact and_and_and_comm
  constructor
  · intro h
    obtain ⟨hreach, hid, hstored⟩ := hiff.1 h
    exact ⟨hreach, hid, hstored, oneLive (h.mono fun _ _ hl => .of_keepsEntries hl.2)⟩
  · rintro ⟨hreach, hid, hstored, -⟩
    exact hiff.2 ⟨hreach, hid, hstored⟩

/-- A COM object that is not our own wrapper. -/
def comObject : ComObject Unit := ⟨false, some ()⟩

/-- An RCW is collected and cleaned up, and the next COM object of the identity is unboxed. -/
def unboxed : List (Label Unit) :=
  [.getOrCreate true comObject true, .collect 0, .cleanup 0, .getOrCreate false comObject true,
   .finish .reboxed]

/-- The weak handle of the first RCW and the reference of the unboxed object are lost. -/
theorem rcwCache_unbalanced : ¬ ∀ s : State Unit, lts.Reachable init s → s.Balances := by
  intro h
  obtain ⟨s, hs, hf, hl, hc⟩ := LTS.exists_reachWith (f := step) (G := fun _ _ => True)
    (i := init) unboxed (fun s : State Unit => s.freed = [] ∧ 0 < s.weakHandles.length ∧
      s.cache () = none) (by decide)
  refine State.not_handlesStored hf hl (fun i => ?_) (h s hs).handles
  rw [hc]
  simp

end RCW

end Il2Cpp
