import Il2Cpp.LTS.Basic

/-!
# The storage of thread-static fields

`Thread::AllocThreadStaticData` hands out an index and allocates a block for it in each registered
thread; a thread that attaches allocates the blocks for the indices there are already, and frees
its blocks when it detaches.  Each of these parts runs under `s_ThreadMutex`, so that it is one
step.

* `State`, `step` : the threads, their storage and the blocks, and the steps.
* `Owned` : a block that is allocated is in the storage of its thread.
* `Inv` : the invariant, which holds as long as no index is handed out while a thread has freed its
  storage and is still registered.
* `storage_allocated_and_freed` : the main result.
* `leaked_block` : what an index does that is handed out in between.
-/

namespace Il2Cpp

namespace ThreadStatic

/-- `kMaxThreadStaticSlots`. -/
def kMaxThreadStaticSlots : ℕ := 2048

/-- A block, with the thread for which it was allocated. -/
structure Allocation (T : Type) where
  owner : T
  size : ℕ
  deriving DecidableEq

/-- `static_data`: the block of the array, and the pointers in it. -/
structure StaticData where
  array : ℕ
  slots : ℕ → Option ℕ

/-- How far a thread is with `InitializeManagedThread` and `UninitializeManagedThread`. -/
inductive Phase
  | unattached
  /-- after `Register` -/
  | registered
  /-- after `AdjustStaticData` -/
  | attached
  /-- after `FreeThreadStaticData` -/
  | freed
  /-- after `Unregister` -/
  | detached
  deriving DecidableEq

/-- The threads `T` with their storage.  Blocks are numbered in the order of their allocation. -/
structure State (T : Type) where
  /-- `s_ThreadStaticSizes` -/
  threadStaticSizes : List ℕ
  /-- `s_AttachedThreads` -/
  attachedThreads : List T
  staticData : T → Option StaticData
  /-- The blocks that are allocated. -/
  heap : ℕ → Option (Allocation T)
  next : ℕ
  phase : T → Phase

namespace State

variable {T : Type} [DecidableEq T]

omit [DecidableEq T] in
/-- A new block; its number is `next`. -/
def allocate (s : State T) (block : Allocation T) : State T :=
  { s with
    heap := Function.update s.heap s.next (some block)
    next := s.next + 1 }

/-- `if (!static_data) static_data = IL2CPP_CALLOC(kMaxThreadStaticSlots, sizeof(void*))`. -/
def ensureStaticData (s : State T) (thread : T) : State T :=
  match s.staticData thread with
  | some _ => s
  | none =>
    { s.allocate ⟨thread, kMaxThreadStaticSlots * 8⟩ with
      staticData := Function.update s.staticData thread (some ⟨s.next, fun _ => none⟩) }

/-- The pointer `static_data[index]` of a thread. -/
def slot (s : State T) (thread : T) (index : ℕ) : Option ℕ :=
  (s.staticData thread).bind fun data => data.slots index

/-- The block of the array of a thread. -/
def array (s : State T) (thread : T) : Option ℕ := (s.staticData thread).map (·.array)

/-- `static_data[index] = AllocateFixed(size)`.  Behind the end of the array nothing is stored. -/
def allocateSlot (s : State T) (thread : T) (index size : ℕ) : State T :=
  { s.allocate ⟨thread, size⟩ with
    staticData := Function.update s.staticData thread <|
      (s.staticData thread).map fun data =>
        if index < kMaxThreadStaticSlots then
          { data with slots := Function.update data.slots index (some s.next) }
        else data }

/-- The loop of `AdjustStaticData`. -/
def adjustLoop (thread : T) : List ℕ → ℕ → State T → State T
  | [], _, s => s
  | size :: sizes, index, s =>
    adjustLoop thread sizes (index + 1)
      (if (s.slot thread index).isNone then s.allocateSlot thread index size else s)

/-- `AdjustStaticData`. -/
def adjustStaticData (s : State T) (thread : T) : State T :=
  adjustLoop thread s.threadStaticSizes 0 (s.ensureStaticData thread)

/-- `AllocThreadStaticData`. -/
def allocThreadStaticData (s : State T) (size : ℕ) : State T :=
  let index := s.threadStaticSizes.length
  s.attachedThreads.foldl
    (fun s thread => (s.ensureStaticData thread).allocateSlot thread index size)
    { s with threadStaticSizes := s.threadStaticSizes ++ [size] }

omit [DecidableEq T] in
/-- `FreeFixed` or `IL2CPP_FREE`. -/
def free (s : State T) (block : ℕ) : State T :=
  { s with heap := Function.update s.heap block none }

/-- `FreeThreadStaticData`; `none` when `static_data` is NULL and is read. -/
def freeThreadStaticData (s : State T) (thread : T) : Option (State T) :=
  match s.staticData thread with
  | none => if s.threadStaticSizes = [] then some s else none
  | some data =>
    let s := ((List.range s.threadStaticSizes.length).filterMap data.slots).foldl free s
    some { s.free data.array with staticData := Function.update s.staticData thread none }

/-- `Register`. -/
def register (s : State T) (thread : T) : State T :=
  { s with attachedThreads := s.attachedThreads ++ [thread] }

/-- `Unregister`. -/
def unregister (s : State T) (thread : T) : State T :=
  { s with attachedThreads := s.attachedThreads.erase thread }

def setPhase (s : State T) (thread : T) (phase : Phase) : State T :=
  { s with phase := Function.update s.phase thread phase }

end State

/-- The steps of the threads. -/
inductive Action (T : Type)
  | register (thread : T)
  | adjustStaticData (thread : T)
  | allocThreadStaticData (size : ℕ)
  | freeThreadStaticData (thread : T)
  | unregister (thread : T)
  deriving DecidableEq

section

variable {T : Type} [DecidableEq T]

/-- A step. -/
def step (s : State T) : Action T → Option (State T)
  | .register thread =>
    if s.phase thread = .unattached then some ((s.register thread).setPhase thread .registered)
    else none
  | .adjustStaticData thread =>
    if s.phase thread = .registered then
      some ((s.adjustStaticData thread).setPhase thread .attached)
    else none
  | .allocThreadStaticData size => some (s.allocThreadStaticData size)
  | .freeThreadStaticData thread =>
    if s.phase thread = .attached then
      (s.freeThreadStaticData thread).map (·.setPhase thread .freed)
    else none
  | .unregister thread =>
    if s.phase thread = .freed then some ((s.unregister thread).setPhase thread .detached)
    else none

omit [DecidableEq T] in
/-- No thread is attached, and no index has been handed out. -/
def initial : State T where
  threadStaticSizes := []
  attachedThreads := []
  staticData _ := none
  heap _ := none
  next := 0
  phase _ := .unattached

/-- An index is handed out only while no thread is between `FreeThreadStaticData` and `Unregister`,
and while there is room in the arrays, which the code asserts. -/
def Timely (s : State T) (a : Action T) : Prop :=
  ∀ size, a = .allocThreadStaticData size →
    s.threadStaticSizes.length < kMaxThreadStaticSlots ∧ ∀ thread, s.phase thread ≠ .freed

end

/-! ### The blocks -/

namespace State

variable {T : Type} [DecidableEq T] {s : State T} {thread thread' : T} {index index' size : ℕ}

theorem slot_ensureStaticData (s : State T) (thread thread' : T) (index : ℕ) :
    (s.ensureStaticData thread).slot thread' index = s.slot thread' index := by
  rw [ensureStaticData]
  split
  · rfl
  · rename_i h
    by_cases ht : thread' = thread
    · subst ht
      simp [slot, h]
    · simp [slot, ht]

theorem staticData_ensureStaticData : (s.ensureStaticData thread).staticData thread ≠ none := by
  rw [ensureStaticData]
  split
  · rename_i data h
    simp [h]
  · simp

theorem array_allocateSlot : (s.allocateSlot thread index size).array thread' =
    s.array thread' := by
  by_cases ht : thread' = thread
  · subst ht
    simp only [array, allocateSlot, Function.update_self, Option.map_map]
    refine congrFun (congrArg Option.map (funext fun data => ?_)) _
    simp only [Function.comp]
    split <;> rfl
  · simp [array, allocateSlot, ht, allocate]

theorem slot_allocateSlot (size : ℕ) (thread' : T) (index' : ℕ) (hthread : s.staticData thread ≠ none)
    (hindex : index < kMaxThreadStaticSlots) :
    (s.allocateSlot thread index size).slot thread' index' =
      if thread' = thread ∧ index' = index then some s.next else s.slot thread' index' := by
  obtain ⟨data, hdata⟩ := Option.ne_none_iff_exists'.1 hthread
  by_cases ht : thread' = thread
  · subst ht
    by_cases hi : index' = index
    · simp [slot, allocateSlot, hdata, hindex, hi]
    · simp [slot, allocateSlot, hdata, hindex, hi]
  · simp [slot, allocateSlot, ht]

/-- The blocks that are allocated are the arrays of the threads and what their slots refer to; a
slot refers to a block of the size that its index was handed out for. -/
structure Owned (s : State T) : Prop where
  fresh : ∀ {b a}, s.heap b = some a → b < s.next
  owned : ∀ {b a}, s.heap b = some a → s.array a.owner = some b ∨ ∃ i, s.slot a.owner i = some b
  array : ∀ {thread b}, s.array thread = some b → ∃ size, s.heap b = some ⟨thread, size⟩
  slot : ∀ {thread i b}, s.slot thread i = some b →
    ∃ size, s.threadStaticSizes[i]? = some size ∧ s.heap b = some ⟨thread, size⟩

/-- What the loops do: storage is added, to the threads `p`. -/
structure Extends (p : T → Prop) (s s' : State T) : Prop where
  sizes : s'.threadStaticSizes = s.threadStaticSizes
  attachedThreads : s'.attachedThreads = s.attachedThreads
  phase : s'.phase = s.phase
  slot : ∀ {thread i}, s.slot thread i ≠ none → s'.slot thread i ≠ none
  staticData : ∀ {thread}, s.staticData thread ≠ none → s'.staticData thread ≠ none
  others : ∀ {thread}, ¬ p thread → s'.staticData thread = s.staticData thread

namespace Owned

omit [DecidableEq T] in
theorem add {s' : State T} (h : s.Owned) (thread : T) (size : ℕ)
    (hheap : s'.heap = Function.update s.heap s.next (some ⟨thread, size⟩))
    (hnext : s'.next = s.next + 1) (hsizes : s'.threadStaticSizes = s.threadStaticSizes)
    (harray : ∀ t b, s'.array t = some b → s.array t = some b ∨ t = thread ∧ b = s.next)
    (harray' : ∀ t b, s.array t = some b → s'.array t = some b)
    (hslot : ∀ t i b, s'.slot t i = some b → s.slot t i = some b ∨
      t = thread ∧ b = s.next ∧ s.threadStaticSizes[i]? = some size)
    (hslot' : ∀ t i b, s.slot t i = some b → s'.slot t i = some b)
    (hnew : s'.array thread = some s.next ∨ ∃ i, s'.slot thread i = some s.next) : s'.Owned := by
  have hold {b : ℕ} {a : Allocation T} (hb : s.heap b = some a) : s'.heap b = some a := by
    rw [hheap, Function.update_of_ne (Nat.ne_of_lt (h.fresh hb)), hb]
  have hself : s'.heap s.next = some ⟨thread, size⟩ := by rw [hheap, Function.update_self]
  refine ⟨fun {b a} hb => ?_, fun {b a} hb => ?_, fun {t b} hb => ?_, fun {t i b} hb => ?_⟩
  · rw [hheap] at hb
    rw [hnext]
    by_cases hbn : b = s.next
    · omega
    · rw [Function.update_of_ne hbn] at hb
      exact Nat.lt_succ_of_lt (h.fresh hb)
  · by_cases hbn : b = s.next
    · subst hbn
      cases hself.symm.trans hb
      exact hnew
    · rw [hheap, Function.update_of_ne hbn] at hb
      exact (h.owned hb).imp (harray' _ _) fun ⟨i, hi⟩ => ⟨i, hslot' _ _ _ hi⟩
  · rcases harray t b hb with hb | ⟨rfl, rfl⟩
    · exact (h.array hb).imp fun _ => hold
    · exact ⟨size, hself⟩
  · rw [hsizes]
    rcases hslot t i b hb with hb | ⟨rfl, rfl, hsize⟩
    · exact (h.slot hb).imp fun _ => And.imp_right hold
    · exact ⟨size, hsize, hself⟩

theorem ensureStaticData (h : s.Owned) (thread : T) : (s.ensureStaticData thread).Owned := by
  have hslots (t : T) (i : ℕ) := slot_ensureStaticData s thread t i
  cases hdata : s.staticData thread with
  | some data =>
    rw [State.ensureStaticData, hdata]
    exact h
  | none =>
    have hself : (s.ensureStaticData thread).array thread = some s.next := by
      simp [State.ensureStaticData, hdata, State.array]
    have hother {t : T} (ht : t ≠ thread) : (s.ensureStaticData thread).array t = s.array t := by
      simp [State.ensureStaticData, hdata, State.array, ht]
    refine h.add thread (kMaxThreadStaticSlots * 8)
      (by simp [State.ensureStaticData, hdata, allocate])
      (by simp [State.ensureStaticData, hdata, allocate])
      (by simp [State.ensureStaticData, hdata, allocate]) (fun t b hb => ?_) (fun t b hb => ?_)
      (fun t i b hb => ?_) (fun t i b hb => ?_) (.inl hself)
    · by_cases ht : t = thread
      · subst ht
        rw [hself] at hb
        exact .inr ⟨rfl, (Option.some.inj hb).symm⟩
      · exact .inl (by rwa [hother ht] at hb)
    · have ht : t ≠ thread := by
        rintro rfl
        simp [State.array, hdata] at hb
      rw [hother ht, hb]
    · exact .inl (by rwa [hslots] at hb)
    · rw [hslots, hb]

theorem allocateSlot (h : s.Owned) (hthread : s.staticData thread ≠ none)
    (hindex : index < kMaxThreadStaticSlots) (hsize : s.threadStaticSizes[index]? = some size)
    (hnone : s.slot thread index = none) : (s.allocateSlot thread index size).Owned := by
  have hslots (t : T) (i : ℕ) := slot_allocateSlot size t i hthread hindex
  refine h.add thread size rfl rfl rfl (fun t b hb => .inl ?_)
    (fun t b hb => ?_) (fun t i b hb => ?_) (fun t i b hb => ?_)
    (.inr ⟨index, by rw [hslots, if_pos ⟨rfl, rfl⟩]⟩)
  · rwa [array_allocateSlot] at hb
  · rwa [array_allocateSlot]
  · rw [hslots] at hb
    split_ifs at hb with hi
    · obtain ⟨rfl, rfl⟩ := hi
      exact .inr ⟨rfl, (Option.some.inj hb).symm, hsize⟩
    · exact .inl hb
  · rw [hslots, if_neg, hb]
    rintro ⟨rfl, rfl⟩
    rw [hnone] at hb
    cases hb

end Owned

namespace Extends

variable {p q : T → Prop} {s' s'' : State T}

omit [DecidableEq T] in
theorem refl (s : State T) : Extends p s s := ⟨rfl, rfl, rfl, id, id, fun _ => rfl⟩

omit [DecidableEq T] in
theorem trans (h : Extends p s s') (h' : Extends p s' s'') : Extends p s s'' where
  sizes := h'.sizes.trans h.sizes
  attachedThreads := h'.attachedThreads.trans h.attachedThreads
  phase := h'.phase.trans h.phase
  slot hb := h'.slot (h.slot hb)
  staticData hb := h'.staticData (h.staticData hb)
  others hp := (h'.others hp).trans (h.others hp)

omit [DecidableEq T] in
theorem mono (h : Extends p s s') (hpq : ∀ t, p t → q t) : Extends q s s' where
  sizes := h.sizes
  attachedThreads := h.attachedThreads
  phase := h.phase
  slot := h.slot
  staticData := h.staticData
  others hq := h.others fun hp => hq (hpq _ hp)

theorem ensureStaticData (s : State T) (thread : T) :
    Extends (· = thread) s (s.ensureStaticData thread) := by
  have hslots (t : T) (i : ℕ) := slot_ensureStaticData s thread t i
  refine ⟨?_, ?_, ?_, fun hb => by rwa [hslots], fun {t} hb => ?_, fun {t} ht => ?_⟩
  · rw [State.ensureStaticData]
    split <;> rfl
  · rw [State.ensureStaticData]
    split <;> rfl
  · rw [State.ensureStaticData]
    split <;> rfl
  · by_cases ht : t = thread
    · subst ht
      exact staticData_ensureStaticData
    · rw [State.ensureStaticData]
      split
      · exact hb
      · simpa [ht] using hb
  · rw [State.ensureStaticData]
    split
    · rfl
    · exact Function.update_of_ne ht _ _

theorem allocateSlot (hthread : s.staticData thread ≠ none) (hindex : index < kMaxThreadStaticSlots)
    (size : ℕ) : Extends (· = thread) s (s.allocateSlot thread index size) where
  sizes := rfl
  attachedThreads := rfl
  phase := rfl
  slot hb := by
    rw [slot_allocateSlot _ _ _ hthread hindex]
    split_ifs
    · exact Option.some_ne_none _
    · exact hb
  staticData {t} hb := by
    by_cases ht : t = thread
    · subst ht
      simpa [State.allocateSlot] using hb
    · simpa [State.allocateSlot, ht] using hb
  others ht := Function.update_of_ne ht _ _

end Extends

theorem adjustLoop_spec {sizes : List ℕ} (index : ℕ) (h : s.Owned) (hthread : s.staticData thread ≠ none)
    (hlen : s.threadStaticSizes.length ≤ kMaxThreadStaticSlots)
    (hsizes : s.threadStaticSizes.drop index = sizes) :
    (adjustLoop thread sizes index s).Owned ∧
      Extends (· = thread) s (adjustLoop thread sizes index s) ∧
      ∀ i, index ≤ i → i < s.threadStaticSizes.length →
        (adjustLoop thread sizes index s).slot thread i ≠ none := by
  induction sizes generalizing s index with
  | nil =>
    refine ⟨h, .refl s, fun i hi hlt => ?_⟩
    have := List.drop_eq_nil_iff.1 hsizes
    omega
  | cons size sizes ih =>
    have hlt : index < s.threadStaticSizes.length := by
      by_contra hlt
      rw [List.drop_eq_nil_of_le (by omega)] at hsizes
      cases hsizes
    have hsize : s.threadStaticSizes[index]? = some size := by
      have := congrArg (·[0]?) hsizes
      simpa using this
    have hrest : s.threadStaticSizes.drop (index + 1) = sizes := by
      rw [← List.tail_drop, hsizes, List.tail_cons]
    have hindex : index < kMaxThreadStaticSlots := by omega
    rw [adjustLoop]
    generalize hs' : (if (s.slot thread index).isNone then s.allocateSlot thread index size else s) = s'
    have hext : Extends (· = thread) s s' ∧ s'.Owned ∧ s'.slot thread index ≠ none := by
      subst hs'
      split_ifs with hnone
      · rw [Option.isNone_iff_eq_none] at hnone
        refine ⟨.allocateSlot hthread hindex size, h.allocateSlot hthread hindex hsize hnone, ?_⟩
        rw [slot_allocateSlot _ _ _ hthread hindex, if_pos ⟨rfl, rfl⟩]
        exact Option.some_ne_none _
      · exact ⟨.refl s, h, fun hslot => hnone (by rw [hslot]; rfl)⟩
    obtain ⟨hext, howned, hslot⟩ := hext
    obtain ⟨howned', hext', hslots⟩ := ih (index + 1) howned (hext.staticData hthread)
      (by rw [hext.sizes]; exact hlen) (by rw [hext.sizes, hrest])
    refine ⟨howned', hext.trans hext', fun i hi hlt => ?_⟩
    rcases Nat.eq_or_lt_of_le hi with rfl | hi
    · exact hext'.slot hslot
    · exact hslots i hi (by rwa [hext.sizes])

theorem adjustStaticData_spec (thread : T) (h : s.Owned)
    (hlen : s.threadStaticSizes.length ≤ kMaxThreadStaticSlots) :
    (s.adjustStaticData thread).Owned ∧ Extends (· = thread) s (s.adjustStaticData thread) ∧
      (s.adjustStaticData thread).staticData thread ≠ none ∧
      ∀ i < s.threadStaticSizes.length, (s.adjustStaticData thread).slot thread i ≠ none := by
  have hext := Extends.ensureStaticData s thread
  rw [← hext.sizes] at hlen
  obtain ⟨howned, hext', hslots⟩ := adjustLoop_spec 0 (h.ensureStaticData thread)
    staticData_ensureStaticData hlen rfl
  rw [hext.sizes] at howned hext' hslots
  exact ⟨howned, hext.trans hext', hext'.staticData staticData_ensureStaticData,
    fun i hi => hslots i (Nat.zero_le i) hi⟩

theorem allocLoop_spec {threads : List T} (h : s.Owned) (hnodup : threads.Nodup)
    (hindex : index < kMaxThreadStaticSlots) (hsize : s.threadStaticSizes[index]? = some size)
    (hnone : ∀ t ∈ threads, s.slot t index = none) :
    let s' := threads.foldl
      (fun s thread => (s.ensureStaticData thread).allocateSlot thread index size) s
    s'.Owned ∧ Extends (· ∈ threads) s s' ∧ ∀ t ∈ threads, s'.slot t index ≠ none := by
  induction threads generalizing s with
  | nil => exact ⟨h, .refl s, by simp⟩
  | cons thread threads ih =>
    obtain ⟨hnotMem, hnodup⟩ := List.nodup_cons.1 hnodup
    have hext := Extends.ensureStaticData s thread
    have hne : (s.ensureStaticData thread).staticData thread ≠ none := staticData_ensureStaticData
    have hslots (t : T) := slot_allocateSlot size t index hne hindex
    have hext' := hext.trans (Extends.allocateSlot hne hindex size)
    obtain ⟨howned, hext'', hslot⟩ := ih
      ((h.ensureStaticData thread).allocateSlot hne hindex (by rw [hext.sizes]; exact hsize)
        (by rw [slot_ensureStaticData]; exact hnone thread List.mem_cons_self))
      hnodup (by rw [hext'.sizes]; exact hsize) fun t ht => by
        have hne : t ≠ thread := by
          rintro rfl
          exact hnotMem ht
        rw [hslots, if_neg fun h => hne h.1, slot_ensureStaticData]
        exact hnone t (List.mem_cons_of_mem _ ht)
    refine ⟨howned, (hext'.mono ?_).trans (hext''.mono ?_), fun t ht => ?_⟩
    · rintro t rfl
      exact List.mem_cons_self
    · exact fun t => List.mem_cons_of_mem _
    · rcases List.mem_cons.1 ht with rfl | ht
      · refine hext''.slot ?_
        rw [hslots, if_pos ⟨rfl, rfl⟩]
        exact Option.some_ne_none _
      · exact hslot t ht

omit [DecidableEq T] in
theorem heap_foldl_free (blocks : List ℕ) (s : State T) (b : ℕ) :
    (blocks.foldl free s).heap b = if b ∈ blocks then none else s.heap b := by
  induction blocks generalizing s with
  | nil => simp
  | cons block blocks ih =>
    rw [List.foldl_cons, ih]
    by_cases hb : b = block
    · simp [hb, free]
    · simp [hb, free]

omit [DecidableEq T] in
theorem foldl_free (blocks : List ℕ) (s : State T) :
    blocks.foldl free s = { s with heap := (blocks.foldl free s).heap } := by
  induction blocks generalizing s with
  | nil => rfl
  | cons block blocks ih =>
    rw [List.foldl_cons, ih]
    rfl

theorem freeThreadStaticData_spec (h : s.Owned) (hthread : s.staticData thread ≠ none) :
    ∃ s', s.freeThreadStaticData thread = some s' ∧ s'.Owned ∧
      s'.staticData = Function.update s.staticData thread none ∧
      s'.threadStaticSizes = s.threadStaticSizes ∧ s'.attachedThreads = s.attachedThreads ∧
      s'.phase = s.phase := by
  obtain ⟨data, hdata⟩ := Option.ne_none_iff_exists'.1 hthread
  obtain ⟨blocks, hblocks⟩ : ∃ blocks,
    (List.range s.threadStaticSizes.length).filterMap data.slots = blocks := ⟨_, rfl⟩
  have hself : s.array thread = some data.array := by simp [State.array, hdata]
  have hmem (b : ℕ) : b ∈ blocks ↔ ∃ i, s.slot thread i = some b := by
    rw [← hblocks, List.mem_filterMap]
    refine ⟨fun ⟨i, _, hi⟩ => ⟨i, by simp [State.slot, hdata, hi]⟩, fun ⟨i, hi⟩ => ⟨i, ?_, ?_⟩⟩
    · obtain ⟨size, hsize, -⟩ := h.slot hi
      rw [List.mem_range]
      exact (List.getElem?_eq_some_iff.1 hsize).1
    · simpa [State.slot, hdata] using hi
  obtain ⟨heap, hheap⟩ : ∃ heap : ℕ → Option (Allocation T),
    heap = Function.update (blocks.foldl free s).heap data.array none := ⟨_, rfl⟩
  have hheap' (b : ℕ) : heap b = if b = data.array ∨ b ∈ blocks then none else s.heap b := by
    rw [hheap, Function.update_apply, heap_foldl_free]
    by_cases hb : b = data.array <;> simp [hb]
  -- the blocks of another thread stay
  have hkeep {b : ℕ} {t : T} {size : ℕ} (ht : t ≠ thread) (hb : s.heap b = some ⟨t, size⟩) :
      heap b = some ⟨t, size⟩ := by
    rw [hheap', if_neg, hb]
    rintro (rfl | hbm)
    · obtain ⟨size', hsize'⟩ := h.array hself
      rw [hb] at hsize'
      cases hsize'
      exact ht rfl
    · obtain ⟨i, hi⟩ := (hmem b).1 hbm
      obtain ⟨size', -, hsize'⟩ := h.slot hi
      rw [hb] at hsize'
      cases hsize'
      exact ht rfl
  have hold {b : ℕ} {a : Allocation T} (hb : heap b = some a) :
      s.heap b = some a ∧ b ≠ data.array ∧ b ∉ blocks := by
    rw [hheap'] at hb
    split_ifs at hb with hor
    rw [not_or] at hor
    exact ⟨hb, hor⟩
  refine ⟨{ s with heap, staticData := Function.update s.staticData thread none }, ?_,
    ⟨fun hb => h.fresh (hold hb).1, fun {b a} hb => ?_, fun {t b} hb => ?_, fun {t i b} hb => ?_⟩,
    rfl, rfl, rfl, rfl⟩
  · simp only [freeThreadStaticData, hdata, hblocks]
    rw [foldl_free blocks s]
    simp only [free, hheap]
  · obtain ⟨hb, hne, hnotMem⟩ := hold hb
    by_cases ht : a.owner = thread
    · exfalso
      rcases h.owned hb with harray | ⟨i, hi⟩
      · rw [ht, hself] at harray
        exact hne (Option.some.inj harray).symm
      · exact hnotMem ((hmem b).2 ⟨i, by rwa [ht] at hi⟩)
    · simpa [State.array, State.slot, ht] using h.owned hb
  · have ht : t ≠ thread := by
      rintro rfl
      simp [State.array] at hb
    have hb' : s.array t = some b := by simpa [State.array, ht] using hb
    obtain ⟨size, hsize⟩ := h.array hb'
    exact ⟨size, hkeep ht hsize⟩
  · have ht : t ≠ thread := by
      rintro rfl
      simp [State.slot] at hb
    have hb' : s.slot t i = some b := by simpa [State.slot, ht] using hb
    obtain ⟨size, hsize, hb⟩ := h.slot hb'
    exact ⟨size, hsize, hkeep ht hb⟩

end State

/-! ### The invariant -/

section

variable {T : Type} [DecidableEq T] {s s' : State T}

/-- What holds in every state of a run whose steps are timely. -/
structure Inv (s : State T) : Prop where
  owned : s.Owned
  length_le : s.threadStaticSizes.length ≤ kMaxThreadStaticSlots
  nodup : s.attachedThreads.Nodup
  registered : ∀ t, t ∈ s.attachedThreads ↔
    s.phase t = .registered ∨ s.phase t = .attached ∨ s.phase t = .freed
  allocated : ∀ t, s.phase t = .attached →
    s.staticData t ≠ none ∧ ∀ i < s.threadStaticSizes.length, s.slot t i ≠ none
  gone : ∀ t, s.phase t = .unattached ∨ s.phase t = .freed ∨ s.phase t = .detached →
    s.staticData t = none

omit [DecidableEq T] in
theorem inv_initial : Inv (initial : State T) := by
  refine ⟨⟨?_, ?_, ?_, ?_⟩, Nat.zero_le _, List.nodup_nil, ?_, ?_, fun _ _ => rfl⟩
    <;> simp [initial, State.array, State.slot]

namespace Inv

theorem setPhase_phase (s : State T) (thread t : T) (phase : Phase) :
    (s.setPhase thread phase).phase t = if t = thread then phase else s.phase t :=
  Function.update_apply ..

theorem register (h : Inv s) {thread : T} (hp : s.phase thread = .unattached) :
    Inv ((s.register thread).setPhase thread .registered) where
  owned := ⟨h.owned.fresh, h.owned.owned, h.owned.array, h.owned.slot⟩
  length_le := h.length_le
  nodup := by
    refine (List.perm_append_singleton thread s.attachedThreads).nodup_iff.2
      (List.nodup_cons.2 ⟨fun hmem => ?_, h.nodup⟩)
    simpa [hp] using (h.registered thread).1 hmem
  registered t := by
    rw [setPhase_phase]
    by_cases ht : t = thread
    · simp [ht, State.setPhase, State.register]
    · simpa [ht, State.setPhase, State.register] using h.registered t
  allocated t := by
    rw [setPhase_phase]
    split_ifs with ht
    · exact fun h => by cases h
    · exact h.allocated t
  gone t := by
    rw [setPhase_phase]
    split_ifs with ht
    · simp
    · exact h.gone t

theorem adjustStaticData (h : Inv s) {thread : T} (hp : s.phase thread = .registered) :
    Inv ((s.adjustStaticData thread).setPhase thread .attached) := by
  obtain ⟨howned, hext, hne, hslots⟩ := State.adjustStaticData_spec thread h.owned h.length_le
  refine ⟨⟨howned.fresh, howned.owned, howned.array, howned.slot⟩,
    Nat.le_trans (Nat.le_of_eq (congrArg _ hext.sizes)) h.length_le,
    hext.attachedThreads ▸ h.nodup, fun t => ?_, fun t => ?_, fun t => ?_⟩
  · rw [setPhase_phase]
    have hmem := h.registered t
    by_cases ht : t = thread
    · subst ht
      simpa [hp, State.setPhase, hext.attachedThreads] using hmem
    · simpa [ht, State.setPhase, hext.attachedThreads, hext.phase] using hmem
  · rw [setPhase_phase]
    split_ifs with ht
    · subst ht
      refine fun _ => ⟨hne, fun i hi => hslots i ?_⟩
      rwa [← hext.sizes]
    · intro hpt
      rw [hext.phase] at hpt
      refine ⟨hext.staticData (h.allocated t hpt).1, fun i hi => hext.slot ?_⟩
      exact (h.allocated t hpt).2 i (by rwa [← hext.sizes])
  · rw [setPhase_phase]
    split_ifs with ht
    · simp
    · intro hpt
      rw [hext.phase] at hpt
      exact (hext.others ht).trans (h.gone t hpt)

theorem allocThreadStaticData (h : Inv s) (size : ℕ)
    (hlen : s.threadStaticSizes.length < kMaxThreadStaticSlots) (hp : ∀ t, s.phase t ≠ .freed) :
    Inv (s.allocThreadStaticData size) := by
  obtain ⟨s₁, hs₁⟩ : ∃ s₁, s₁ = { s with threadStaticSizes := s.threadStaticSizes ++ [size] } :=
    ⟨_, rfl⟩
  have howned₁ : s₁.Owned := by
    subst hs₁
    refine ⟨h.owned.fresh, h.owned.owned, h.owned.array, fun {t i b} hb => ?_⟩
    obtain ⟨size', hsize', hb⟩ := h.owned.slot hb
    exact ⟨size', by rw [List.getElem?_append_left (List.getElem?_eq_some_iff.1 hsize').1, hsize'], hb⟩
  -- no slot refers to the new index
  have hnone (t : T) : s₁.slot t s.threadStaticSizes.length = none := by
    by_contra hne
    obtain ⟨b, hb⟩ := Option.ne_none_iff_exists'.1 hne
    subst hs₁
    obtain ⟨size', hsize', -⟩ := h.owned.slot hb
    simp at hsize'
  have hsize : s₁.threadStaticSizes[s.threadStaticSizes.length]? = some size := by
    subst hs₁
    simp
  obtain ⟨howned, hext, hslots⟩ := State.allocLoop_spec howned₁ h.nodup hlen hsize
    fun t _ => hnone t
  have heq : s.allocThreadStaticData size = s.attachedThreads.foldl (fun s' thread =>
      (s'.ensureStaticData thread).allocateSlot thread s.threadStaticSizes.length size) s₁ := by
    rw [State.allocThreadStaticData, hs₁]
  have hlength : s₁.threadStaticSizes.length = s.threadStaticSizes.length + 1 := by
    rw [hs₁, List.length_append, List.length_singleton]
  have hphase : s₁.phase = s.phase := by rw [hs₁]
  have hattached : s₁.attachedThreads = s.attachedThreads := by rw [hs₁]
  have hdata : s₁.staticData = s.staticData := by rw [hs₁]
  rw [heq]
  refine ⟨howned, ?_, ?_, fun t => ?_, fun t hpt => ⟨?_, fun i hi => ?_⟩, fun t hpt => ?_⟩
  · rw [hext.sizes, hlength]
    exact hlen
  · rw [hext.attachedThreads, hattached]
    exact h.nodup
  · rw [hext.attachedThreads, hext.phase, hattached, hphase]
    exact h.registered t
  · rw [hext.phase, hphase] at hpt
    exact hext.staticData (hdata ▸ (h.allocated t hpt).1)
  · rw [hext.phase, hphase] at hpt
    rw [hext.sizes, hlength] at hi
    rcases Nat.lt_succ_iff_lt_or_eq.1 hi with hi | rfl
    · refine hext.slot ?_
      rw [State.slot, hdata]
      exact (h.allocated t hpt).2 i hi
    · exact hslots t ((h.registered t).2 (.inr (.inl hpt)))
  · rw [hext.phase, hphase] at hpt
    -- a thread without storage is not registered
    have hnotMem : t ∉ s.attachedThreads := by
      rw [h.registered]
      have := hp t
      rcases hpt with hpt | hpt | hpt <;> simp [hpt] at this ⊢
    rw [hext.others hnotMem, hdata]
    exact h.gone t hpt

theorem freeThreadStaticData (h : Inv s) {thread : T} (hp : s.phase thread = .attached)
    (hs : s.freeThreadStaticData thread = some s') : Inv (s'.setPhase thread .freed) := by
  obtain ⟨s₁, hs₁, howned, hdata, hsizes, hattached, hphase⟩ :=
    State.freeThreadStaticData_spec h.owned (h.allocated thread hp).1
  cases hs.symm.trans hs₁
  refine ⟨⟨howned.fresh, howned.owned, howned.array, howned.slot⟩,
    Nat.le_trans (Nat.le_of_eq (congrArg _ hsizes)) h.length_le, hattached ▸ h.nodup,
    fun t => ?_, fun t => ?_, fun t => ?_⟩
  · rw [setPhase_phase]
    have hmem := h.registered t
    by_cases ht : t = thread
    · subst ht
      simpa [hp, State.setPhase, hattached] using hmem
    · simpa [ht, State.setPhase, hattached, hphase] using hmem
  · rw [setPhase_phase]
    split_ifs with ht
    · exact fun h => by cases h
    · intro hpt
      rw [hphase] at hpt
      have hsame : s'.staticData t = s.staticData t := by
        rw [hdata, Function.update_of_ne ht]
      obtain ⟨hne, hslots⟩ := h.allocated t hpt
      refine ⟨by rwa [← hsame] at hne, fun i hi => ?_⟩
      have hslot := hslots i (by rwa [← hsizes])
      rwa [State.slot, ← hsame] at hslot
  · rw [setPhase_phase]
    split_ifs with ht
    · subst ht
      exact fun _ => by simp [State.setPhase, hdata]
    · intro hpt
      rw [hphase] at hpt
      simpa [State.setPhase, hdata, ht] using h.gone t hpt

theorem unregister (h : Inv s) {thread : T} (hp : s.phase thread = .freed) :
    Inv ((s.unregister thread).setPhase thread .detached) where
  owned := ⟨h.owned.fresh, h.owned.owned, h.owned.array, h.owned.slot⟩
  length_le := h.length_le
  nodup := h.nodup.erase thread
  registered t := by
    rw [setPhase_phase]
    by_cases ht : t = thread
    · simp [ht, State.setPhase, State.unregister, h.nodup.mem_erase_iff]
    · simpa [ht, State.setPhase, State.unregister, h.nodup.mem_erase_iff] using h.registered t
  allocated t := by
    rw [setPhase_phase]
    split_ifs with ht
    · exact fun h => by cases h
    · exact h.allocated t
  gone t := by
    rw [setPhase_phase]
    split_ifs with ht
    · subst ht
      exact fun _ => h.gone t (.inr (.inl hp))
    · exact h.gone t

/-- **The invariant is kept.** -/
theorem step (h : Inv s) {a : Action T} (ha : Timely s a) (hs : step s a = some s') : Inv s' := by
  cases a with
  | register thread =>
    obtain ⟨hp, ⟨⟩⟩ := Option.ite_none_right_eq_some.1 hs
    exact h.register hp
  | adjustStaticData thread =>
    obtain ⟨hp, ⟨⟩⟩ := Option.ite_none_right_eq_some.1 hs
    exact h.adjustStaticData hp
  | allocThreadStaticData size =>
    cases hs
    exact h.allocThreadStaticData size (ha size rfl).1 (ha size rfl).2
  | freeThreadStaticData thread =>
    obtain ⟨hp, hs⟩ := Option.ite_none_right_eq_some.1 hs
    obtain ⟨s₁, hs₁, rfl⟩ := Option.map_eq_some_iff.1 hs
    exact h.freeThreadStaticData hp hs₁
  | unregister thread =>
    obtain ⟨hp, ⟨⟩⟩ := Option.ite_none_right_eq_some.1 hs
    exact h.unregister hp

end Inv

/-- **Thread-static storage.**  In every state of a run whose steps are timely a thread that is
attached is registered and has a block of the right size for each index that has been handed out,
and no block of a thread that is detached is allocated. -/
theorem storage_allocated_and_freed
    (h : (LTS.ofFun step).ReachWith Timely initial s) :
    (∀ t, s.phase t = .attached → t ∈ s.attachedThreads ∧
      ∀ i size, s.threadStaticSizes[i]? = some size →
        ∃ b, s.slot t i = some b ∧ s.heap b = some ⟨t, size⟩) ∧
    ∀ t, s.phase t = .detached → ∀ b a, s.heap b = some a → a.owner ≠ t := by
  have hinv : Inv s := h.invariant inv_initial fun s l s' hs hl hst => hs.step hl hst
  refine ⟨fun t ht => ⟨(hinv.registered t).2 (.inr (.inl ht)), fun i size hsize => ?_⟩, ?_⟩
  · have hi := (List.getElem?_eq_some_iff.1 hsize).1
    obtain ⟨b, hb⟩ := Option.ne_none_iff_exists'.1 ((hinv.allocated t ht).2 i hi)
    obtain ⟨size', hsize', hheap⟩ := hinv.owned.slot hb
    cases hsize.symm.trans hsize'
    exact ⟨b, hb, hheap⟩
  · rintro t ht b a hb rfl
    have hnone := hinv.gone _ (.inr (.inr ht))
    rcases hinv.owned.owned hb with hb | ⟨i, hb⟩
    · simp [State.array, hnone] at hb
    · simp [State.slot, hnone] at hb

end

/-- Two threads attach, an index is handed out, and the second thread detaches. -/
def attachAndDetach : List (Action Bool) :=
  [.register false, .adjustStaticData false, .register true, .allocThreadStaticData 8,
    .adjustStaticData true, .freeThreadStaticData true, .unregister true]

instance (s : State Bool) : ∀ a : Action Bool, Decidable (Timely s a)
  | .allocThreadStaticData size =>
    decidable_of_iff
      (s.threadStaticSizes.length < kMaxThreadStaticSlots ∧ ∀ thread, s.phase thread ≠ .freed)
      ⟨fun h _ _ => h, fun h => h size rfl⟩
  | .register _ | .adjustStaticData _ | .freeThreadStaticData _ | .unregister _ =>
    .isTrue fun _ h => by cases h

theorem storage_attachAndDetach :
    ∃ s, (LTS.ofFun step).ReachWith Timely (initial : State Bool) s ∧
      (s.phase false = .attached ∧ s.phase true = .detached) ∧
      (∀ t, s.phase t = .attached → t ∈ s.attachedThreads ∧
        ∀ i size, s.threadStaticSizes[i]? = some size →
          ∃ b, s.slot t i = some b ∧ s.heap b = some ⟨t, size⟩) ∧
      ∀ t, s.phase t = .detached → ∀ b a, s.heap b = some a → a.owner ≠ t := by
  obtain ⟨s, hs, hphase⟩ := LTS.exists_reachWith (f := step) (G := Timely)
    (i := (initial : State Bool)) attachAndDetach
    (fun s => s.phase false = .attached ∧ s.phase true = .detached) (by decide)
  exact ⟨s, hs, hphase, storage_allocated_and_freed hs⟩

/-- The index is handed out while the second thread detaches. -/
def detachMeanwhile : List (Action Bool) :=
  [.register false, .adjustStaticData false, .register true, .adjustStaticData true,
    .freeThreadStaticData true, .allocThreadStaticData 8, .unregister true]

/-- **A block that is not freed.**  An index is handed out between `FreeThreadStaticData` and
`Unregister`: the thread gets a new block, which is still allocated when it has detached. -/
theorem leaked_block :
    ∃ s, (LTS.ofFun step).Reachable (initial : State Bool) s ∧ s.phase true = .detached ∧
      s.heap 4 = some ⟨true, 8⟩ :=
  LTS.exists_reachWith (f := step) (G := fun _ _ => True) detachMeanwhile
    (fun s => s.phase true = .detached ∧ s.heap 4 = some ⟨true, 8⟩) (by decide)

end ThreadStatic

end Il2Cpp
