import Il2Cpp.Interop.CachedCCW

/-!
# The cache of COM callable wrappers and the finalizers

`gc/GarbageCollector.cpp`: the wrapper of a managed object is kept in a cache and destroyed by
`CleanupCCW`, which the collector calls in place of the finalizer of the object.  So the cache
remembers whether the object has a finalizer, and `RegisterFinalizer` and `SuppressFinalizer` look
there first.

A wrapper is a `CachedCCW.State`: its calls of `AddRef` and `Release` take their steps between
those of everything else.

* `step` : the transition system.
* `Coherent` : how the cache, the collector and the finalizer of an object agree.
* `State.Inv` : the invariant.
* `wrapper_unreferenced` : a wrapper is destroyed unreferenced, when no object is passed to
  `GetOrCreateCCW` while its `CleanupCCW` is queued.
* `wrapper_referenced` : a finalizer can pass an object that is queued after it.
-/

namespace Il2Cpp

namespace CCWCache

variable {Obj : Type*}

/-- A finalizer callback. -/
inductive Callback
  | runFinalizer
  | cleanupCCW
  deriving DecidableEq

/-- What the classes of the objects say. -/
structure Classes (Obj : Type*) where
  /-- `is_import_or_windows_runtime`. -/
  isImportOrWindowsRuntime : Obj → Bool
  /-- `has_finalize`. -/
  hasFinalize : Obj → Bool
  /-- `ShouldInsertIntoCCWCache`. -/
  shouldInsert : Obj → Bool

/-- A `CachedCCW` of the cache. -/
structure Entry where
  /-- The number of the wrapper. -/
  managedObjectHolder : ℕ
  hasFinalizer : Bool
  deriving DecidableEq

/-- A wrapper. -/
structure Wrapper (Obj : Type*) where
  obj : Obj
  ccw : CachedCCW.State Obj
  destroyed : Bool

/-- A call of `CleanupCCW`. -/
structure Cleanup (Obj : Type*) where
  obj : Obj
  /-- The count of the wrapper that it destroys. -/
  refCount : ℕ
  /-- It runs the managed finalizer. -/
  ran : Bool
  /-- Whether the last of the creation, `RegisterFinalizer` and `SuppressFinalizer` left the
  finalizer enabled. -/
  last : Bool
  /-- Whether the finalizer was run, or queued to be run, since. -/
  taken : Bool

/-- The cache, the collector and the wrappers. -/
structure State (Obj : Type*) where
  /-- `s_CCWCache`. -/
  cache : Obj → Option Entry
  /-- All wrappers ever created. -/
  wrappers : List (Wrapper Obj)
  /-- The callbacks that are registered with the collector. -/
  callback : Obj → Option Callback
  /-- The callbacks that the collector has queued, the next one first. -/
  finalizeNow : List (Obj × Callback)
  last : Obj → Bool
  taken : Obj → Bool
  /-- The calls of `CleanupCCW`. -/
  cleanups : List (Cleanup Obj)

/-- The objects as `RegisterFinalizerForNewObject` leaves them. -/
def init (classes : Classes Obj) : State Obj where
  cache _ := none
  wrappers := []
  callback obj := if classes.hasFinalize obj then some .runFinalizer else none
  finalizeNow := []
  last := classes.hasFinalize
  taken _ := false
  cleanups := []

/-- A call of `AddRef` is in progress. -/
def adding : CachedCCW.PC → Bool
  | .addRef | .newHandle | .compareExchange _ | .addRefReturn => true
  | _ => false

/-- No strong handle of the wrapper is in use, and no call of `AddRef`, whose caller has the
object, is in progress. -/
def Unpinned (ccw : CachedCCW.State Obj) : Prop :=
  (∀ h ∈ ccw.created, ccw.handles h = none) ∧ ∀ pc ∈ ccw.calls, adding pc = false

instance (ccw : CachedCCW.State Obj) : Decidable (Unpinned ccw) :=
  inferInstanceAs (Decidable (_ ∧ _))

/-! ### Idle wrappers -/

/-- The wrapper of an object that is queued: it has no references, and no calls are in progress. -/
structure Idle (ccw : CachedCCW.State Obj) : Prop where
  refCount : ccw.refCount = 0
  references : ccw.references = 0
  quiet : ccw.Quiet

theorem idle_of_unpinned {obj : Obj} {ccw : CachedCCW.State Obj} (hs : ccw.Inv obj)
    (hu : Unpinned ccw) : Idle ccw := by
  obtain ⟨hfree, hadd⟩ := hu
  have hnone (h : CachedCCW.Handle) : ccw.handles h = none := by
    cases hh : ccw.handles h with
    | none => rfl
    | some entry =>
      have hcount := hs.holds.created_eq h
      rw [hh, Option.isSome_some, Bool.toNat_true] at hcount
      have hmem : h ∈ ccw.created := List.count_pos_iff.1 (by omega)
      rw [hfree h hmem] at hh
      cases hh
  have hg : ccw.gcHandle = 0 := by
    by_contra hne
    have := hs.holds.isSome (CachedCCW.State.holders_gcHandle hne)
    simp [hnone] at this
  have hraising : ccw.calls.countP CachedCCW.PC.raising = 0 := by
    refine List.countP_eq_zero.2 fun pc hpc hr => ?_
    have := hadd pc hpc
    cases pc with
    | newHandle | compareExchange => cases this
    | addRef | addRefReturn | release | exchange | free | returned => cases hr
  have hbal := hs.counts.balance
  rw [hg, CachedCCW.installed, if_pos rfl, hraising] at hbal
  have h0 : ccw.refCount = 0 := by omega
  have htaking : ccw.calls.countP CachedCCW.PC.taking = 0 := by omega
  have hrefs := hs.counts.refCount_eq
  refine ⟨h0, by omega, fun pc hpc => ?_⟩
  have hcounted : ccw.calls.countP CachedCCW.PC.counted = 0 := by omega
  cases pc with
  | returned => rfl
  | addRef | newHandle | compareExchange | addRefReturn => cases hadd _ hpc
  | release => exact absurd rfl (List.countP_eq_zero.1 hcounted _ hpc)
  | exchange => exact absurd rfl (List.countP_eq_zero.1 htaking _ hpc)
  | free h =>
    obtain ⟨i, hi⟩ := List.mem_iff_getElem?.1 hpc
    have := hs.holds.isSome
      (CachedCCW.State.holders_pos_of_mem (h := h) hi (by simp [CachedCCW.PC.holds]))
    simp [hnone] at this

theorem Idle.step {obj : Obj} {ccw ccw' : CachedCCW.State Obj} {l : CachedCCW.Label}
    (hs : Idle ccw) (hl : l = .addRef → 0 < ccw.references) :
    CachedCCW.step obj ccw l ≠ some ccw' := by
  intro ht
  cases l with
  | addRef => exact absurd (hl rfl) (by simp [hs.references])
  | release =>
    obtain ⟨hpos, -⟩ := Option.ite_none_right_eq_some.1 ht
    exact absurd hpos (by simp [hs.references])
  | run i h =>
    obtain ⟨pc, t, pc', hi, hr, -⟩ := CachedCCW.step_run.1 ht
    rw [hs.quiet pc (List.mem_of_getElem? hi)] at hr
    cases hr

variable [DecidableEq Obj]

/-! ### The transition system -/

namespace State

variable (classes : Classes Obj) (s : State Obj)

/-- `QueryInterface` of a wrapper, when it finds the interface: it adds a reference. -/
def queryInterface (w : ℕ) (found : Bool) : State Obj :=
  match found, s.wrappers[w]? with
  | true, some wr =>
    let ccw := { wr.ccw with calls := wr.ccw.calls ++ [.addRef] }
    { s with wrappers := s.wrappers.set w { wr with ccw := ccw } }
  | _, _ => s

/-- `CCW::CreateCCW`; `CleanupCCW` is registered, and the entry remembers whether there was a
finalizer. -/
def createCCW (obj : Obj) : State Obj :=
  let oldCb := s.callback obj
  { s with
    cache := Function.update s.cache obj (some ⟨s.wrappers.length, oldCb.isSome⟩)
    wrappers := s.wrappers ++ [⟨obj, CachedCCW.init, false⟩]
    callback := Function.update s.callback obj (some .cleanupCCW) }

/-- `GarbageCollector::GetOrCreateCCW`. -/
def getOrCreateCCW (obj : Obj) (found : Bool) : State Obj :=
  if classes.isImportOrWindowsRuntime obj then s
  else
    match s.cache obj with
    | some ccw => s.queryInterface ccw.managedObjectHolder found
    | none =>
      if classes.shouldInsert obj then (s.createCCW obj).queryInterface s.wrappers.length found
      else s

/-- `GarbageCollector::RegisterFinalizer` and `SuppressFinalizer`, which differ in what they
leave. -/
def setFinalizer (obj : Obj) (enabled : Bool) : State Obj :=
  let s := { s with
    last := Function.update s.last obj enabled
    taken := Function.update s.taken obj false }
  match s.cache obj with
  | some ccw =>
    { s with cache := Function.update s.cache obj (some { ccw with hasFinalizer := enabled }) }
  | none =>
    { s with
      callback := Function.update s.callback obj (if enabled then some .runFinalizer else none) }

/-- `GarbageCollector::RegisterFinalizer`. -/
def registerFinalizer (obj : Obj) : State Obj := s.setFinalizer obj true

/-- `GarbageCollector::SuppressFinalizer`. -/
def suppressFinalizer (obj : Obj) : State Obj := s.setFinalizer obj false

/-- The collector finds an object unreachable and queues its callback. -/
def collect (obj : Obj) (callback : Callback) : State Obj :=
  { s with
    callback := Function.update s.callback obj none
    finalizeNow := (obj, callback) :: s.finalizeNow
    taken := if callback = .runFinalizer then Function.update s.taken obj true else s.taken }

/-- `CleanupCCW`.  It asserts that the object is in the cache. -/
def cleanupCCW (obj : Obj) : Option (State Obj) :=
  (s.cache obj).bind fun ccw => s.wrappers[ccw.managedObjectHolder]?.map fun wr =>
    { s with
      cache := Function.update s.cache obj none
      wrappers := s.wrappers.set ccw.managedObjectHolder { wr with destroyed := true }
      taken := Function.update s.taken obj (s.taken obj || ccw.hasFinalizer)
      cleanups :=
        ⟨obj, wr.ccw.refCount, ccw.hasFinalizer, s.last obj, s.taken obj⟩ :: s.cleanups }

/-- The collector calls the next callback.  `RunFinalizer` invokes the managed finalizer. -/
def invoke : Option (State Obj) :=
  match s.finalizeNow with
  | [] => none
  | (obj, callback) :: finalizeNow =>
    let s := { s with finalizeNow := finalizeNow }
    match callback with
    | .runFinalizer => some s
    | .cleanupCCW => s.cleanupCCW obj

end State

/-- What happens. -/
inductive Label (Obj : Type*)
  /-- `found` says whether the wrapper has the interface -/
  | getOrCreateCCW (obj : Obj) (found : Bool)
  /-- native code calls `AddRef` or `Release` of a wrapper, or such a call takes a step -/
  | wrapper (w : ℕ) (l : CachedCCW.Label)
  | registerFinalizer (obj : Obj)
  | suppressFinalizer (obj : Obj)
  | collect (obj : Obj)
  | invoke

/-- A step.  Native code calls `AddRef` only with a reference. -/
def step (classes : Classes Obj) (s : State Obj) : Label Obj → Option (State Obj)
  | .getOrCreateCCW obj found => some (s.getOrCreateCCW classes obj found)
  | .wrapper w l => s.wrappers[w]?.bind fun wr =>
    if wr.destroyed = false ∧ (l = .addRef → 0 < wr.ccw.references) then
      (CachedCCW.step wr.obj wr.ccw l).map fun ccw =>
        { s with wrappers := s.wrappers.set w { wr with ccw := ccw } }
    else none
  | .registerFinalizer obj => some (s.registerFinalizer obj)
  | .suppressFinalizer obj => some (s.suppressFinalizer obj)
  | .collect obj => (s.callback obj).bind fun callback =>
    if ∀ wr ∈ s.wrappers, wr.obj = obj → Unpinned wr.ccw then some (s.collect obj callback)
    else none
  | .invoke => s.invoke

/-- The transition system. -/
def lts (classes : Classes Obj) : LTS (State Obj) (Label Obj) := .ofFun (step classes)

/-! ### The cache, the collector and the finalizer of an object -/

/-- Whether an object has a finalizer: the cache says it, or the collector. -/
def hasFinalizer : Option Entry → Option Callback → Bool
  | some ccw, _ => ccw.hasFinalizer
  | none, callback => callback.isSome

/-- What is known of an object: `CleanupCCW` is registered or queued, `queued` times, if and only if
the object is in the cache; then its finalizer is not registered; and it has a finalizer if and only
if it was left enabled and is not taken. -/
structure Coherent (ccw : Option Entry) (callback : Option Callback) (queued : ℕ)
    (last taken : Bool) : Prop where
  registered : (decide (callback = some .cleanupCCW)).toNat + queued = ccw.isSome.toNat
  not_runFinalizer : ccw.isSome = true → callback ≠ some .runFinalizer
  hasFinalizer_eq : hasFinalizer ccw callback = (last && !taken)

namespace Coherent

variable {entry : Option Entry} {ccw : Entry} {callback : Option Callback} {queued : ℕ}
  {last taken : Bool}

theorem setFinalizer_cached (h : Coherent (some ccw) callback queued last taken) (b : Bool) :
    Coherent (some { ccw with hasFinalizer := b }) callback queued b false :=
  ⟨h.registered, h.not_runFinalizer, by simp [hasFinalizer]⟩

theorem setFinalizer_uncached (h : Coherent none callback queued last taken) (b : Bool) :
    Coherent none (if b then some .runFinalizer else none) queued b false := by
  have hq := h.registered
  simp only [Option.isSome_none, Bool.toNat_false, Nat.add_eq_zero_iff] at hq
  cases b <;> exact ⟨by simp [hq.2], nofun, rfl⟩

theorem create (h : Coherent none callback queued last taken) (w : ℕ) :
    Coherent (some ⟨w, callback.isSome⟩) (some .cleanupCCW) queued last taken := by
  have hq := h.registered
  simp only [Option.isSome_none, Bool.toNat_false, Nat.add_eq_zero_iff] at hq
  exact ⟨by simp [hq.2], nofun, h.hasFinalizer_eq⟩

theorem collect_runFinalizer (h : Coherent entry (some .runFinalizer) queued last taken) :
    Coherent entry none queued last true := by
  obtain ⟨hr, hn, -⟩ := h
  cases entry with
  | some => exact absurd rfl (hn rfl)
  | none => exact ⟨hr, nofun, by simp [hasFinalizer]⟩

theorem collect_cleanupCCW (h : Coherent entry (some .cleanupCCW) queued last taken) :
    Coherent entry none (queued + 1) last taken := by
  obtain ⟨hr, -, hf⟩ := h
  simp only [decide_true, Bool.toNat_true] at hr
  cases entry with
  | none => simp at hr
  | some => exact ⟨by simp only [reduceCtorEq, decide_false, Bool.toNat_false]; omega, nofun, hf⟩

theorem cleanupCCW (h : Coherent (some ccw) callback (queued + 1) last taken) :
    Coherent none callback queued last (taken || ccw.hasFinalizer) := by
  obtain ⟨hr, hn, hf⟩ := h
  simp only [Option.isSome_some, Bool.toNat_true] at hr
  change ccw.hasFinalizer = (last && !taken) at hf
  cases callback with
  | none =>
    refine ⟨?_, nofun, ?_⟩
    · simp only [reduceCtorEq, decide_false, Bool.toNat_false, Option.isSome_none] at hr ⊢
      omega
    · rw [hf]
      cases last <;> cases taken <;> rfl
  | some cb =>
    cases cb with
    | runFinalizer => exact absurd rfl (hn rfl)
    | cleanupCCW =>
      simp only [decide_true, Bool.toNat_true] at hr
      omega

end Coherent

/-! ### The invariant -/

namespace State

variable {s t : State Obj} {obj : Obj} {w : ℕ} {wr : Wrapper Obj}

/-- How often the callback of an object is queued. -/
def queued (s : State Obj) (obj : Obj) : ℕ := s.finalizeNow.count (obj, .cleanupCCW)

def CoherentAt (s : State Obj) (obj : Obj) : Prop :=
  Coherent (s.cache obj) (s.callback obj) (s.queued obj) (s.last obj) (s.taken obj)

/-- A wrapper that is not destroyed: it is the one that the cache has for its object. -/
structure WrapperOk (s : State Obj) (w : ℕ) (wr : Wrapper Obj) : Prop where
  cached : (s.cache wr.obj).map Entry.managedObjectHolder = some w
  inv : wr.ccw.Inv wr.obj
  idle : 0 < s.queued wr.obj → Idle wr.ccw

/-- **The invariant.** -/
structure Inv (s : State Obj) : Prop where
  coherent : ∀ obj, s.CoherentAt obj
  entry : ∀ obj ccw, s.cache obj = some ccw →
    ∃ wr, s.wrappers[ccw.managedObjectHolder]? = some wr ∧ wr.obj = obj ∧ wr.destroyed = false
  wrapper : ∀ (w : ℕ) (wr : Wrapper Obj), s.wrappers[w]? = some wr → wr.destroyed = false →
    s.WrapperOk w wr
  cleanup : ∀ c ∈ s.cleanups, c.refCount = 0 ∧ c.ran = (c.last && !c.taken)

end State

namespace State

variable {s t : State Obj} {obj : Obj} {w : ℕ} {wr : Wrapper Obj}

theorem Inv.set_ccw (hs : s.Inv) (hw : s.wrappers[w]? = some wr) (hd : wr.destroyed = false)
    {ccw : CachedCCW.State Obj} (hinv : ccw.Inv wr.obj) (hidle : 0 < s.queued wr.obj → Idle ccw) :
    ({ s with wrappers := s.wrappers.set w { wr with ccw := ccw } } : State Obj).Inv := by
  have hlt := (List.getElem?_eq_some_iff.1 hw).1
  refine ⟨hs.coherent, fun obj entry he => ?_, fun w' wr' hw' hd' => ?_, hs.cleanup⟩
  · obtain ⟨wr', hw', hobj, hd'⟩ := hs.entry obj entry he
    by_cases hww : w = entry.managedObjectHolder
    · rw [← hww, hw] at hw'
      cases hw'
      exact ⟨{ wr with ccw := ccw }, by rw [← hww, List.getElem?_set_self hlt], hobj, hd'⟩
    · exact ⟨wr', by rwa [List.getElem?_set_ne hww], hobj, hd'⟩
  · simp only at hw'
    by_cases hww : w = w'
    · rw [← hww, List.getElem?_set_self hlt] at hw'
      cases hw'
      obtain ⟨hc, -, -⟩ := hs.wrapper w wr hw hd
      exact ⟨hww ▸ hc, hinv, hidle⟩
    · rw [List.getElem?_set_ne hww] at hw'
      obtain ⟨hc, hi, hq⟩ := hs.wrapper w' wr' hw' hd'
      exact ⟨hc, hi, hq⟩

theorem Inv.queryInterface (hs : s.Inv) {ccw : Entry} (hc : s.cache obj = some ccw)
    {found : Bool} (hq : found = true → s.queued obj = 0) :
    (s.queryInterface ccw.managedObjectHolder found).Inv := by
  obtain ⟨wr, hw, rfl, hd⟩ := hs.entry obj ccw hc
  cases found with
  | false => simpa only [State.queryInterface] using hs
  | true =>
    simp only [State.queryInterface, hw]
    have hi := (hs.wrapper _ wr hw hd).inv
    refine hs.set_ccw hw hd (hi.step (l := .addRef) trivial rfl) fun hpos => ?_
    exact absurd hpos (by simp [hq rfl])

theorem Inv.createCCW (hs : s.Inv) (hc : s.cache obj = none) : (s.createCCW obj).Inv := by
  have hnew {o : Obj} {ccw : Entry} (ho : s.cache o = some ccw) : o ≠ obj := by
    rintro rfl
    rw [hc] at ho
    cases ho
  have hcoh : Coherent none (s.callback obj) (s.queued obj) (s.last obj) (s.taken obj) := by
    rw [← hc]
    exact hs.coherent obj
  refine ⟨fun o => ?_, fun o ccw ho => ?_, fun w wr hw hd => ?_, hs.cleanup⟩
  · by_cases h : o = obj
    · subst h
      simp only [CoherentAt, State.createCCW, Function.update_self]
      exact hcoh.create _
    · simp only [CoherentAt, State.createCCW, Function.update_of_ne h]
      exact hs.coherent o
  · by_cases h : o = obj
    · subst h
      simp only [State.createCCW, Function.update_self] at ho
      cases ho
      exact ⟨_, List.getElem?_concat_length .., rfl, rfl⟩
    · simp only [State.createCCW, Function.update_of_ne h] at ho
      obtain ⟨wr, hw, hobj, hd⟩ := hs.entry o ccw ho
      have hlt := (List.getElem?_eq_some_iff.1 hw).1
      exact ⟨wr, (List.getElem?_append_left hlt).trans hw, hobj, hd⟩
  · by_cases hlt : w < s.wrappers.length
    · simp only [State.createCCW, List.getElem?_append_left hlt] at hw
      obtain ⟨hcw, hi, hq⟩ := hs.wrapper w wr hw hd
      obtain ⟨ccw, hccw, -⟩ := Option.map_eq_some_iff.1 hcw
      refine ⟨?_, hi, hq⟩
      simp only [State.createCCW, Function.update_of_ne (hnew hccw)]
      exact hcw
    · obtain ⟨n, rfl⟩ := Nat.exists_eq_add_of_le (Nat.not_lt.1 hlt)
      simp only [State.createCCW] at hw
      rw [List.getElem?_append_right (Nat.le_add_right ..), Nat.add_sub_cancel_left] at hw
      cases n with
      | succ n => cases hw
      | zero =>
        cases hw
        refine ⟨by simp [State.createCCW], CachedCCW.inv_init, fun _ => ?_⟩
        exact ⟨rfl, rfl, nofun⟩

theorem Inv.getOrCreateCCW (hs : s.Inv) {classes : Classes Obj} {found : Bool}
    (hq : found = true → s.queued obj = 0) : (s.getOrCreateCCW classes obj found).Inv := by
  rw [State.getOrCreateCCW]
  cases hc : s.cache obj with
  | some ccw =>
    simp only
    split_ifs with himport
    · exact hs
    · exact hs.queryInterface hc hq
  | none =>
    simp only
    split_ifs with himport hinsert
    · exact hs
    · have hnew : (s.createCCW obj).cache obj =
          some ⟨s.wrappers.length, (s.callback obj).isSome⟩ := Function.update_self ..
      exact (hs.createCCW hc).queryInterface hnew hq
    · exact hs

theorem Inv.of_wrappers (hs : s.Inv) (hcoh : ∀ obj, t.CoherentAt obj)
    (hcache : ∀ obj, (t.cache obj).map Entry.managedObjectHolder =
      (s.cache obj).map Entry.managedObjectHolder)
    (hw : t.wrappers = s.wrappers) (hcleanups : t.cleanups = s.cleanups)
    (hidle : ∀ (w : ℕ) (wr : Wrapper Obj), s.wrappers[w]? = some wr → wr.destroyed = false →
      0 < t.queued wr.obj → Idle wr.ccw) : t.Inv := by
  refine ⟨hcoh, fun obj ccw hc => ?_, fun w wr hwr hd => ?_, hcleanups ▸ hs.cleanup⟩
  · have := hcache obj
    rw [hc, Option.map_some, eq_comm, Option.map_eq_some_iff] at this
    obtain ⟨ccw', hc', he⟩ := this
    rw [hw, ← he]
    exact hs.entry obj ccw' hc'
  · rw [hw] at hwr
    obtain ⟨hc, hi, -⟩ := hs.wrapper w wr hwr hd
    exact ⟨(hcache wr.obj).trans hc, hi, hidle w wr hwr hd⟩

theorem Inv.setFinalizer (hs : s.Inv) (obj : Obj) (b : Bool) : (s.setFinalizer obj b).Inv := by
  have hcoh := hs.coherent obj
  rw [CoherentAt] at hcoh
  simp only [State.setFinalizer]
  cases hc : s.cache obj with
  | some ccw =>
    rw [hc] at hcoh
    refine hs.of_wrappers (fun o => ?_) (fun o => ?_) rfl rfl fun w wr hw hd =>
      (hs.wrapper w wr hw hd).idle
    · by_cases h : o = obj
      · subst h
        simp only [CoherentAt, Function.update_self]
        exact hcoh.setFinalizer_cached b
      · simp only [CoherentAt, Function.update_of_ne h]
        exact hs.coherent o
    · by_cases h : o = obj
      · subst h
        simp only [Function.update_self, hc]
        rfl
      · simp only [Function.update_of_ne h]
  | none =>
    rw [hc] at hcoh
    refine hs.of_wrappers (fun o => ?_) (fun o => rfl) rfl rfl fun w wr hw hd =>
      (hs.wrapper w wr hw hd).idle
    by_cases h : o = obj
    · subst h
      simp only [CoherentAt, Function.update_self, hc]
      exact hcoh.setFinalizer_uncached b
    · simp only [CoherentAt, Function.update_of_ne h]
      exact hs.coherent o

theorem Inv.collect (hs : s.Inv) {callback : Callback} (hc : s.callback obj = some callback)
    (hu : ∀ wr ∈ s.wrappers, wr.obj = obj → Unpinned wr.ccw) : (s.collect obj callback).Inv := by
  have hcoh := hs.coherent obj
  rw [CoherentAt, hc] at hcoh
  have hother {o : Obj} (h : o ≠ obj) : (s.collect obj callback).queued o = s.queued o := by
    rw [queued, State.collect, List.count_cons_of_ne]
    · rfl
    · simp [Ne.symm h]
  refine hs.of_wrappers (fun o => ?_) (fun o => rfl) rfl rfl fun w wr hw hd hpos => ?_
  · by_cases h : o = obj
    · subst h
      cases callback with
      | runFinalizer =>
        have : (s.collect o .runFinalizer).queued o = s.queued o := by simp [queued, State.collect]
        simp only [CoherentAt, this]
        simp only [State.collect, if_true, Function.update_self]
        exact hcoh.collect_runFinalizer
      | cleanupCCW =>
        have : (s.collect o .cleanupCCW).queued o = s.queued o + 1 := by
          simp [queued, State.collect]
        simp only [CoherentAt, this]
        simp only [State.collect, reduceCtorEq, if_false, Function.update_self]
        exact hcoh.collect_cleanupCCW
    · have htaken : (s.collect obj callback).taken o = s.taken o := by
        simp only [State.collect]
        split_ifs <;> simp [h]
      simp only [CoherentAt, hother h, htaken]
      simp only [State.collect, Function.update_of_ne h]
      exact hs.coherent o
  · have hi := hs.wrapper w wr hw hd
    by_cases h : wr.obj = obj
    · exact idle_of_unpinned hi.inv (hu wr (List.mem_of_getElem? hw) h)
    · exact hi.idle (hother h ▸ hpos)

theorem Inv.cleanupCCW (hs : s.Inv) {rest : List (Obj × Callback)}
    (hq : s.finalizeNow = (obj, .cleanupCCW) :: rest)
    (ht : State.cleanupCCW { s with finalizeNow := rest } obj = some t) : t.Inv := by
  obtain ⟨ccw, hc, ht⟩ := Option.bind_eq_some_iff.1 ht
  obtain ⟨wr, hw, rfl⟩ := Option.map_eq_some_iff.1 ht
  simp only at hc hw
  have hlt := (List.getElem?_eq_some_iff.1 hw).1
  have hqueued (o : Obj) : s.queued o = rest.count (o, .cleanupCCW) + if obj = o then 1 else 0 := by
    rw [queued, hq, List.count_cons]
    simp
  have hcoh := hs.coherent obj
  rw [CoherentAt, hc, hqueued, if_pos rfl] at hcoh
  obtain ⟨wr', hw', hobj, hd⟩ := hs.entry obj ccw hc
  cases hw.symm.trans hw'
  have hok := hs.wrapper _ wr hw hd
  refine ⟨fun o => ?_, fun o entry ho => ?_, fun w' wr' hw' hd' => ?_, fun c hcm => ?_⟩
  · by_cases h : o = obj
    · subst h
      simp only [CoherentAt, queued, Function.update_self]
      exact hcoh.cleanupCCW
    · have ho := hs.coherent o
      rw [CoherentAt, hqueued, if_neg (Ne.symm h)] at ho
      simp only [CoherentAt, queued, Function.update_of_ne h]
      exact ho
  · have hne : o ≠ obj := by
      rintro rfl
      simp only [Function.update_self] at ho
      cases ho
    simp only [Function.update_of_ne hne] at ho
    obtain ⟨wr', hw', hobj', hd'⟩ := hs.entry o entry ho
    have hww : ccw.managedObjectHolder ≠ entry.managedObjectHolder := by
      intro heq
      rw [← heq, hw] at hw'
      cases hw'
      exact hne (hobj'.symm.trans hobj)
    exact ⟨wr', (List.getElem?_set_ne hww).trans hw', hobj', hd'⟩
  · simp only at hw'
    have hww : ccw.managedObjectHolder ≠ w' := by
      rintro rfl
      rw [List.getElem?_set_self hlt] at hw'
      cases hw'
      cases hd'
    rw [List.getElem?_set_ne hww] at hw'
    obtain ⟨hc', hi', hq'⟩ := hs.wrapper w' wr' hw' hd'
    have hne : wr'.obj ≠ obj := by
      intro heq
      rw [heq, hc, Option.map_some, Option.some_inj] at hc'
      exact hww hc'
    refine ⟨by simpa only [Function.update_of_ne hne] using hc', hi', fun hpos => hq' ?_⟩
    rw [hqueued]
    exact Nat.lt_of_lt_of_le hpos (Nat.le_add_right ..)
  · rcases List.mem_cons.1 hcm with rfl | hcm
    · refine ⟨(hok.idle ?_).refCount, hcoh.hasFinalizer_eq⟩
      rw [hobj, hqueued, if_pos rfl]
      exact Nat.succ_pos _
    · exact hs.cleanup c hcm

theorem Inv.invoke (hs : s.Inv) (ht : s.invoke = some t) : t.Inv := by
  rw [State.invoke] at ht
  split at ht
  · cases ht
  · rename_i obj callback rest hq
    cases callback with
    | cleanupCCW => exact hs.cleanupCCW hq ht
    | runFinalizer =>
      cases ht
      have hqueued (o : Obj) : s.queued o = rest.count (o, .cleanupCCW) := by
        rw [queued, hq, List.count_cons_of_ne (by simp)]
      refine hs.of_wrappers (fun o => ?_) (fun _ => rfl) rfl rfl fun w wr hw hd hpos => ?_
      · have ho := hs.coherent o
        rwa [CoherentAt, hqueued] at ho
      · refine (hs.wrapper w wr hw hd).idle ?_
        rw [hqueued]
        exact hpos

end State

/-- No object is passed to `GetOrCreateCCW`, and gets a reference, while its `CleanupCCW` is queued;
and no count of a wrapper overflows. -/
def NotQueued (s : State Obj) : Label Obj → Prop
  | .getOrCreateCCW obj found => found = true → s.queued obj = 0
  | .wrapper w l => ∀ wr ∈ s.wrappers[w]?, CachedCCW.NoOverflow wr.ccw l
  | _ => True

instance (s : State Obj) : ∀ l, Decidable (NotQueued s l)
  | .getOrCreateCCW obj found => inferInstanceAs (Decidable (found = true → s.queued obj = 0))
  | .wrapper w l =>
    inferInstanceAs (Decidable (∀ wr ∈ s.wrappers[w]?, CachedCCW.NoOverflow wr.ccw l))
  | .registerFinalizer _ | .suppressFinalizer _ | .collect _ | .invoke => .isTrue trivial

/-- **A step keeps the invariant.** -/
theorem State.Inv.step {classes : Classes Obj} {s t : State Obj} {l : Label Obj} (hs : s.Inv)
    (hl : NotQueued s l) (ht : CCWCache.step classes s l = some t) : t.Inv := by
  cases l with
  | getOrCreateCCW obj found =>
    cases ht
    exact hs.getOrCreateCCW hl
  | wrapper w l =>
    obtain ⟨wr, hw, ht⟩ := Option.bind_eq_some_iff.1 ht
    obtain ⟨⟨hd, hadd⟩, ht⟩ := Option.ite_none_right_eq_some.1 ht
    obtain ⟨ccw, hccw, rfl⟩ := Option.map_eq_some_iff.1 ht
    have hok := hs.wrapper w wr hw hd
    exact hs.set_ccw hw hd (hok.inv.step (hl wr hw) hccw) fun hpos =>
      absurd hccw ((hok.idle hpos).step hadd)
  | registerFinalizer obj =>
    cases ht
    exact hs.setFinalizer obj true
  | suppressFinalizer obj =>
    cases ht
    exact hs.setFinalizer obj false
  | collect obj =>
    obtain ⟨callback, hc, ht⟩ := Option.bind_eq_some_iff.1 ht
    obtain ⟨hu, ⟨⟩⟩ := Option.ite_none_right_eq_some.1 ht
    exact hs.collect hc hu
  | invoke => exact hs.invoke ht

theorem inv_init (classes : Classes Obj) : (init classes).Inv := by
  refine ⟨fun obj => ?_, nofun, nofun, nofun⟩
  simp only [State.CoherentAt, init]
  cases classes.hasFinalize obj <;> exact ⟨rfl, nofun, rfl⟩

/-! ### Wrappers and finalizers -/

/-- What the cache guarantees. -/
structure State.Safe (s : State Obj) : Prop where
  /-- A cached object has one wrapper. -/
  oneWrapper : ∀ obj ccw, s.cache obj = some ccw →
    ∃ wr, s.wrappers[ccw.managedObjectHolder]? = some wr ∧ wr.obj = obj ∧ wr.destroyed = false ∧
      ∀ (w : ℕ) (wr' : Wrapper Obj), s.wrappers[w]? = some wr' → wr'.obj = obj →
        wr'.destroyed = false → w = ccw.managedObjectHolder
  /-- The collector has `CleanupCCW` of a cached object, registered or queued, once; and of no other
  object, which is the assertion in `CleanupCCW`. -/
  registered : ∀ obj, (decide (s.callback obj = some .cleanupCCW)).toNat + s.queued obj =
    (s.cache obj).isSome.toNat
  /-- A wrapper is destroyed unreferenced. -/
  unreferenced : ∀ c ∈ s.cleanups, c.refCount = 0
  /-- The managed finalizer runs if and only if it was left enabled and did not run since. -/
  finalizer : ∀ c ∈ s.cleanups, c.ran = (c.last && !c.taken)

theorem State.Inv.safe {s : State Obj} (hs : s.Inv) : s.Safe where
  oneWrapper obj ccw hc := by
    obtain ⟨wr, hw, hobj, hd⟩ := hs.entry obj ccw hc
    refine ⟨wr, hw, hobj, hd, fun w wr' hw' hobj' hd' => ?_⟩
    have := (hs.wrapper w wr' hw' hd').cached
    rw [hobj', hc, Option.map_some, Option.some_inj] at this
    exact this.symm
  registered obj := (hs.coherent obj).registered
  unreferenced c hc := (hs.cleanup c hc).1
  finalizer c hc := (hs.cleanup c hc).2

/-- **A referenced wrapper is not destroyed**, when no object whose `CleanupCCW` is queued is passed
to `GetOrCreateCCW`. -/
theorem wrapper_unreferenced {classes : Classes Obj} {s : State Obj}
    (h : (lts classes).ReachWith NotQueued (init classes) s) : s.Safe := by
  have hs : s.Inv :=
    h.invariant (inv_init classes) fun _ _ _ hs hl ht => State.Inv.step hs hl ht
  exact hs.safe

/-- Two objects: the first one has a finalizer. -/
def twoObjects : Classes Bool where
  isImportOrWindowsRuntime _ := false
  hasFinalize obj := obj
  shouldInsert _ := true

/-- A wrapper gets a reference and gives it back. -/
def addAndRelease (obj : Bool) : List (Label Bool) :=
  [.getOrCreateCCW obj true, .wrapper 0 (.run 0 0), .wrapper 0 (.run 0 7), .wrapper 0 (.run 0 0),
   .wrapper 0 (.run 0 0), .wrapper 0 .release, .wrapper 0 (.run 1 0), .wrapper 0 (.run 1 0),
   .wrapper 0 (.run 1 0)]

theorem wrapper_unreferenced_finalized : ∃ s : State Bool,
    (lts twoObjects).ReachWith NotQueued (init twoObjects) s ∧
      (s.cleanups.map fun c => (c.obj, c.ran)) = [(true, true)] ∧ s.Safe := by
  obtain ⟨s, hs, hc⟩ := LTS.exists_reachWith (f := step twoObjects) (G := NotQueued)
    (i := init twoObjects) (addAndRelease true ++ [.collect true, .invoke])
    (fun s => (s.cleanups.map fun c => (c.obj, c.ran)) = [(true, true)]) (by decide)
  exact ⟨s, hs, hc, wrapper_unreferenced hs⟩

/-- Both objects are queued, and the finalizer of the first one passes the second one. -/
def resurrected : List (Label Bool) :=
  addAndRelease false ++ [.collect false, .collect true, .invoke, .getOrCreateCCW false true,
    .wrapper 0 (.run 2 0), .wrapper 0 (.run 2 8), .wrapper 0 (.run 2 0), .wrapper 0 (.run 2 0),
    .invoke]

/-- `CleanupCCW` destroys a wrapper that native code got from the finalizer. -/
theorem wrapper_referenced :
    ¬ ∀ s : State Bool, (lts twoObjects).Reachable (init twoObjects) s → s.Safe := by
  intro h
  obtain ⟨s, hs, hc⟩ := LTS.exists_reachWith (f := step twoObjects) (G := fun _ _ => True)
    (i := init twoObjects) resurrected
    (fun s => (s.cleanups.map fun c => c.refCount) = [1]) (by decide)
  obtain ⟨c, hmem, h1⟩ := List.exists_of_mem_map (hc ▸ List.mem_singleton_self 1 :
    1 ∈ s.cleanups.map fun c => c.refCount)
  have := (h s hs).unreferenced c hmem
  omega

end CCWCache

end Il2Cpp
