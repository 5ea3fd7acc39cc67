import Il2Cpp.Data.UInt32Counter
import Il2Cpp.GC.GCHandle
import Il2Cpp.LTS.Threads

/-!
# COM callable wrappers pin their objects

`vm/CachedCCWBase.h`: while native code has references to the wrapper of a managed object, the
wrapper keeps a strong handle on the object.  The count and the handle are two atomics, so a call
of `AddRef` that raises the count from 0 can meet a call of `Release` that has reached 0 and has
not taken the handle yet.

* `PC` : where a call of `AddRefImpl` or `ReleaseImpl` is.
* `State.Inv` : the invariant.  Its main part is a balance: the handle in `m_GCHandle` and the calls
  that are going to put one there are as many as the calls that are going to take it and the
  positive count.
* `references_pin` : while the count does not overflow, a positive count keeps the object alive.
* `references_unpinned` : `2 ^ 32` references make the count 0.
-/

namespace Il2Cpp

open GC (GCHandleType)

namespace CachedCCW

variable {Obj : Type*}

/-- A GC handle, a `uint32_t`; 0 is none. -/
abbrev Handle := ℕ

/-- Where a call is. -/
inductive PC
  /-- `AddRefImpl`, before the increment -/
  | addRef
  /-- the count was 0; before `GCHandle::New` -/
  | newHandle
  /-- before `CompareExchange` -/
  | compareExchange (gcHandle : Handle)
  /-- before `AddRefImpl` returns -/
  | addRefReturn
  /-- `ReleaseImpl`, before the decrement -/
  | release
  /-- the count is 0; before `Exchange` -/
  | exchange
  /-- before `GCHandle::Free` -/
  | free (gcHandle : Handle)
  | returned
  deriving DecidableEq

/-- A wrapper, its calls, and the handles on its object. -/
structure State (Obj : Type*) where
  /-- `m_RefCount`, a `uint32_t`. -/
  refCount : ℕ
  /-- `m_GCHandle`. -/
  gcHandle : Handle
  calls : List PC
  /-- The references taken by calls of `AddRef` that have returned, and not released yet. -/
  references : ℕ
  /-- The handles that `GCHandle::New` created for the wrapper and that are not freed yet, with the
  object and the type. -/
  handles : Handle → Option (Obj × GCHandleType)
  /-- The results of all calls of `GCHandle::New`. -/
  created : List Handle
  /-- The arguments of all calls of `GCHandle::Free`. -/
  freed : List Handle

/-- The constructor of `CachedCCWBase`. -/
def init : State Obj := ⟨0, 0, [], 0, fun _ => none, [], []⟩

/-- What happens to a wrapper. -/
inductive Label
  | addRef
  /-- `Release` gives back a reference -/
  | release
  /-- a call takes a step; `gcHandle` is what `GCHandle::New` returns in it -/
  | run (i : ℕ) (gcHandle : Handle)
  deriving DecidableEq

/-- One step of a call, on the object `obj`.  `GCHandle::New` returns a handle that is not in
use. -/
def runPC (obj : Obj) (s : State Obj) (gcHandle : Handle) : PC → Option (State Obj × PC)
  | .addRef =>
    let refCount := increment s.refCount
    some ({ s with refCount := refCount }, if refCount = 1 then .newHandle else .addRefReturn)
  | .newHandle =>
    if gcHandle ≠ 0 ∧ s.handles gcHandle = none then
      some ({ s with
        handles := Function.update s.handles gcHandle (some (obj, .normal))
        created := gcHandle :: s.created }, .compareExchange gcHandle)
    else none
  | .compareExchange h =>
    if s.gcHandle = 0 then some ({ s with gcHandle := h }, .addRefReturn)
    else some (s, .compareExchange h)
  | .addRefReturn => some ({ s with references := s.references + 1 }, .returned)
  | .release =>
    let count := decrement s.refCount
    some ({ s with refCount := count }, if count = 0 then .exchange else .returned)
  | .exchange => some ({ s with gcHandle := 0 }, .free s.gcHandle)
  | .free h =>
    some ({ s with
      handles := Function.update s.handles h none
      freed := h :: s.freed }, .returned)
  | .returned => none

/-- A step.  `Release` is called only with a reference that a call of `AddRef` took and that was not
released yet. -/
def step (obj : Obj) (s : State Obj) : Label → Option (State Obj)
  | .addRef => some { s with calls := s.calls ++ [.addRef] }
  | .release =>
    if 0 < s.references then
      some { s with references := s.references - 1, calls := s.calls ++ [.release] }
    else none
  | .run i gcHandle =>
    s.calls[i]?.bind fun pc => (runPC obj s gcHandle pc).map fun (s', pc') =>
      { s' with calls := s'.calls.set i pc' }

/-- The transition system of one wrapper. -/
def lts (obj : Obj) : LTS (State Obj) Label := .ofFun (step obj)

/-! ### The numbers -/

/-- The count, against the references and the calls: `counted` calls have counted a reference or are
going to count one off, `raising` calls raised the count from 0 and have not installed their handle,
`taking` calls reached 0 and have not taken it, and `installed` says whether one is in `m_GCHandle`.
What is or is going to be there is what is going to be taken from there, and the positive count. -/
structure Balanced (refCount references installed counted raising taking : ℕ) : Prop where
  refCount_eq : refCount = references + counted
  raising_le : raising ≤ min refCount 1
  balance : installed + raising = taking + min refCount 1

namespace Balanced

variable {refCount references installed counted raising taking : ℕ}

theorem raise (h : Balanced 0 references installed counted raising taking) :
    Balanced 1 references installed (counted + 1) (raising + 1) taking := by
  obtain ⟨h₁, h₂, h₃⟩ := h
  constructor <;> omega

theorem add (h : Balanced refCount references installed counted raising taking)
    (hpos : 0 < refCount) :
    Balanced (refCount + 1) references installed (counted + 1) raising taking := by
  obtain ⟨h₁, h₂, h₃⟩ := h
  constructor <;> omega

theorem install (h : Balanced refCount references 0 counted (raising + 1) taking) :
    Balanced refCount references 1 counted raising taking := by
  obtain ⟨h₁, h₂, h₃⟩ := h
  constructor <;> omega

theorem give (h : Balanced refCount references installed (counted + 1) raising taking) :
    Balanced refCount (references + 1) installed counted raising taking := by
  obtain ⟨h₁, h₂, h₃⟩ := h
  constructor <;> omega

theorem consume (h : Balanced refCount (references + 1) installed counted raising taking) :
    Balanced refCount references installed (counted + 1) raising taking := by
  obtain ⟨h₁, h₂, h₃⟩ := h
  constructor <;> omega

theorem reach (h : Balanced 1 references installed (counted + 1) raising taking)
    (hr : raising ≤ counted) :
    Balanced 0 references installed counted raising (taking + 1) := by
  obtain ⟨h₁, h₂, h₃⟩ := h
  constructor <;> omega

theorem sub (h : Balanced (refCount + 1) references installed (counted + 1) raising taking)
    (hpos : 0 < refCount) : Balanced refCount references installed counted raising taking := by
  obtain ⟨h₁, h₂, h₃⟩ := h
  constructor <;> omega

theorem installed_pos (h : Balanced refCount references installed counted raising (taking + 1)) :
    0 < installed := by
  obtain ⟨-, h₂, h₃⟩ := h
  omega

theorem take (h : Balanced refCount references 1 counted raising (taking + 1)) :
    Balanced refCount references 0 counted raising taking := by
  obtain ⟨h₁, h₂, h₃⟩ := h
  constructor <;> omega

end Balanced

/-! ### What the calls hold -/

/-- The call has counted a reference that it has not returned, or is going to count one off. -/
def PC.counted : PC → Bool
  | newHandle | compareExchange _ | addRefReturn | release => true
  | _ => false

/-- The call raised the count from 0 and has not installed its handle. -/
def PC.raising : PC → Bool
  | newHandle | compareExchange _ => true
  | _ => false

theorem PC.counted_of_raising {pc : PC} (h : pc.raising = true) : pc.counted = true := by
  cases pc <;> first | rfl | cases h

/-- The call reached 0 and has not taken the handle from `m_GCHandle`. -/
def PC.taking : PC → Bool
  | exchange => true
  | _ => false

/-- The call has the handle in a local variable. -/
def PC.holds (h : Handle) (pc : PC) : Bool := pc = .compareExchange h ∨ pc = .free h

/-- Whether a handle is in `m_GCHandle`. -/
def installed (gcHandle : Handle) : ℕ := if gcHandle = 0 then 0 else 1

theorem installed_pos_iff {h : Handle} : 0 < installed h ↔ h ≠ 0 := by
  rw [installed]
  split_ifs with h0 <;> simp [h0]

namespace State

variable (s : State Obj)

/-- How often a handle is in `m_GCHandle` or in a local variable of a call. -/
def holders (h : Handle) : ℕ :=
  (decide (h ≠ 0 ∧ s.gcHandle = h)).toNat + s.calls.countP (PC.holds h)

/-- No call is in progress. -/
def Quiet : Prop := ∀ pc ∈ s.calls, pc = .returned

/-- No `AddRef` that raised the count from 0 is in progress. -/
def Raised : Prop := ∀ pc ∈ s.calls, pc.raising = false

/-- The count, the handle in `m_GCHandle` and the calls. -/
def Counts : Prop :=
  Balanced s.refCount s.references (installed s.gcHandle) (s.calls.countP PC.counted)
    (s.calls.countP PC.raising) (s.calls.countP PC.taking)

/-- The handles in use and those who hold them. -/
structure Holds (obj : Obj) : Prop where
  holders_eq : ∀ h, s.holders h = (s.handles h).isSome.toNat
  created_eq : ∀ h, s.created.count h = s.freed.count h + (s.handles h).isSome.toNat
  handles_zero : s.handles 0 = none
  strong : ∀ h entry, s.handles h = some entry → entry = (obj, .normal)

/-- **The invariant of a wrapper** whose count does not overflow. -/
structure Inv (obj : Obj) : Prop where
  counts : s.Counts
  holds : s.Holds obj

end State

/-! ### A step -/

theorem step_run {obj : Obj} {s s' : State Obj} {i : ℕ} {h : Handle} :
    step obj s (.run i h) = some s' ↔ ∃ pc t pc', s.calls[i]? = some pc ∧
      runPC obj s h pc = some (t, pc') ∧ s' = { t with calls := s.calls.set i pc' } := by
  have hcalls {pc : PC} {t : State Obj} {pc' : PC} (ht : runPC obj s h pc = some (t, pc')) :
      t.calls = s.calls := by
    cases pc with
    | returned => cases ht
    | addRef | release =>
      simp only [runPC, Option.some.injEq, Prod.mk.injEq] at ht
      rw [← ht.1]
    | addRefReturn | exchange | free => cases ht; rfl
    | newHandle =>
      obtain ⟨-, ⟨⟩⟩ := Option.ite_none_right_eq_some.1 ht
      rfl
    | compareExchange =>
      rw [runPC] at ht
      split_ifs at ht <;> cases ht <;> rfl
  simp only [step, Option.bind_eq_some_iff, Option.map_eq_some_iff, Prod.exists]
  constructor
  · rintro ⟨pc, hpc, t, pc', ht, rfl⟩
    exact ⟨pc, t, pc', hpc, ht, by rw [hcalls ht]⟩
  · rintro ⟨pc, t, pc', hpc, ht, rfl⟩
    exact ⟨pc, hpc, t, pc', ht, by rw [hcalls ht]⟩

theorem holders_set {s : State Obj} {i : ℕ} {pc : PC} (hi : s.calls[i]? = some pc) (h : Handle) :
    ∃ n, s.holders h = n + (decide (h ≠ 0 ∧ s.gcHandle = h)).toNat + (pc.holds h).toNat ∧
      ∀ (t : State Obj) (pc' : PC), t.calls = s.calls.set i pc' →
        t.holders h = n + (decide (h ≠ 0 ∧ t.gcHandle = h)).toNat + (pc'.holds h).toNat := by
  obtain ⟨n, hn, hset⟩ := countP_set_append (p := PC.holds h) hi
  refine ⟨n, by rw [State.holders, hn]; omega, fun t pc' ht => ?_⟩
  have := hset pc' []
  rw [List.append_nil, List.countP_nil] at this
  rw [State.holders, ht, this]
  omega

/-- The count is not incremented to 0. -/
def NoOverflow (s : State Obj) : Label → Prop
  | .run i _ => s.calls[i]? = some .addRef → s.refCount < uint32Max
  | .addRef | .release => True

instance (s : State Obj) : ∀ l, Decidable (NoOverflow s l)
  | .run i _ => inferInstanceAs (Decidable (s.calls[i]? = some .addRef → s.refCount < uint32Max))
  | .addRef => .isTrue trivial
  | .release => .isTrue trivial

namespace State

variable {obj : Obj} {s t : State Obj} {i : ℕ} {h : Handle} {pc pc' : PC}

/-- **A step of a call keeps the counts.** -/
theorem Counts.run (hs : s.Counts) (hi : s.calls[i]? = some pc)
    (hno : pc = .addRef → s.refCount < uint32Max) (hne : ∀ g, pc = .compareExchange g → g ≠ 0)
    (ht : runPC obj s h pc = some (t, pc')) :
    ({ t with calls := s.calls.set i pc' } : State Obj).Counts := by
  obtain ⟨a, ha, hcounted⟩ := countP_set_append (p := PC.counted) hi
  obtain ⟨b, hb, hraising⟩ := countP_set_append (p := PC.raising) hi
  obtain ⟨c, hc, htaking⟩ := countP_set_append (p := PC.taking) hi
  replace hcounted := hcounted pc' []
  replace hraising := hraising pc' []
  replace htaking := htaking pc' []
  rw [List.append_nil, List.countP_nil, Nat.add_zero] at hcounted hraising htaking
  rw [Counts, ha, hb, hc] at hs
  rw [Counts, hcounted, hraising, htaking]
  cases pc with
  | returned => cases ht
  | addRef =>
    simp only [runPC, increment, if_pos (hno rfl), Option.some.injEq, Prod.mk.injEq] at ht
    obtain ⟨rfl, rfl⟩ := ht
    by_cases h0 : s.refCount = 0
    · have hs : Balanced 0 s.references (installed s.gcHandle) a b c := by rw [← h0]; exact hs
      simp only [h0, Nat.zero_add, if_true]
      exact hs.raise
    · simp only [Nat.add_eq_right, h0, if_false]
      exact hs.add (Nat.pos_of_ne_zero h0)
  | newHandle =>
    obtain ⟨-, ⟨⟩⟩ := Option.ite_none_right_eq_some.1 ht
    exact hs
  | compareExchange g =>
    rw [runPC] at ht
    split_ifs at ht with h0
    · cases ht
      have hs : Balanced s.refCount s.references 0 (a + 1) (b + 1) c := by
        rwa [installed, if_pos h0] at hs
      rw [installed, if_neg (hne g rfl)]
      exact hs.install
    · cases ht
      exact hs
  | addRefReturn =>
    cases ht
    exact hs.give
  | release =>
    simp only [runPC, Option.some.injEq, Prod.mk.injEq] at ht
    obtain ⟨rfl, rfl⟩ := ht
    have hpos : s.refCount ≠ 0 := by
      have : s.refCount = s.references + (a + 1) := hs.refCount_eq
      omega
    obtain ⟨n, hn⟩ := Nat.exists_eq_succ_of_ne_zero hpos
    rw [hn] at hs hraising hcounted ⊢
    simp only [decrement, if_neg (Nat.succ_ne_zero n), Nat.succ_sub_one] at hraising hcounted ⊢
    by_cases h0 : n = 0
    · subst h0
      simp only [if_true] at hraising hcounted ⊢
      have hle : b ≤ a := by
        calc b = (s.calls.set i .exchange).countP PC.raising := hraising.symm
          _ ≤ (s.calls.set i .exchange).countP PC.counted :=
            List.countP_mono_left fun pc _ hr => PC.counted_of_raising hr
          _ = a := hcounted
      exact hs.reach hle
    · simp only [h0, if_false]
      exact hs.sub (Nat.pos_of_ne_zero h0)
  | exchange =>
    cases ht
    have hne : s.gcHandle ≠ 0 := installed_pos_iff.1 hs.installed_pos
    rw [installed, if_neg hne] at hs
    exact hs.take
  | free g =>
    cases ht
    exact hs

theorem Holds.isSome (hs : s.Holds obj) (hh : 0 < s.holders h) : (s.handles h).isSome = true := by
  rw [hs.holders_eq] at hh
  cases hsome : (s.handles h).isSome with
  | true => rfl
  | false => simp [hsome] at hh

theorem holders_pos_of_mem (hi : s.calls[i]? = some pc) (hh : pc.holds h = true) :
    0 < s.holders h := by
  have : 0 < s.calls.countP (PC.holds h) :=
    List.countP_pos_iff.2 ⟨pc, List.mem_of_getElem? hi, hh⟩
  rw [holders]
  omega

theorem holders_gcHandle (hne : s.gcHandle ≠ 0) : 0 < s.holders s.gcHandle := by
  rw [holders, decide_eq_true ⟨hne, rfl⟩, Bool.toNat_true]
  omega

theorem Holds.ne_zero (hs : s.Holds obj) (hi : s.calls[i]? = some pc) (hh : pc.holds h = true) :
    h ≠ 0 := by
  rintro rfl
  have := hs.isSome (holders_pos_of_mem hi hh)
  simp [hs.handles_zero] at this

theorem Counts.gcHandle_ne_zero (hs : s.Counts) (hmem : .exchange ∈ s.calls) : s.gcHandle ≠ 0 := by
  have hpos : 0 < s.calls.countP PC.taking := List.countP_pos_iff.2 ⟨.exchange, hmem, rfl⟩
  obtain ⟨n, hn⟩ := Nat.exists_eq_succ_of_ne_zero (Nat.ne_of_gt hpos)
  rw [Counts, hn] at hs
  exact installed_pos_iff.1 hs.installed_pos

theorem Holds.of_keep (hs : s.Holds obj) (hi : s.calls[i]? = some pc)
    (hcalls : t.calls = s.calls.set i pc')
    (hheld : ∀ g, (decide (g ≠ 0 ∧ t.gcHandle = g)).toNat + (pc'.holds g).toNat =
      (decide (g ≠ 0 ∧ s.gcHandle = g)).toNat + (pc.holds g).toNat)
    (hhandles : t.handles = s.handles) (hcreated : t.created = s.created)
    (hfreed : t.freed = s.freed) : t.Holds obj := by
  obtain ⟨hhold, hcreate, hzero, hstrong⟩ := hs
  rw [← hhandles] at hhold hcreate hzero hstrong
  refine ⟨fun g => ?_, by rwa [hcreated, hfreed], hzero, hstrong⟩
  obtain ⟨n, hn, hset⟩ := holders_set hi g
  have := hheld g
  rw [hset t pc' hcalls, ← hhold, hn]
  omega

theorem Holds.of_new (hs : s.Holds obj) (hi : s.calls[i]? = some .newHandle) (hne : h ≠ 0)
    (hnew : s.handles h = none) (hcalls : t.calls = s.calls.set i (.compareExchange h))
    (hg : t.gcHandle = s.gcHandle)
    (hhandles : t.handles = Function.update s.handles h (some (obj, .normal)))
    (hcreated : t.created = h :: s.created) (hfreed : t.freed = s.freed) : t.Holds obj := by
  obtain ⟨hhold, hcreate, hzero, hstrong⟩ := hs
  refine ⟨fun g => ?_, fun g => ?_, ?_, fun g entry => ?_⟩
  · obtain ⟨n, hn, hset⟩ := holders_set hi g
    rw [hset t _ hcalls, hg, hhandles]
    rw [hhold] at hn
    by_cases hgh : g = h
    · subst hgh
      simp only [hnew, PC.holds, Option.isSome_none, Bool.toNat_false] at hn
      simp only [PC.holds, Function.update_self, Option.isSome_some, true_or, decide_true,
        Bool.toNat_true]
      omega
    · have hgh' : h ≠ g := Ne.symm hgh
      rw [Function.update_of_ne hgh, hn]
      simp [PC.holds, hgh']
  · rw [hcreated, hfreed, hhandles, List.count_cons, hcreate]
    by_cases hgh : g = h
    · subst hgh
      simp [hnew]
    · have hgh' : h ≠ g := Ne.symm hgh
      simp [hgh, hgh']
  · rw [hhandles, Function.update_of_ne (Ne.symm hne), hzero]
  · rw [hhandles]
    by_cases hgh : g = h
    · subst hgh
      simp [eq_comm]
    · simpa [hgh] using hstrong g entry

theorem Holds.of_free {g : Handle} (hs : s.Holds obj) (hi : s.calls[i]? = some (.free g))
    (hcalls : t.calls = s.calls.set i .returned) (hg : t.gcHandle = s.gcHandle)
    (hhandles : t.handles = Function.update s.handles g none)
    (hcreated : t.created = s.created) (hfreed : t.freed = g :: s.freed) : t.Holds obj := by
  have hsome := hs.isSome (holders_pos_of_mem (h := g) hi (by simp [PC.holds]))
  obtain ⟨hhold, hcreate, hzero, hstrong⟩ := hs
  refine ⟨fun g' => ?_, fun g' => ?_, ?_, fun g' entry => ?_⟩
  · obtain ⟨n, hn, hset⟩ := holders_set hi g'
    rw [hset t _ hcalls, hg, hhandles]
    rw [hhold] at hn
    by_cases hgg : g' = g
    · subst hgg
      simp only [hsome, PC.holds, or_true, decide_true, Bool.toNat_true] at hn
      simp only [PC.holds, Function.update_self, Option.isSome_none, Bool.toNat_false,
        reduceCtorEq, or_self, decide_false]
      omega
    · have hgg' : g ≠ g' := Ne.symm hgg
      rw [Function.update_of_ne hgg, hn]
      simp [PC.holds, hgg']
  · have := hcreate g'
    rw [hcreated, hfreed, hhandles, List.count_cons, hcreate]
    by_cases hgg : g' = g
    · subst hgg
      simp [hsome]
    · have hgg' : g ≠ g' := Ne.symm hgg
      simp [hgg, hgg']
  · rw [hhandles]
    by_cases hg0 : 0 = g
    · rw [hg0, Function.update_self]
    · rw [Function.update_of_ne hg0, hzero]
  · rw [hhandles]
    by_cases hgg : g' = g
    · subst hgg
      simp
    · simpa [hgg] using hstrong g' entry

/-- **A step of a call keeps the handles.** -/
theorem Holds.run (hs : s.Holds obj) (hi : s.calls[i]? = some pc)
    (htake : pc = .exchange → s.gcHandle ≠ 0) (ht : runPC obj s h pc = some (t, pc')) :
    ({ t with calls := s.calls.set i pc' } : State Obj).Holds obj := by
  cases pc with
  | returned => cases ht
  | addRef | release =>
    simp only [runPC, Option.some.injEq, Prod.mk.injEq] at ht
    obtain ⟨rfl, rfl⟩ := ht
    refine hs.of_keep hi rfl (fun g => ?_) rfl rfl rfl
    split_ifs <;> simp [PC.holds]
  | addRefReturn =>
    cases ht
    exact hs.of_keep hi rfl (fun g => by simp [PC.holds]) rfl rfl rfl
  | exchange =>
    cases ht
    refine hs.of_keep hi rfl (fun g => ?_) rfl rfl rfl
    have hnot : ¬ (g ≠ 0 ∧ 0 = g) := fun h => h.1 h.2.symm
    by_cases hg : s.gcHandle = g
    · have hne : g ≠ 0 := hg ▸ htake rfl
      simp only [hnot, decide_false]
      simp [PC.holds, hg, hne]
    · simp only [hnot, decide_false]
      simp [PC.holds, hg]
  | compareExchange g =>
    have hg : g ≠ 0 := hs.ne_zero hi (by simp [PC.holds])
    rw [runPC] at ht
    split_ifs at ht with h0
    · cases ht
      refine hs.of_keep hi rfl (fun g' => ?_) rfl rfl rfl
      have hnot : ¬ (g' ≠ 0 ∧ 0 = g') := fun h => h.1 h.2.symm
      rw [h0, decide_eq_false hnot]
      by_cases hg' : g = g'
      · subst hg'
        simp [PC.holds, hg]
      · simp [PC.holds, hg']
    · cases ht
      exact hs.of_keep hi rfl (fun _ => rfl) rfl rfl rfl
  | newHandle =>
    obtain ⟨⟨hne, hnew⟩, ⟨⟩⟩ := Option.ite_none_right_eq_some.1 ht
    exact hs.of_new hi hne hnew rfl rfl rfl rfl rfl
  | free g =>
    cases ht
    exact hs.of_free hi rfl rfl rfl rfl rfl

/-- **A step keeps the invariant.** -/
theorem Inv.step {l : Label} (hs : s.Inv obj) (hno : NoOverflow s l)
    (ht : CachedCCW.step obj s l = some t) : t.Inv obj := by
  obtain ⟨hcounts, hholds⟩ := hs
  cases l with
  | addRef =>
    cases ht
    refine ⟨?_, ⟨fun g => ?_, hholds.created_eq, hholds.handles_zero, hholds.strong⟩⟩
    · simpa [Counts, PC.counted, PC.raising, PC.taking] using hcounts
    · simpa [holders, PC.holds] using hholds.holders_eq g
  | release =>
    obtain ⟨hpos, ⟨⟩⟩ := Option.ite_none_right_eq_some.1 ht
    refine ⟨?_, ⟨fun g => ?_, hholds.created_eq, hholds.handles_zero, hholds.strong⟩⟩
    · rw [Counts, ← Nat.sub_add_cancel hpos] at hcounts
      simpa [Counts, PC.counted, PC.raising, PC.taking] using hcounts.consume
    · simpa [holders, PC.holds] using hholds.holders_eq g
  | run i h =>
    obtain ⟨pc, t', pc', hi, ht', rfl⟩ := step_run.1 ht
    refine ⟨hcounts.run hi (fun hpc => hno (hpc ▸ hi)) ?_ ht', hholds.run hi ?_ ht'⟩
    · rintro g rfl
      exact hholds.ne_zero hi (by simp [PC.holds])
    · rintro rfl
      exact hcounts.gcHandle_ne_zero (List.mem_of_getElem? hi)

end State

theorem inv_init {obj : Obj} : (init : State Obj).Inv obj := by
  refine ⟨⟨rfl, by simp [init], by simp [init, installed]⟩, ?_⟩
  refine ⟨fun g => ?_, fun g => rfl, rfl, fun g entry h => by cases h⟩
  have hnot : ¬ (g ≠ 0 ∧ 0 = g) := fun h => h.1 h.2.symm
  rw [State.holders, init, decide_eq_false hnot]
  rfl

/-! ### References pin the object -/

/-- What the wrapper guarantees. -/
structure State.Pins (s : State Obj) (obj : Obj) : Prop where
  /-- A positive count that no call is raising: a strong handle on the object is installed. -/
  pinned : 0 < s.refCount → s.Raised → s.handles s.gcHandle = some (obj, .normal)
  /-- No call and no reference: no handle. -/
  unpinned : s.Quiet → s.refCount = 0 → ∀ g, s.handles g = none
  /-- A handle that is not in use was freed as often as it was created, and one that is in use once
  less. -/
  freed : ∀ g, s.created.count g = s.freed.count g + (s.handles g).isSome.toNat
  /-- A handle in use is held once, by `m_GCHandle` or by a call that installs it or frees it. -/
  held : ∀ g, s.holders g = (s.handles g).isSome.toNat
  /-- The assertion in `ReleaseImpl`. -/
  assertion : .exchange ∈ s.calls → s.gcHandle ≠ 0

theorem State.Inv.pins {s : State Obj} {obj : Obj} (hs : s.Inv obj) : s.Pins obj where
  pinned hpos hr := by
    have hraising : s.calls.countP PC.raising = 0 :=
      List.countP_eq_zero.2 fun pc hpc => by simp [hr pc hpc]
    have hbal := hs.counts.balance
    rw [hraising] at hbal
    have hne : s.gcHandle ≠ 0 := installed_pos_iff.1 (by omega)
    obtain ⟨entry, he⟩ := Option.isSome_iff_exists.1 (hs.holds.isSome (holders_gcHandle hne))
    rw [he, hs.holds.strong _ _ he]
  unpinned hq h0 g := by
    have hzero (p : PC → Bool) (hp : p .returned = false) : s.calls.countP p = 0 :=
      List.countP_eq_zero.2 fun pc hpc => by simp [hq pc hpc, hp]
    have hbal := hs.counts.balance
    rw [hzero _ rfl, hzero _ rfl, h0] at hbal
    have hg : s.gcHandle = 0 := by
      by_contra hne
      have := installed_pos_iff.2 hne
      omega
    have hnot : ¬ (g ≠ 0 ∧ 0 = g) := fun h => h.1 h.2.symm
    have hhold := hs.holds.holders_eq g
    rw [State.holders, hg, decide_eq_false hnot, hzero _ (by simp [PC.holds])] at hhold
    cases he : s.handles g with
    | none => rfl
    | some => simp [he] at hhold
  freed := hs.holds.created_eq
  held := hs.holds.holders_eq
  assertion := hs.counts.gcHandle_ne_zero

/-- **References pin the object**, unless the count overflows. -/
theorem references_pin {obj : Obj} {s : State Obj} (h : (lts obj).ReachWith NoOverflow init s) :
    s.Pins obj := by
  have hs : s.Inv obj :=
    h.invariant (I := fun s => s.Inv obj) inv_init fun _ _ _ hs hno hst => hs.step hno hst
  exact hs.pins

/-- A call of `AddRef` that raises the count from 0 waits for a call of `Release` to take the
handle. -/
def overlap : List Label :=
  [.addRef, .run 0 0, .run 0 7, .run 0 0, .run 0 0, .release, .run 1 0,
   .addRef, .run 2 0, .run 2 8, .run 2 0, .run 1 0, .run 2 0, .run 1 0, .run 2 0]

theorem references_pin_overlap :
    ∃ s : State Unit, (lts ()).ReachWith NoOverflow init s ∧
      (s.refCount, s.gcHandle, s.freed) = (1, 8, [7]) ∧ s.Pins () := by
  obtain ⟨s, hs, hw⟩ := LTS.exists_reachWith (f := step ()) (G := NoOverflow) (i := init) overlap
    (fun s => (s.refCount, s.gcHandle, s.freed) = (1, 8, [7])) (by decide)
  exact ⟨s, hs, hw, references_pin hs⟩

/-! ### A count that overflows -/

theorem exists_addRef {obj : Obj} {s : State Obj} (hs : (lts obj).Reachable init s)
    (hq : s.Quiet) (h0 : s.refCount ≠ 0) :
    ∃ t, (lts obj).Reachable init t ∧ t.Quiet ∧ t.refCount = increment s.refCount ∧
      t.handles = s.handles := by
  have hne : increment s.refCount ≠ 1 := by
    rw [increment]
    split_ifs <;> omega
  let s₁ : State Obj := { s with calls := s.calls ++ [.addRef] }
  let s₂ : State Obj := { s with
    refCount := increment s.refCount
    calls := s.calls ++ [.addRefReturn] }
  let s₃ : State Obj := { s₂ with references := s.references + 1, calls := s.calls ++ [.returned] }
  have h₁ : (lts obj).Reachable init s₁ := .step (l := .addRef) hs trivial rfl
  have h₂ : (lts obj).Reachable init s₂ := by
    refine .step (l := .run s.calls.length 0) h₁ trivial (step_run.2 ⟨.addRef, _, _, ?_, rfl, ?_⟩)
    · simp [s₁]
    · simp [s₁, s₂, hne]
  have h₃ : (lts obj).Reachable init s₃ := by
    refine .step (l := .run s.calls.length 0) h₂ trivial
      (step_run.2 ⟨.addRefReturn, _, _, ?_, rfl, ?_⟩)
    · simp [s₂]
    · simp [s₂, s₃]
  refine ⟨s₃, h₃, fun pc hpc => ?_, rfl, rfl⟩
  rcases List.mem_append.1 hpc with hpc | hpc
  · exact hq pc hpc
  · exact List.mem_singleton.1 hpc

theorem exists_references (n : ℕ) (hn : n < uint32Max) :
    ∃ s : State Unit, (lts ()).Reachable init s ∧ s.Quiet ∧ s.refCount = n + 1 ∧
      s.handles 1 = some ((), .normal) := by
  induction n with
  | zero =>
    exact LTS.exists_reachWith (f := step ()) (i := init) (G := fun _ _ => True)
      [.addRef, .run 0 0, .run 0 1, .run 0 0, .run 0 0]
      (fun s => (∀ pc ∈ s.calls, pc = .returned) ∧ s.refCount = 0 + 1 ∧
        s.handles 1 = some ((), .normal)) (by decide)
  | succ n ih =>
    obtain ⟨s, hs, hq, hc, hh⟩ := ih (by omega)
    obtain ⟨t, ht, hq', hc', hh'⟩ := exists_addRef hs hq (by omega)
    rw [hc, increment, if_pos (by omega)] at hc'
    exact ⟨t, ht, hq', hc', by rw [hh', hh]⟩

/-- When `2 ^ 32` references are held the count is 0, and the handle is still there. -/
theorem references_unpinned : ¬ ∀ s : State Unit, (lts ()).Reachable init s → s.Pins () := by
  intro h
  obtain ⟨s, hs, hq, hc, hh⟩ := exists_references (uint32Max - 1) (by decide)
  obtain ⟨t, ht, hq', hc', hh'⟩ := exists_addRef hs hq (by omega)
  have h0 : t.refCount = 0 := by
    rw [hc', hc, increment, if_neg (by decide)]
  have := (h t ht).unpinned hq' h0 1
  rw [hh', hh] at this
  cases this

end CachedCCW

end Il2Cpp
