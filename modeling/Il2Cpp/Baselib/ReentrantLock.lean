import Il2Cpp.Baselib.Lock

/-!
# `Baselib_ReentrantLock`

`external/baselib/Include/C/Internal/Baselib_ReentrantLock.inl.h`, on top of a lock that follows its
specification.  Another thread can look at `owner` at any time; only the thread that has the inner
lock reads and writes `count`.

* `Place`, `step` : the accesses to `owner`, `count` and the inner lock, one at a time.
* `Owned` : the lock is only released by a thread that has acquired it.
* `Inv` : what the fields are at each place of the thread that has the inner lock.
* `reentrantLock_refines` : the lock counts the acquisitions of one thread.
-/

namespace Il2Cpp

namespace ReentrantLock

/-- Where a thread is. -/
inductive Place
  | out
  /-- before the acquisition of the inner lock, which may give up -/
  | acquire (mayFail : Bool)
  /-- before `lock->owner = currentThreadId` -/
  | setOwner
  /-- before `lock->count = 1` -/
  | setCount
  /-- before `lock->count++` -/
  | increment
  /-- before `lock->owner = Baselib_Thread_InvalidId` -/
  | clearOwner
  /-- before `lock->count = 0` -/
  | clearCount
  /-- before `Baselib_Lock_Release` -/
  | unlock
  /-- before `lock->count--` -/
  | decrement
  deriving DecidableEq

/-- What a thread does. -/
inductive Label (ι : Type*)
  /-- `Baselib_ReentrantLock_Acquire`, or a function that may give up, up to the load of `owner` -/
  | acquire (i : ι) (mayFail : Bool)
  /-- the next access; an acquisition of the inner lock succeeds or gives up -/
  | run (i : ι) (succeeds : Bool)
  /-- `Baselib_ReentrantLock_Release` up to the test of `count` -/
  | release (i : ι)

def Label.thread {ι : Type*} : Label ι → ι
  | acquire i _ | run i _ | release i => i

/-- The fields of `Baselib_ReentrantLock`, and the threads. -/
structure State (ι : Type*) where
  /-- The thread that has the inner lock. -/
  lock : Option ι
  owner : Option ι
  count : ℤ
  threads : ι → Place
  /-- How often a thread has acquired the lock without a release. -/
  depth : ι → ℕ

variable {ι : Type*}

/-- `Baselib_ReentrantLock_Create`. -/
def init : State ι := ⟨none, none, 0, fun _ => .out, fun _ => 0⟩

section

variable [DecidableEq ι]

def State.move (s : State ι) (i : ι) (p : Place) : State ι :=
  { s with threads := Function.update s.threads i p }

def State.setDepth (s : State ι) (i : ι) (n : ℕ) : State ι :=
  { s with depth := Function.update s.depth i n }

/-- The next access of thread `i`. -/
def runPlace (s : State ι) (i : ι) (succeeds : Bool) : Place → Option (State ι)
  | .acquire mayFail =>
    if succeeds then
      if s.lock = none then some ({ s with lock := some i }.move i .setOwner) else none
    else if mayFail then some (s.move i .out)
    else none
  | .setOwner => some ({ s with owner := some i }.move i .setCount)
  | .setCount => some (({ s with count := 1 }.setDepth i (s.depth i + 1)).move i .out)
  | .increment => some (({ s with count := s.count + 1 }.setDepth i (s.depth i + 1)).move i .out)
  | .clearOwner => some ({ s with owner := none }.move i .clearCount)
  | .clearCount => some ({ s with count := 0 }.move i .unlock)
  | .unlock => some ({ s with lock := none }.move i .out)
  | .decrement => some ({ s with count := s.count - 1 }.move i .out)
  | .out => none

/-- A step. -/
def step (s : State ι) : Label ι → Option (State ι)
  | .acquire i mayFail =>
    if s.threads i = .out then
      some (s.move i (if s.owner = some i then .increment else .acquire mayFail))
    else none
  | .run i succeeds => runPlace s i succeeds (s.threads i)
  | .release i =>
    if s.threads i = .out then
      some <| if 0 < s.count then
        (s.setDepth i (s.depth i - 1)).move i (if s.count = 1 then .clearOwner else .decrement)
      else s
    else none

/-- The transition system. -/
def lts : LTS (State ι) (Label ι) := .ofFun step

/-- **Only the owner releases the lock**, and it is not acquired more often than `count` can tell. -/
def Owned (s : State ι) : Label ι → Prop
  | .release i => 0 < s.depth i
  | .acquire i _ => s.depth i < 2 ^ 31 - 1
  | .run _ _ => True

instance (s : State ι) : ∀ l, Decidable (Owned s l)
  | .release i => inferInstanceAs (Decidable (0 < s.depth i))
  | .acquire i _ => inferInstanceAs (Decidable (s.depth i < 2 ^ 31 - 1))
  | .run _ _ => .isTrue trivial

/-! ### The invariant -/

/-- A thread without the inner lock is there. -/
def Place.outside : Place → Bool
  | out | acquire _ => true
  | _ => false

/-- The fields while a thread at place `p`, which has acquired the lock `depth` times, has the inner
lock. -/
def Fields (s : State ι) (k : ι) (depth : ℕ) : Place → Prop
  | .out | .increment => 0 < depth ∧ s.owner = some k ∧ s.count = depth
  | .setOwner | .unlock => depth = 0 ∧ s.owner = none ∧ s.count = 0
  | .setCount => depth = 0 ∧ s.owner = some k ∧ s.count = 0
  | .clearOwner => depth = 0 ∧ s.owner = some k ∧ s.count = 1
  | .clearCount => depth = 0 ∧ s.owner = none ∧ s.count = 1
  | .decrement => 0 < depth ∧ s.owner = some k ∧ s.count = depth + 1
  | .acquire _ => False

/-- The invariant. -/
structure Inv (s : State ι) : Prop where
  outside : ∀ i, s.lock ≠ some i → (s.threads i).outside ∧ s.depth i = 0
  free : s.lock = none → s.owner = none ∧ s.count = 0
  fields : ∀ k, s.lock = some k → Fields s k (s.depth k) (s.threads k)

omit [DecidableEq ι] in
theorem inv_init : Inv (init : State ι) := ⟨fun _ _ => ⟨rfl, rfl⟩, fun _ => ⟨rfl, rfl⟩, nofun⟩

variable {s t : State ι} {i j k : ι}

omit [DecidableEq ι] in
theorem Inv.lock_eq (hs : Inv s) (h : (s.threads i).outside = false ∨ 0 < s.depth i) :
    s.lock = some i := by
  by_contra hne
  obtain ⟨hout, hdepth⟩ := hs.outside i hne
  simp [hout, hdepth] at h

omit [DecidableEq ι] in
/-- The thread that `owner` says has the inner lock. -/
theorem Inv.lock_of_owner (hs : Inv s) (h : s.owner = some i) : s.lock = some i := by
  cases hlock : s.lock with
  | none => simp [(hs.free hlock).1] at h
  | some k =>
    have hf := hs.fields k hlock
    cases hp : s.threads k <;> simp_all [Fields]

/-- A thread without the inner lock moves outside. -/
theorem Inv.move (hs : Inv s) {p : Place} (hi : s.lock ≠ some i) (hp : p.outside) :
    Inv (s.move i p) where
  outside j hj := by
    by_cases hji : j = i
    · subst hji
      simpa [State.move, hp] using (hs.outside j hj).2
    · simpa [State.move, hji] using hs.outside j hj
  free := hs.free
  fields k hk := by
    have hki : k ≠ i := by
      rintro rfl
      exact hi hk
    have hplace : (s.move i p).threads k = s.threads k := Function.update_of_ne hki ..
    rw [hplace]
    exact hs.fields k hk

omit [DecidableEq ι] in
/-- The thread that has the inner lock takes a step and keeps it. -/
theorem Inv.inside (hs : Inv s) (hk : s.lock = some k ∨ s.lock = none) (hlock : t.lock = some k)
    (hne : ∀ i, i ≠ k → t.threads i = s.threads i ∧ t.depth i = s.depth i)
    (hf : Fields t k (t.depth k) (t.threads k)) : Inv t where
  outside i hi := by
    have hik : i ≠ k := by
      rintro rfl
      exact hi hlock
    obtain ⟨hp, hd⟩ := hne i hik
    rw [hp, hd]
    refine hs.outside i ?_
    rcases hk with hk | hk
    · simpa [hk] using hik.symm
    · simp [hk]
  free hnone := by simp [hnone] at hlock
  fields j hj := by
    obtain rfl := Option.some.inj (hlock.symm.trans hj)
    exact hf

theorem Inv.runPlace (hs : Inv s) {succeeds : Bool}
    (h : runPlace s i succeeds (s.threads i) = some t) : Inv t := by
  cases hi : s.threads i with
  | out => simp [hi, ReentrantLock.runPlace] at h
  | acquire mayFail =>
    have hne : s.lock ≠ some i := fun hl => by simpa [hi, Fields] using hs.fields i hl
    simp only [hi, ReentrantLock.runPlace] at h
    split_ifs at h with hsucceeds hfree hfail
    · -- the fields are as they were left by the last owner
      cases h
      obtain ⟨howner, hcount⟩ := hs.free hfree
      refine hs.inside (.inr hfree) rfl (fun j hj => ⟨Function.update_of_ne hj .., rfl⟩) ?_
      simpa [State.move, Fields, howner, hcount] using (hs.outside i hne).2
    · cases h
      exact hs.move hne rfl
  | setOwner | setCount | increment | clearOwner | clearCount | decrement =>
    have hl : s.lock = some i := hs.lock_eq (by simp [hi, Place.outside])
    have hf := hs.fields i hl
    simp only [hi, ReentrantLock.runPlace, Option.some.injEq, Fields] at h hf
    subst h
    refine hs.inside (.inl hl) hl (fun j hj => by simp [State.move, State.setDepth, hj]) ?_
    simp only [State.move, State.setDepth, Function.update_self, Fields]
    grind
  | unlock =>
    have hl : s.lock = some i := hs.lock_eq (by simp [hi, Place.outside])
    have hf := hs.fields i hl
    simp only [hi, ReentrantLock.runPlace, Option.some.injEq, Fields] at h hf
    subst h
    refine ⟨fun j _ => ?_, fun _ => hf.2, nofun⟩
    by_cases hj : j = i
    · subst hj
      simp [State.move, Place.outside, hf.1]
    · have hne : s.lock ≠ some j := by simpa [hl] using Ne.symm hj
      simpa [State.move, hj] using hs.outside j hne

/-- **A step keeps the invariant.** -/
theorem Inv.step {l : Label ι} (hs : Inv s) (hg : Owned s l)
    (h : ReentrantLock.step s l = some t) : Inv t := by
  cases l with
  | run i succeeds => exact hs.runPlace h
  | acquire i mayFail =>
    obtain ⟨hi, ⟨⟩⟩ := Option.ite_none_right_eq_some.1 h
    by_cases hl : s.lock = some i
    · have hf := hs.fields i hl
      simp only [hi, Fields] at hf
      refine hs.inside (.inl hl) hl (fun j hj => by simp [State.move, hj]) ?_
      simpa [State.move, Fields, hf.2.1] using hf
    · rw [if_neg fun howner => hl (hs.lock_of_owner howner)]
      exact hs.move hl rfl
  | release i =>
    obtain ⟨hi, ⟨⟩⟩ := Option.ite_none_right_eq_some.1 h
    have hl := hs.lock_eq (.inr hg)
    have hf := hs.fields i hl
    simp only [hi, Fields] at hf
    obtain ⟨hpos, howner, hcount⟩ := hf
    rw [if_pos (by omega)]
    refine hs.inside (.inl hl) hl (fun j hj => by simp [State.move, State.setDepth, hj]) ?_
    simp only [State.move, State.setDepth, Function.update_self]
    split_ifs with hone <;> simp only [Fields, howner, hcount] <;> grind

/-! ### What the lock is for -/

/-- The lock counts the acquisitions of one thread: it is acquired by the thread that has it or when
no thread has it, and one release undoes one acquisition. -/
def spec {L : Type*} (thread : L → ι) : LTS (ι → ℕ) L where
  step d l d' := d' = d ∨
    (∀ j, j ≠ thread l → d j = 0) ∧ d' = Function.update d (thread l) (d (thread l) + 1) ∨
    0 < d (thread l) ∧ d' = Function.update d (thread l) (d (thread l) - 1)

theorem step_depth {l : Label ι} (hs : Inv s) (hg : Owned s l)
    (h : ReentrantLock.step s l = some t) : (spec Label.thread).step s.depth l t.depth := by
  cases l with
  | acquire i mayFail =>
    obtain ⟨-, ⟨⟩⟩ := Option.ite_none_right_eq_some.1 h
    exact .inl rfl
  | release i =>
    obtain ⟨-, ⟨⟩⟩ := Option.ite_none_right_eq_some.1 h
    by_cases hcount : 0 < s.count
    · rw [if_pos hcount]
      exact .inr (.inr ⟨hg, rfl⟩)
    · rw [if_neg hcount]
      exact .inl rfl
  | run i succeeds =>
    -- `depth` changes where the thread has the inner lock
    have halone (hi : (s.threads i).outside = false) (j : ι) (hj : j ≠ i) : s.depth j = 0 := by
      have hl := hs.lock_eq (.inl hi)
      refine (hs.outside j ?_).2
      simpa [hl] using hj.symm
    cases hi : s.threads i with
    | out => simp [hi, ReentrantLock.step, runPlace] at h
    | acquire mayFail =>
      simp only [hi, ReentrantLock.step, runPlace] at h
      split_ifs at h <;> cases h <;> exact .inl rfl
    | setCount | increment =>
      simp only [hi, ReentrantLock.step, runPlace, Option.some.injEq] at h
      subst h
      exact .inr (.inl ⟨halone (by simp [hi, Place.outside]), rfl⟩)
    | setOwner | clearOwner | clearCount | unlock | decrement =>
      simp only [hi, ReentrantLock.step, runPlace, Option.some.injEq] at h
      subst h
      exact .inl rfl

/-- The inner lock is used as a lock. -/
theorem step_lock {l : Label ι} (hs : Inv s) (h : ReentrantLock.step s l = some t) :
    (Lock.spec Label.thread).step s.lock l t.lock := by
  cases l with
  | acquire i mayFail | release i =>
    obtain ⟨-, ⟨⟩⟩ := Option.ite_none_right_eq_some.1 h
    refine .inl ?_
    split_ifs <;> rfl
  | run i succeeds =>
    cases hi : s.threads i <;>
      simp only [hi, ReentrantLock.step, runPlace, Option.some.injEq, reduceCtorEq] at h
    case acquire mayFail =>
      split_ifs at h with _ hfree <;> cases h
      · exact .inr (.inl ⟨hfree, rfl⟩)
      · exact .inl rfl
    case unlock =>
      subst h
      exact .inr (.inr ⟨hs.lock_eq (.inl (by simp [Label.thread, hi, Place.outside])), rfl⟩)
    all_goals
      subst h
      exact .inl rfl

theorem inv_of_reachable (h : lts.ReachWith Owned init s) : Inv s :=
  h.invariant inv_init fun _ _ _ hs hg hst => hs.step hg hst

/-- **A reentrant lock.**  In every run in which only owners release: at most one thread has the
lock; the unsynchronized test of `owner` is right for each thread that makes it; `count` is the
number of acquisitions of the owner; the inner lock is free when no thread has the lock and none is
inside of a function; a step acquires or releases once, for its own thread; and the inner lock is
used as its specification says. -/
theorem reentrantLock_refines (h : lts.ReachWith Owned init s) :
    (∀ i j, 0 < s.depth i → 0 < s.depth j → i = j) ∧
    (∀ i, s.threads i = .out → (s.owner = some i ↔ 0 < s.depth i)) ∧
    (∀ i, s.threads i = .out → 0 < s.depth i → s.count = s.depth i) ∧
    ((∀ i, s.threads i = .out) → (s.lock = none ↔ ∀ i, s.depth i = 0)) ∧
    ∀ l t, Owned s l → step s l = some t → (spec Label.thread).step s.depth l t.depth ∧
      (Lock.spec Label.thread).step s.lock l t.lock := by
  have hs := inv_of_reachable h
  have hout (i : ι) (hi : s.threads i = .out) (hl : s.lock = some i) :
      0 < s.depth i ∧ s.owner = some i ∧ s.count = s.depth i := by
    simpa [hi, Fields] using hs.fields i hl
  refine ⟨fun i j hi hj => ?_, fun i hi => ⟨fun howner => ?_, fun hd => ?_⟩, fun i hi hd => ?_,
    fun hall => ⟨fun hnone i => ?_, fun hd => ?_⟩,
    fun l t hg hst => ⟨step_depth hs hg hst, step_lock hs hst⟩⟩
  · exact Option.some.inj ((hs.lock_eq (.inr hi)).symm.trans (hs.lock_eq (.inr hj)))
  · exact (hout i hi (hs.lock_of_owner howner)).1
  · exact (hout i hi (hs.lock_eq (.inr hd))).2.1
  · exact (hout i hi (hs.lock_eq (.inr hd))).2.2
  · exact (hs.outside i (by simp [hnone])).2
  · cases hl : s.lock with
    | none => rfl
    | some k => exact absurd (hd k) (Nat.ne_of_gt (hout k (hall k) hl).1)

end

/-- A thread acquires the lock twice. -/
theorem reentrantLock_refines_twice : ∃ s : State Bool, s.depth true = 2 ∧ s.count = 2 ∧
    ∀ j, 0 < s.depth j → j = true := by
  obtain ⟨s, hs, hd, hi⟩ := LTS.exists_reachWith (f := step) (G := Owned) (i := init)
    [.acquire true false, .run true true, .run true true, .run true true, .acquire true false,
      .run true true]
    (fun s : State Bool => s.depth true = 2 ∧ s.threads true = .out) (by decide)
  obtain ⟨hone, -, hcount, -⟩ := reentrantLock_refines hs
  exact ⟨s, hd, by simpa [hd] using hcount true hi (by omega), fun j hj => hone j true hj (by omega)⟩

end ReentrantLock

end Il2Cpp
