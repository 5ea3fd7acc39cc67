import Il2Cpp.Baselib.Lock
import Il2Cpp.LTS.Threads

/-!
# `Baselib_Lock` on a futex

`external/baselib/Include/C/Internal/Baselib_Lock_FutexBased.inl.h`, for any number of threads.  The
futex compares and goes to sleep in one step, a thread can wake up by itself, and `Notify` wakes a
thread if one sleeps.

* `Place`, `step` : where a thread is in the functions of the lock, and the atomic operations.
* `Moves` : what a step can do.
* `futexLock_refines` : the lock refines the specification of a lock.
* `handsOver_of_sleeps` : no wakeup is lost.
* `taken_of_fair` : a thread that sleeps does not see the lock free forever.
-/

namespace Il2Cpp

namespace FutexLock

/-- `Detail_Baselib_Lock_State`. -/
inductive LockState
  | unlocked
  | locked
  | contended
  deriving DecidableEq

/-- `previousState + 1`.  A loop that has read `CONTENDED` ends and does not add to it. -/
def LockState.succ : LockState → LockState
  | unlocked => locked
  | locked | contended => contended

/-- Where a thread is. -/
inductive Place
  | out
  /-- has acquired the lock and not called `Baselib_Lock_Release` -/
  | holds
  /-- before the compare-exchange of `Baselib_Lock_TryAcquire` -/
  | tryAcquire
  /-- before the compare-exchange of `Baselib_Lock_Acquire` or `Baselib_Lock_TryTimedAcquire` -/
  | enter (previousState : LockState) (timed : Bool)
  /-- before `Baselib_SystemFutex_Wait` -/
  | wait (timed : Bool)
  /-- on the wait queue of the futex -/
  | asleep (timed : Bool)
  /-- after `Baselib_SystemFutex_Wait`, before the exchange -/
  | woken (timed : Bool)
  /-- before `Baselib_CountdownTimer_GetTimeLeftInMilliseconds` -/
  | timer
  /-- before `Baselib_SystemFutex_Notify` -/
  | notify
  deriving DecidableEq

/-- What a place has to do with the lock. -/
inductive Kind
  | uninvolved
  | holds
  | sleeps
  /-- about to try to take the lock, off the wait queue -/
  | woken
  /-- about to wake a thread up -/
  | notify
  deriving DecidableEq

def Place.kind : Place → Kind
  | out | tryAcquire | enter _ _ | wait _ | timer => .uninvolved
  | holds => .holds
  | asleep _ => .sleeps
  | woken _ => .woken
  | notify => .notify

/-- The functions that acquire the lock. -/
inductive Call
  | tryAcquire
  | acquire
  | tryTimedAcquire
  deriving DecidableEq

def Call.start : Call → Place
  | tryAcquire => .tryAcquire
  | acquire => .enter .unlocked false
  | tryTimedAcquire => .enter .unlocked true

/-- What a thread does. -/
inductive Label (ι : Type*)
  | call (i : ι) (call : Call)
  /-- the next atomic operation; a weak compare-exchange can fail for no reason -/
  | run (i : ι) (spurious : Bool)
  /-- the thread wakes up after its timeout, or for no reason -/
  | wake (i : ι)
  | timer (i : ι) (timeLeft : Bool)
  | release (i : ι)
  /-- `Baselib_SystemFutex_Notify` wakes a thread, or there is none -/
  | notify (i : ι) (woken : Option ι)

def Label.thread {ι : Type*} : Label ι → ι
  | call i _ | run i _ | wake i | timer i _ | release i | notify i _ => i

/-- `Baselib_Lock::state`, and the threads. -/
structure State (ι : Type*) where
  state : LockState
  threads : ι → Place

variable {ι : Type*}

def State.kind (s : State ι) (i : ι) : Kind := (s.threads i).kind

theorem State.kind_of (s : State ι) {i : ι} {p : Place} (h : s.threads i = p) : s.kind i = p.kind :=
  congrArg Place.kind h

/-- `Baselib_Lock_Create`. -/
def init : State ι := ⟨.unlocked, fun _ => .out⟩

/-- The atomic operation at a place. -/
def runPlace (state : LockState) (spurious : Bool) : Place → Option (LockState × Place)
  | .tryAcquire =>
    if state ≠ .unlocked then some (state, .out)
    else if spurious then some (state, .tryAcquire)
    else some (.locked, .holds)
  | .enter previousState timed =>
    if state = previousState ∧ spurious = false then
      some (previousState.succ, if previousState = .unlocked then .holds else .wait timed)
    else some (state, if state = .contended then .wait timed else .enter state timed)
  | .wait timed => some (state, if state = .contended then .asleep timed else .woken timed)
  | .woken timed =>
    some (.contended, if state = .unlocked then .holds else if timed then .timer else .wait timed)
  | .out | .holds | .asleep _ | .timer | .notify => none

section

variable [DecidableEq ι]

/-- Thread `i` leaves `state` behind and comes to `p`. -/
def State.move (s : State ι) (i : ι) (state : LockState) (p : Place) : State ι :=
  ⟨state, Function.update s.threads i p⟩

/-- A step. -/
def step [Fintype ι] (s : State ι) : Label ι → Option (State ι)
  | .call i call => if s.threads i = .out then some (s.move i s.state call.start) else none
  | .run i spurious => (runPlace s.state spurious (s.threads i)).map fun x => s.move i x.1 x.2
  | .wake i =>
    match s.threads i with
    | .asleep timed => some (s.move i s.state (.woken timed))
    | _ => none
  | .timer i timeLeft =>
    if s.threads i = .timer then some (s.move i s.state (if timeLeft then .wait true else .out))
    else none
  | .release i =>
    if s.threads i = .holds then
      some (s.move i .unlocked (if s.state = .contended then .notify else .out))
    else none
  | .notify i none =>
    if s.threads i = .notify ∧ ∀ j, s.kind j ≠ .sleeps then some (s.move i s.state .out)
    else none
  | .notify i (some j) =>
    if s.threads i = .notify then
      match s.threads j with
      | .asleep timed => some ((s.move i s.state .out).move j s.state (.woken timed))
      | _ => none
    else none

/-- The transition system. -/
def lts [Fintype ι] : LTS (State ι) (Label ι) := .ofFun step

/-! ### What a step can do -/

theorem State.kind_move (s : State ι) (i : ι) (state : LockState) (p : Place) :
    (s.move i state p).kind = Function.update s.kind i p.kind :=
  funext fun j => Function.apply_update (fun _ => Place.kind) s.threads i p j

/-- The steps of thread `i`. -/
inductive Moves (s t : State ι) (i : ι) : Prop
  /-- inside of a function -/
  | stay {k : Kind} (hi : s.kind i = .uninvolved)
      (hk : k = .uninvolved ∨ k = .woken ∨ k = .sleeps ∧ s.state = .contended)
      (hstate : t.state = s.state) (hkind : t.kind = Function.update s.kind i k)
  | wake (hi : s.kind i = .sleeps) (hstate : t.state = s.state)
      (hkind : t.kind = Function.update s.kind i .woken)
  | take (hfree : s.state = .unlocked)
      (hi : s.kind i = .uninvolved ∧ t.state = .locked ∨
        s.kind i = .woken ∧ t.state = .contended)
      (hkind : t.kind = Function.update s.kind i .holds)
  | contend (htaken : s.state ≠ .unlocked) (hi : s.kind i = .uninvolved ∨ s.kind i = .woken)
      (hstate : t.state = .contended) (hkind : t.kind = Function.update s.kind i .uninvolved)
  | release (hi : s.kind i = .holds) (hstate : t.state = .unlocked)
      (hkind : t.kind =
        Function.update s.kind i (if s.state = .contended then .notify else .uninvolved))
  | notifyNone (hi : s.kind i = .notify) (hall : ∀ j, s.kind j ≠ .sleeps)
      (hstate : t.state = s.state) (hkind : t.kind = Function.update s.kind i .uninvolved)
  | notify {j : ι} (hi : s.kind i = .notify) (hj : s.kind j = .sleeps) (hstate : t.state = s.state)
      (hkind : t.kind = Function.update (Function.update s.kind i .uninvolved) j .woken)

variable {s t : State ι} {i j : ι}

theorem Moves.of_runPlace {state : LockState} {spurious : Bool} {p : Place}
    (h : runPlace s.state spurious (s.threads i) = some (state, p)) :
    Moves s (s.move i state p) i := by
  have hkind := s.kind_move i state p
  cases hi : s.threads i with
  | out | holds | asleep | timer | notify => simp [hi, runPlace] at h
  | tryAcquire =>
    have hu : s.kind i = .uninvolved := s.kind_of hi
    simp only [hi, runPlace] at h
    split_ifs at h with hfree hspurious <;> cases h
    · exact .stay hu (.inl rfl) rfl hkind
    · exact .stay hu (.inl rfl) rfl hkind
    · exact .take (not_not.1 hfree) (.inl ⟨hu, rfl⟩) hkind
  | enter previousState timed =>
    have hu : s.kind i = .uninvolved := s.kind_of hi
    simp only [hi, runPlace] at h
    split_ifs at h with hc hprev hprev <;> cases h
    · -- the exchange finds the state that was expected
      exact .take (hc.1.trans hprev) (.inl ⟨hu, by rw [hprev]; rfl⟩) hkind
    · refine .contend (hc.1 ▸ hprev) (.inl hu) ?_ hkind
      cases previousState with
      | unlocked => exact absurd rfl hprev
      | locked | contended => rfl
    · exact .stay hu (.inl rfl) rfl hkind
    · exact .stay hu (.inl rfl) rfl hkind
  | wait timed =>
    have hu : s.kind i = .uninvolved := s.kind_of hi
    simp only [hi, runPlace] at h
    split_ifs at h with hc <;> cases h
    · exact .stay hu (.inr (.inr ⟨rfl, hc⟩)) rfl hkind
    · exact .stay hu (.inr (.inl rfl)) rfl hkind
  | woken timed =>
    have hw : s.kind i = .woken := s.kind_of hi
    simp only [hi, runPlace] at h
    split_ifs at h with hfree htimed <;> cases h
    · exact .take hfree (.inr ⟨hw, rfl⟩) hkind
    · exact .contend hfree (.inr hw) rfl hkind
    · exact .contend hfree (.inr hw) rfl hkind

theorem moves_of_step [Fintype ι] {l : Label ι} (h : step s l = some t) : Moves s t l.thread := by
  cases l with
  | call i call =>
    obtain ⟨hi, ⟨⟩⟩ := Option.ite_none_right_eq_some.1 h
    exact .stay (s.kind_of hi) (.inl (by cases call <;> rfl)) rfl (s.kind_move ..)
  | run i spurious =>
    obtain ⟨⟨state, p⟩, hp, rfl⟩ := Option.map_eq_some_iff.1 h
    exact .of_runPlace hp
  | wake i =>
    rw [step] at h
    split at h
    · next timed hi =>
      cases h
      exact .wake (s.kind_of hi) rfl (s.kind_move ..)
    · cases h
  | timer i timeLeft =>
    obtain ⟨hi, ⟨⟩⟩ := Option.ite_none_right_eq_some.1 h
    exact .stay (s.kind_of hi) (.inl (by cases timeLeft <;> rfl)) rfl (s.kind_move ..)
  | release i =>
    obtain ⟨hi, ⟨⟩⟩ := Option.ite_none_right_eq_some.1 h
    refine .release (s.kind_of hi) rfl ?_
    rw [State.kind_move, apply_ite Place.kind]
    rfl
  | notify i woken =>
    cases woken with
    | none =>
      obtain ⟨⟨hi, hall⟩, ⟨⟩⟩ := Option.ite_none_right_eq_some.1 h
      exact .notifyNone (s.kind_of hi) hall rfl (s.kind_move ..)
    | some j =>
      rw [step] at h
      split_ifs at h with hi
      split at h
      · next timed hj =>
        cases h
        have hsleep : s.kind j = .sleeps := s.kind_of hj
        refine .notify (s.kind_of hi) hsleep rfl ?_
        rw [State.kind_move, State.kind_move]
        rfl
      · cases h

/-- A thread is as it was, or it took the step, or it was woken up. -/
theorem Moves.frame (h : Moves s t i) (hj : j ≠ i) :
    t.kind j = s.kind j ∨ s.kind j = .sleeps ∧ t.kind j = .woken := by
  cases h with
  | stay hi hk hstate hkind | wake hi hstate hkind | take hfree hi hkind
  | contend htaken hi hstate hkind | release hi hstate hkind | notifyNone hi hall hstate hkind =>
    exact .inl (by rw [hkind, Function.update_of_ne hj])
  | @notify k hi hk hstate hkind =>
    by_cases hjk : j = k
    · subst hjk
      exact .inr ⟨hk, by rw [hkind, Function.update_self]⟩
    · exact .inl (by rw [hkind, Function.update_of_ne hjk, Function.update_of_ne hj])

/-! ### Mutual exclusion -/

/-- The thread that has the lock, which is free if there is none. -/
structure Held (s : State ι) (h : Option ι) : Prop where
  heldBy : Lock.HeldBy (fun i => s.kind i = .holds) h
  free : s.state = .unlocked ↔ h = none

omit [DecidableEq ι] in
theorem held_init : Held (init : State ι) none := ⟨fun _ => iff_of_false nofun nofun, by simp [init]⟩

/-- A step that neither takes nor gives back leaves the holder alone. -/
theorem Held.keep {h : Option ι} (hh : Held s h) (hm : Moves s t i) (hi : s.kind i ≠ .holds)
    (hi' : t.kind i ≠ .holds) (hstate : t.state = .unlocked ↔ s.state = .unlocked) : Held t h := by
  refine ⟨hh.heldBy.congr fun j => ?_, hstate.trans hh.free⟩
  by_cases hj : j = i
  · subst hj
    exact iff_of_false hi' hi
  · rcases hm.frame hj with heq | ⟨hs, hw⟩
    · rw [heq]
    · simp [hs, hw]

theorem Held.step {h : Option ι} (hh : Held s h) (hm : Moves s t i) :
    ∃ h', (h' = h ∨ h = none ∧ h' = some i ∨ h = some i ∧ h' = none) ∧ Held t h' := by
  cases id hm with
  | stay hi hk hstate hkind =>
    refine ⟨h, .inl rfl, hh.keep hm (by simp [hi]) ?_ (by rw [hstate])⟩
    rcases hk with rfl | rfl | ⟨rfl, -⟩ <;> simp [hkind]
  | wake hi hstate hkind =>
    exact ⟨h, .inl rfl, hh.keep hm (by simp [hi]) (by simp [hkind]) (by rw [hstate])⟩
  | take hfree hi hkind =>
    obtain rfl := hh.free.1 hfree
    refine ⟨some i, .inr (.inl ⟨rfl, rfl⟩), ?_, ?_⟩
    · exact hh.heldBy.take (by simp [hkind]) fun j hj => by rw [hkind, Function.update_of_ne hj]
    · rcases hi with ⟨-, hstate⟩ | ⟨-, hstate⟩ <;> simp [hstate]
  | contend htaken hi hstate hkind =>
    refine ⟨h, .inl rfl, hh.keep hm ?_ (by simp [hkind]) (by simp [hstate, htaken])⟩
    rcases hi with hi | hi <;> simp [hi]
  | release hi hstate hkind =>
    obtain rfl := (hh.heldBy i).1 hi
    refine ⟨none, .inr (.inr ⟨rfl, rfl⟩), hh.heldBy.release ?_ fun j hj => ?_, by simp [hstate]⟩
    · rw [hkind, Function.update_self]
      split_ifs <;> nofun
    · rw [hkind, Function.update_of_ne hj]
  | notifyNone hi hall hstate hkind =>
    exact ⟨h, .inl rfl, hh.keep hm (by simp [hi]) (by simp [hkind]) (by rw [hstate])⟩
  | @notify j hi hj hstate hkind =>
    have hij : i ≠ j := by
      rintro rfl
      simp [hi] at hj
    exact ⟨h, .inl rfl, hh.keep hm (by simp [hi]) (by simp [hkind, hij]) (by rw [hstate])⟩

theorem simulates [Fintype ι] :
    (lts (ι := ι)).Simulates (Lock.spec Label.thread) (fun _ _ => True) Held :=
  fun _ _ _ _ hh _ hst => hh.step (moves_of_step hst)

theorem held_of_reachable [Fintype ι] (hs : lts.Reachable init s) : ∃ h, Held s h := by
  obtain ⟨h, -, hh⟩ := simulates.reachable held_init hs
  exact ⟨h, hh⟩

/-- **The lock on a futex is a lock.**  In every run at most one thread has acquired it and not
released it, `state` is `UNLOCKED` exactly if there is none, and a step takes a free lock for its
thread, gives back the lock of its thread, or leaves it alone. -/
theorem futexLock_refines [Fintype ι] (hs : lts.Reachable init s) :
    ∃ h, Held s h ∧ ∀ l t, step s l = some t →
      ∃ h', (Lock.spec Label.thread).step h l h' ∧ Held t h' := by
  obtain ⟨h, hh⟩ := held_of_reachable hs
  exact ⟨h, hh, fun l t hst => simulates s h l t hh trivial hst⟩

/-! ### No wakeup is lost -/

/-- A thread is about to wake another one up, or to try to take the lock. -/
def Kind.handsOver (k : Kind) : Prop := k = .notify ∨ k = .woken

/-- Someone looks after the threads that sleep. -/
def Attended (s : State ι) : Prop :=
  ∀ i, s.kind i = .sleeps → s.state = .contended ∨ ∃ j, (s.kind j).handsOver

/-- A thread that hands over does so until it takes a step. -/
theorem Moves.handsOver_frame (h : Moves s t i) (hi : ¬ (s.kind i).handsOver)
    (hx : ∃ j, (s.kind j).handsOver) : ∃ j, (t.kind j).handsOver := by
  obtain ⟨j, hj⟩ := hx
  refine ⟨j, ?_⟩
  rcases h.frame fun hji => hi (hji ▸ hj) with heq | ⟨-, hw⟩
  · rwa [heq]
  · exact .inr hw

/-- A thread that sleeps after a step did so before it, or `state` is `CONTENDED`. -/
theorem Moves.sleeps (h : Moves s t i) (hj : t.kind j = .sleeps) :
    s.kind j = .sleeps ∨ t.state = .contended := by
  by_cases hji : j = i
  · subst hji
    cases h with
    | stay hi hk hstate hkind =>
      rw [hkind, Function.update_self] at hj
      subst hj
      exact .inr (hstate.trans (by simpa using hk))
    | wake hi => exact .inl hi
    | contend htaken hi hstate => exact .inr hstate
    | take hfree hi hkind | notifyNone hi hall hstate hkind => simp [hkind] at hj
    | release hi hstate hkind =>
      rw [hkind, Function.update_self] at hj
      split_ifs at hj
    | @notify k hi hk hstate hkind =>
      have hkj : j ≠ k := by
        rintro rfl
        simp [hi] at hk
      simp [hkind, hkj] at hj
  · rcases h.frame hji with heq | ⟨hs, -⟩
    · exact .inl (heq ▸ hj)
    · exact .inl hs

theorem Attended.step (hs : Attended s) (h : Moves s t i) : Attended t := by
  intro j hj
  rcases h.sleeps hj with hsleep | hc
  swap
  · exact .inl hc
  have hatt := hs j hsleep
  -- who looked after the thread still does, but for the thread of the step
  cases id h with
  | stay hi hk hstate =>
    rw [hstate]
    exact hatt.imp_right (h.handsOver_frame (by simp [hi, Kind.handsOver]))
  | wake hi hstate hkind => exact .inr ⟨i, .inr (by simp [hkind])⟩
  | take hfree hi hkind =>
    rcases hi with ⟨hi, -⟩ | ⟨-, hstate⟩
    · have hx := hatt.resolve_left (by simp [hfree])
      exact .inr (h.handsOver_frame (by simp [hi, Kind.handsOver]) hx)
    · exact .inl hstate
  | contend htaken hi hstate => exact .inl hstate
  | release hi hstate hkind =>
    by_cases hc : s.state = .contended
    · exact .inr ⟨i, .inl (by simp [hkind, hc])⟩
    · exact .inr (h.handsOver_frame (by simp [hi, Kind.handsOver]) (hatt.resolve_left hc))
  | notifyNone hi hall => exact absurd hsleep (hall j)
  | notify hi hk hstate hkind => exact .inr ⟨_, .inr (by rw [hkind, Function.update_self])⟩

theorem attended_of_reachable [Fintype ι] (hs : lts.Reachable init s) : Attended s :=
  hs.invariant (fun _ hi => by cases hi) fun _ _ _ hs _ hst => hs.step (moves_of_step hst)

/-- **No wakeup is lost.**  While a thread sleeps on the futex, the lock is `CONTENDED`, so that it
is held and its release will wake a thread up, or a thread is awake that is about to do that or to
try to take the lock. -/
theorem handsOver_of_sleeps [Fintype ι] (hs : lts.Reachable init s) (hi : s.kind i = .sleeps) :
    (s.state = .contended ∧ ∃ j, s.kind j = .holds) ∨ ∃ j, (s.kind j).handsOver := by
  refine (attended_of_reachable hs i hi).imp_left fun hc => ⟨hc, ?_⟩
  obtain ⟨h, hh, hfree⟩ := held_of_reachable hs
  cases h with
  | none => simp [hfree.2 rfl] at hc
  | some j => exact ⟨j, (hh j).2 rfl⟩

/-! ### Progress -/

/-- A thread that has an atomic operation to do on the futex takes a step at some time. -/
def Fair [Fintype ι] (r : (lts (ι := ι)).Run init) : Prop :=
  ∀ i n, ∃ m, n ≤ m ∧ ((r.lab m).thread = i ∨ ¬ ((r.st m).kind i).handsOver)

/-- A thread that is awake has the lock after its next step, when the lock is free. -/
theorem Moves.takes (h : Moves s t i) (hi : s.kind i = .woken) (hfree : s.state = .unlocked) :
    t.kind i = .holds := by
  cases h with
  | take hfree hi hkind => simp [hkind]
  | contend htaken => exact absurd hfree htaken
  | stay hi' | wake hi' | release hi' | notifyNone hi' | notify hi' => simp [hi] at hi'

/-- A notification wakes a thread up, if one sleeps. -/
theorem Moves.notifies (h : Moves s t i) (hi : s.kind i = .notify) (hj : s.kind j = .sleeps) :
    ∃ k, t.kind k = .woken := by
  cases h with
  | stay hi' | wake hi' | release hi' | take hfree hi' | contend htaken hi' => simp [hi] at hi'
  | notifyNone hi' hall => exact absurd hj (hall j)
  | notify hi hk hstate hkind => exact ⟨_, by rw [hkind, Function.update_self]⟩

/-- A thread that sleeps does so until it is woken up. -/
theorem Moves.sleeps_frame (h : Moves s t i) (hj : s.kind j = .sleeps) :
    t.kind j = .sleeps ∨ t.kind j = .woken := by
  by_cases hji : j = i
  · subst hji
    cases h with
    | wake hi hstate hkind => exact .inr (by simp [hkind])
    | stay hi | release hi | notifyNone hi | notify hi | take hfree hi | contend htaken hi =>
      simp [hj] at hi
  · rcases h.frame hji with heq | ⟨-, hw⟩
    · exact .inl (heq.trans hj)
    · exact .inr hw

section

variable [Fintype ι] {r : (lts (ι := ι)).Run init} {n : ℕ}

theorem run_moves (r : (lts (ι := ι)).Run init) (m : ℕ) :
    Moves (r.st m) (r.st (m + 1)) (r.lab m).thread := moves_of_step (r.step m)

/-- A thread that hands over comes to its step. -/
theorem Fair.moves (hr : Fair r) {k : Kind} (hk : k.handsOver) (hi : (r.st n).kind i = k) :
    ∃ m, n ≤ m ∧ (r.lab m).thread = i ∧ (r.st m).kind i = k := by
  have hframe (m : ℕ) (hm : (r.st m).kind i = k) (hl : (r.lab m).thread ≠ i) :
      (r.st (m + 1)).kind i = k := by
    rcases (run_moves r m).frame (Ne.symm hl) with heq | ⟨hs, -⟩
    · exact heq.trans hm
    · simp [← hm, hs, Kind.handsOver] at hk
  have hev : ∃ m, n ≤ m ∧ (r.lab m).thread = i := by
    by_contra hnot
    -- without a step it would stay there forever
    have hall (m : ℕ) (hm : n ≤ m) : (r.st m).kind i = k := by
      induction m, hm using Nat.le_induction with
      | base => exact hi
      | succ m hm ih => exact hframe m ih fun hl => hnot ⟨m, hm, hl⟩
    obtain ⟨m, hm, hl | hidle⟩ := hr i n
    · exact hnot ⟨m, hm, hl⟩
    · exact hidle (hall m hm ▸ hk)
  obtain ⟨m, hm, hl, hkm⟩ := r.exists_first (P := fun s => s.kind i = k)
    (F := fun l => l.thread = i) hi hev hframe
  exact ⟨m, hm, hl, hkm m hm le_rfl⟩

/-- **Progress.**  In a fair run, a thread that sleeps while the lock is free does not sleep in
vain: some thread takes the lock. -/
theorem taken_of_fair (hr : Fair r) (hi : (r.st n).kind i = .sleeps) :
    ∃ m, n ≤ m ∧ ∃ j, (r.st m).kind j = .holds := by
  by_contra hnot
  have hfree (m : ℕ) (hm : n ≤ m) : (r.st m).state = .unlocked := by
    obtain ⟨h, hh, hstate⟩ := held_of_reachable (r.reachable m)
    cases h with
    | none => exact hstate.2 rfl
    | some j => exact absurd ⟨m, hm, j, (hh j).2 rfl⟩ hnot
  -- a thread that is awake would take the lock
  have hwoken (m : ℕ) (hm : n ≤ m) (j : ι) : (r.st m).kind j ≠ .woken := by
    intro hw
    obtain ⟨k, hk, rfl, hw⟩ := hr.moves (.inr rfl) hw
    exact hnot ⟨k + 1, by omega, _, (run_moves r k).takes hw (hfree k (hm.trans hk))⟩
  have hsleeps (m : ℕ) (hm : n ≤ m) : (r.st m).kind i = .sleeps := by
    induction m, hm using Nat.le_induction with
    | base => exact hi
    | succ k hk ih => exact ((run_moves r k).sleeps_frame ih).resolve_right (hwoken _ (by omega) i)
  rcases attended_of_reachable (r.reachable n) i hi with hc | ⟨j, hj | hj⟩
  · simp [hfree n le_rfl] at hc
  · -- the notification wakes a thread up
    obtain ⟨m, hm, rfl, hp⟩ := hr.moves (.inl rfl) hj
    obtain ⟨k, hk⟩ := (run_moves r m).notifies hp (hsleeps m hm)
    exact hwoken (m + 1) (by omega) k hk
  · exact hwoken n le_rfl j hj

end

end

/-! ### A run in which a thread sleeps -/

instance [Fintype ι] [DecidableEq ι] : DecidableEq (State ι) := fun s t =>
  decidable_of_iff (s.state = t.state ∧ s.threads = t.threads) (by cases s; cases t; simp)

/-- One thread acquires the lock and keeps it; the other one sleeps and wakes up for no reason, again
and again. -/
def vainLabel (s : State Bool) : Label Bool :=
  match s.threads false, s.threads true with
  | .out, _ => .call false .acquire
  | .holds, .out => .call true .acquire
  | .holds, .asleep _ => .wake true
  | .holds, _ => .run true false
  | _, _ => .run false false

def vainState : ℕ → State Bool
  | 0 => init
  | n + 1 => (step (vainState n) (vainLabel (vainState n))).getD init

/-- The run comes back to a state that it has been in. -/
def vainStates : List (State Bool) := (List.range 8).map vainState

theorem vainState_mem : ∀ n, vainState n ∈ vainStates
  | 0 => by decide
  | n + 1 => by
    have hclosed : ∀ s ∈ vainStates, (step s (vainLabel s)).getD init ∈ vainStates := by decide
    exact hclosed _ (vainState_mem n)

def vainRun : (lts (ι := Bool)).Run init where
  st := vainState
  lab n := vainLabel (vainState n)
  zero := rfl
  step n := by
    have hsome : ∀ s ∈ vainStates, (step s (vainLabel s)).isSome = true := by decide
    obtain ⟨s', hs'⟩ := Option.isSome_iff_exists.1 (hsome _ (vainState_mem n))
    show step _ _ = some (vainState (n + 1))
    rw [vainState, hs', Option.getD_some]

theorem vainRun_fair : Fair vainRun := by
  intro i n
  have hidle : ∀ s ∈ vainStates, (vainLabel s).thread = i ∨ ¬ (s.kind i = .notify ∨
      s.kind i = .woken) := by
    revert i
    decide
  exact ⟨n, le_rfl, hidle _ (vainState_mem n)⟩

theorem futexLock_refines_vain : ∃ h, Held (vainState 6) h ∧ h = some false := by
  obtain ⟨h, hh, -⟩ := futexLock_refines (vainRun.reachable 6)
  exact ⟨h, hh, ((hh.heldBy false).1 (by decide)).symm ▸ rfl⟩

theorem handsOver_of_sleeps_vain :
    ((vainState 6).state = .contended ∧ ∃ j, (vainState 6).kind j = .holds) ∨
      ∃ j, ((vainState 6).kind j).handsOver :=
  handsOver_of_sleeps (i := true) (vainRun.reachable 6) (by decide)

theorem taken_of_fair_vain : ∃ m, 6 ≤ m ∧ ∃ j, (vainState m).kind j = .holds :=
  taken_of_fair (i := true) (n := 6) vainRun_fair (by decide)

end FutexLock

end Il2Cpp
