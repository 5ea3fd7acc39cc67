import Il2Cpp.WaitObject.Step

/-!
# The APCs of a waiting thread

`ThreadImpl::QueueUserAPC` queues a request and then releases the semaphore of the thread, if the
thread has a current wait object; `WaitObject::Wait` sets this object and then looks at the queue.
The callback of an APC may call `Wait` itself, on another object, and when that call is over the
thread has no current wait object any more, although it goes on waiting in the outer call.

* `Frame` : a call of `Wait`, or a callback that it runs; a thread has a stack of them.
* `runWait` : a step of the innermost call of `Wait`, by the place it is at.
* `Published` : the thread goes into the condition wait with a current wait object only.
* `queuedAPC_wakes` : then a queued APC has released the semaphore.
* `queuedAPC_missed` : when the object is missing, the APC is not noticed.

One thread is followed.  The counts of the wait objects belong to other threads too, so what a step
reads of them is an input.
-/

namespace Il2Cpp

namespace UserAPC

open WaitObject (Call)

/-- Where a call of `Wait` is. -/
inductive Place
  /-- at the up-front check of the APCs -/
  | check
  /-- before it has `m_Mutex` and looks at `m_Count` -/
  | lock
  /-- before `SetWaitObject(this)` -/
  | publish
  /-- at the check of the APCs after it -/
  | checkPublished
  /-- at `while (m_Count == 0)` -/
  | loop
  /-- in `ConditionWait` or `ConditionTimedWait`, before the semaphore is acquired -/
  | acquire
  /-- at the check of the APCs after the semaphore was acquired -/
  | checkSignal
  /-- before `SetWaitObject(NULL)`, with the wait status -/
  | unpublish (waitStatus : WaitObject.Outcome)
  /-- at the last check of the APCs -/
  | checkUnpublished (waitStatus : WaitObject.Outcome)
  deriving DecidableEq

/-- A wait object, as a pointer. -/
abbrev WaitObjectPtr := ℕ

/-- What the thread is in. -/
inductive Frame
  | wait (object : WaitObjectPtr) (c : Call) (place : Place)
  /-- the callback of an APC, which the call of `Wait` below it runs -/
  | callback (apc : ℕ)
  deriving DecidableEq

/-- Where a call of `QueueUserAPC` is. -/
inductive QueuePC
  /-- before the request is on the queue -/
  | push (apc : ℕ)
  /-- before `m_CurrentWaitObject` is read -/
  | load
  /-- before `m_ConditionSemaphore` is released -/
  | release
  deriving DecidableEq

/-- The thread and the calls of `QueueUserAPC` for it. -/
structure State where
  /-- The innermost call first. -/
  stack : List Frame
  pendingAPCs : List ℕ
  currentWaitObject : Option WaitObjectPtr
  /-- The count of `m_ConditionSemaphore`, whose cap is one. -/
  conditionSemaphore : Bool
  /-- The calls of `QueueUserAPC` in progress. -/
  queuing : List QueuePC
  /-- How the last call of `Wait` has ended. -/
  result : Option WaitObject.Outcome
  deriving DecidableEq

def init : State := ⟨[], [], none, false, [], none⟩

/-- What happens. -/
inductive Label
  /-- the thread calls `Wait` -/
  | wait (object : WaitObjectPtr) (c : Call)
  /-- it takes a step in `Wait`, in which it may read whether `m_Count` is not 0 -/
  | run (signaled : Bool)
  /-- `TryTimedAcquireSemaphore` gives up -/
  | timeout
  | callbackReturns
  | callbackThrows
  /-- `WakeupThreads` of a wait object releases the semaphore of the thread -/
  | wakeup
  /-- `QueueUserAPC` is called -/
  | queueUserAPC (apc : ℕ)
  /-- a call of `QueueUserAPC` takes a step -/
  | queue (k : ℕ)
  deriving DecidableEq

/-- `CheckForUserAPCAndHandle` in the call `Wait(object, c)`, where `stack` is below it: the next
callback, or the next place. -/
def checkAPCs (s : State) (object : WaitObjectPtr) (c : Call) (place next : Place)
    (stack : List Frame) : State :=
  if c.interruptible then
    match s.pendingAPCs with
    | [] => { s with stack := .wait object c next :: stack }
    | apc :: apcs =>
      { s with pendingAPCs := apcs, stack := .callback apc :: .wait object c place :: stack }
  else { s with stack := .wait object c next :: stack }

/-- `SetWaitObject`, which only interruptible waits call. -/
def setWaitObject (s : State) (c : Call) (waitObject : Option WaitObjectPtr) : State :=
  if c.interruptible then { s with currentWaitObject := waitObject } else s

/-- A step of the innermost call of `Wait`. -/
def runWait (s : State) (signaled : Bool) (object : WaitObjectPtr) (c : Call)
    (stack : List Frame) : Place → Option State
  | .check =>
    if c.timeout = .zero then some { s with stack := .wait object c .lock :: stack }
    else some (checkAPCs s object c .check .lock stack)
  | .lock =>
    if signaled then some { s with stack, result := some .success }
    else if c.timeout = .zero then some { s with stack, result := some .timeout }
    else some { s with stack := .wait object c .publish :: stack }
  | .publish =>
    some { setWaitObject s c (some object) with stack := .wait object c .checkPublished :: stack }
  | .checkPublished => some (checkAPCs s object c .checkPublished .loop stack)
  | .loop =>
    if signaled then some { s with stack := .wait object c (.unpublish .success) :: stack }
    else some { s with stack := .wait object c .acquire :: stack }
  | .acquire =>
    if s.conditionSemaphore then
      some { s with
        conditionSemaphore := false
        stack := .wait object c .checkSignal :: stack }
    else none
  | .checkSignal => some (checkAPCs s object c .checkSignal .loop stack)
  | .unpublish waitStatus =>
    some { setWaitObject s c none with
      stack := .wait object c (.checkUnpublished waitStatus) :: stack }
  | .checkUnpublished waitStatus =>
    if c.interruptible ∧ s.pendingAPCs ≠ [] then
      let place := .checkUnpublished waitStatus
      some (checkAPCs s object c place place stack)
    else some { s with stack, result := some waitStatus }

/-- A step of a call of `QueueUserAPC`: the state, and where the call is then if it goes on. -/
def runQueue (s : State) : QueuePC → State × Option QueuePC
  | .push apc => ({ s with pendingAPCs := s.pendingAPCs ++ [apc] }, some .load)
  | .load => (s, if s.currentWaitObject.isSome then some .release else none)
  | .release => ({ s with conditionSemaphore := true }, none)

/-- The calls after call `k` has taken a step. -/
def putBack (queuing : List QueuePC) (k : ℕ) : Option QueuePC → List QueuePC
  | some pc => queuing.set k pc
  | none => queuing.eraseIdx k

/-- A step. -/
def step (s : State) : Label → Option State
  | .wait object c =>
    match s.stack with
    | [] | .callback _ :: _ => some { s with stack := .wait object c .check :: s.stack }
    | .wait .. :: _ => none
  | .run signaled =>
    match s.stack with
    | .wait object c place :: stack => runWait s signaled object c stack place
    | _ => none
  | .timeout =>
    match s.stack with
    | .wait object c .acquire :: stack =>
      if c.timeout = .finite ∧ s.conditionSemaphore = false then
        some { s with stack := .wait object c (.unpublish .timeout) :: stack }
      else none
    | _ => none
  | .callbackReturns =>
    match s.stack with
    | .callback _ :: stack => some { s with stack }
    | _ => none
  | .callbackThrows =>
    match s.stack with
    | .callback _ :: .wait _ c place :: stack =>
      -- only the up-front check is outside of the try block
      let s := if place = .check then s else setWaitObject s c none
      some { s with stack, result := some .exception }
    | _ => none
  | .wakeup => some { s with conditionSemaphore := true }
  | .queueUserAPC apc => some { s with queuing := s.queuing ++ [.push apc] }
  | .queue k =>
    s.queuing[k]?.map fun pc =>
      { (runQueue s pc).1 with queuing := putBack s.queuing k (runQueue s pc).2 }

/-- The transition system. -/
def lts : LTS State Label := .ofFun step

/-- An interruptible call goes into the condition wait. -/
def entersWait (s : State) : Label → Bool
  | .run signaled =>
    match s.stack with
    | .wait _ c .loop :: _ => c.interruptible && !signaled
    | _ => false
  | _ => false

/-- **The thread has a current wait object when it goes into the condition wait** of an
interruptible call. -/
def Published (s : State) (l : Label) : Prop := entersWait s l = true → s.currentWaitObject ≠ none

instance (s : State) (l : Label) : Decidable (Published s l) :=
  inferInstanceAs (Decidable (_ → _))

/-! ### The stack -/

/-- The call is at a check of the APCs. -/
def Place.checks : Place → Bool
  | check | checkPublished | checkSignal | checkUnpublished _ => true
  | lock | publish | loop | acquire | unpublish _ => false

/-- The thread runs its own code, or that of a callback: under each callback is a call of `Wait` at
a check. -/
inductive Code : List Frame → Prop
  | base : Code []
  | callback {object : WaitObjectPtr} {c : Call} {place : Place} {stack : List Frame} (apc : ℕ) :
      place.checks = true → Code stack → Code (.callback apc :: .wait object c place :: stack)

/-! ### The invariant -/

/-- Queued APCs are noticed: the semaphore was released, or a call of `QueueUserAPC` has yet to look
at the current wait object, or to release it. -/
def Heard (s : State) : Prop :=
  s.pendingAPCs = [] ∨ s.conditionSemaphore = true ∨ .load ∈ s.queuing ∨ .release ∈ s.queuing

/-- What holds of a call of `Wait` that the thread is in. -/
structure Listens (s : State) (place : Place) : Prop where
  published : place = .acquire → s.currentWaitObject ≠ none
  heard : place = .loop ∨ place = .acquire → s.currentWaitObject ≠ none → Heard s

/-- The invariant. -/
inductive Inv (s : State) : Prop
  | code : Code s.stack → Inv s
  | wait {object : WaitObjectPtr} {c : Call} {place : Place} {stack : List Frame} :
      s.stack = .wait object c place :: stack → Code stack →
      (c.interruptible = true → Listens s place) → Inv s

theorem Listens.of_checks {s : State} {place : Place} (h : place.checks = true) :
    Listens s place := by
  cases place with
  | check | checkPublished | checkSignal | checkUnpublished =>
    exact ⟨nofun, fun h => h.elim nofun nofun⟩
  | lock | publish | loop | acquire | unpublish => cases h

variable {s s' : State} {object : WaitObjectPtr} {c : Call} {place next : Place}
  {stack : List Frame}

/-- **A check of the APCs**: the thread goes on when the queue is empty. -/
theorem inv_checkAPCs (hcode : Code stack) (hplace : place.checks = true)
    (hnext : next ≠ .acquire) : Inv (checkAPCs s object c place next stack) := by
  rw [checkAPCs]
  split_ifs with hc
  · cases hp : s.pendingAPCs with
    | nil => exact .wait rfl hcode fun _ => ⟨fun h => absurd h hnext, fun _ _ => .inl rfl⟩
    | cons apc apcs => exact .code (.callback apc hplace hcode)
  · exact .wait rfl hcode fun h => absurd h hc

/-- **A step of the innermost call of `Wait`.** -/
theorem inv_runWait {signaled : Bool} (hs : s.stack = .wait object c place :: stack)
    (hcode : Code stack) (hl : c.interruptible = true → Listens s place)
    (hg : Published s (.run signaled))
    (ht : runWait s signaled object c stack place = some s') : Inv s' := by
  cases place with
  | check =>
    rw [runWait] at ht
    split_ifs at ht <;> cases ht
    · exact .wait rfl hcode fun _ => ⟨nofun, fun h => h.elim nofun nofun⟩
    · exact inv_checkAPCs hcode rfl nofun
  | lock =>
    rw [runWait] at ht
    split_ifs at ht <;> cases ht
    · exact .code hcode
    · exact .code hcode
    · exact .wait rfl hcode fun _ => ⟨nofun, fun h => h.elim nofun nofun⟩
  | publish =>
    cases ht
    exact .wait rfl hcode fun _ => .of_checks rfl
  | checkPublished | checkSignal =>
    cases ht
    exact inv_checkAPCs hcode rfl nofun
  | loop =>
    rw [runWait] at ht
    split_ifs at ht with hsig <;> cases ht
    · exact .wait rfl hcode fun _ => ⟨nofun, fun h => h.elim nofun nofun⟩
    · refine .wait rfl hcode fun hc => ?_
      have hne : s.currentWaitObject ≠ none := hg (by simp [entersWait, hs, hc, hsig])
      exact ⟨fun _ => hne, fun _ => (hl hc).heard (.inl rfl)⟩
  | acquire =>
    obtain ⟨-, ⟨⟩⟩ := Option.ite_none_right_eq_some.1 ht
    exact .wait rfl hcode fun _ => .of_checks rfl
  | unpublish waitStatus =>
    cases ht
    exact .wait rfl hcode fun _ => .of_checks rfl
  | checkUnpublished waitStatus =>
    rw [runWait] at ht
    split_ifs at ht <;> cases ht
    · exact inv_checkAPCs hcode rfl nofun
    · exact .code hcode

/-- A step that leaves the thread where it is, and keeps queued APCs noticed. -/
theorem Inv.of_frame (h : Inv s) (hstack : s'.stack = s.stack)
    (hobj : s'.currentWaitObject = s.currentWaitObject)
    (hheard : s.currentWaitObject ≠ none → Heard s → Heard s') : Inv s' := by
  cases h with
  | code hcode => exact .code (hstack ▸ hcode)
  | wait hs hcode hl =>
    refine .wait (hstack.trans hs) hcode fun hc => ⟨fun hp => ?_, fun hp hne => ?_⟩
    · rw [hobj]
      exact (hl hc).published hp
    · rw [hobj] at hne
      exact hheard hne ((hl hc).heard hp hne)

/-- **A step of a call of `QueueUserAPC`.**  It sees the current wait object if there is one. -/
theorem Inv.queue {k : ℕ} {pc : QueuePC} (h : Inv s) (hk : s.queuing[k]? = some pc) :
    Inv { (runQueue s pc).1 with queuing := putBack s.queuing k (runQueue s pc).2 } := by
  have hlt : k < s.queuing.length := (List.getElem?_eq_some_iff.1 hk).1
  cases pc with
  | push apc =>
    refine h.of_frame rfl rfl fun _ _ => .inr (.inr (.inl ?_))
    exact List.mem_of_getElem? (List.getElem?_set_self hlt)
  | load =>
    refine h.of_frame rfl rfl fun hne _ => .inr (.inr (.inr ?_))
    rw [runQueue, if_pos (Option.isSome_iff_ne_none.2 hne)]
    exact List.mem_of_getElem? (List.getElem?_set_self hlt)
  | release => exact h.of_frame rfl rfl fun _ _ => .inr (.inl rfl)

/-- **A step keeps the invariant.** -/
theorem Inv.step {l : Label} (h : Inv s) (hg : Published s l)
    (ht : UserAPC.step s l = some s') : Inv s' := by
  cases l with
  | wakeup =>
    cases ht
    exact h.of_frame rfl rfl fun _ _ => .inr (.inl rfl)
  | queueUserAPC apc =>
    cases ht
    refine h.of_frame rfl rfl fun _ hh => ?_
    simpa [Heard] using hh
  | queue k =>
    obtain ⟨pc, hk, rfl⟩ := Option.map_eq_some_iff.1 ht
    exact h.queue hk
  | wait object c =>
    obtain ⟨st, apcs, obj, sem, queuing, result⟩ := s
    rcases h with hcode | ⟨rfl, -, -⟩
    · have hcode : Code st := hcode
      cases hcode with
      | base =>
        cases ht
        exact .wait rfl .base fun _ => .of_checks rfl
      | callback apc hplace hbelow =>
        cases ht
        exact .wait rfl (.callback apc hplace hbelow) fun _ => .of_checks rfl
    · cases ht
  | run signaled =>
    rcases h with hcode | ⟨hs, hcode, hl⟩
    · obtain ⟨st, apcs, obj, sem, queuing, result⟩ := s
      have hcode : Code st := hcode
      cases hcode <;> cases ht
    · simp only [UserAPC.step, hs] at ht
      exact inv_runWait hs hcode hl hg ht
  | timeout =>
    obtain ⟨st, apcs, obj, sem, queuing, result⟩ := s
    rcases h with hcode | @⟨object, c, place, stack, rfl, hcode, -⟩
    · have hcode : Code st := hcode
      cases hcode <;> cases ht
    · cases place with
      | acquire =>
        obtain ⟨-, ⟨⟩⟩ := Option.ite_none_right_eq_some.1 ht
        exact .wait rfl hcode fun _ => ⟨nofun, fun h => h.elim nofun nofun⟩
      | _ => cases ht
  | callbackReturns =>
    obtain ⟨st, apcs, obj, sem, queuing, result⟩ := s
    rcases h with hcode | ⟨rfl, -, -⟩
    · have hcode : Code st := hcode
      cases hcode with
      | base => cases ht
      | callback apc hplace hbelow =>
        cases ht
        exact .wait rfl hbelow fun _ => .of_checks hplace
    · cases ht
  | callbackThrows =>
    obtain ⟨st, apcs, obj, sem, queuing, result⟩ := s
    rcases h with hcode | ⟨rfl, -, -⟩
    · have hcode : Code st := hcode
      cases hcode with
      | base => cases ht
      | callback apc hplace hbelow =>
        cases ht
        exact .code hbelow
    · cases ht

theorem inv_init : Inv init := .code .base

/-- **A queued APC is not missed**, when the thread has a current wait object each time it goes into
the condition wait: once no call of `QueueUserAPC` is in progress, a thread that is blocked in an
interruptible wait with APCs on its queue has a count on its semaphore. -/
theorem queuedAPC_wakes (h : lts.ReachWith Published init s)
    (hblocked : s.stack = .wait object c .acquire :: stack) (hc : c.interruptible = true)
    (hpending : s.pendingAPCs ≠ []) (hqueuing : s.queuing = []) : s.conditionSemaphore = true := by
  have hs : Inv s := h.invariant inv_init fun _ _ _ hs hg hst => hs.step hg hst
  cases hs with
  | code hcode =>
    rw [hblocked] at hcode
    cases hcode
  | wait hs _ hl =>
    rw [hblocked] at hs
    cases hs
    have hl := hl hc
    rcases hl.heard (.inr rfl) (hl.published rfl) with hh | hh | hh | hh
    · exact absurd hh hpending
    · exact hh
    · simp [hqueuing] at hh
    · simp [hqueuing] at hh

/-- `Wait` without a timeout, interruptible. -/
def infiniteWait : Call := ⟨.infinite, true⟩

/-- The thread waits for object 1, and an APC is queued. -/
def interruptedWait : List Label :=
  [.wait 1 infiniteWait, .run false, .run false, .run false, .run false, .run false,
   .queueUserAPC 5, .queue 0, .queue 0, .queue 0]

theorem queuedAPC_wakes_interrupted :
    ∃ s, lts.ReachWith Published init s ∧ s.pendingAPCs = [5] ∧ s.conditionSemaphore = true := by
  obtain ⟨s, hs, hst, hp, hq⟩ := LTS.exists_reachWith (f := step) (G := Published) (i := init)
    interruptedWait (fun s => s.stack = [.wait 1 infiniteWait .acquire] ∧ s.pendingAPCs = [5] ∧
      s.queuing = []) (by decide)
  exact ⟨s, hs, hp, queuedAPC_wakes hs hst rfl (by simp [hp]) hq⟩

/-! ### A callback that waits -/

/-- The callback waits for object 2 until it is signaled, and the thread goes on waiting for
object 1; then another APC is queued. -/
def nestedWait : List Label :=
  interruptedWait ++
  [.run false, .run false, .wait 2 infiniteWait, .run false, .run false, .run false, .run false,
   .run false, .wakeup, .run false, .run false, .run true, .run false, .run false,
   .callbackReturns, .run false, .run false, .queueUserAPC 6, .queue 0, .queue 0]

/-- The second APC is missed. -/
theorem queuedAPC_missed : ¬ ∀ (s : State) (object : WaitObjectPtr) (c : Call) (stack : List Frame),
    lts.Reachable init s → s.stack = .wait object c .acquire :: stack → c.interruptible = true →
      s.pendingAPCs ≠ [] → s.queuing = [] → s.conditionSemaphore = true := by
  intro h
  obtain ⟨s, hs, hst, hp, hq, hsem⟩ := LTS.exists_reachWith (f := step) (G := fun _ _ => True)
    (i := init) nestedWait (fun s => s.stack = [.wait 1 infiniteWait .acquire] ∧
      s.pendingAPCs = [6] ∧ s.queuing = [] ∧ s.conditionSemaphore = false) (by decide)
  have := h s 1 infiniteWait [] hs hst rfl (by simp [hp]) hq
  simp [hsem] at this

/-- Without a current wait object, the next APC is missed by a thread that finds no count on its
semaphore. -/
theorem missed_of_not_published (hs : s.stack = .wait object c .loop :: stack)
    (hobj : s.currentWaitObject = none) (hsem : s.conditionSemaphore = false)
    (hq : s.queuing = []) (apc : ℕ) :
    ∃ t, lts.Reachable s t ∧ t.stack = .wait object c .acquire :: stack ∧
      t.pendingAPCs = s.pendingAPCs ++ [apc] ∧ t.queuing = [] ∧ t.conditionSemaphore = false := by
  let s₁ : State := { s with stack := .wait object c .acquire :: stack }
  let s₂ : State := { s₁ with pendingAPCs := s.pendingAPCs ++ [apc] }
  have h₁ : lts.Reachable s s₁ :=
    .step (l := .run false) .init trivial (by simp [lts, step, hs, runWait, s₁])
  have h₂ : lts.Reachable s { s₁ with queuing := [.push apc] } :=
    .step (l := .queueUserAPC apc) h₁ trivial (by simp [lts, step, s₁, hq])
  have h₃ : lts.Reachable s { s₂ with queuing := [.load] } :=
    .step (l := .queue 0) h₂ trivial (by simp [lts, step, runQueue, putBack, s₁, s₂])
  have h₄ : lts.Reachable s s₂ :=
    .step (l := .queue 0) h₃ trivial (by simp [lts, step, runQueue, putBack, s₁, s₂, hobj, hq])
  exact ⟨s₂, h₄, rfl, rfl, hq, hsem⟩

theorem missed_of_not_published_nested : ∃ s t, lts.Reachable init s ∧ lts.Reachable s t ∧
    t.pendingAPCs = [6] ∧ t.conditionSemaphore = false := by
  obtain ⟨s, hs, hst, hobj, hsem, hq, hp⟩ := LTS.exists_reachWith (f := step)
    (G := fun _ _ => True) (i := init) (nestedWait.take 26)
    (fun s => s.stack = [.wait 1 infiniteWait .loop] ∧ s.currentWaitObject = none ∧
      s.conditionSemaphore = false ∧ s.queuing = [] ∧ s.pendingAPCs = []) (by decide)
  obtain ⟨t, ht, -, hpending, -, hfalse⟩ := missed_of_not_published hst hobj hsem hq 6
  exact ⟨s, t, hs, ht, by rw [hpending, hp]; rfl, hfalse⟩

end UserAPC

end Il2Cpp
