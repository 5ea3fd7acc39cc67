import Il2Cpp.LTS.Basic

/-!
# A wait object

`WaitObject::Wait`, the operations of events, semaphores and mutexes that signal it, and the APCs
of the threads that wait, as a transition system.

* `Thread` : what a thread has: where it is in `Wait`, its semaphore, and its APCs.
* `State` : the wait object with the threads.
* `State.wait` : a step of a thread in `Wait`.
* `State.set`, `State.post`, `State.unlock` : the signals.
* `step` : all steps.

What a thread does while it holds `m_Mutex` is one step.  Time is not followed: a wait that has a
timeout may time out whenever the semaphore of the thread has no token.
-/

namespace Il2Cpp

namespace WaitObject

/-- `WaitObject::Type`. -/
inductive ObjectType
  | mutex
  | manualResetEvent
  | autoResetEvent
  | semaphore
  deriving DecidableEq

/-- The timeout of a wait, as far as `Wait` distinguishes it. -/
inductive Timeout
  | zero
  | finite
  /-- `kNoTimeout` -/
  | infinite
  deriving DecidableEq

/-- The arguments of `Wait`. -/
structure Call where
  timeout : Timeout
  interruptible : Bool
  deriving DecidableEq

/-- How `Wait` ends. -/
inductive Outcome
  | success
  | timeout
  /-- an APC has thrown -/
  | exception
  deriving DecidableEq

/-- Where a thread is. -/
inductive PC
  /-- not in `Wait`; how the last call has ended -/
  | idle (last : Option Outcome)
  /-- before the up-front check of the APCs -/
  | check (c : Call)
  /-- before it has `m_Mutex` -/
  | lock (c : Call)
  /-- in `ConditionWait` or `ConditionTimedWait`, before it acquires its semaphore -/
  | acquireSemaphore (c : Call)
  /-- its semaphore has no token -/
  | sleeping (c : Call)
  /-- before it has `m_Mutex` again; whether the semaphore was acquired, else it has timed out -/
  | relock (c : Call) (acquired : Bool)
  deriving DecidableEq

/-- `ThreadImpl`. -/
structure Thread where
  pc : PC
  /-- The token of `m_ConditionSemaphore`, whose cap is one. -/
  token : Bool
  /-- `m_PendingAPCs`: whether each of them throws. -/
  pendingAPCs : List Bool
  /-- `m_CurrentWaitObject` is set. -/
  hasWaitObject : Bool
  deriving DecidableEq

namespace Thread

/-- `ReleaseSemaphore`: a thread that sleeps has acquired it then. -/
def releaseSemaphore (th : Thread) : Thread :=
  match th.pc with
  | .sleeping c => { th with pc := .relock c true }
  | _ => { th with token := true }

/-- Whether `CheckForUserAPCAndHandle` throws. -/
def throws (th : Thread) : Bool := th.pendingAPCs.any id

/-- The thread after `CheckForUserAPCAndHandle`: the APC that throws is the last one handled. -/
def handleAPCs (th : Thread) : Thread :=
  { th with pendingAPCs := (th.pendingAPCs.dropWhile (! ·)).tail }

end Thread

/-- The wait object and the threads. -/
structure State (Tid : Type) where
  type : ObjectType
  count : ℕ
  /-- `m_MaximumValue` of a semaphore. -/
  maximumValue : ℕ
  waitingThreads : List Tid
  waitingThreadCount : ℕ
  threads : Tid → Thread
  /-- The calls of `QueueUserAPC` that have queued the APC and not yet looked at
  `m_CurrentWaitObject`, by thread. -/
  interrupting : List Tid

variable {Tid : Type} [DecidableEq Tid]

namespace State

variable (s : State Tid)

/-- A thread changes. -/
def modify (t : Tid) (f : Thread → Thread) : State Tid :=
  { s with threads := Function.update s.threads t (f (s.threads t)) }

def setPC (t : Tid) (pc : PC) : State Tid := s.modify t fun th => { th with pc }

/-- `SetWaitObject`, which only interruptible waits call. -/
def setWaitObject (t : Tid) (c : Call) (b : Bool) : State Tid :=
  if c.interruptible then s.modify t fun th => { th with hasWaitObject := b } else s

/-- `WakeupThreads`.  All threads in the list of this object wait for it. -/
def wakeupThreads (wakeupOneThread : Bool) : State Tid :=
  (if wakeupOneThread then s.waitingThreads.take 1 else s.waitingThreads).foldl
    (fun s t => s.modify t Thread.releaseSemaphore) s

/-- `HaveWaitingThreads`. -/
def haveWaitingThreads : Bool := s.waitingThreadCount ≠ 0

/-- `CheckForUserAPCAndHandle` in an interruptible wait, and what follows; the exception leaves
`Wait`. -/
def checkAPCs (t : Tid) (c : Call) (next : State Tid → State Tid) : State Tid :=
  if c.interruptible then
    let s' := s.modify t Thread.handleAPCs
    if (s.threads t).throws then (s'.setWaitObject t c false).setPC t (.idle (some .exception))
    else next s'
  else next s

/-- A semaphore that has more releases signals the next thread in line. -/
def signalNext : State Tid :=
  if 0 < s.count ∧ s.haveWaitingThreads then s.wakeupThreads true else s

/-- `Wait` acquires the object, whose count is positive. -/
def acquire : State Tid :=
  match s.type with
  | .manualResetEvent => s
  | .mutex | .autoResetEvent => { s with count := 0 }
  | .semaphore => { s with count := s.count - 1 }.signalNext

/-- `PushThreadToWaitersList`, with the count of the waiting threads. -/
def pushThread (t : Tid) (c : Call) : State Tid :=
  { s with
    waitingThreadCount := s.waitingThreadCount + 1
    waitingThreads := s.waitingThreads ++ [t] }.setPC t (.acquireSemaphore c)

/-- The list without an element, which the last one replaces (`erase_swap_back`). -/
def eraseSwapBack (t : Tid) (l : List Tid) : List Tid :=
  match l.getLast? with
  | some u => if t ∈ l then (l.set (l.idxOf t) u).dropLast else l
  | none => l

/-- `PopThreadFromWaitersList`, with the count of the waiting threads. -/
def popThread (t : Tid) : State Tid :=
  { s with
    waitingThreadCount := s.waitingThreadCount - 1
    waitingThreads := eraseSwapBack t s.waitingThreads }

/-- A step of a thread in `Wait`. -/
def wait (t : Tid) : Option (State Tid) :=
  match (s.threads t).pc with
  | .idle _ | .sleeping _ => none
  | .check c =>
    if c.timeout = .zero then some (s.setPC t (.lock c))
    else some (s.checkAPCs t c fun s => s.setPC t (.lock c))
  | .lock c =>
    if s.count ≠ 0 then some (s.acquire.setPC t (.idle (some .success)))
    else if c.timeout = .zero then some (s.setPC t (.idle (some .timeout)))
    else some ((s.setWaitObject t c true).checkAPCs t c fun s => s.pushThread t c)
  | .acquireSemaphore c =>
    if (s.threads t).token then
      some ((s.modify t fun th => { th with token := false }).setPC t (.relock c true))
    else some (s.setPC t (.sleeping c))
  | .relock c acquired =>
    let s := s.popThread t
    if acquired then
      -- the signal may be because of an APC
      some (s.checkAPCs t c fun s =>
        if s.count = 0 then s.pushThread t c
        else (s.setWaitObject t c false).checkAPCs t c fun s =>
          s.acquire.setPC t (.idle (some .success)))
    else
      some ((s.setWaitObject t c false).checkAPCs t c fun s => s.setPC t (.idle (some .timeout)))

/-- `EventImpl::Set`. -/
def set : State Tid :=
  let s := { s with count := 1 }
  if s.haveWaitingThreads then s.wakeupThreads false else s

/-- `SemaphoreImpl::Post`.  The sum is a `uint64_t`, the count a `uint32_t`. -/
def post (releaseCount : ℤ) : State Tid :=
  if (s.count + releaseCount) % 2 ^ 64 > s.maximumValue then s
  else { s with count := ((s.count + releaseCount) % 2 ^ 32).toNat }.wakeupThreads true

/-- `MutexImpl::Unlock`, when the owner undoes its last locking level. -/
def unlock : State Tid :=
  let s := { s with count := 1 }
  if s.haveWaitingThreads then s.wakeupThreads true else s

end State

/-- What happens in the system. -/
inductive Label (Tid : Type)
  | call (t : Tid) (c : Call)
  | wait (t : Tid)
  /-- `TryTimedAcquireSemaphore` gives up -/
  | timeout (t : Tid)
  | set
  | reset
  | post (releaseCount : ℤ)
  | unlock
  /-- `QueueUserAPC` queues an APC -/
  | queueUserAPC (t : Tid) (throws : Bool)
  /-- a call of `QueueUserAPC` goes on -/
  | interrupt (k : ℕ)
  /-- a thread that is not in `Wait` waits for other objects and handles APCs -/
  | elsewhere (t : Tid) (token : Bool) (pendingAPCs : List Bool)

/-- A step of the system. -/
def step (s : State Tid) : Label Tid → Option (State Tid)
  | .call t c =>
    match (s.threads t).pc with
    | .idle _ => some (s.setPC t (.check c))
    | _ => none
  | .wait t => s.wait t
  | .timeout t =>
    match (s.threads t).pc with
    | .sleeping c => if c.timeout = .finite then some (s.setPC t (.relock c false)) else none
    | _ => none
  | .set =>
    if s.type = .manualResetEvent ∨ s.type = .autoResetEvent then some s.set else none
  | .reset =>
    if s.type = .manualResetEvent ∨ s.type = .autoResetEvent then some { s with count := 0 }
    else none
  | .post releaseCount => if s.type = .semaphore then some (s.post releaseCount) else none
  | .unlock => if s.type = .mutex ∧ s.count = 0 then some s.unlock else none
  | .queueUserAPC t throws =>
    some { s.modify t (fun th => { th with pendingAPCs := th.pendingAPCs ++ [throws] }) with
      interrupting := s.interrupting ++ [t] }
  | .interrupt k => do
    let t ← s.interrupting[k]?
    let s := { s with interrupting := s.interrupting.eraseIdx k }
    some (if (s.threads t).hasWaitObject then s.modify t Thread.releaseSemaphore else s)
  | .elsewhere t token pendingAPCs =>
    match (s.threads t).pc with
    | .idle _ => some (s.modify t fun th => { th with token, pendingAPCs })
    | _ => none

/-- A wait object that no thread waits for. -/
structure State.Initial (s : State Tid) : Prop where
  waitingThreads : s.waitingThreads = []
  waitingThreadCount : s.waitingThreadCount = 0
  idle : ∀ t, (s.threads t).pc = .idle none

/-- The transition system. -/
def lts : LTS (State Tid) (Label Tid) := .ofFun step

end WaitObject

end Il2Cpp
