import Il2Cpp.Monitor.State
import Il2Cpp.LTS.Basic

/-!
# Monitors: the steps of a thread

One definition for each function of `vm/Monitor.cpp`, from the place a thread has reached to the
next one.  Waiting on a semaphore or an event takes two steps: a thread that finds the count at
zero blocks, and from then on it may time out or be interrupted at any moment, also when the count
is no longer zero.

* `State.enterStep`, `State.getStep`, `State.exitStep`, `State.pulseStep`, `State.waitStep` : the
  functions.
* `step` : one step of the system, `lts` the transition system.
* `Holds`, `InSection` : the monitor of an object is owned by a thread; the thread is between a
  successful enter and the matching exit.
-/

namespace Il2Cpp

namespace Monitor

/-- The operations of a client; `Enter` and `Wait` are `TryEnter` and `TryWait` without a
time-out. -/
inductive Op (Obj : Type)
  | tryEnter (o : Obj) (timeOutMilliseconds : BitVec 32)
  | exit (o : Obj)
  | pulse (o : Obj)
  | pulseAll (o : Obj)
  | tryWait (o : Obj) (timeoutMilliseconds : BitVec 32)
  deriving DecidableEq

/-- What happens to a thread at its next step, where there is a choice. -/
inductive Choice
  | proceed
  /-- `try_pop_front` fails while another thread works on the queue -/
  | popFails
  /-- a timed wait is over -/
  | timeout
  /-- a user APC throws `NativeThreadAbortException` -/
  | abort
  /-- a user APC throws another exception -/
  | interrupt
  deriving DecidableEq

/-- A thread that is between two calls makes one, or a thread takes a step in its call. -/
inductive Label (Tid Obj : Type)
  | call (t : Tid) (op : Op Obj)
  | run (t : Tid) (c : Choice)
  deriving DecidableEq

/-- What `TryWait` returns or throws. -/
def ReentryVars.outcome (v : ReentryVars) : Outcome :=
  match v.exceptionThrownDuringWait with
  | some e => .raised e
  | none => .returned (v.pulseWaitStatus ≠ .timeout)

/-- The variables of `TryWait` after its wait. -/
def WaitVars.afterWait (v : WaitVars) (n : Node) (pulseWaitStatus : WaitStatus)
    (exceptionThrownDuringWait : Option Exc) : ReentryVars :=
  ⟨v.oldLockingCount, some n, pulseWaitStatus, exceptionThrownDuringWait⟩

/-- `ThreadSafeFreeList::Allocate` : an instance of the free list or a new one, with what is left
of the list and the next new instance. -/
def allocate (free : List ℕ) (new : ℕ) (c : Choice) : ℕ × List ℕ × ℕ :=
  match free with
  | n :: rest => if c = .popFails then (new, n :: rest, new + 1) else (n, rest, new)
  | [] => (new, [], new + 1)

/-! ### Calls and returns -/

/-- `TryWait` calls `Enter` to have the monitor again. -/
def PC.reenter {Obj : Type} (o : Obj) (v : ReentryVars) : PC Obj :=
  .enter ⟨o, .tryWait v⟩ .readMonitor

/-- Where `TryEnter` returns to; `TryWait` ignores the result. -/
def EnterFrame.returnPC {Obj : Type} (f : EnterFrame Obj) (entered : Bool) : PC Obj :=
  match f.caller with
  | .client _ => .idle (.returned entered)
  | .tryWait v => .wait f.obj (.readMonitor v)

/-- Where a function goes on when it has passed the check. -/
def Purpose.passPC {Obj : Type} (o : Obj) (m : Block) : Purpose → PC Obj
  | .exit caller => .exit o caller (.undo m)
  | .pulse all => .pulse o all (.pop m true)
  | .tryWait timeout => .wait o (.saveCount m timeout)

/-- Where `Exit` returns to; `TryWait` goes on to wait if its time-out is not zero. -/
def PC.exitReturn {Obj : Type} (o : Obj) : Option WaitVars → PC Obj
  | none => .idle .done
  | some v =>
    match v.waitNode with
    | some n => .wait o (.eventWait v n)
    | none => .reenter o ⟨v.oldLockingCount, none, .timeout, none⟩

namespace State

variable {Tid Obj : Type} [DecidableEq Tid] [DecidableEq Obj]

/-! ### Accesses to the shared memory -/

/-- The thread goes on at `pc`. -/
def goto (s : State Tid Obj) (t : Tid) (pc : PC Obj) : State Tid Obj :=
  { s with pc := Function.update s.pc t pc }

def setMonitor (s : State Tid Obj) (o : Obj) (monitor : Option Block) : State Tid Obj :=
  { s with monitor := Function.update s.monitor o monitor }

def setOwner (s : State Tid Obj) (m : Block) (owner : Owner Tid) : State Tid Obj :=
  { s with owningThreadId := Function.update s.owningThreadId m owner }

def setAborted (s : State Tid Obj) (m : Block) : State Tid Obj :=
  { s with threadAborted := Function.update s.threadAborted m true }

def setCount (s : State Tid Obj) (m : Block) (count : BitVec 32) : State Tid Obj :=
  { s with recursiveLockingCount := Function.update s.recursiveLockingCount m count }

/-- `semaphore.Wait(...)` that finds the count positive. -/
def takeSemaphore (s : State Tid Obj) (m : Block) : State Tid Obj :=
  { s with semaphore := Function.update s.semaphore m (s.semaphore m - 1) }

/-- `semaphore.Post(releaseCount)`, which does nothing if the count would leave the range of
`int32_t`. -/
def postSemaphore (s : State Tid Obj) (m : Block) (releaseCount : ℕ) : State Tid Obj :=
  { s with
    semaphore :=
      Function.update s.semaphore m
        (if s.semaphore m + releaseCount > 2 ^ 31 - 1 then s.semaphore m
        else s.semaphore m + releaseCount) }

/-- `numThreadsWaitingForSemaphore++` -/
def addReady (s : State Tid Obj) (m : Block) : State Tid Obj :=
  { s with
    numThreadsWaitingForSemaphore :=
      Function.update s.numThreadsWaitingForSemaphore m (s.numThreadsWaitingForSemaphore m + 1) }

/-- `--numThreadsWaitingForSemaphore` -/
def removeReady (s : State Tid Obj) (m : Block) : State Tid Obj :=
  { s with
    numThreadsWaitingForSemaphore :=
      Function.update s.numThreadsWaitingForSemaphore m (s.numThreadsWaitingForSemaphore m - 1) }

def setFlush (s : State Tid Obj) (m : Block) (b : Bool) : State Tid Obj :=
  { s with flushAcknowledged := Function.update s.flushAcknowledged m b }

def setWaiting (s : State Tid Obj) (m : Block) (nodes : List Node) : State Tid Obj :=
  { s with threadsWaitingForPulse := Function.update s.threadsWaitingForPulse m nodes }

def setEvent (s : State Tid Obj) (n : Node) (b : Bool) : State Tid Obj :=
  { s with signalWaitingThread := Function.update s.signalWaitingThread n b }

/-- `MonitorData::s_FreeList.Allocate()` -/
def allocateMonitor (s : State Tid Obj) (c : Choice) : Block × State Tid Obj :=
  let r := allocate s.freeMonitors s.newMonitor c
  (r.1, { s with freeMonitors := r.2.1, newMonitor := r.2.2 })

/-- `MonitorData::s_FreeList.Release(m)` -/
def releaseMonitor (s : State Tid Obj) (m : Block) : State Tid Obj :=
  { s with freeMonitors := s.freeMonitors ++ [m] }

/-- `PulseWaitingListNode::Allocate()` -/
def allocateNode (s : State Tid Obj) (c : Choice) : Node × State Tid Obj :=
  let r := allocate s.freeNodes s.newNode c
  (r.1, { s with freeNodes := r.2.1, newNode := r.2.2 })

/-- `PulseWaitingListNode::s_FreeList.Release(n)` -/
def releaseNode (s : State Tid Obj) (n : Node) : State Tid Obj :=
  { s with freeNodes := s.freeNodes ++ [n] }

/-- History: whether the node has been signaled. -/
def setPulsed (s : State Tid Obj) (n : Node) (b : Bool) : State Tid Obj :=
  { s with pulsed := Function.update s.pulsed n b }

/-- History: a client's `TryEnter` that succeeds is one more entry of the object. -/
def recordEnter (s : State Tid Obj) (t : Tid) (f : EnterFrame Obj) (entered : Bool) :
    State Tid Obj :=
  { s with
    depth :=
      match f.caller, entered with
      | .client _, true =>
        Function.update s.depth t (Function.update (s.depth t) f.obj (s.depth t f.obj + 1))
      | _, _ => s.depth }

/-- History: a client's `Exit` that passes the check ends an entry of the object. -/
def recordExit (s : State Tid Obj) (t : Tid) (o : Obj) (purpose : Purpose) : State Tid Obj :=
  { s with
    depth :=
      match purpose with
      | .exit none => Function.update s.depth t (Function.update (s.depth t) o (s.depth t o - 1))
      | _ => s.depth }

/-! ### `Monitor::TryEnter` -/

/-- `TryEnter` returns to its caller. -/
def returnFromEnter (s : State Tid Obj) (t : Tid) (f : EnterFrame Obj) (entered : Bool) :
    State Tid Obj :=
  (s.recordEnter t f entered).goto t (f.returnPC entered)

/-- `Monitor::TryEnter`. -/
def enterStep (s : State Tid Obj) (t : Tid) (c : Choice) (f : EnterFrame Obj) (loc : EnterLoc) :
    Option (State Tid Obj) :=
  match loc with
  | .readMonitor =>
    match s.monitor f.obj with
    | none => some (s.goto t (.enter f .allocate))
    | some m => some (s.goto t (.enter f (.checkOwner m)))
  | .allocate =>
    let r := s.allocateMonitor c
    some (r.2.goto t (.enter f (.exchangeOwner r.1)))
  | .exchangeOwner m => some ((s.setOwner m (.thread t)).goto t (.enter f (.install m)))
  | .install m =>
    if s.monitor f.obj = none then
      some ((s.setMonitor f.obj (some m)).returnFromEnter t f true)
    else
      some (s.goto t (.enter f (.returnOwner m)))
  | .returnOwner m => some ((s.setOwner m .returnedToFreeList).goto t (.enter f (.release m)))
  | .release m => some ((s.releaseMonitor m).goto t (.enter f .readMonitor))
  | .checkOwner m =>
    if s.owningThreadId m = .thread t then some (s.goto t (.enter f (.incrementCount m)))
    else some (s.goto t (.enter f (.tryAcquire m)))
  | .incrementCount m =>
    some ((s.setCount m (s.recursiveLockingCount m + 1)).returnFromEnter t f true)
  | .tryAcquire m =>
    if s.owningThreadId m = .canBeAcquired then
      some ((s.setOwner m (.thread t)).goto t (.enter f (.recheck m)))
    else if f.caller.timeOutMilliseconds = 0 then some (s.returnFromEnter t f false)
    else some (s.goto t (.enter f (.addReady m)))
  | .recheck m =>
    if s.monitor f.obj = some m then some (s.returnFromEnter t f true)
    else some (s.goto t (.enter f (.unacquire m)))
  | .unacquire m => some ((s.setOwner m .canBeAcquired).goto t (.enter f .readMonitor))
  | .addReady m => some ((s.addReady m).goto t (.enter f (.recheckReady m)))
  | .recheckReady m =>
    if s.monitor f.obj = some m then some (s.goto t (.enter f (.loopCheck m)))
    else some (s.goto t (.enter f (.vacate m)))
  | .vacate m => some ((s.removeReady m).goto t (.enter f (.acknowledge m)))
  | .acknowledge m => some ((s.setFlush m true).goto t (.enter f .readMonitor))
  | .loopCheck m =>
    if s.monitor f.obj = some m then some (s.goto t (.enter f (.loopAcquire m)))
    else some (s.goto t (.enter f (.vacate m)))
  | .loopAcquire m =>
    if s.owningThreadId m = .canBeAcquired then
      some ((s.setOwner m (.thread t)).goto t (.enter f (.loopRemove m)))
    else some (s.goto t (.enter f (.semaphoreWait m)))
  | .loopRemove m => some ((s.removeReady m).returnFromEnter t f true)
  | .semaphoreWait m =>
    match c with
    | .abort => some (s.goto t (.enter f (.abortMark m)))
    | .interrupt => some (s.goto t (.enter f (.unwind m)))
    | .proceed | .popFails | .timeout =>
      if s.semaphore m = 0 then some (s.goto t (.enter f (.semaphoreBlocked m)))
      else some ((s.takeSemaphore m).goto t (.enter f (.loopCheck m)))
  | .semaphoreBlocked m =>
    match c with
    | .abort => some (s.goto t (.enter f (.abortMark m)))
    | .interrupt => some (s.goto t (.enter f (.unwind m)))
    | .timeout =>
      if f.caller.timeOutMilliseconds = infinite then none
      else some (s.goto t (.enter f (.timeoutRemove m)))
    | .proceed | .popFails =>
      if s.semaphore m = 0 then none
      else some ((s.takeSemaphore m).goto t (.enter f (.loopCheck m)))
  | .timeoutRemove m =>
    -- `newNumWaitingThreads` is the value after the decrement
    if s.numThreadsWaitingForSemaphore m - 1 = 0 then
      some ((s.removeReady m).goto t (.enter f (.timeoutCheck m)))
    else some ((s.removeReady m).goto t (.enter f (.timeoutRecheck m)))
  | .timeoutCheck m =>
    if s.monitor f.obj = some m then some (s.goto t (.enter f (.timeoutAcquire m)))
    else some (s.goto t (.enter f (.timeoutRecheck m)))
  | .timeoutAcquire m =>
    if s.owningThreadId m = .canBeAcquired then
      some ((s.setOwner m (.thread t)).returnFromEnter t f true)
    else some (s.goto t (.enter f (.timeoutRecheck m)))
  | .timeoutRecheck m =>
    if s.monitor f.obj = some m then some (s.returnFromEnter t f false)
    else some (s.goto t (.enter f (.timeoutAcknowledge m)))
  | .timeoutAcknowledge m => some ((s.setFlush m true).returnFromEnter t f false)
  | .abortMark m => some ((s.setAborted m).goto t (.idle (.raised .threadAbort)))
  | .unwind m => some ((s.removeReady m).goto t (.idle (.raised .interrupted)))

/-! ### `GetMonitorAndThrowIfNotLockedByCurrentThread` -/

/-- The check is passed. -/
def passCheck (s : State Tid Obj) (t : Tid) (o : Obj) (m : Block) (purpose : Purpose) :
    State Tid Obj :=
  (s.recordExit t o purpose).goto t (purpose.passPC o m)

/-- `GetMonitorAndThrowIfNotLockedByCurrentThread`.  Nobody catches the exception. -/
def getStep (s : State Tid Obj) (t : Tid) (o : Obj) (purpose : Purpose) (loc : GetLoc) :
    State Tid Obj :=
  match loc with
  | .readMonitor =>
    match s.monitor o with
    | none => s.goto t (.idle (.raised .synchronizationLock))
    | some m => s.goto t (.getMonitor o purpose (.loadOwner m))
  | .loadOwner m =>
    if s.owningThreadId m = .thread t then s.passCheck t o m purpose
    else s.goto t (.getMonitor o purpose (.loadAborted m))
  | .loadAborted m =>
    if s.threadAborted m then s.passCheck t o m purpose
    else s.goto t (.idle (.raised .synchronizationLock))

/-! ### `Monitor::Exit` -/

/-- `Exit` returns to its caller. -/
def returnFromExit (s : State Tid Obj) (t : Tid) (o : Obj) (caller : Option WaitVars) :
    State Tid Obj :=
  s.goto t (.exitReturn o caller)

/-- `Monitor::Exit`, after the check. -/
def exitStep (s : State Tid Obj) (t : Tid) (o : Obj) (caller : Option WaitVars) (loc : ExitLoc) :
    State Tid Obj :=
  match loc with
  | .undo m =>
    let newLockingCount := s.recursiveLockingCount m - 1
    if newLockingCount.toInt > 0 then (s.setCount m newLockingCount).returnFromExit t o caller
    else s.goto t (.exit o caller (.checkReady m))
  | .checkReady m =>
    if s.numThreadsWaitingForSemaphore m ≠ 0 then s.goto t (.exit o caller (.unacquireReady m))
    else s.goto t (.exit o caller (.checkWaiting m))
  | .unacquireReady m => (s.setOwner m .canBeAcquired).goto t (.exit o caller (.post m))
  | .post m => (s.postSemaphore m 1).returnFromExit t o caller
  | .checkWaiting m =>
    if s.threadsWaitingForPulse m ≠ [] then s.goto t (.exit o caller (.unacquireWaiting m))
    else s.goto t (.exit o caller (.deflate m))
  | .unacquireWaiting m => (s.setOwner m .canBeAcquired).goto t (.exit o caller (.recheckReady m))
  | .recheckReady m =>
    if s.numThreadsWaitingForSemaphore m ≠ 0 then s.goto t (.exit o caller (.post m))
    else s.returnFromExit t o caller
  | .deflate m => (s.setMonitor o none).goto t (.exit o caller (.resetFlush m))
  | .resetFlush m => (s.setFlush m false).goto t (.exit o caller (.flushCheck m))
  | .flushCheck m =>
    if s.numThreadsWaitingForSemaphore m ≠ 0 then s.goto t (.exit o caller (.flushRead m))
    else s.goto t (.exit o caller (.returnOwner m))
  | .flushRead m =>
    s.goto t (.exit o caller (.flushPost m (s.numThreadsWaitingForSemaphore m)))
  | .flushPost m n => (s.postSemaphore m n).goto t (.exit o caller (.flushWait m))
  -- the event resets itself; the loop does not ask whether it was set
  | .flushWait m => (s.setFlush m false).goto t (.exit o caller (.flushCheck m))
  | .returnOwner m => (s.setOwner m .returnedToFreeList).goto t (.exit o caller (.release m))
  | .release m => (s.releaseMonitor m).returnFromExit t o caller

/-! ### `PulseMonitor` -/

/-- `PulseMonitor`, after the check. -/
def pulseStep (s : State Tid Obj) (t : Tid) (o : Obj) (all : Bool) (loc : PulseLoc) :
    State Tid Obj :=
  match loc with
  | .pop m isFirst =>
    match s.threadsWaitingForPulse m with
    | [] => s.goto t (.idle .done)
    | n :: nodes => (s.setWaiting m nodes).goto t (.pulse o all (.signal m isFirst n))
  | .signal m isFirst n =>
    let s := (s.setEvent n true).setPulsed n true
    if isFirst && !all then s.goto t (.idle .done)
    else s.goto t (.pulse o all (.pop m false))

/-! ### `Monitor::TryWait` -/

/-- `Monitor::TryWait`, after the check and without its calls of `Exit` and `Enter`. -/
def waitStep (s : State Tid Obj) (t : Tid) (c : Choice) (o : Obj) (loc : WaitLoc) :
    Option (State Tid Obj) :=
  match loc with
  | .saveCount m timeout =>
    let v : WaitVars := ⟨m, timeout, s.recursiveLockingCount m, none⟩
    if timeout = 0 then
      some ((s.setCount m 1).goto t (.getMonitor o (.exit (some v)) .readMonitor))
    else
      some ((s.setCount m 1).goto t (.wait o (.allocateNode v)))
  | .allocateNode v =>
    let r := s.allocateNode c
    some ((r.2.setPulsed r.1 false).goto t (.wait o (.pushNode v r.1)))
  | .pushNode v n =>
    some ((s.setWaiting v.monitor (n :: s.threadsWaitingForPulse v.monitor)).goto t
      (.getMonitor o (.exit (some { v with waitNode := some n })) .readMonitor))
  | .eventWait v n =>
    match c with
    | .abort => some (s.goto t (.reenter o (v.afterWait n .failure (some .threadAbort))))
    | .interrupt => some (s.goto t (.reenter o (v.afterWait n .failure (some .interrupted))))
    | .proceed | .popFails | .timeout =>
      if s.signalWaitingThread n then
        some ((s.setEvent n false).goto t (.reenter o (v.afterWait n .success none)))
      else some (s.goto t (.wait o (.eventBlocked v n)))
  | .eventBlocked v n =>
    match c with
    | .abort => some (s.goto t (.reenter o (v.afterWait n .failure (some .threadAbort))))
    | .interrupt => some (s.goto t (.reenter o (v.afterWait n .failure (some .interrupted))))
    | .timeout =>
      if v.timeoutMilliseconds = infinite then none
      else some (s.goto t (.reenter o (v.afterWait n .timeout none)))
    | .proceed | .popFails =>
      if s.signalWaitingThread n then
        some ((s.setEvent n false).goto t (.reenter o (v.afterWait n .success none)))
      else none
  | .readMonitor v =>
    match s.monitor o with
    | none => some (s.goto t .crashed)
    | some m => some (s.goto t (.wait o (.restoreCount m v)))
  | .restoreCount m v =>
    match v.waitNode with
    | some n => some ((s.setCount m v.oldLockingCount).goto t (.wait o (.removeNode m v n)))
    | none => some ((s.setCount m v.oldLockingCount).goto t (.wait o (.leave m v)))
  | .removeNode m v n =>
    some ((s.setWaiting m ((s.threadsWaitingForPulse m).erase n)).goto t
      (.wait o (.resetNode m v n)))
  | .resetNode m v n => some ((s.setEvent n false).goto t (.wait o (.releaseNode m v n)))
  | .releaseNode m v n => some ((s.releaseNode n).goto t (.wait o (.leave m v)))
  | .leave _ v => some (s.goto t (.idle v.outcome))

/-! ### The system -/

/-- A client calls an operation. -/
def call (s : State Tid Obj) (t : Tid) : Op Obj → State Tid Obj
  | .tryEnter o timeOut => s.goto t (.enter ⟨o, .client timeOut⟩ .readMonitor)
  | .exit o => s.goto t (.getMonitor o (.exit none) .readMonitor)
  | .pulse o => s.goto t (.getMonitor o (.pulse false) .readMonitor)
  | .pulseAll o => s.goto t (.getMonitor o (.pulse true) .readMonitor)
  | .tryWait o timeout =>
    { s with
      countAtCall :=
        Function.update s.countAtCall t ((s.monitor o).elim 1 s.recursiveLockingCount) }.goto t
      (.getMonitor o (.tryWait timeout) .readMonitor)

/-- A thread takes a step in its call. -/
def runThread (s : State Tid Obj) (t : Tid) (c : Choice) : Option (State Tid Obj) :=
  match s.pc t with
  | .idle _ => none
  | .enter f loc => s.enterStep t c f loc
  | .getMonitor o purpose loc => some (s.getStep t o purpose loc)
  | .exit o caller loc => some (s.exitStep t o caller loc)
  | .pulse o all loc => some (s.pulseStep t o all loc)
  | .wait o loc => s.waitStep t c o loc
  | .crashed => none

/-- One step of the system. -/
def step (s : State Tid Obj) : Label Tid Obj → Option (State Tid Obj)
  | .call t op =>
    match s.pc t with
    | .idle _ => some (s.call t op)
    | _ => none
  | .run t c => s.runThread t c

end State

variable {Tid Obj : Type} [DecidableEq Tid] [DecidableEq Obj]

variable (Tid Obj) in
/-- The monitors as a transition system. -/
def lts : LTS (State Tid Obj) (Label Tid Obj) := LTS.ofFun State.step

/-- The steps of a thread that proceeds `n` times. -/
def proceed (t : Tid) (n : ℕ) : List (Label Tid Obj) := List.replicate n (.run t .proceed)

namespace State

omit [DecidableEq Tid] [DecidableEq Obj]

/-- The monitor of the object is `m`, and the thread owns it. -/
def Holds (s : State Tid Obj) (t : Tid) (o : Obj) (m : Block) : Prop :=
  s.monitor o = some m ∧ s.owningThreadId m = .thread t

end State

/-- In `TryWait` on the object, from the call of `Exit` until `Enter` has returned. -/
def PC.Suspended (o : Obj) : PC Obj → Prop
  | .enter ⟨o', .tryWait _⟩ _ => o' = o
  | .getMonitor o' (.exit (some _)) _ => o' = o
  | .exit o' (some _) _ => o' = o
  | .wait o' (.eventWait _ _) | .wait o' (.eventBlocked _ _) => o' = o
  | .idle _ | .enter ⟨_, .client _⟩ _ | .getMonitor _ (.exit none) _
  | .getMonitor _ (.pulse _) _ | .getMonitor _ (.tryWait _) _ | .exit _ none _ | .pulse _ _ _
  | .wait _ _ | .crashed => False

instance (o : Obj) (pc : PC Obj) : Decidable (pc.Suspended o) := by
  unfold PC.Suspended
  split <;> infer_instance

/-- **The thread is between a successful enter and the matching exit of the object**, and has not
given the lock up to wait for a pulse. -/
def State.InSection (s : State Tid Obj) (t : Tid) (o : Obj) : Prop :=
  0 < s.depth t o ∧ ¬ (s.pc t).Suspended o

instance (s : State Tid Obj) (t : Tid) (o : Obj) : Decidable (s.InSection t o) :=
  inferInstanceAs (Decidable (_ ∧ _))

end Monitor

end Il2Cpp
