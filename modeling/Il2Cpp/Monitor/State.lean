import Mathlib

/-!
# Monitors: the shared memory and the threads

`vm/Monitor.cpp` implements `Monitor.Enter`, `Exit`, `Wait` and `Pulse` without a lock of its own.
An object that is locked points to a `MonitorData` block; blocks and the nodes of waiting threads
come from free lists and are never deleted, so a thread may hold a pointer to a block that was
deflated and is in use for another object.

The state is the shared memory, field by field, and for each thread the place it has reached in
the code with its local variables.  One step of a thread is one access to the shared memory; the
fields that only the owner of a block touches are read and written in one step, and a list of
waiting nodes, whose links only the owner follows, is changed in one step.

* `PC` : the places of the code, grouped by function.
* `State` : the shared memory, the threads, and a history (`depth`, `countAtCall`, `pulsed`) that
  no step reads.
-/

namespace Il2Cpp

namespace Monitor

/-- A `MonitorData` block. -/
abbrev Block := ℕ

/-- A `PulseWaitingListNode`. -/
abbrev Node := ℕ

/-- The values of `owningThreadId`. -/
inductive Owner (Tid : Type)
  /-- `kCanBeAcquiredByOtherThread` -/
  | canBeAcquired
  /-- `kHasBeenReturnedToFreeList` -/
  | returnedToFreeList
  | thread (t : Tid)
  deriving DecidableEq

/-- `WaitStatus`. -/
inductive WaitStatus
  | success | timeout | failure
  deriving DecidableEq

/-- The exceptions that leave the functions of `Monitor`. -/
inductive Exc
  /-- `Thread::NativeThreadAbortException` -/
  | threadAbort
  /-- any other exception of a user APC, such as `ThreadInterruptedException` -/
  | interrupted
  /-- `SynchronizationLockException` -/
  | synchronizationLock
  deriving DecidableEq

/-- How the last call of a thread ended. -/
inductive Outcome
  | done
  | returned (b : Bool)
  | raised (e : Exc)
  deriving DecidableEq

/-! ### Places in the code -/

/-- The variables of `TryWait` while it calls `Exit` and waits.  There is a node exactly when
`timeoutMilliseconds != 0`. -/
structure WaitVars where
  monitor : Block
  timeoutMilliseconds : BitVec 32
  oldLockingCount : BitVec 32
  waitNode : Option Node
  deriving DecidableEq

/-- The variables of `TryWait` from its call of `Enter` on. -/
structure ReentryVars where
  oldLockingCount : BitVec 32
  waitNode : Option Node
  pulseWaitStatus : WaitStatus
  exceptionThrownDuringWait : Option Exc
  deriving DecidableEq

/-- `std::numeric_limits<uint32_t>::max()`, the time-out of a wait without one. -/
def infinite : BitVec 32 := 0xffffffff

/-- Who called `TryEnter`: a client, with a time-out, or `TryWait`, through `Enter`. -/
inductive EnterCaller
  | client (timeOutMilliseconds : BitVec 32)
  | tryWait (v : ReentryVars)
  deriving DecidableEq

/-- The argument `timeOutMilliseconds` of `TryEnter`. -/
def EnterCaller.timeOutMilliseconds : EnterCaller → BitVec 32
  | client timeOut => timeOut
  | tryWait _ => infinite

/-- A call of `TryEnter`. -/
structure EnterFrame (Obj : Type) where
  obj : Obj
  caller : EnterCaller
  deriving DecidableEq

/-- Places in `Monitor::TryEnter`; `m` is `installedMonitor`, or the new block. -/
inductive EnterLoc
  /-- `ReadPointer(&obj->monitor)` -/
  | readMonitor
  /-- `s_FreeList.Allocate()` -/
  | allocate
  /-- `owningThreadId.exchange(currentThreadId)` -/
  | exchangeOwner (m : Block)
  /-- `CompareExchangePointer(&obj->monitor, ...)` -/
  | install (m : Block)
  /-- `owningThreadId = kHasBeenReturnedToFreeList`, after losing the race -/
  | returnOwner (m : Block)
  /-- `s_FreeList.Release(...)` -/
  | release (m : Block)
  /-- `installedMonitor->owningThreadId == currentThreadId` -/
  | checkOwner (m : Block)
  /-- `++installedMonitor->recursiveLockingCount` -/
  | incrementCount (m : Block)
  /-- the first `TryAcquire` -/
  | tryAcquire (m : Block)
  /-- `ReadPointer(&obj->monitor) != installedMonitor`, after it -/
  | recheck (m : Block)
  /-- `Unacquire()` -/
  | unacquire (m : Block)
  /-- `AddCurrentThreadToReadyList()` -/
  | addReady (m : Block)
  /-- `ReadPointer(&obj->monitor) != installedMonitor`, after it -/
  | recheckReady (m : Block)
  /-- `VacateDyingMonitor()` : `RemoveCurrentThreadFromReadyList()` -/
  | vacate (m : Block)
  /-- `VacateDyingMonitor()` : `flushAcknowledged.Set()` -/
  | acknowledge (m : Block)
  /-- `while (ReadPointer(&obj->monitor) == installedMonitor)` -/
  | loopCheck (m : Block)
  /-- `TryAcquire` in the loop -/
  | loopAcquire (m : Block)
  /-- `RemoveCurrentThreadFromReadyList()`, after it -/
  | loopRemove (m : Block)
  /-- `semaphore.Wait(...)`, before the thread looks at the count -/
  | semaphoreWait (m : Block)
  /-- the thread is blocked on the semaphore -/
  | semaphoreBlocked (m : Block)
  /-- `RemoveCurrentThreadFromReadyList()`, after a time-out -/
  | timeoutRemove (m : Block)
  /-- `ReadPointer(&obj->monitor) == installedMonitor`, by the last thread -/
  | timeoutCheck (m : Block)
  /-- `TryAcquire`, by the last thread -/
  | timeoutAcquire (m : Block)
  /-- `ReadPointer(&obj->monitor) != installedMonitor`, before it gives up -/
  | timeoutRecheck (m : Block)
  /-- `flushAcknowledged.Set()`, before it gives up -/
  | timeoutAcknowledge (m : Block)
  /-- `threadAborted = true` -/
  | abortMark (m : Block)
  /-- `RemoveCurrentThreadFromReadyList()`, after any other exception -/
  | unwind (m : Block)
  deriving DecidableEq

/-- The functions that begin with `GetMonitorAndThrowIfNotLockedByCurrentThread`. -/
inductive Purpose
  /-- `Exit`, called by a client or by `TryWait` -/
  | exit (caller : Option WaitVars)
  /-- `PulseMonitor` -/
  | pulse (all : Bool)
  | tryWait (timeoutMilliseconds : BitVec 32)
  deriving DecidableEq

/-- Places in `GetMonitorAndThrowIfNotLockedByCurrentThread`. -/
inductive GetLoc
  /-- `ReadPointer(&obj->monitor)` -/
  | readMonitor
  /-- `monitor->owningThreadId != currentThreadId` -/
  | loadOwner (m : Block)
  /-- `!monitor->threadAborted` -/
  | loadAborted (m : Block)
  deriving DecidableEq

/-- Places in `Monitor::Exit`. -/
inductive ExitLoc
  /-- `recursiveLockingCount` is read and, if it was more than one, written -/
  | undo (m : Block)
  /-- `numThreadsWaitingForSemaphore != 0` -/
  | checkReady (m : Block)
  /-- `Unacquire()`, with threads ready -/
  | unacquireReady (m : Block)
  /-- `semaphore.Post()` -/
  | post (m : Block)
  /-- `threadsWaitingForPulse` -/
  | checkWaiting (m : Block)
  /-- `Unacquire()`, with threads waiting for a pulse -/
  | unacquireWaiting (m : Block)
  /-- `numThreadsWaitingForSemaphore != 0`, checked again -/
  | recheckReady (m : Block)
  /-- `ExchangePointer(&obj->monitor, NULL)` -/
  | deflate (m : Block)
  /-- `flushAcknowledged.Reset()` -/
  | resetFlush (m : Block)
  /-- `while (numThreadsWaitingForSemaphore != 0)` -/
  | flushCheck (m : Block)
  /-- the argument of `Post` is read -/
  | flushRead (m : Block)
  /-- `semaphore.Post(n)` -/
  | flushPost (m : Block) (n : ℕ)
  /-- `flushAcknowledged.Wait(1, false)` -/
  | flushWait (m : Block)
  /-- `owningThreadId = kHasBeenReturnedToFreeList` -/
  | returnOwner (m : Block)
  /-- `s_FreeList.Release(monitor)` -/
  | release (m : Block)
  deriving DecidableEq

/-- Places in `PulseMonitor`. -/
inductive PulseLoc
  /-- `PopNextFromPulseWaitingList()` -/
  | pop (m : Block) (isFirst : Bool)
  /-- `waitNode->signalWaitingThread.Set()` -/
  | signal (m : Block) (isFirst : Bool) (n : Node)
  deriving DecidableEq

/-- Places in `Monitor::TryWait`, but for its calls of `Exit` and `Enter`. -/
inductive WaitLoc
  /-- `oldLockingCount = recursiveLockingCount; recursiveLockingCount = 1` -/
  | saveCount (m : Block) (timeoutMilliseconds : BitVec 32)
  /-- `PulseWaitingListNode::Allocate()` -/
  | allocateNode (v : WaitVars)
  /-- `PushOntoPulseWaitingList(waitNode)` -/
  | pushNode (v : WaitVars) (n : Node)
  /-- `signalWaitingThread.Wait(...)`, before the thread looks at the event -/
  | eventWait (v : WaitVars) (n : Node)
  /-- the thread is blocked on the event -/
  | eventBlocked (v : WaitVars) (n : Node)
  /-- `monitor = object->monitor` -/
  | readMonitor (v : ReentryVars)
  /-- `recursiveLockingCount = oldLockingCount` -/
  | restoreCount (m : Block) (v : ReentryVars)
  /-- `RemoveFromPulseWaitingList(waitNode)` -/
  | removeNode (m : Block) (v : ReentryVars) (n : Node)
  /-- `Release()` : `signalWaitingThread.Reset()` -/
  | resetNode (m : Block) (v : ReentryVars) (n : Node)
  /-- `Release()` : `s_FreeList.Release(this)` -/
  | releaseNode (m : Block) (v : ReentryVars) (n : Node)
  /-- the exception is thrown again, or the function returns -/
  | leave (m : Block) (v : ReentryVars)
  deriving DecidableEq

/-- The place a thread has reached. -/
inductive PC (Obj : Type)
  /-- between two calls -/
  | idle (last : Outcome)
  | enter (f : EnterFrame Obj) (loc : EnterLoc)
  | getMonitor (o : Obj) (purpose : Purpose) (loc : GetLoc)
  | exit (o : Obj) (caller : Option WaitVars) (loc : ExitLoc)
  | pulse (o : Obj) (all : Bool) (loc : PulseLoc)
  | wait (o : Obj) (loc : WaitLoc)
  /-- `object->monitor` was NULL in `TryWait` after `Enter` -/
  | crashed
  deriving DecidableEq

/-! ### States -/

/-- The shared memory and the threads. -/
structure State (Tid Obj : Type) where
  /-- `obj->monitor` -/
  monitor : Obj → Option Block
  owningThreadId : Block → Owner Tid
  threadAborted : Block → Bool
  recursiveLockingCount : Block → BitVec 32
  /-- the count of the semaphore -/
  semaphore : Block → ℕ
  numThreadsWaitingForSemaphore : Block → ℕ
  flushAcknowledged : Block → Bool
  threadsWaitingForPulse : Block → List Node
  signalWaitingThread : Node → Bool
  /-- `MonitorData::s_FreeList` -/
  freeMonitors : List Block
  /-- the blocks from here on have not been created yet -/
  newMonitor : Block
  /-- `PulseWaitingListNode::s_FreeList` -/
  freeNodes : List Node
  /-- the nodes from here on have not been created yet -/
  newNode : Node
  pc : Tid → PC Obj
  /-- history: how often the thread has entered the object and not yet begun to exit it -/
  depth : Tid → Obj → ℕ
  /-- history: the recursion count when the thread called `TryWait` -/
  countAtCall : Tid → BitVec 32
  /-- history: the node has been signaled since it was allocated -/
  pulsed : Node → Bool

/-- No object is locked and no thread has called anything. -/
def State.init (Tid Obj : Type) : State Tid Obj where
  monitor _ := none
  owningThreadId _ := .returnedToFreeList
  threadAborted _ := false
  recursiveLockingCount _ := 1
  semaphore _ := 0
  numThreadsWaitingForSemaphore _ := 0
  flushAcknowledged _ := false
  threadsWaitingForPulse _ := []
  signalWaitingThread _ := false
  freeMonitors := []
  newMonitor := 0
  freeNodes := []
  newNode := 0
  pc _ := .idle .done
  depth _ _ := 0
  countAtCall _ := 1
  pulsed _ := false

end Monitor

end Il2Cpp
