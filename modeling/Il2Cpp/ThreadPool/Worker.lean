import Il2Cpp.LTS.Basic

/-!
# The workers of the thread pool

The functions of `ThreadPoolWorkerThread.cpp`, and those of `threadpool-ms.cpp` and of the monitor
thread that read or write the counters, as steps of the threads that run them.

* `ThreadPoolCounter` : the four counts that are packed in one word.  They are `int16_t`, so every
  result is reduced (`toInt16`).
* `Block` : the updates; `COUNTER_ATOMIC` reads the word, checks, and stores the new word if the
  word has not changed, else it starts again.
* `PC` : where a thread is.  A list entry is one activity: a worker, or one call of
  `worker_request`, of the monitor or of the hill climbing by any thread.
* `runPC`, `step` : a step of an activity, and of the system.

Waiting for `parked_threads_cond` ends by a notification or by the time-out.  Which waiting thread a
notification wakes is not followed: any waiting thread may be woken at any time.
-/

namespace Il2Cpp

namespace ThreadPool

/-- The value of an `int16_t` that is assigned an integer. -/
def toInt16 (n : ℤ) : ℤ := n.bmod (2 ^ 16)

/-- `ThreadPoolCounter`. -/
structure ThreadPoolCounter where
  /-- Determined by heuristic. -/
  maxWorking : ℤ
  /-- Executing `worker_thread`. -/
  active : ℤ
  /-- Actively executing `worker_thread`, not parked. -/
  working : ℤ
  /-- Parked. -/
  parked : ℤ
  deriving DecidableEq

/-- The blocks of `COUNTER_ATOMIC`. -/
inductive Block
  /-- `worker_try_create` counts the worker that it is going to create -/
  | reserve
  /-- creating the native thread failed -/
  | undo
  /-- `WorkerThreadParkStateHolder` -/
  | park
  /-- `~WorkerThreadParkStateHolder`, after `worker_park` returned `timeout` -/
  | unpark (timeout : Bool)
  /-- `~WorkerThreadStateHolder` -/
  | leave
  /-- the monitor thread raises `max_working` -/
  | raise
  /-- `heuristic_adjust` sets `max_working` -/
  | adjust (newThreadCount : ℤ)
  deriving DecidableEq

/-- The new counts. -/
def Block.update (c : ThreadPoolCounter) : Block → ThreadPoolCounter
  | reserve => { c with working := toInt16 (c.working + 1), active := toInt16 (c.active + 1) }
  | undo | leave => { c with working := toInt16 (c.working - 1), active := toInt16 (c.active - 1) }
  | park => { c with working := toInt16 (c.working - 1), parked := toInt16 (c.parked + 1) }
  | unpark _ => { c with working := toInt16 (c.working + 1), parked := toInt16 (c.parked - 1) }
  | raise => { c with maxWorking := toInt16 (c.maxWorking + 1) }
  | adjust newThreadCount => { c with maxWorking := toInt16 newThreadCount }

/-- How far a thread is in `COUNTER_ATOMIC`. -/
inductive Atomic
  /-- before `COUNTER_READ` -/
  | read
  /-- before the condition of the block, if it has one; `__old` is read -/
  | check (old : ThreadPoolCounter)
  /-- before `CompareExchange64` -/
  | exchange (old : ThreadPoolCounter)
  deriving DecidableEq

/-- Where an activity is. -/
inductive PC
  /-- `worker_request` and the monitor thread, before `worker_try_unpark` -/
  | tryUnpark
  /-- `worker_try_create`, before it has `worker_creation_lock` -/
  | tryCreate
  /-- `worker_try_create`, before `Thread::CreateInternal` -/
  | createInternal
  | counterAtomic (block : Block) (at' : Atomic)
  /-- `worker_thread`, before it has `domains_lock` -/
  | start
  /-- `worker_thread`, at the head of its loop -/
  | loop (retire : Bool)
  /-- `worker_thread`, in the callback -/
  | job
  /-- `worker_park`, before it has `active_threads_lock` -/
  | parkLock
  /-- `worker_park`, in `TimedWait` -/
  | timedWait
  | done
  deriving DecidableEq

/-- The shared data. -/
structure Pool where
  counters : ThreadPoolCounter
  /-- `outstanding_request`, of all domains together. -/
  outstandingRequest : ℕ
  parkedThreadsCount : ℕ
  workerCreationCurrentSecond : ℤ
  workerCreationCurrentCount : ℕ
  /-- Whether `worker_creation_lock` is held. -/
  workerCreationLock : Bool
  limitWorkerMin : ℤ
  limitWorkerMax : ℤ
  processorCount : ℤ
  /-- `GetTicks100NanosecondsMonotonic`. -/
  ticks : ℤ
  shuttingDown : Bool
  deriving DecidableEq

/-- A state of the system. -/
structure State where
  pool : Pool
  threads : List PC
  deriving DecidableEq

/-- How a choice that the shared data does not determine turns out. -/
inductive Choice
  /-- the thread is created; the callback returns true; the wait times out -/
  | yes
  /-- the thread is not created; the callback returns false; the wait is notified -/
  | no
  /-- the callback throws -/
  | throw
  deriving DecidableEq

/-- `WORKER_CREATION_MAX_PER_SEC`. -/
def workerCreationMaxPerSec : ℕ := 10

/-- The data of the pool after `worker_try_create` has looked at the rate of creation, and whether
it goes on. -/
def Pool.checkRate (g : Pool) : Pool × Bool :=
  let now := g.ticks / (10 * 1000 * 1000)
  if g.ticks ≠ 0 then
    if g.workerCreationCurrentSecond ≠ now then
      ({ g with workerCreationCurrentSecond := now, workerCreationCurrentCount := 0 }, true)
    else (g, g.workerCreationCurrentCount ≠ workerCreationMaxPerSec)
  else (g, true)

/-- Whether a block returns without an update: in `reserve` the maximum number of workers are
running, in `raise` the limit is reached. -/
def Block.stops (g : Pool) (old : ThreadPoolCounter) : Block → Bool
  | reserve => old.working ≥ old.maxWorking
  | raise => old.maxWorking ≥ g.limitWorkerMax
  | _ => false

/-- Where the thread goes on after an update. -/
def Block.next : Block → PC
  | reserve => .createInternal
  | park => .parkLock
  | unpark true => .counterAtomic .leave .read
  | unpark false => .loop false
  | undo | leave | raise | adjust _ => .done

/-- What is left to do where a block returns or is done: `worker_try_create` releases its lock. -/
def Block.unlock (g : Pool) : Block → Pool
  | reserve | undo => { g with workerCreationLock := false }
  | _ => g

/-- One step of an activity: the shared data, where it is then, and a thread that it created. -/
def runPC (g : Pool) (c : Choice) : PC → Option (Pool × PC × List PC)
  | .tryUnpark =>
    if g.parkedThreadsCount = 0 then some (g, .tryCreate, []) else some (g, .done, [])
  | .tryCreate =>
    if g.workerCreationLock then none
    else
      match g.checkRate with
      | (g, true) =>
        some ({ g with workerCreationLock := true }, .counterAtomic .reserve .read, [])
      | (g, false) => some (g, .done, [])
  | .counterAtomic b .read => some (g, .counterAtomic b (.check g.counters), [])
  | .counterAtomic b (.check old) =>
    if b.stops g old then some (b.unlock g, .done, [])
    else some (g, .counterAtomic b (.exchange old), [])
  | .counterAtomic b (.exchange old) =>
    if g.counters = old then
      let g := { g with counters := b.update old }
      some (if b = .undo then b.unlock g else g, b.next, [])
    else some (g, .counterAtomic b .read, [])
  | .createInternal =>
    match c with
    | .yes =>
      some ({ g with
        workerCreationCurrentCount := g.workerCreationCurrentCount + 1
        workerCreationLock := false }, .done, [.start])
    | .no => some (g, .counterAtomic .undo .read, [])
    | .throw => none
  | .start => some (g, .loop false, [])
  | .loop retire =>
    if g.shuttingDown then some (g, .counterAtomic .leave .read, [])
    else if retire || g.outstandingRequest = 0 then some (g, .counterAtomic .park .read, [])
    else some ({ g with outstandingRequest := g.outstandingRequest - 1 }, .job, [])
  | .job =>
    match c with
    | .yes => some (g, .loop false, [])
    | .no => some (g, .loop true, [])
    | .throw => some (g, .counterAtomic .leave .read, [])
  | .parkLock =>
    if g.shuttingDown then some (g, .counterAtomic (.unpark false) .read, [])
    else some ({ g with parkedThreadsCount := g.parkedThreadsCount + 1 }, .timedWait, [])
  | .timedWait =>
    match c with
    | .yes =>
      some ({ g with parkedThreadsCount := g.parkedThreadsCount - 1 },
        .counterAtomic (.unpark true) .read, [])
    | .no =>
      some ({ g with parkedThreadsCount := g.parkedThreadsCount - 1 },
        .counterAtomic (.unpark false) .read, [])
    | .throw => none
  | .done => none

/-- What happens in the system. -/
inductive Label
  /-- an activity takes a step -/
  | run (i : ℕ) (c : Choice)
  /-- `worker_request` is called -/
  | request
  /-- the monitor thread looks for a worker -/
  | monitor
  /-- the monitor thread finds that the workers starve -/
  | starve
  /-- `heuristic_adjust` is going to set `max_working` to what the hill climbing returned -/
  | climb (newThreadCount : ℤ)
  | setMinThreads (workerThreads : ℤ)
  | setMaxThreads (workerThreads : ℤ)
  | tick (ticks : ℕ)
  | shutDown
  deriving DecidableEq

/-- A step of the system. -/
def step (s : State) : Label → Option State
  | .run i c => do
    let pc ← s.threads[i]?
    let (pool, pc, new) ← runPC s.pool c pc
    some ⟨pool, s.threads.set i pc ++ new⟩
  | .request =>
    if s.pool.shuttingDown then none
    else some ⟨{ s.pool with outstandingRequest := s.pool.outstandingRequest + 1 },
      s.threads ++ [.tryUnpark]⟩
  | .monitor => some { s with threads := s.threads ++ [.tryUnpark] }
  | .starve => some { s with threads := s.threads ++ [.counterAtomic .raise .read] }
  | .climb newThreadCount =>
    -- the result is clamped to the limits, or the count that it was given
    if s.pool.limitWorkerMin ≤ newThreadCount ∧ newThreadCount ≤ s.pool.limitWorkerMax ∨
        newThreadCount = s.pool.counters.maxWorking then
      some { s with threads := s.threads ++ [.counterAtomic (.adjust newThreadCount) .read] }
    else none
  | .setMinThreads workerThreads =>
    if workerThreads ≤ 0 ∨ workerThreads > s.pool.limitWorkerMax then some s
    else some { s with pool := { s.pool with limitWorkerMin := workerThreads } }
  | .setMaxThreads workerThreads =>
    if workerThreads < s.pool.limitWorkerMin ∨ workerThreads < s.pool.processorCount then some s
    else some { s with pool := { s.pool with limitWorkerMax := workerThreads } }
  | .tick ticks => some { s with pool := { s.pool with ticks := s.pool.ticks + ticks } }
  | .shutDown => some { s with pool := { s.pool with shuttingDown := true } }

/-- The pool after `initialize`, with a number of processors. -/
def init (processorCount : ℤ) : State where
  pool :=
    { counters := ⟨toInt16 processorCount, 0, 0, 0⟩
      outstandingRequest := 0
      parkedThreadsCount := 0
      workerCreationCurrentSecond := -1
      workerCreationCurrentCount := 0
      workerCreationLock := false
      limitWorkerMin := processorCount
      limitWorkerMax := processorCount * 100
      processorCount := processorCount
      ticks := 0
      shuttingDown := false }
  threads := []

/-- The transition system of the thread pool. -/
def lts : LTS State Label := .ofFun step

end ThreadPool

end Il2Cpp
