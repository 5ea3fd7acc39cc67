import Il2Cpp.LTS.Basic

/-!
# The socket selector

`threadpool-ms-io.cpp` and its `poll` backend.  Threads hand jobs to the selector through an array of
updates; the selector thread keeps a list of jobs for each socket and a table of poll requests, and
gives a job to the thread pool when the socket is ready for it.

* `getJobForEvent`, `getOperationsForJobs` : the list of jobs of one socket.
* `pollRegisterFd`, `pollRemoveFd`, `readyOf` : the table of poll requests, without its first entry (the pipe
  that wakes the selector up: its callback only empties the pipe).
* `applyUpdates` : the selector applies the updates of a batch.
* `waitCallback` : what it does for a socket that is ready.
* `step` : the requests of the threads and the steps of the selector.  It holds `updates_lock` while
  it applies updates, and nobody else uses its tables, so both are single steps.
-/

namespace Il2Cpp

namespace IOSelector

/-- `EVENT_IN`, `EVENT_OUT`. -/
inductive Operation
  | eventIn | eventOut
  deriving DecidableEq

/-- `Il2CppIOSelectorJob`, which is one object for each operation that somebody waits for. -/
structure Job where
  /-- The object. -/
  id : ℕ
  operation : Operation
  deriving DecidableEq

/-- A set of operations. -/
structure Operations where
  hasIn : Bool
  hasOut : Bool
  deriving DecidableEq

/-- The `events` of a callback. -/
structure Events where
  hasIn : Bool
  hasOut : Bool
  hasErr : Bool
  deriving DecidableEq

/-- `PollFlags` in `revents`. -/
structure PollFlags where
  flagIn : Bool
  flagOut : Bool
  flagErr : Bool
  flagHup : Bool
  flagNVal : Bool
  deriving DecidableEq

/-- `revents` is not 0. -/
def PollFlags.any (r : PollFlags) : Bool :=
  r.flagIn || r.flagOut || r.flagErr || r.flagHup || r.flagNVal

/-- The events that `poll_event_wait` makes of `revents`. -/
def PollFlags.events (r : PollFlags) : Events where
  hasIn := r.flagIn || r.flagErr || r.flagHup || r.flagNVal
  hasOut := r.flagOut || r.flagErr || r.flagHup || r.flagNVal
  hasErr := r.flagErr || r.flagHup || r.flagNVal

/-! ### The jobs of a socket -/

/-- `get_job_for_event` : the first job for the event, if there is one, and the list without it. -/
def getJobForEvent (list : List Job) (event : Operation) : Option Job × List Job :=
  (list.find? (·.operation = event), list.eraseP (·.operation = event))

/-- `get_operations_for_jobs`. -/
def getOperationsForJobs (list : List Job) : Operations where
  hasIn := list.any (·.operation = .eventIn)
  hasOut := list.any (·.operation = .eventOut)

/-! ### The poll requests -/

/-- A poll request; the descriptor is -1 in a free entry. -/
structure PollRequest where
  fd : Option ℕ
  events : Operations
  deriving DecidableEq

/-- The first entry with a descriptor is replaced, if there is one. -/
def replaceFirst (fd : Option ℕ) (r : PollRequest) : List PollRequest → Option (List PollRequest)
  | [] => none
  | e :: es => if e.fd = fd then some (r :: es) else (replaceFirst fd r es).map (e :: ·)

/-- `poll_register_fd`. -/
def pollRegisterFd (pollFds : List PollRequest) (fd : ℕ) (events : Operations) :
    List PollRequest :=
  match replaceFirst (some fd) ⟨some fd, events⟩ pollFds with
  | some pollFds => pollFds
  | none =>
    match replaceFirst none ⟨some fd, events⟩ pollFds with
    | some pollFds => pollFds
    | none => pollFds ++ [⟨some fd, events⟩]

/-- `poll_remove_fd`. -/
def pollRemoveFd (pollFds : List PollRequest) (fd : ℕ) : List PollRequest :=
  ((replaceFirst (some fd) ⟨none, ⟨false, false⟩⟩ pollFds).getD pollFds).rdropWhile (·.fd = none)

/-- The loop of `poll_event_wait` : the sockets that are ready, with the events of their callbacks. -/
def readyOf (pollFds : List PollRequest) (revents : ℕ → PollFlags) : List (ℕ × Events) :=
  pollFds.filterMap fun r => do
    let fd ← r.fd
    if (revents fd).any then some (fd, (revents fd).events) else none

/-! ### Updates -/

/-- `ThreadPoolIOUpdate`. -/
inductive Update
  | empty
  | add (fd : ℕ) (job : Job)
  | removeSocket (fd : ℕ)
  | removeDomain (domain : ℕ)
  deriving DecidableEq

/-- `UPDATES_CAPACITY`. -/
def updatesCapacity : ℕ := 128

/-- What the selector thread works with. -/
structure Tables where
  /-- `states` -/
  states : ℕ → Option (List Job)
  pollFds : List PollRequest
  /-- The jobs given to the thread pool so far, each with the socket it was for. -/
  given : List (Option ℕ × Job)

/-- `UPDATE_ADD`. -/
def Tables.add (c : Tables) (fd : ℕ) (job : Job) : Tables :=
  let list := (c.states fd).getD [] ++ [job]
  { c with
    states := Function.update c.states fd (some list)
    pollFds := pollRegisterFd c.pollFds fd (getOperationsForJobs list) }

/-- `threadpool_ms_enqueue_work_item`, for the jobs of one socket. -/
def Tables.give (c : Tables) (fd : ℕ) (jobs : List Job) : Tables :=
  { c with given := c.given ++ jobs.map (some fd, ·) }

/-- The updates of a batch, with the current domain; `cleared` says that the `UPDATE_ADD` among them
have been zeroed by the removal of a domain.  The second component is what is left of the batch if
the process crashes. -/
def applyUpdates (current : ℕ) : Bool → List Update → Tables → Tables × Option (List Update)
  | _, [], c => (c, none)
  | cleared, .empty :: us, c => applyUpdates current cleared us c
  | cleared, .add fd job :: us, c =>
    applyUpdates current cleared us (if cleared then c else c.add fd job)
  | cleared, .removeSocket fd :: us, c =>
    match c.states fd with
    | none => applyUpdates current cleared us c
    | some _ =>
      -- `list` is still NULL when its size is read
      ({ c with states := Function.update c.states fd none },
        some (us.map fun u => match u with
          | .add fd' _ => if fd' = fd ∨ cleared then .empty else u
          | _ => u))
  | cleared, .removeDomain domain :: us, c =>
    applyUpdates current (cleared || current == domain) us c

/-- `wait_callback`, while the runtime is not shutting down.  The second component says that the
process crashes: the list of a socket that is not in `states` is NULL. -/
def waitCallback (c : Tables) (fd : ℕ) (events : Events) : Tables × Bool :=
  match c.states fd with
  | none =>
    if events.hasErr then ({ c with pollFds := pollRemoveFd c.pollFds fd }, false) else (c, true)
  | some list =>
    let (jobIn, list) := if events.hasIn then getJobForEvent list .eventIn else (none, list)
    let (jobOut, list) := if events.hasOut then getJobForEvent list .eventOut else (none, list)
    let c := c.give fd (jobIn.toList ++ jobOut.toList)
    if events.hasErr then
      ({ c with
        states := Function.update c.states fd none
        pollFds := pollRemoveFd c.pollFds fd }, false)
    else
      ({ c with
        states := Function.update c.states fd (some list)
        pollFds := pollRegisterFd c.pollFds fd (getOperationsForJobs list) }, false)

/-! ### The system -/

/-- Where the selector thread is. -/
inductive Phase
  /-- before its loop, or not created yet -/
  | starting
  /-- before the updates are applied -/
  | applying
  /-- before `poll` -/
  | polling
  /-- in `poll_event_wait`, with the sockets whose callbacks are left -/
  | dispatching (ready : List (ℕ × Events))
  | exited
  | crashed
  deriving DecidableEq

/-- A state of the system. -/
structure State where
  initialized : Bool
  shuttingDown : Bool
  updates : List Update
  phase : Phase
  tables : Tables
  /-- The jobs that were handed to the selector so far, each with its socket. -/
  handed : List (Option ℕ × Job)

/-- What happens. -/
inductive Label
  /-- `ves_icall_System_IOSelector_Add`, from the time the array has room; the socket of the handle
  may be NULL -/
  | add (socket : Option ℕ) (job : Job)
  /-- `threadpool_ms_io_remove_socket` -/
  | removeSocket (fd : ℕ)
  /-- a removal of a domain is requested; nothing in the runtime does this -/
  | removeDomain (domain : ℕ)
  /-- the selector thread starts -/
  | start
  | apply
  /-- `poll` returns -/
  | poll (revents : ℕ → PollFlags)
  /-- `poll` fails, not with `EINTR` or `EBADF` -/
  | pollFailed
  | callback
  /-- the end of the loop -/
  | loop
  | shutDown

/-- The system before the first request. -/
def initial : State where
  initialized := false
  shuttingDown := false
  updates := []
  phase := .starting
  tables := ⟨fun _ => none, [], []⟩
  handed := []

/-- The selector thread leaves its loop, and deletes `states`. -/
def State.exit (s : State) : State :=
  { s with phase := .exited, tables := { s.tables with states := fun _ => none } }

/-- A step of the system. -/
def step (current : ℕ) (s : State) : Label → Option State
  | .add socket job =>
    if s.shuttingDown then some s
    else if s.updates.length < updatesCapacity then
      some { s with
        initialized := true
        updates := s.updates ++ [match socket with
          | some fd => .add fd job
          | none => .empty]
        handed := s.handed ++ [(socket, job)] }
    else none
  | .removeSocket fd =>
    if !s.initialized then some s
    else if s.updates.length < updatesCapacity then
      some { s with updates := s.updates ++ [.removeSocket fd] }
    else none
  | .removeDomain domain =>
    if !s.initialized then some s
    else if s.updates.length < updatesCapacity then
      some { s with updates := s.updates ++ [.removeDomain domain] }
    else none
  | .start =>
    if s.phase = .starting ∧ s.initialized then
      if s.shuttingDown then some { s with phase := .exited } else some { s with phase := .applying }
    else none
  | .apply =>
    if s.phase = .applying then
      match applyUpdates current false s.updates s.tables with
      | (tables, none) => some { s with updates := [], tables, phase := .polling }
      | (tables, some updates) => some { s with updates, tables, phase := .crashed }
    else none
  | .poll revents =>
    if s.phase = .polling then
      some { s with phase := .dispatching (readyOf s.tables.pollFds revents) }
    else none
  | .pollFailed => if s.phase = .polling then some s.exit else none
  | .callback =>
    match s.phase with
    | .dispatching ((fd, events) :: ready) =>
      if s.shuttingDown then some { s with phase := .dispatching ready }
      else
        let (tables, crash) := waitCallback s.tables fd events
        some { s with tables, phase := if crash then .crashed else .dispatching ready }
    | _ => none
  | .loop =>
    if s.phase = .dispatching [] then
      if s.shuttingDown then some s.exit else some { s with phase := .applying }
    else none
  | .shutDown => some { s with shuttingDown := true }

/-- The transition system. -/
def lts (current : ℕ) : LTS State Label := .ofFun (step current)

end IOSelector

end Il2Cpp
