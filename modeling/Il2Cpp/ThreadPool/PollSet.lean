import Il2Cpp.Socket.Select
import Il2Cpp.ThreadPool.IOSelector

/-!
# The poll set

`threadpool-ms-io-poll.cpp` keeps the descriptors of the selector in an array of poll requests: an
entry that is not in use has the descriptor -1, the last one in use ends the array, and the vector
behind it grows by doubling.

* `pollRegisterFd`, `pollRemoveFd`, `eventWait` : the functions; none stands for an assertion that
  fails, or a callback that crashes.
* `MapStep` : the same on a map from descriptors to events.
* `Refines` : the array has one entry for each registered descriptor, with its events.
* `pollSet_refines` : every sequence of calls is one on the map.  The wakeup descriptor stays as
  long as it is not removed.
-/

namespace Il2Cpp

namespace PollSet

open Select (PollFlags PollRequest kPollFlagsNone kPollFlagsIn kPollFlagsOut kPollFlagsErr
  kPollFlagsHup kPollFlagsNVal)

/-! ### Descriptors -/

/-- `EVENT_IN`. -/
def eventIn : UInt32 := 1

/-- `EVENT_OUT`. -/
def eventOut : UInt32 := 2

/-- `EVENT_ERR`. -/
def eventErr : UInt32 := 4

/-- `poll_fds`, `poll_fds_capacity` and `poll_fds_size`. -/
structure PollFds where
  pollFds : List PollRequest
  capacity : ℕ
  size : ℕ

/-- The entries that the loops go over. -/
def PollFds.entries (s : PollFds) : List PollRequest := s.pollFds.take s.size

/-- The first entry with a descriptor. -/
def PollFds.findSlot (s : PollFds) (fd : ℤ) : Option ℕ := s.entries.findIdx? (·.fd = fd)

/-- `POLL_INIT_FD`. -/
def initFd (fd : ℤ) (events : PollFlags) : PollRequest := ⟨fd, events, kPollFlagsNone⟩

/-- `PollRequest(-1)`. -/
def free : PollRequest := initFd (-1) kPollFlagsNone

@[simp] theorem initFd_fd (fd : ℤ) (events : PollFlags) : (initFd fd events).fd = fd := rfl

@[simp] theorem free_fd : free.fd = -1 := rfl

def PollFds.store (s : PollFds) (i : ℕ) (request : PollRequest) : PollFds :=
  { s with pollFds := s.pollFds.set i request }

/-- `poll_init`. -/
def pollInit (wakeupPipeFd : ℤ) : PollFds :=
  ⟨(List.replicate 64 free).set 0 (initFd wakeupPipeFd kPollFlagsIn), 64, 1⟩

/-- `poll_event`. -/
def pollEvent (events : UInt32) : PollFlags :=
  (if events &&& eventIn ≠ 0 then kPollFlagsIn else kPollFlagsNone) |||
    (if events &&& eventOut ≠ 0 then kPollFlagsOut else kPollFlagsNone)

/-- `poll_fds->resize(n, PollRequest(-1))`. -/
def resize (pollFds : List PollRequest) (n : ℕ) : List PollRequest :=
  pollFds.take n ++ List.replicate (n - pollFds.length) free

/-- `poll_register_fd`. -/
def pollRegisterFd (s : PollFds) (fd : ℤ) (events : UInt32) (isNew : Bool) : Option PollFds :=
  if 0 ≤ fd ∧ s.size ≤ s.capacity ∧ events &&& ~~~(eventIn ||| eventOut) = 0 then
    match s.findSlot fd with
    | some i => if isNew then none else some (s.store i (initFd fd (pollEvent events)))
    | none =>
      if isNew then
        match s.findSlot (-1) with
        | some i => some (s.store i (initFd fd (pollEvent events)))
        | none =>
          if s.size + 1 > s.capacity then
            let capacity := s.capacity * 2 % 2 ^ 32
            if s.size + 1 ≤ capacity then
              some (PollFds.store ⟨resize s.pollFds capacity, capacity, s.size + 1⟩ s.size
                (initFd fd (pollEvent events)))
            else none
          else some (PollFds.store { s with size := s.size + 1 } s.size
            (initFd fd (pollEvent events)))
      else none
  else none

/-- The loop that reduces `poll_fds_size`. -/
def shrink (pollFds : List PollRequest) : ℕ → ℕ
  | n + 2 => if (pollFds[n + 1]?.map (·.fd)) = some (-1) then shrink pollFds (n + 1) else n + 2
  | n => n

/-- `poll_remove_fd`. -/
def pollRemoveFd (s : PollFds) (fd : ℤ) : Option PollFds :=
  if 0 ≤ fd then
    match s.findSlot fd with
    | none => none
    | some i =>
      let s := s.store i free
      if (s.entries.drop i).all (·.fd ≠ fd) then
        some { s with size := shrink s.pollFds s.size }
      else none
  else none

/-! ### Waiting -/

/-- The errors with which `poll` fails.  Interrupted calls are made again. -/
inductive Errno
  | ebadf | efault | einval | enomem

/-- `SocketErrnoToErrorCode`. -/
def socketErrnoToErrorCode : Errno → ℕ
  | .ebadf => 10038
  | .efault => 10014
  | .einval => 10022
  | .enomem => 10055

def kInterrupted : ℕ := 4
def kInvalidHandle : ℕ := 9

/-- The outcome of `poll`: it fails, or the descriptors have these conditions. -/
inductive Outcome
  | failed (errno : Errno)
  | done (conditions : ℤ → PollFlags)

/-- The outcomes in one call of `poll_event_wait`: for all descriptors, and for each alone. -/
structure Outcomes where
  all : Outcome
  alone : ℤ → Outcome

/-- What the system reports for a request. -/
def reported (conditions : ℤ → PollFlags) (request : PollRequest) : PollFlags :=
  Select.reported (fun _ => conditions request.fd) 0 request

/-- `Socket::Poll`: the count and the requests with their `revents`, or an error. -/
def socketPoll (linux : Bool) (outcome : Outcome) (requests : List PollRequest) :
    Except ℕ (ℕ × List PollRequest) :=
  match outcome with
  | .failed errno => .error (socketErrnoToErrorCode errno)
  | .done conditions =>
    let ret := requests.countP (reported conditions · != 0)
    if ret = 0 then .ok (ret, requests)
    else
      .ok (ret, requests.map fun request =>
        { request with
          revents := Select.withoutErr linux request.events (reported conditions request) })

/-- The body of the loop of `poll_mark_bad_fds`, and whether it counts the request.  The request
that is polled is a copy. -/
def markBadFd (linux : Bool) (outcome : ℤ → Outcome) (request : PollRequest) :
    PollRequest × Bool :=
  if request.fd = -1 then (request, false)
  else
    match socketPoll linux (outcome request.fd) [request] with
    | .error error =>
      if error = kInvalidHandle then
        ({ request with revents := request.revents ||| kPollFlagsNVal }, true)
      else (request, false)
    | .ok (result, _) => (request, 0 < result)

/-- `poll_mark_bad_fds`. -/
def pollMarkBadFds (linux : Bool) (outcome : ℤ → Outcome) (requests : List PollRequest) :
    ℕ × List PollRequest :=
  let marked := requests.map (markBadFd linux outcome)
  (marked.countP Prod.snd, marked.map Prod.fst)

/-- The first part of `poll_event_wait`: `ready` and the requests, with no `ready` if it is -1. -/
def polled (linux : Bool) (outcomes : Outcomes) (requests : List PollRequest) :
    Option ℕ × List PollRequest :=
  let requests := requests.map fun request => { request with revents := kPollFlagsNone }
  match socketPoll linux outcomes.all requests with
  | .ok (ready, requests) => (some ready, requests)
  | .error error =>
    if error = kInterrupted then (some 0, requests)
    else if error = kInvalidHandle then
      let (ready, requests) := pollMarkBadFds linux outcomes.alone requests
      (some ready, requests)
    else (none, requests)

/-- The `events` for a callback. -/
def eventsOf (revents : PollFlags) : UInt32 :=
  (if revents &&& (kPollFlagsIn ||| kPollFlagsErr ||| kPollFlagsHup ||| kPollFlagsNVal) ≠ 0 then
    eventIn else 0) |||
  (if revents &&& (kPollFlagsOut ||| kPollFlagsErr ||| kPollFlagsHup ||| kPollFlagsNVal) ≠ 0 then
    eventOut else 0) |||
  (if revents &&& (kPollFlagsErr ||| kPollFlagsHup ||| kPollFlagsNVal) ≠ 0 then eventErr else 0)

/-- What a callback does with its descriptor. -/
inductive Action
  | keep
  /-- `poll_register_fd(fd, events, false)` -/
  | register (events : UInt32)
  | remove

/-- A callback with its `user_data`; none when it crashes. -/
abbrev Callback (S : Type*) := ℤ → UInt32 → S → Option (S × Action)

/-- The call that a callback makes. -/
def act (s : PollFds) (fd : ℤ) : Action → Option PollFds
  | .keep => some s
  | .register events => pollRegisterFd s fd events false
  | .remove => pollRemoveFd s fd

section

variable {S : Type*} (callback : Callback S)

/-- The loop of `poll_event_wait` over the entries from `i` on, with the callbacks that are made.
The array does not grow meanwhile, so that it ends there after as many rounds as it had entries. -/
def walk : ℕ → ℕ → ℕ → PollFds → S → Option (List (ℤ × UInt32) × PollFds × S)
  | 0, _, _, s, userData => some ([], s, userData)
  | n + 1, i, ready, s, userData =>
    match s.entries[i]? with
    | none => some ([], s, userData)
    | some request =>
      if request.fd = -1 ∨ request.revents = 0 then walk n (i + 1) ready s userData
      else
        let events := eventsOf request.revents
        match callback request.fd events userData with
        | none => none
        | some (userData, action) =>
          match act s request.fd action with
          | none => none
          | some s =>
            if ready - 1 = 0 then some ([(request.fd, events)], s, userData)
            else
              (walk n (i + 1) (ready - 1) s userData).map fun (called, rest) =>
                ((request.fd, events) :: called, rest)

/-- `poll_event_wait`: the result, and the callbacks that are made. -/
def eventWait (linux : Bool) (outcomes : Outcomes) (s : PollFds) (userData : S) :
    Option ((ℤ × List (ℤ × UInt32)) × PollFds × S) :=
  let (ready, requests) := polled linux outcomes s.entries
  let s : PollFds := { s with pollFds := requests ++ s.pollFds.drop s.size }
  match ready with
  | none => some ((-1, []), s, userData)
  | some ready =>
    if ready = 0 then some ((0, []), s, userData)
    else (walk callback s.size 0 ready s userData).map fun (called, rest) => ((0, called), rest)

/-! ### Sequences of calls -/

inductive Call
  | register (fd : ℤ) (events : UInt32) (isNew : Bool)
  | remove (fd : ℤ)
  | wait (outcomes : Outcomes)

/-- What a call shows. -/
inductive Output
  | done
  | waited (result : ℤ) (called : List (ℤ × UInt32))

/-- One call. -/
def step (linux : Bool) (x : PollFds × S) : Call → Option (Output × PollFds × S)
  | .register fd events isNew =>
    (pollRegisterFd x.1 fd events isNew).map fun s => (.done, s, x.2)
  | .remove fd => (pollRemoveFd x.1 fd).map fun s => (.done, s, x.2)
  | .wait outcomes =>
    (eventWait callback linux outcomes x.1 x.2).map fun (output, x) =>
      (.waited output.1 output.2, x)

/-- The calls one after the other. -/
def run (linux : Bool) (x : PollFds × S) : List Call → Option (List Output × PollFds × S)
  | [] => some ([], x)
  | call :: calls =>
    match step callback linux x call with
    | none => none
    | some (output, x) => (run linux x calls).map fun (outputs, x) => (output :: outputs, x)

end

/-! ### The map -/

/-- The registered descriptors, with their events. -/
abbrev Registered := ℤ → Option UInt32

/-- The result of `poll` for a descriptor: 0 if it is not registered, or if `poll` fails. -/
def result (linux : Bool) (outcome : Outcome) (m : Registered) (fd : ℤ) : PollFlags :=
  match outcome, m fd with
  | .done conditions, some events =>
    Select.withoutErr linux (pollEvent events)
      (reported conditions (initFd fd (pollEvent events)))
  | _, _ => kPollFlagsNone

/-- What `poll_event_wait` returns. -/
def returned : Outcome → ℤ
  | .failed _ => -1
  | .done _ => 0

/-- The call of a callback, on the map. -/
def mapAct (m : Registered) (fd : ℤ) : Action → Registered
  | .keep => m
  | .register events => Function.update m fd (some events)
  | .remove => Function.update m fd none

section

variable {S : Type*} (callback : Callback S)

/-- The callbacks one after the other. -/
def callEach : List (ℤ × UInt32) → Registered × S → Option (Registered × S)
  | [], x => some x
  | (fd, events) :: called, (m, userData) =>
    match callback fd events userData with
    | none => none
    | some (userData, action) => callEach called (mapAct m fd action, userData)

/-- A call on the map.  A wait calls back once for each descriptor with a result. -/
inductive MapStep (linux : Bool) : Registered × S → Call → Output → Registered × S → Prop
  | register {m : Registered} {userData : S} {fd : ℤ} {events : UInt32} {isNew : Bool}
      (hfd : 0 ≤ fd) (hnew : (m fd).isSome = !isNew) :
      MapStep linux (m, userData) (.register fd events isNew) .done
        (Function.update m fd (some events), userData)
  | remove {m : Registered} {userData : S} {fd : ℤ} (hfd : 0 ≤ fd) (hsome : (m fd).isSome) :
      MapStep linux (m, userData) (.remove fd) .done (Function.update m fd none, userData)
  | wait {m : Registered} {userData : S} {outcomes : Outcomes} {called : List ℤ}
      {x : Registered × S} (hnodup : called.Nodup)
      (hcalled : ∀ fd, fd ∈ called ↔ result linux outcomes.all m fd ≠ 0)
      (heach : callEach callback
        (called.map fun fd => (fd, eventsOf (result linux outcomes.all m fd))) (m, userData) =
          some x) :
      MapStep linux (m, userData) (.wait outcomes)
        (.waited (returned outcomes.all)
          (called.map fun fd => (fd, eventsOf (result linux outcomes.all m fd)))) x

/-- Calls on the map, one after the other. -/
inductive MapRun (linux : Bool) : Registered × S → List Call → List Output → Registered × S → Prop
  | nil {x : Registered × S} : MapRun linux x [] [] x
  | cons {x y z : Registered × S} {call : Call} {calls : List Call} {output : Output}
      {outputs : List Output} (hstep : MapStep callback linux x call output y)
      (hrun : MapRun linux y calls outputs z) :
      MapRun linux x (call :: calls) (output :: outputs) z

end

/-- After `poll_init` the wakeup descriptor is registered. -/
def initial (wakeupPipeFd : ℤ) : Registered :=
  Function.update (fun _ => none) wakeupPipeFd (some eventIn)

/-- The events in the entries of a descriptor. -/
def requestsOf (requests : List PollRequest) (fd : ℤ) : List PollFlags :=
  (requests.filter (·.fd = fd)).map (·.events)

/-- One entry for each registered descriptor, with its events, and no others but free ones. -/
def Holds (requests : List PollRequest) (m : Registered) : Prop :=
  (∀ fd ≠ -1, requestsOf requests fd = (m fd).toList.map pollEvent) ∧
    ∀ request ∈ requests, request.fd = -1 ∨ (m request.fd).isSome

/-- The array has the entries for the map, and is inside of the vector. -/
structure Refines (s : PollFds) (m : Registered) : Prop where
  length : s.pollFds.length = s.capacity
  size_le : s.size ≤ s.capacity
  unused : m (-1) = none
  holds : Holds s.entries m

/-! ### The entries of a descriptor -/

theorem requestsOf_append (l₁ l₂ : List PollRequest) (fd : ℤ) :
    requestsOf (l₁ ++ l₂) fd = requestsOf l₁ fd ++ requestsOf l₂ fd := by
  rw [requestsOf, List.filter_append, List.map_append]
  rfl

theorem requestsOf_cons (e : PollRequest) (l : List PollRequest) (fd : ℤ) :
    requestsOf (e :: l) fd = (if e.fd = fd then [e.events] else []) ++ requestsOf l fd := by
  rw [requestsOf, List.filter_cons]
  by_cases h : e.fd = fd <;> simp [h, requestsOf]

theorem requestsOf_eq_nil_iff {l : List PollRequest} {fd : ℤ} :
    requestsOf l fd = [] ↔ ∀ e ∈ l, e.fd ≠ fd := by
  rw [requestsOf, List.map_eq_nil_iff, List.filter_eq_nil_iff]
  simp

theorem mem_requestsOf {l : List PollRequest} {e : PollRequest} (he : e ∈ l) :
    e.events ∈ requestsOf l e.fd :=
  List.mem_map_of_mem (List.mem_filter.2 ⟨he, by simp⟩)

namespace Holds

variable {l l₁ l₂ : List PollRequest} {e : PollRequest} {m : Registered} {fd : ℤ} {events : UInt32}

theorem fd_ne (h : Holds (l₁ ++ e :: l₂) m) (he : e.fd ≠ -1) : ∀ r ∈ l₁ ++ l₂, r.fd ≠ e.fd := by
  rw [← requestsOf_eq_nil_iff, requestsOf_append]
  have hlength := congrArg List.length (h.1 e.fd he)
  rw [requestsOf_append, requestsOf_cons, if_pos rfl] at hlength
  simp only [List.length_append, List.length_singleton, List.length_map] at hlength
  have hle : (m e.fd).toList.length ≤ 1 := by cases m e.fd <;> simp
  rw [List.eq_nil_of_length_eq_zero (l := requestsOf l₁ e.fd) (by omega),
    List.eq_nil_of_length_eq_zero (l := requestsOf l₂ e.fd) (by omega)]
  rfl

theorem eq_none (h : Holds l m) (hfd : fd ≠ -1) (hne : ∀ e ∈ l, e.fd ≠ fd) : m fd = none := by
  have hnil := h.1 fd hfd
  rw [requestsOf_eq_nil_iff.2 hne, eq_comm, List.map_eq_nil_iff] at hnil
  exact Option.toList_eq_nil_iff.1 hnil

theorem isSome (h : Holds l m) (he : e ∈ l) (hfd : e.fd ≠ -1) : (m e.fd).isSome :=
  (h.2 e he).resolve_left hfd

theorem events_eq (h : Holds l m) (he : e ∈ l) (hfd : e.fd ≠ -1) :
    m e.fd = some events → e.events = pollEvent events := by
  intro hm
  have hmem := mem_requestsOf he
  rw [h.1 e.fd hfd, hm] at hmem
  exact List.mem_singleton.1 hmem

theorem erase (h : Holds (l₁ ++ e :: l₂) m) :
    Holds (l₁ ++ l₂) (Function.update m e.fd none) := by
  refine ⟨fun fd hfd => ?_, fun r hr => ?_⟩
  · rcases eq_or_ne fd e.fd with rfl | hne
    · rw [Function.update_self]
      exact requestsOf_eq_nil_iff.2 (h.fd_ne hfd)
    · rw [Function.update_of_ne hne, ← h.1 fd hfd, requestsOf_append, requestsOf_append,
        requestsOf_cons, if_neg hne.symm, List.nil_append]
  · refine or_iff_not_imp_left.2 fun hr' => ?_
    have hmem : r ∈ l₁ ++ e :: l₂ := by
      rw [List.mem_append, List.mem_cons]
      exact (List.mem_append.1 hr).imp_right .inr
    rcases eq_or_ne e.fd (-1) with he | he
    · rw [he, Function.update_of_ne hr']
      exact h.isSome hmem hr'
    · rw [Function.update_of_ne (h.fd_ne he r hr)]
      exact h.isSome hmem hr'

theorem insert (h : Holds (l₁ ++ l₂) m) (hm : m fd = none) (events : UInt32) :
    Holds (l₁ ++ initFd fd (pollEvent events) :: l₂) (Function.update m fd (some events)) := by
  refine ⟨fun fd' hfd' => ?_, fun r hr => ?_⟩
  · have heq := h.1 fd' hfd'
    rw [requestsOf_append] at heq
    rw [requestsOf_append, requestsOf_cons]
    rcases eq_or_ne fd' fd with rfl | hne
    · rw [hm, Option.toList_none, List.map_nil, List.append_eq_nil_iff] at heq
      rw [heq.1, heq.2, initFd_fd, if_pos rfl, Function.update_self]
      rfl
    · rw [initFd_fd, if_neg hne.symm, List.nil_append, heq, Function.update_of_ne hne]
  · rcases eq_or_ne r.fd fd with heq | hne
    · rw [heq, Function.update_self]
      exact .inr rfl
    · rw [Function.update_of_ne hne]
      rw [List.mem_append, List.mem_cons] at hr
      rcases hr with hr | rfl | hr
      · exact h.2 r (List.mem_append_left _ hr)
      · exact absurd rfl hne
      · exact h.2 r (List.mem_append_right _ hr)

theorem insert_free (h : Holds (l₁ ++ l₂) m) : Holds (l₁ ++ free :: l₂) m := by
  refine ⟨fun fd hfd => ?_, fun r hr => ?_⟩
  · rw [← h.1 fd hfd, requestsOf_append, requestsOf_append, requestsOf_cons, free_fd,
      if_neg hfd.symm, List.nil_append]
  · rw [List.mem_append, List.mem_cons] at hr
    rcases hr with hr | rfl | hr
    · exact h.2 r (List.mem_append_left _ hr)
    · exact .inl rfl
    · exact h.2 r (List.mem_append_right _ hr)

theorem erase_free (h : Holds (l₁ ++ e :: l₂) m) (hunused : m (-1) = none) (he : e.fd = -1) :
    Holds (l₁ ++ l₂) m := by
  have herase := h.erase
  rwa [he, Function.update_eq_self_iff.2 hunused.symm] at herase

end Holds

/-! ### Slots -/

namespace PollFds

variable {s : PollFds} {fd : ℤ} {i : ℕ} {request : PollRequest}

theorem findSlot_eq_some (h : s.findSlot fd = some i) :
    ∃ l₁ e l₂, s.entries = l₁ ++ e :: l₂ ∧ l₁.length = i ∧ e.fd = fd ∧ i < s.size ∧
      ∀ request, (s.store i request).entries = l₁ ++ request :: l₂ := by
  obtain ⟨hlt, hfd, -⟩ := List.findIdx?_eq_some_iff_getElem.1 h
  refine ⟨s.entries.take i, s.entries[i], s.entries.drop (i + 1), ?_, ?_, of_decide_eq_true hfd, ?_,
    fun request => ?_⟩
  · rw [← List.drop_eq_getElem_cons hlt, List.take_append_drop]
  · exact List.length_take_of_le hlt.le
  · exact (List.length_take_le _ _).trans_lt' hlt
  · change ((s.pollFds.set i request).take s.size) = _
    rw [List.take_set]
    exact (List.set_eq_take_append_cons_drop ..).trans (if_pos hlt)

theorem findSlot_eq_none (h : s.findSlot fd = none) : ∀ e ∈ s.entries, e.fd ≠ fd := by
  simpa using List.findIdx?_eq_none_iff.1 h

end PollFds

section

variable {m : Registered} {pollFds : List PollRequest} {n k : ℕ}

theorem shrink_le (pollFds : List PollRequest) (n : ℕ) : shrink pollFds n ≤ n := by
  fun_induction shrink pollFds n with
  | case1 n hlast ih => omega
  | case2 | case3 => exact le_rfl

theorem exists_take_shrink (pollFds : List PollRequest) (n : ℕ) :
    ∃ l, pollFds.take n = pollFds.take (shrink pollFds n) ++ l ∧ ∀ e ∈ l, e.fd = -1 := by
  fun_induction shrink pollFds n with
  | case1 n hlast ih =>
    obtain ⟨l, hl, hfree⟩ := ih
    obtain ⟨e, he, hfd⟩ := Option.map_eq_some_iff.1 hlast
    refine ⟨l ++ [e], ?_, fun r hr => ?_⟩
    · rw [List.take_add_one, hl, he, List.append_assoc]
      rfl
    · rcases List.mem_append.1 hr with hr | hr
      · exact hfree r hr
      · rwa [List.mem_singleton.1 hr]
  | case2 | case3 => exact ⟨[], (List.append_nil _).symm, nofun⟩

theorem Holds.take_shrink (h : Holds (pollFds.take n) m) (hunused : m (-1) = none) :
    Holds (pollFds.take (shrink pollFds n)) m := by
  obtain ⟨l, hl, hfree⟩ := exists_take_shrink pollFds n
  rw [hl] at h
  clear hl
  induction l with
  | nil => rwa [List.append_nil] at h
  | cons e l ih =>
    rw [List.forall_mem_cons] at hfree
    exact ih (h.erase_free hunused hfree.1) hfree.2

/-- The entries that `poll_event_wait` calls back for. -/
def live (requests : List PollRequest) : List PollRequest :=
  requests.filter fun request => request.fd ≠ -1 ∧ request.revents ≠ 0

theorem live_drop_take_shrink (pollFds : List PollRequest) (n k : ℕ) :
    live ((pollFds.take (shrink pollFds n)).drop k) = live ((pollFds.take n).drop k) := by
  obtain ⟨l, hl, hfree⟩ := exists_take_shrink pollFds n
  have hnil : live (l.drop (k - (pollFds.take (shrink pollFds n)).length)) = [] := by
    refine List.filter_eq_nil_iff.2 fun e he => ?_
    simp [hfree e (List.mem_of_mem_drop he)]
  rw [hl, List.drop_append, live, live, List.filter_append, ← live, ← live, hnil, List.append_nil]

end

/-! ### The functions and the map -/

section

variable {s s' : PollFds} {m : Registered} {fd : ℤ} {events : UInt32} {isNew : Bool} {i : ℕ}
  {request : PollRequest}

theorem Refines.size_le_length (h : Refines s m) : s.size ≤ s.pollFds.length :=
  h.size_le.trans h.length.ge

theorem Refines.store {m' : Registered} (h : Refines s m) (hunused : m' (-1) = none)
    (hholds : Holds (s.store i request).entries m') : Refines (s.store i request) m' where
  length := by
    change (s.pollFds.set i request).length = s.capacity
    rw [List.length_set, h.length]
  size_le := h.size_le
  unused := hunused
  holds := hholds

theorem Refines.push (pollFds : List PollRequest) (h : Refines s m) (hm : m fd = none)
    (hunused : Function.update m fd (some events) (-1) = none)
    (htake : pollFds.take s.size = s.entries) (hsize : s.size < pollFds.length) :
    Refines (PollFds.store ⟨pollFds, pollFds.length, s.size + 1⟩ s.size
      (initFd fd (pollEvent events))) (Function.update m fd (some events)) where
  length := List.length_set
  size_le := hsize
  unused := hunused
  holds := by
    have hentries : (PollFds.store ⟨pollFds, pollFds.length, s.size + 1⟩ s.size
        (initFd fd (pollEvent events))).entries = s.entries ++ [initFd fd (pollEvent events)] := by
      change (pollFds.set s.size _).take (s.size + 1) = _
      rw [List.take_add_one, List.take_set_of_le le_rfl, htake, List.getElem?_set_self hsize]
      rfl
    have hholds := h.holds
    rw [← List.append_nil s.entries] at hholds
    rw [hentries]
    exact hholds.insert hm events

theorem Refines.register (h : Refines s m) (hs : pollRegisterFd s fd events isNew = some s') :
    0 ≤ fd ∧ (m fd).isSome = !isNew ∧ Refines s' (Function.update m fd (some events)) := by
  rw [pollRegisterFd, Option.ite_none_right_eq_some] at hs
  obtain ⟨⟨hfd, -, -⟩, hs⟩ := hs
  have hne : fd ≠ -1 := by omega
  have hunused : Function.update m fd (some events) (-1) = none := by
    rw [Function.update_of_ne hne.symm, h.unused]
  refine ⟨hfd, ?_⟩
  cases hslot : s.findSlot fd with
  | some i =>
    rw [hslot] at hs
    cases isNew with
    | true => cases hs
    | false =>
      obtain ⟨l₁, e, l₂, hentries, -, rfl, -, hstore⟩ := PollFds.findSlot_eq_some hslot
      have hholds := h.holds
      rw [hentries] at hholds
      cases hs
      refine ⟨hholds.isSome (by simp) hne, h.store hunused ?_⟩
      have hinsert := hholds.erase.insert (Function.update_self ..) events
      rw [Function.update_idem] at hinsert
      rwa [hstore]
  | none =>
    have hnone : m fd = none := h.holds.eq_none hne (PollFds.findSlot_eq_none hslot)
    rw [hslot] at hs
    cases isNew with
    | false => cases hs
    | true =>
      refine ⟨by rw [hnone]; rfl, ?_⟩
      dsimp only at hs
      rw [if_pos rfl] at hs
      cases hfree : s.findSlot (-1) with
      | some i =>
        obtain ⟨l₁, e, l₂, hentries, -, he, -, hstore⟩ := PollFds.findSlot_eq_some hfree
        have hholds := h.holds
        rw [hentries] at hholds
        rw [hfree] at hs
        cases hs
        refine h.store hunused ?_
        rw [hstore]
        exact (hholds.erase_free h.unused he).insert hnone events
      | none =>
        rw [hfree] at hs
        dsimp only at hs
        split_ifs at hs with hfull hcapacity
        · -- the vector has doubled
          have hlength : (resize s.pollFds (s.capacity * 2 % 2 ^ 32)).length =
              s.capacity * 2 % 2 ^ 32 := by
            rw [resize, List.length_append, List.length_take, List.length_replicate]
            omega
          have hpush := h.push (resize s.pollFds (s.capacity * 2 % 2 ^ 32)) hnone hunused ?_
            (by omega)
          · rw [hlength] at hpush
            cases hs
            exact hpush
          · have := h.size_le_length
            rw [resize, List.take_append_of_le_length (by rw [List.length_take]; omega),
              List.take_take, min_eq_left (by omega), PollFds.entries]
        · have hpush := h.push s.pollFds hnone hunused rfl (by rw [h.length]; omega)
          rw [h.length] at hpush
          cases hs
          exact hpush

theorem Refines.remove (h : Refines s m) (hs : pollRemoveFd s fd = some s') :
    0 ≤ fd ∧ (m fd).isSome ∧ Refines s' (Function.update m fd none) := by
  rw [pollRemoveFd, Option.ite_none_right_eq_some] at hs
  obtain ⟨hfd, hs⟩ := hs
  have hne : fd ≠ -1 := by omega
  refine ⟨hfd, ?_⟩
  cases hslot : s.findSlot fd with
  | none => rw [hslot] at hs; cases hs
  | some i =>
    obtain ⟨l₁, e, l₂, hentries, -, rfl, -, hstore⟩ := PollFds.findSlot_eq_some hslot
    have hholds := h.holds
    rw [hentries] at hholds
    rw [hslot] at hs
    dsimp only at hs
    rw [Option.ite_none_right_eq_some] at hs
    have hunused : Function.update m e.fd none (-1) = none := by
      rw [Function.update_of_ne hne.symm, h.unused]
    have hstored : Refines (s.store i free) (Function.update m e.fd none) :=
      h.store hunused (by rw [hstore]; exact hholds.erase.insert_free)
    cases hs.2
    exact ⟨hholds.isSome (by simp) hne, hstored.length, (shrink_le _ _).trans hstored.size_le,
      hunused, hstored.holds.take_shrink hunused⟩

theorem Refines.findSlot_eq (h : Refines s m) (hi : s.entries[i]? = some request)
    (hfd : request.fd ≠ -1) : s.findSlot request.fd = some i := by
  cases hslot : s.findSlot request.fd with
  | none =>
    exact absurd rfl (PollFds.findSlot_eq_none hslot request (List.mem_of_getElem? hi))
  | some j =>
    obtain ⟨l₁, e, l₂, hentries, hlength, he, -⟩ := PollFds.findSlot_eq_some hslot
    have hholds := h.holds
    rw [hentries] at hholds hi
    have hne := hholds.fd_ne (by rwa [he])
    rcases Nat.lt_trichotomy i j with hlt | rfl | hlt
    · rw [List.getElem?_append_left (by omega)] at hi
      exact absurd he.symm (hne _ (List.mem_append_left _ (List.mem_of_getElem? hi)))
    · rfl
    · rw [List.getElem?_append_right (by omega), List.getElem?_cons, if_neg (by omega)] at hi
      exact absurd he.symm (hne _ (List.mem_append_right _ (List.mem_of_getElem? hi)))

theorem PollFds.entries_store_drop (s : PollFds) (i : ℕ) (request : PollRequest) :
    (s.store i request).entries.drop (i + 1) = s.entries.drop (i + 1) := by
  change ((s.pollFds.set i request).take s.size).drop (i + 1) = _
  rw [List.take_set, List.drop_set_of_lt (Nat.lt_succ_self i)]
  rfl

/-- What a callback does with its descriptor changes the map for this descriptor, and leaves the
entries behind it. -/
theorem Refines.act {action : Action} (h : Refines s m) (hi : s.entries[i]? = some request)
    (hfd : request.fd ≠ -1) (hs : act s request.fd action = some s') :
    Refines s' (mapAct m request.fd action) ∧ s'.size ≤ s.size ∧
      live (s'.entries.drop (i + 1)) = live (s.entries.drop (i + 1)) := by
  cases action with
  | keep =>
    cases hs
    exact ⟨h, le_rfl, rfl⟩
  | register events =>
    refine ⟨(h.register hs).2.2, ?_⟩
    rw [PollSet.act, pollRegisterFd, Option.ite_none_right_eq_some, h.findSlot_eq hi hfd] at hs
    cases hs.2
    exact ⟨le_rfl, by rw [PollFds.entries_store_drop]⟩
  | remove =>
    refine ⟨(h.remove hs).2.2, ?_⟩
    rw [PollSet.act, pollRemoveFd, Option.ite_none_right_eq_some, h.findSlot_eq hi hfd] at hs
    have hs := hs.2
    dsimp only at hs
    rw [Option.ite_none_right_eq_some] at hs
    cases hs.2
    refine ⟨shrink_le _ _, ?_⟩
    rw [← PollFds.entries_store_drop s i free]
    exact live_drop_take_shrink (s.store i free).pollFds s.size (i + 1)

end

/-! ### Waiting, on the array and on the map -/

section

variable {S : Type*} {callback : Callback S} {linux : Bool} {s s' : PollFds} {m : Registered}
  {userData userData' : S} {called : List (ℤ × UInt32)}

theorem live_cons (request : PollRequest) (requests : List PollRequest) :
    live (request :: requests) =
      if request.fd = -1 ∨ request.revents = 0 then live requests
      else request :: live requests := by
  rw [live, List.filter_cons]
  by_cases h : request.fd = -1 ∨ request.revents = 0
  · rw [if_pos h, if_neg (by simpa [← or_iff_not_imp_left] using h)]
    rfl
  · rw [if_neg h, if_pos (by simpa [not_or] using h)]
    rfl

theorem walk_spec {n i ready : ℕ} (h : Refines s m) (hn : s.size ≤ i + n)
    (hready : (live (s.entries.drop i)).length ≤ ready)
    (hwalk : walk callback n i ready s userData = some (called, s', userData')) :
    called = (live (s.entries.drop i)).map (fun r => (r.fd, eventsOf r.revents)) ∧
      ∃ m', callEach callback called (m, userData) = some (m', userData') ∧ Refines s' m' := by
  have hend {i : ℕ} {s : PollFds} (h : s.entries[i]? = none) : live (s.entries.drop i) = [] := by
    rw [List.drop_eq_nil_of_le (List.getElem?_eq_none_iff.1 h)]
    rfl
  induction n generalizing i ready s m userData called with
  | zero =>
    cases hwalk
    rw [hend (i := i) (List.getElem?_eq_none_iff.2 ((List.length_take_le _ _).trans hn))]
    exact ⟨rfl, m, rfl, h⟩
  | succ n ih =>
    rw [walk] at hwalk
    cases hi : s.entries[i]? with
    | none =>
      rw [hi] at hwalk
      cases hwalk
      rw [hend hi]
      exact ⟨rfl, m, rfl, h⟩
    | some request =>
      rw [hi] at hwalk
      have hdrop : s.entries.drop i = request :: s.entries.drop (i + 1) := by
        obtain ⟨hlt, rfl⟩ := List.getElem?_eq_some_iff.1 hi
        exact List.drop_eq_getElem_cons hlt
      rw [hdrop, live_cons] at hready ⊢
      dsimp only at hwalk
      by_cases hskip : request.fd = -1 ∨ request.revents = 0
      · rw [if_pos hskip] at hwalk hready ⊢
        exact ih h (by omega) hready hwalk
      · rw [if_neg hskip] at hwalk hready ⊢
        obtain ⟨hfd, hrevents⟩ := not_or.1 hskip
        cases hcallback : callback request.fd (eventsOf request.revents) userData with
        | none => simp [hcallback] at hwalk
        | some result =>
          obtain ⟨userData₁, action⟩ := result
          rw [hcallback] at hwalk
          dsimp only at hwalk
          cases hact : act s request.fd action with
          | none => simp [hact] at hwalk
          | some s₁ =>
            obtain ⟨h₁, hsize, hlive⟩ := h.act hi hfd hact
            rw [hact] at hwalk
            rw [List.length_cons] at hready
            rw [List.map_cons, ← hlive]
            rw [← hlive] at hready
            dsimp only at hwalk
            split_ifs at hwalk with hlast
            · cases hwalk
              rw [List.eq_nil_of_length_eq_zero (l := live _) (by omega)]
              exact ⟨rfl, _, by rw [callEach, hcallback]; rfl, h₁⟩
            · obtain ⟨⟨called, s₂, userData₂⟩, hrest, heq⟩ := Option.map_eq_some_iff.1 hwalk
              cases heq
              obtain ⟨rfl, m', heach, h'⟩ := ih h₁ (by omega) (by omega) hrest
              exact ⟨rfl, m', by rw [callEach, hcallback]; exact heach, h'⟩

theorem withoutErr_none (events : PollFlags) : Select.withoutErr linux events 0 = 0 := by
  cases linux <;> rfl

/-- The requests after `poll`. -/
def answered (linux : Bool) (conditions : ℤ → PollFlags) (request : PollRequest) : PollRequest :=
  { request with
    revents := Select.withoutErr linux request.events (reported conditions request) }

theorem polled_done {outcomes : Outcomes} {conditions : ℤ → PollFlags}
    (houtcome : outcomes.all = .done conditions) (requests : List PollRequest) :
    polled linux outcomes requests =
      (some (requests.countP (reported conditions · != 0)),
        requests.map (answered linux conditions)) := by
  have hcount (requests : List PollRequest) :
      (requests.map fun r => { r with revents := kPollFlagsNone }).countP
        (reported conditions · != 0) = requests.countP (reported conditions · != 0) :=
    List.countP_map
  rw [polled, houtcome]
  dsimp only [socketPoll]
  rw [hcount]
  split_ifs with hnone
  · -- nothing is reported
    refine Prod.ext rfl (List.map_congr_left fun r hr => ?_)
    have hreported : reported conditions r = 0 := by
      simpa using List.countP_eq_zero.1 hnone r hr
    rw [answered, hreported, withoutErr_none]
    rfl
  · refine Prod.ext rfl ?_
    rw [List.map_map]
    rfl

theorem polled_failed {outcomes : Outcomes} {errno : Errno}
    (houtcome : outcomes.all = .failed errno) (requests : List PollRequest) :
    polled linux outcomes requests =
      (none, requests.map fun r => { r with revents := kPollFlagsNone }) := by
  rw [polled, houtcome]
  -- the error codes are not those of `errno`
  cases errno <;> rfl

theorem Holds.map {l : List PollRequest} {f : PollRequest → PollRequest} (h : Holds l m)
    (hf : ∀ r, (f r).fd = r.fd ∧ (f r).events = r.events) : Holds (l.map f) m := by
  refine ⟨fun fd hfd => ?_, fun r hr => ?_⟩
  · rw [← h.1 fd hfd, requestsOf, requestsOf, List.filter_map, List.map_map]
    simp only [Function.comp_def, hf]
  · obtain ⟨r', hr', rfl⟩ := List.mem_map.1 hr
    rw [(hf r').1]
    exact h.2 r' hr'

theorem Refines.replace {requests : List PollRequest} (h : Refines s m)
    (hlength : requests.length = s.entries.length) (hholds : Holds requests m) :
    ({ s with pollFds := requests ++ s.pollFds.drop s.size } : PollFds).entries = requests ∧
      Refines { s with pollFds := requests ++ s.pollFds.drop s.size } m := by
  have hsize : requests.length = s.size :=
    hlength.trans (List.length_take_of_le h.size_le_length)
  have hentries : (requests ++ s.pollFds.drop s.size).take s.size = requests :=
    List.take_left' hsize
  refine ⟨hentries, ?_, h.size_le, h.unused, ?_⟩
  · rw [← h.length, List.length_append, List.length_drop, hsize]
    have := h.size_le_length
    omega
  · rw [PollFds.entries, hentries]
    exact hholds

theorem result_of_none {outcome : Outcome} {fd : ℤ} (hm : m fd = none) :
    result linux outcome m fd = 0 := by
  cases outcome <;> simp only [result, hm] <;> rfl

theorem result_of_some {conditions : ℤ → PollFlags} {fd : ℤ} {events : UInt32}
    (hm : m fd = some events) : result linux (.done conditions) m fd =
      Select.withoutErr linux (pollEvent events)
        (reported conditions (initFd fd (pollEvent events))) := by
  simp only [result, hm]

theorem Holds.revents_eq {l : List PollRequest} {conditions : ℤ → PollFlags} (h : Holds l m)
    {r : PollRequest} (hr : r ∈ l) (hfd : r.fd ≠ -1) :
    (answered linux conditions r).revents = result linux (.done conditions) m r.fd := by
  obtain ⟨events, hm⟩ := Option.isSome_iff_exists.1 (h.isSome hr hfd)
  have hevents := h.events_eq hr hfd hm
  rw [result_of_some hm, answered, ← hevents]
  rfl

theorem mem_live {l : List PollRequest} {r : PollRequest} :
    r ∈ live l ↔ r ∈ l ∧ r.fd ≠ -1 ∧ r.revents ≠ 0 := by
  rw [live, List.mem_filter, decide_eq_true_iff]

theorem Holds.nodup_live {l : List PollRequest} (h : Holds l m) :
    ((live l).map (·.fd)).Nodup := by
  refine List.nodup_iff_count_le_one.2 fun fd => ?_
  rcases eq_or_ne fd (-1) with rfl | hfd
  · refine (List.count_eq_zero.2 fun hmem => ?_).trans_le (Nat.zero_le 1)
    obtain ⟨r, hr, heq⟩ := List.mem_map.1 hmem
    exact (mem_live.1 hr).2.1 heq
  · have hlength := congrArg List.length (h.1 fd hfd)
    rw [requestsOf, List.length_map, List.length_map, ← List.countP_eq_length_filter] at hlength
    have hle : (m fd).toList.length ≤ 1 := by cases m fd <;> simp
    calc ((live l).map (·.fd)).count fd = (live l).countP (·.fd = fd) := by
          rw [List.count, List.countP_map]
          rfl
      _ ≤ l.countP (·.fd = fd) := List.filter_sublist.countP_le
      _ ≤ 1 := hlength.trans_le hle

theorem Holds.mem_live_iff {l : List PollRequest} (h : Holds l m) (hunused : m (-1) = none)
    (linux : Bool) (conditions : ℤ → PollFlags) (fd : ℤ) :
    fd ∈ (live (l.map (answered linux conditions))).map (·.fd) ↔
      result linux (.done conditions) m fd ≠ 0 := by
  simp only [List.mem_map, mem_live]
  constructor
  · rintro ⟨_, ⟨⟨r, hr, rfl⟩, hfd, hrevents⟩, rfl⟩
    rwa [h.revents_eq hr hfd] at hrevents
  · intro hresult
    cases hm : m fd with
    | none => exact absurd (result_of_none hm) hresult
    | some events =>
      have hfd : fd ≠ -1 := by
        rintro rfl
        rw [hm] at hunused
        cases hunused
      obtain ⟨r, hr, rfl⟩ : ∃ r ∈ l, r.fd = fd := by
        by_contra hnone
        have := h.eq_none hfd fun e he heq => hnone ⟨e, he, heq⟩
        rw [hm] at this
        cases this
      exact ⟨_, ⟨⟨r, hr, rfl⟩, hfd, by rwa [h.revents_eq hr hfd]⟩, rfl⟩

theorem length_live_le (linux : Bool) (l : List PollRequest) (conditions : ℤ → PollFlags) :
    (live (l.map (answered linux conditions))).length ≤
      l.countP (reported conditions · != 0) := by
  rw [live, ← List.countP_eq_length_filter, List.countP_map]
  refine List.countP_mono_left fun r _ hr => ?_
  have hrevents : (answered linux conditions r).revents ≠ 0 := (of_decide_eq_true hr).2
  refine bne_iff_ne.2 fun hreported => hrevents ?_
  rw [answered, hreported, withoutErr_none]

theorem Holds.called_eq {l : List PollRequest} {conditions : ℤ → PollFlags} (h : Holds l m) :
    (live (l.map (answered linux conditions))).map (fun r => (r.fd, eventsOf r.revents)) =
      ((live (l.map (answered linux conditions))).map (·.fd)).map
        fun fd => (fd, eventsOf (result linux (.done conditions) m fd)) := by
  rw [List.map_map]
  refine List.map_congr_left fun r hr => ?_
  obtain ⟨hmem, hfd, -⟩ := mem_live.1 hr
  obtain ⟨r', hr', rfl⟩ := List.mem_map.1 hmem
  rw [h.revents_eq hr' hfd]
  rfl

theorem Refines.wait {outcomes : Outcomes} {output : ℤ × List (ℤ × UInt32)} (h : Refines s m)
    (hs : eventWait callback linux outcomes s userData = some (output, s', userData')) :
    ∃ m', MapStep callback linux (m, userData) (.wait outcomes) (.waited output.1 output.2)
      (m', userData') ∧ Refines s' m' := by
  rw [eventWait] at hs
  cases houtcome : outcomes.all with
  | failed errno =>
    rw [polled_failed houtcome] at hs
    cases hs
    have hcleared := h.holds.map (f := fun r => { r with revents := kPollFlagsNone })
      fun r => ⟨rfl, rfl⟩
    refine ⟨m, ?_, (h.replace (by rw [List.length_map]) hcleared).2⟩
    have hcalled (fd : ℤ) : fd ∈ [] ↔ result linux outcomes.all m fd ≠ 0 := by
      rw [houtcome]
      exact iff_of_false nofun (not_not.2 rfl)
    have heach : callEach callback [] (m, userData) = some (m, userData) := rfl
    have hstep := MapStep.wait List.nodup_nil hcalled heach
    rwa [houtcome] at hstep
  | done conditions =>
    have hholds := h.holds.map (f := answered linux conditions) fun r => ⟨rfl, rfl⟩
    obtain ⟨hentries, hpolled⟩ := h.replace (by rw [List.length_map]) hholds
    have hready := length_live_le linux s.entries conditions
    have hstep {x : Registered × S}
        (heach : callEach callback
          ((live (s.entries.map (answered linux conditions))).map
            fun r => (r.fd, eventsOf r.revents)) (m, userData) = some x) :
        MapStep callback linux (m, userData) (.wait outcomes)
          (.waited 0 ((live (s.entries.map (answered linux conditions))).map
            fun r => (r.fd, eventsOf r.revents))) x := by
      rw [h.holds.called_eq, ← houtcome] at heach ⊢
      have hcalled := h.holds.mem_live_iff h.unused linux conditions
      rw [← houtcome] at hcalled
      have hwait := MapStep.wait hholds.nodup_live hcalled heach
      rwa [show returned outcomes.all = 0 by rw [houtcome]; rfl] at hwait
    rw [polled_done houtcome] at hs
    dsimp only at hs
    split_ifs at hs with hzero
    · cases hs
      rw [hzero] at hready
      have hnil := List.eq_nil_of_length_eq_zero (Nat.le_zero.1 hready)
      rw [hnil] at hstep
      exact ⟨m, hstep rfl, hpolled⟩
    · obtain ⟨⟨called, s₁, userData₁⟩, hwalk, heq⟩ := Option.map_eq_some_iff.1 hs
      cases heq
      obtain ⟨rfl, m', heach, h'⟩ := walk_spec hpolled (i := 0) (by simp)
        (by rw [hentries]; exact hready) hwalk
      rw [hentries] at heach ⊢
      exact ⟨m', hstep heach, h'⟩

/-! ### Sequences of calls, on the array and on the map -/

theorem Refines.step {call : Call} {output : Output} (h : Refines s m)
    (hs : step callback linux (s, userData) call = some (output, s', userData')) :
    ∃ m', MapStep callback linux (m, userData) call output (m', userData') ∧ Refines s' m' := by
  cases call with
  | register fd events isNew =>
    obtain ⟨s₁, hregister, heq⟩ := Option.map_eq_some_iff.1 hs
    cases heq
    obtain ⟨hfd, hnew, h'⟩ := h.register hregister
    exact ⟨_, .register hfd hnew, h'⟩
  | remove fd =>
    obtain ⟨s₁, hremove, heq⟩ := Option.map_eq_some_iff.1 hs
    cases heq
    obtain ⟨hfd, hsome, h'⟩ := h.remove hremove
    exact ⟨_, .remove hfd hsome, h'⟩
  | wait outcomes =>
    obtain ⟨⟨output, s₁, userData₁⟩, hwait, heq⟩ := Option.map_eq_some_iff.1 hs
    cases heq
    exact h.wait hwait

theorem Refines.run {calls : List Call} {outputs : List Output} (h : Refines s m)
    (hs : run callback linux (s, userData) calls = some (outputs, s', userData')) :
    ∃ m', MapRun callback linux (m, userData) calls outputs (m', userData') ∧ Refines s' m' := by
  induction calls generalizing s m userData outputs with
  | nil =>
    cases hs
    exact ⟨m, .nil, h⟩
  | cons call calls ih =>
    rw [PollSet.run] at hs
    cases hstep : PollSet.step callback linux (s, userData) call with
    | none => simp [hstep] at hs
    | some x =>
      obtain ⟨output, s₁, userData₁⟩ := x
      rw [hstep] at hs
      obtain ⟨⟨outputs, x⟩, hrest, heq⟩ := Option.map_eq_some_iff.1 hs
      cases heq
      obtain ⟨m₁, hmap, h₁⟩ := h.step hstep
      obtain ⟨m', hrun, h'⟩ := ih h₁ hrest
      exact ⟨m', .cons hmap hrun, h'⟩

theorem refines_pollInit {wakeupPipeFd : ℤ} (hfd : 0 ≤ wakeupPipeFd) :
    Refines (pollInit wakeupPipeFd) (initial wakeupPipeFd) where
  length := rfl
  size_le := (by decide : 1 ≤ 64)
  unused := Function.update_of_ne (by omega) ..
  holds := by
    have hempty : Holds ([] ++ []) fun _ => none := ⟨fun _ _ => rfl, nofun⟩
    exact hempty.insert rfl eventIn

/-- Neither a call nor its callback removes a descriptor. -/
structure NotRemoved (callback : Callback S) (fd : ℤ) (calls : List Call) : Prop where
  calls : Call.remove fd ∉ calls
  callback : ∀ events userData userData', callback fd events userData ≠ some (userData', .remove)

theorem isSome_of_callEach {fd : ℤ} {x : Registered × S}
    (hnot : ∀ events userData userData', callback fd events userData ≠ some (userData', .remove))
    (hm : (m fd).isSome) (heach : callEach callback called (m, userData) = some x) :
    (x.1 fd).isSome := by
  induction called generalizing m userData with
  | nil =>
    cases heach
    exact hm
  | cons call called ih =>
    obtain ⟨fd', events⟩ := call
    rw [callEach] at heach
    cases hcallback : callback fd' events userData with
    | none => simp [hcallback] at heach
    | some result =>
      obtain ⟨userData₁, action⟩ := result
      rw [hcallback] at heach
      refine ih ?_ heach
      rcases eq_or_ne fd fd' with rfl | hne
      · cases action with
        | keep => exact hm
        | register events => rw [mapAct, Function.update_self]; rfl
        | remove => exact absurd hcallback (hnot _ _ _)
      · cases action with
        | keep => exact hm
        | register events | remove => rwa [mapAct, Function.update_of_ne hne]

theorem NotRemoved.isSome {fd : ℤ} {calls : List Call} {outputs : List Output}
    {x y : Registered × S} (hnot : NotRemoved callback fd calls) (hx : (x.1 fd).isSome)
    (hrun : MapRun callback linux x calls outputs y) : (y.1 fd).isSome := by
  induction hrun with
  | nil => exact hx
  | cons hstep _ ih =>
    refine ih ⟨fun h => hnot.calls (List.mem_cons_of_mem _ h), hnot.callback⟩ ?_
    cases hstep with
    | @register m _ fd' events _ _ _ =>
      dsimp only
      rcases eq_or_ne fd fd' with rfl | hne
      · rw [Function.update_self]; rfl
      · rwa [Function.update_of_ne hne]
    | @remove m _ fd' _ _ =>
      dsimp only
      rcases eq_or_ne fd fd' with rfl | hne
      · exact absurd List.mem_cons_self hnot.calls
      · rwa [Function.update_of_ne hne]
    | wait _ _ heach => exact isSome_of_callEach hnot.callback hx heach

/-- Every sequence of calls that respects the assertions is one on the map: the array has one entry
for each registered descriptor, with its latest events, and a wait calls back once for each
descriptor with a result.  The wakeup descriptor stays registered as long as it is not removed. -/
theorem pollSet_refines (callback : Callback S) (linux : Bool) (wakeupPipeFd : ℤ)
    (hfd : 0 ≤ wakeupPipeFd) {calls : List Call} {outputs : List Output}
    (h : run callback linux (pollInit wakeupPipeFd, userData) calls =
      some (outputs, s, userData')) :
    ∃ m, MapRun callback linux (initial wakeupPipeFd, userData) calls outputs (m, userData') ∧
      Holds s.entries m ∧ (NotRemoved callback wakeupPipeFd calls → (m wakeupPipeFd).isSome) := by
  obtain ⟨m, hrun, hrefines⟩ := (refines_pollInit hfd).run h
  have hinitial : (initial wakeupPipeFd wakeupPipeFd).isSome := by
    rw [initial, Function.update_self]
    rfl
  exact ⟨m, hrun, hrefines.holds, fun hnot => hnot.isSome hinitial hrun⟩

end

/-- The assertions let the wakeup descriptor be removed. -/
theorem not_wakeup_stays :
    ¬∀ (calls : List Call) (outputs : List Output) (s : PollFds),
      run (fun _ _ userData => some (userData, .keep)) true (pollInit 5, ()) calls =
        some (outputs, s, ()) → requestsOf s.entries 5 ≠ [] :=
  fun h => h [.remove 5] _ _ rfl rfl

/-! ### The callback of the selector -/

open IOSelector (Job getJobForEvent getOperationsForJobs)

/-- `states`, and the jobs that have been given to the thread pool. -/
structure States where
  states : ℤ → Option (List Job)
  given : List Job

/-- The bits of `get_operations_for_jobs`. -/
def operations (list : List Job) : UInt32 :=
  (if (getOperationsForJobs list).hasIn then eventIn else 0) |||
    (if (getOperationsForJobs list).hasOut then eventOut else 0)

/-- `wait_callback`. -/
def waitCallback (isShuttingDown : Bool) (wakeupPipeFd : ℤ) : Callback States :=
  fun fd events userData =>
    if isShuttingDown then some (userData, .keep)
    else if fd = wakeupPipeFd then some (userData, .keep)
    else
      let removeFd := events &&& eventErr = eventErr
      match userData.states fd with
      | none => if removeFd then some (userData, .remove) else none
      | some list =>
        let (jobIn, list) :=
          if events &&& eventIn ≠ 0 then getJobForEvent list .eventIn else (none, list)
        let (jobOut, list) :=
          if events &&& eventOut ≠ 0 then getJobForEvent list .eventOut else (none, list)
        let given := userData.given ++ jobIn.toList ++ jobOut.toList
        if removeFd then some (⟨Function.update userData.states fd none, given⟩, .remove)
        else
          some (⟨Function.update userData.states fd (some list), given⟩,
            .register (operations list))

theorem notRemoved_waitCallback {isShuttingDown : Bool} {wakeupPipeFd : ℤ} {calls : List Call}
    (hcalls : Call.remove wakeupPipeFd ∉ calls) :
    NotRemoved (waitCallback isShuttingDown wakeupPipeFd) wakeupPipeFd calls where
  calls := hcalls
  callback events userData userData' h := by
    rw [waitCallback, if_pos rfl, ite_self] at h
    cases h

/-- A socket is registered to be read from, and readable. -/
theorem pollSet_refines_readable :
    ∃ (outputs : List Output) (s : PollFds) (m : Registered) (userData : States),
      MapRun (waitCallback false 5) true (initial 5, ⟨fun _ => some [⟨0, .eventIn⟩], []⟩)
        [.register 7 eventIn true, .wait ⟨.done fun _ => kPollFlagsIn, fun _ => .failed .enomem⟩]
        outputs (m, userData) ∧ Holds s.entries m ∧ (m 5).isSome := by
  obtain ⟨outputs, s, userData, h⟩ : ∃ outputs s userData,
      run (waitCallback false 5) true (pollInit 5, ⟨fun _ => some [⟨0, .eventIn⟩], []⟩)
        [.register 7 eventIn true, .wait ⟨.done fun _ => kPollFlagsIn, fun _ => .failed .enomem⟩] =
          some (outputs, s, userData) := ⟨_, _, _, rfl⟩
  obtain ⟨m, hrun, hholds, hwakeup⟩ :=
    pollSet_refines (waitCallback false 5) true 5 (by decide) h
  exact ⟨outputs, s, m, userData, hrun, hholds, hwakeup (notRemoved_waitCallback (by simp))⟩

end PollSet

end Il2Cpp
