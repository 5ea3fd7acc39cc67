import Il2Cpp.Data.Block

/-!
# Waiting for sockets

`Socket::Select_icall` gets an array of sockets to read from, to write to and to watch for errors,
each section followed by a null, and makes an array of the same layout of the sockets that are
ready. The new array is allocated for as many sockets as `poll` counts.

* `selectIcall` : the function, over every outcome of `poll`.
* `KeepsLayout` : no index outside of an array is used, and a new array has the layout.
* `keepsLayout_iff` : the outcomes for which it has.
-/

namespace Il2Cpp

namespace Select

/-! ### Poll -/

/-- `PollFlags`, and the bits of `pollfd`, which have the same values. -/
abbrev PollFlags := UInt16

def kPollFlagsNone : PollFlags := 0
def kPollFlagsIn : PollFlags := 1
def kPollFlagsOut : PollFlags := 4
def kPollFlagsErr : PollFlags := 8
def kPollFlagsHup : PollFlags := 0x10
def kPollFlagsNVal : PollFlags := 0x20

structure PollRequest where
  fd : ℤ
  events : PollFlags
  revents : PollFlags

/-- The outcome of the last `poll` that `posix::Poll` makes: it fails with an `errno`, or the
descriptors have these conditions. -/
inductive Outcome
  | failed (errno : ℕ)
  | done (conditions : ℕ → PollFlags)

/-- What the system reports for the descriptor at index `i`: the events that are asked for, and
errors, hang-ups and closed descriptors always.  Negative descriptors are ignored. -/
def reported (conditions : ℕ → PollFlags) (i : ℕ) (request : PollRequest) : PollFlags :=
  if request.fd < 0 then kPollFlagsNone
  else conditions i &&& (request.events ||| kPollFlagsErr ||| kPollFlagsHup ||| kPollFlagsNVal)

/-- The loop at the end of `posix::Poll`, which is there on Linux only. -/
def withoutErr (linux : Bool) (events revents : PollFlags) : PollFlags :=
  if linux && revents &&& kPollFlagsErr != 0 && revents &&& kPollFlagsHup != 0 then
    revents &&& (~~~kPollFlagsErr &&& events)
  else revents

/-- `SocketImpl::Poll`: the count and the requests with their `revents`. -/
def poll (linux : Bool) (outcome : Outcome) (requests : List PollRequest) :
    Except ℕ (ℕ × List PollRequest) :=
  match outcome with
  | .failed errno => .error errno
  | .done conditions =>
    let ret := requests.zipIdx.countP fun (request, i) => reported conditions i request != 0
    if ret = 0 then .ok (ret, requests)
    else
      .ok (ret, requests.zipIdx.map fun (request, i) =>
        { request with
          revents := withoutErr linux request.events (reported conditions i request) })

/-! ### Select -/

variable {Obj : Type}

/-- The events for a socket in the section `mode`. -/
def eventsOf (mode : ℕ) : PollFlags :=
  if mode = 0 then kPollFlagsIn else if mode = 1 then kPollFlagsOut else kPollFlagsErr

/-- The request for a socket, where `descriptor` is -1 for an invalid one. -/
def requestOf (descriptor : Obj → ℤ) (mode : ℕ) (obj : Obj) : PollRequest :=
  ⟨descriptor obj, eventsOf mode, kPollFlagsNone⟩

/-- The first loop: the requests, `none` for a fourth null. -/
def collect (descriptor : Obj → ℤ) : List (Option Obj) → ℕ → Option (List PollRequest)
  | [], _ => some []
  | none :: sockets, mode => if mode + 1 > 3 then none else collect descriptor sockets (mode + 1)
  | some obj :: sockets, mode =>
    (collect descriptor sockets mode).map (requestOf descriptor mode obj :: ·)

/-- The tests of the second loop. -/
def isReady (mode : ℕ) (revents : PollFlags) : Bool :=
  revents != kPollFlagsNone &&
    match mode with
    | 0 => revents &&& (kPollFlagsIn ||| kPollFlagsErr) != 0
    | 1 => revents &&& (kPollFlagsOut ||| kPollFlagsErr) != 0
    | _ => revents &&& kPollFlagsErr != 0

/-- The second loop, over what is left of the sockets and of the requests; `none` when it stores
outside of the new array. -/
def fillLoop : List (Option Obj) → List PollRequest → ℕ → ℕ → List (Option Obj) →
    Option (List (Option Obj))
  | _, [], _, _, newSockets => some newSockets
  | [], _ :: _, _, _, newSockets => some newSockets
  | none :: sockets, request :: requests, mode, addIndex, newSockets =>
    fillLoop sockets (request :: requests) (mode + 1) addIndex newSockets
  | some obj :: sockets, request :: requests, mode, addIndex, newSockets =>
    if isReady mode request.revents then
      (writeBlock newSockets (addIndex + mode) [some obj]).bind
        (fillLoop sockets requests mode (addIndex + 1))
    else fillLoop sockets requests mode addIndex newSockets

/-- What `Select_icall` leaves in `*error`. -/
inductive Error
  | kWSAefault
  | socketErrnoToErrorCode (errno : ℕ)

/-- `Socket::Select_icall`: the array that `*sockets` is set to, or the error, and `none` when an
index outside of an array is used. -/
def selectIcall (linux : Bool) (descriptor : Obj → ℤ) (outcome : Outcome)
    (sockets : List (Option Obj)) : Option (Except Error (List (Option Obj))) :=
  match collect descriptor sockets 0 with
  | none => some (.error .kWSAefault)
  | some requests =>
    if requests.length = 0 then some (.ok sockets)
    else
      match poll linux outcome requests with
      | .error errno => some (.error (.socketErrnoToErrorCode errno))
      | .ok (results, requests) =>
        let newSockets := List.replicate (results + 3) none
        if results > 0 then (fillLoop sockets requests 0 0 newSockets).map .ok
        else some (.ok newSockets)

/-! ### Layouts -/

/-- Three sections, each followed by a null. -/
def layout (read write error : List Obj) : List (Option Obj) :=
  read.map some ++ none :: (write.map some ++ none :: (error.map some ++ [none]))

/-- The flags with which a socket of the section `mode` comes back when it is the request at `i`. -/
def reventsOf (linux : Bool) (descriptor : Obj → ℤ) (conditions : ℕ → PollFlags) (mode : ℕ)
    (obj : Obj) (i : ℕ) : PollFlags :=
  withoutErr linux (eventsOf mode) (reported conditions i (requestOf descriptor mode obj))

/-- The sockets of a section that are ready, where the requests of the section begin at `start`. -/
def kept (linux : Bool) (descriptor : Obj → ℤ) (conditions : ℕ → PollFlags) (mode start : ℕ)
    (sockets : List Obj) : List Obj :=
  ((sockets.zipIdx start).filter fun (obj, i) =>
    isReady mode (reventsOf linux descriptor conditions mode obj i)).map Prod.fst

/-- No index outside of an array is used, and if `poll` succeeds, the result has the ready sockets
of each section, in order. -/
def KeepsLayout (linux : Bool) (descriptor : Obj → ℤ) (outcome : Outcome)
    (read write error : List Obj) : Prop :=
  ∃ result, selectIcall linux descriptor outcome (layout read write error) = some result ∧
    ∀ conditions, outcome = .done conditions → result = .ok (layout
      (kept linux descriptor conditions 0 0 read)
      (kept linux descriptor conditions 1 read.length write)
      (kept linux descriptor conditions 2 (read.length + write.length) error))

/-! ### The first loop -/

variable {descriptor : Obj → ℤ} {sockets : List (Option Obj)} {mode : ℕ}

theorem collect_section (objs : List Obj) :
    collect descriptor (objs.map some ++ sockets) mode =
      (collect descriptor sockets mode).map (objs.map (requestOf descriptor mode) ++ ·) := by
  induction objs with
  | nil => simp
  | cons obj objs ih =>
    rw [List.map_cons, List.cons_append, collect, ih, Option.map_map]
    rfl

theorem collect_null (h : mode < 3) :
    collect descriptor (none :: sockets) mode = collect descriptor sockets (mode + 1) := by
  rw [collect, if_neg (by omega)]

theorem collect_layout (read write error : List Obj) :
    collect descriptor (layout read write error) 0 =
      some (read.map (requestOf descriptor 0) ++
        (write.map (requestOf descriptor 1) ++ error.map (requestOf descriptor 2))) := by
  rw [layout, collect_section, collect_null (by decide), collect_section, collect_null (by decide),
    collect_section, collect_null (by decide), collect]
  simp

/-! ### The second loop -/

variable {request : PollRequest} {requests : List PollRequest} {addIndex : ℕ}
  {newSockets : List (Option Obj)}

@[simp] theorem fillLoop_nil : fillLoop sockets [] mode addIndex newSockets = some newSockets := by
  cases sockets <;> rfl

theorem fillLoop_null : fillLoop (none :: sockets) requests mode addIndex newSockets =
    fillLoop sockets requests (mode + 1) addIndex newSockets := by
  cases requests with
  | nil => rw [fillLoop_nil, fillLoop_nil]
  | cons request requests => rfl

/-- The sockets of a section whose requests are ready. -/
def ready (mode : ℕ) (pairs : List (Obj × PollRequest)) : List Obj :=
  (pairs.filter fun (_, request) => isReady mode request.revents).map Prod.fst

theorem fillLoop_section (pairs : List (Obj × PollRequest))
    (h : addIndex + mode ≤ newSockets.length) :
    fillLoop (pairs.map (some ·.1) ++ sockets) (pairs.map (·.2) ++ requests) mode addIndex
        newSockets =
      (writeBlock newSockets (addIndex + mode) ((ready mode pairs).map some)).bind
        (fillLoop sockets requests mode (addIndex + (ready mode pairs).length)) := by
  induction pairs generalizing addIndex newSockets with
  | nil =>
    have hempty : writeBlock newSockets (addIndex + mode) [] = some newSockets := by
      rw [writeBlock_of_le h, List.append_nil, List.length_nil, Nat.add_zero,
        List.take_append_drop]
    change fillLoop sockets requests mode addIndex newSockets =
      (writeBlock newSockets (addIndex + mode) []).bind (fillLoop sockets requests mode addIndex)
    rw [hempty, Option.bind_some]
  | cons pair pairs ih =>
    obtain ⟨obj, request⟩ := pair
    rw [List.map_cons, List.map_cons, List.cons_append, List.cons_append, fillLoop]
    by_cases hready : isReady mode request.revents = true
    · have hcons : ready mode ((obj, request) :: pairs) = obj :: ready mode pairs := by
        simp [ready, hready]
      have happend := writeBlock_append newSockets [some obj] ((ready mode pairs).map some)
        (addIndex + mode)
      rw [List.singleton_append, List.length_singleton] at happend
      rw [if_pos hready, hcons, List.map_cons, happend, Option.bind_assoc, List.length_cons]
      refine Option.bind_congr fun newSockets' hwrite => ?_
      have hle := (writeBlock_eq_some hwrite).1
      rw [← length_writeBlock hwrite, List.length_singleton] at hle
      rw [ih (by omega), Nat.add_right_comm addIndex 1 mode, Nat.add_right_comm addIndex 1]
      rfl
    · have hcons : ready mode ((obj, request) :: pairs) = ready mode pairs := by
        simp [ready, hready]
      rw [if_neg hready, hcons, ih h]

theorem writeBlock_nulls (before : List (Option Obj)) (objs : List Obj) (n : ℕ) {start : ℕ}
    (hstart : start = before.length) :
    writeBlock (before ++ List.replicate (objs.length + n) none) start (objs.map some) =
      some (before ++ objs.map some ++ List.replicate n none) := by
  have hroom : start + (objs.map some).length ≤
      (before ++ List.replicate (objs.length + n) none).length := by
    rw [List.length_map, List.length_append, List.length_replicate]
    omega
  rw [writeBlock_of_le hroom, hstart, List.take_left' rfl, ← List.drop_drop,
    List.drop_left' rfl, List.drop_replicate, List.length_map, Nat.add_sub_cancel_left]

theorem append_nulls (before : List (Option Obj)) (n : ℕ) :
    before ++ List.replicate (n + 1) none = before ++ [none] ++ List.replicate n none := by
  rw [List.replicate_succ, List.append_cons]

/-- Three sections are filtered, and the nulls that are left stay behind them. -/
theorem fillLoop_layout (read write error : List (Obj × PollRequest)) (n : ℕ) :
    fillLoop (layout (read.map (·.1)) (write.map (·.1)) (error.map (·.1)))
        (read.map (·.2) ++ (write.map (·.2) ++ error.map (·.2))) 0 0
        (List.replicate ((ready 0 read).length +
          ((ready 1 write).length + ((ready 2 error).length + n + 1) + 1) + 1) none) =
      some (layout (ready 0 read) (ready 1 write) (ready 2 error) ++ List.replicate n none) := by
  have hlayout : layout (read.map (·.1)) (write.map (·.1)) (error.map (·.1)) =
      read.map (some ·.1) ++ none :: (write.map (some ·.1) ++
        none :: (error.map (some ·.1) ++ [none])) := by
    rw [layout, List.map_map, List.map_map, List.map_map]
    rfl
  obtain ⟨reads, hreads⟩ : ∃ reads, ready 0 read = reads := ⟨_, rfl⟩
  obtain ⟨writes, hwrites⟩ : ∃ writes, ready 1 write = writes := ⟨_, rfl⟩
  obtain ⟨errors, herrors⟩ : ∃ errors, ready 2 error = errors := ⟨_, rfl⟩
  rw [hreads, hwrites, herrors, hlayout]
  have hfirst : writeBlock
      (List.replicate (reads.length + (writes.length + (errors.length + n + 1) + 1) + 1) none)
      (0 + 0) (reads.map some) = some (reads.map some ++ [none] ++
        List.replicate (writes.length + (errors.length + n + 1) + 1) none) := by
    rw [← append_nulls]
    exact writeBlock_nulls [] reads (writes.length + (errors.length + n + 1) + 1 + 1) rfl
  have hsecond : writeBlock
      (reads.map some ++ [none] ++
        List.replicate (writes.length + (errors.length + n + 1) + 1) none)
      (0 + reads.length + (0 + 1)) (writes.map some) =
        some (reads.map some ++ [none] ++ writes.map some ++ [none] ++
          List.replicate (errors.length + n + 1) none) := by
    rw [← append_nulls (_ ++ writes.map some)]
    exact writeBlock_nulls (reads.map some ++ [none]) writes (errors.length + n + 1 + 1) (by simp)
  have hthird : writeBlock
      (reads.map some ++ [none] ++ writes.map some ++ [none] ++
        List.replicate (errors.length + n + 1) none)
      (0 + reads.length + writes.length + (0 + 1 + 1)) (errors.map some) =
        some (reads.map some ++ [none] ++ writes.map some ++ [none] ++ errors.map some ++ [none] ++
          List.replicate n none) := by
    have hstart : 0 + reads.length + writes.length + (0 + 1 + 1) =
        (reads.map some ++ [none] ++ writes.map some ++ [none]).length := by
      simp
      omega
    rw [← append_nulls (_ ++ errors.map some)]
    exact writeBlock_nulls _ errors (n + 1) hstart
  rw [fillLoop_section read (by simp), hreads, hfirst, Option.bind_some, fillLoop_null,
    fillLoop_section write (by simp), hwrites, hsecond, Option.bind_some, fillLoop_null,
    ← List.append_nil (error.map (·.2)), fillLoop_section error (by simp; omega), herrors, hthird,
    Option.bind_some, fillLoop_nil]
  simp [layout]

/-! ### The polled sections -/

section

variable (linux : Bool) (descriptor : Obj → ℤ) (conditions : ℕ → PollFlags)

/-- The sockets of a section with their requests after `poll`. -/
def polled (mode start : ℕ) (sockets : List Obj) : List (Obj × PollRequest) :=
  (sockets.zipIdx start).map fun (obj, i) => (obj, { requestOf descriptor mode obj with
    revents := reventsOf linux descriptor conditions mode obj i })

/-- How many sockets of a section `poll` counts. -/
def counted (mode start : ℕ) (sockets : List Obj) : ℕ :=
  (sockets.zipIdx start).countP fun (obj, i) =>
    reported conditions i (requestOf descriptor mode obj) != 0

/-- Everything that is reported for a socket of the section makes it ready there. -/
def AllReady (mode start : ℕ) (sockets : List Obj) : Prop :=
  ∀ obj i, (obj, i) ∈ sockets.zipIdx start →
    reported conditions i (requestOf descriptor mode obj) ≠ 0 →
      isReady mode (reventsOf linux descriptor conditions mode obj i) = true

end

variable {linux : Bool} {conditions : ℕ → PollFlags}

theorem ready_polled (mode start : ℕ) (objs : List Obj) :
    ready mode (polled linux descriptor conditions mode start objs) =
      kept linux descriptor conditions mode start objs := by
  rw [ready, polled, List.filter_map, List.map_map, kept]
  rfl

theorem map_fst_polled (mode start : ℕ) (objs : List Obj) :
    (polled linux descriptor conditions mode start objs).map (·.1) = objs := by
  rw [polled, List.map_map]
  exact List.zipIdx_map_fst start objs

theorem reported_ne_zero {obj : Obj} {i : ℕ}
    (h : isReady mode (reventsOf linux descriptor conditions mode obj i) = true) :
    reported conditions i (requestOf descriptor mode obj) ≠ 0 := by
  intro hzero
  have hnone : withoutErr linux (eventsOf mode) 0 = 0 := by
    cases linux <;> rfl
  rw [reventsOf, hzero, hnone] at h
  exact Bool.false_ne_true h

/-- Of two nested properties, the same number of elements has both only if all that have the one
have the other. -/
theorem countP_eq_countP_iff {α : Type*} {p q : α → Bool} {l : List α}
    (h : ∀ a ∈ l, p a = true → q a = true) :
    l.countP p = l.countP q ↔ ∀ a ∈ l, q a = true → p a = true := by
  induction l with
  | nil => exact iff_of_true rfl fun a ha => absurd ha List.not_mem_nil
  | cons a l ih =>
    rw [List.forall_mem_cons] at h ⊢
    have hle := List.countP_mono_left h.2
    rw [← ih h.2, List.countP_cons, List.countP_cons]
    cases hp : p a with
    | true => simp [h.1 hp]
    | false =>
      cases hq : q a with
      | true => simp; omega
      | false => simp

theorem length_kept (mode start : ℕ) (objs : List Obj) :
    (kept linux descriptor conditions mode start objs).length =
      (objs.zipIdx start).countP fun (obj, i) =>
        isReady mode (reventsOf linux descriptor conditions mode obj i) := by
  rw [kept, List.length_map, List.countP_eq_length_filter]

theorem length_kept_le (mode start : ℕ) (objs : List Obj) :
    (kept linux descriptor conditions mode start objs).length ≤
      counted descriptor conditions mode start objs := by
  rw [length_kept]
  exact List.countP_mono_left fun pair _ h => bne_iff_ne.2 (reported_ne_zero h)

theorem length_kept_eq_iff (mode start : ℕ) (objs : List Obj) :
    (kept linux descriptor conditions mode start objs).length =
        counted descriptor conditions mode start objs ↔
      AllReady linux descriptor conditions mode start objs := by
  rw [length_kept, counted, countP_eq_countP_iff fun pair _ h => bne_iff_ne.2 (reported_ne_zero h)]
  constructor
  · intro h obj i hmem hreported
    exact h (obj, i) hmem (bne_iff_ne.2 hreported)
  · rintro h ⟨obj, i⟩ hmem hreported
    exact h obj i hmem (bne_iff_ne.1 hreported)

/-- The number of all sockets that `poll` counts. -/
def results (descriptor : Obj → ℤ) (conditions : ℕ → PollFlags) (read write error : List Obj) : ℕ :=
  counted descriptor conditions 0 0 read + (counted descriptor conditions 1 read.length write +
    counted descriptor conditions 2 (read.length + write.length) error)

theorem countP_requests (mode start : ℕ) (objs : List Obj) :
    ((objs.map (requestOf descriptor mode)).zipIdx start).countP
        (fun (request, i) => reported conditions i request != 0) =
      counted descriptor conditions mode start objs := by
  rw [List.zipIdx_map, List.countP_map]
  rfl

theorem map_requests (mode start : ℕ) (objs : List Obj) :
    ((objs.map (requestOf descriptor mode)).zipIdx start).map (fun (request, i) =>
        { request with
          revents := withoutErr linux request.events (reported conditions i request) }) =
      (polled linux descriptor conditions mode start objs).map (·.2) := by
  rw [List.zipIdx_map, List.map_map, polled, List.map_map]
  rfl

/-- The requests of three sections. -/
def requestsOf (descriptor : Obj → ℤ) (read write error : List Obj) : List PollRequest :=
  read.map (requestOf descriptor 0) ++
    (write.map (requestOf descriptor 1) ++ error.map (requestOf descriptor 2))

theorem countP_requestsOf (read write error : List Obj) :
    (requestsOf descriptor read write error).zipIdx.countP
        (fun (request, i) => reported conditions i request != 0) =
      results descriptor conditions read write error := by
  rw [requestsOf, List.zipIdx_append, List.zipIdx_append, List.countP_append, List.countP_append,
    countP_requests, countP_requests, countP_requests, List.length_map, List.length_map,
    Nat.zero_add, results]

theorem map_requestsOf (read write error : List Obj) :
    (requestsOf descriptor read write error).zipIdx.map (fun (request, i) =>
        { request with
          revents := withoutErr linux request.events (reported conditions i request) }) =
      (polled linux descriptor conditions 0 0 read).map (·.2) ++
        ((polled linux descriptor conditions 1 read.length write).map (·.2) ++
          (polled linux descriptor conditions 2 (read.length + write.length) error).map (·.2)) := by
  rw [requestsOf, List.zipIdx_append, List.zipIdx_append, List.map_append, List.map_append,
    map_requests, map_requests, map_requests, List.length_map, List.length_map, Nat.zero_add]

/-- The new array has the layout, with more nulls behind it where fewer sockets are ready than
counted. -/
theorem selectIcall_done (linux : Bool) (descriptor : Obj → ℤ) (conditions : ℕ → PollFlags)
    (read write error : List Obj) :
    ∃ reads writes errors,
      kept linux descriptor conditions 0 0 read = reads ∧
      kept linux descriptor conditions 1 read.length write = writes ∧
      kept linux descriptor conditions 2 (read.length + write.length) error = errors ∧
      selectIcall linux descriptor (.done conditions) (layout read write error) =
        some (.ok (layout reads writes errors ++ List.replicate
          (results descriptor conditions read write error -
            (reads.length + writes.length + errors.length)) none)) := by
  obtain ⟨reads, hreads⟩ : ∃ reads, kept linux descriptor conditions 0 0 read = reads := ⟨_, rfl⟩
  obtain ⟨writes, hwrites⟩ :
    ∃ writes, kept linux descriptor conditions 1 read.length write = writes := ⟨_, rfl⟩
  obtain ⟨errors, herrors⟩ :
    ∃ errors, kept linux descriptor conditions 2 (read.length + write.length) error = errors :=
      ⟨_, rfl⟩
  refine ⟨reads, writes, errors, hreads, hwrites, herrors, ?_⟩
  obtain ⟨more, hmore⟩ : ∃ more, results descriptor conditions read write error =
      reads.length + writes.length + errors.length + more := by
    refine Nat.exists_eq_add_of_le ?_
    rw [results, ← hreads, ← hwrites, ← herrors, Nat.add_assoc]
    exact Nat.add_le_add (length_kept_le _ _ _)
      (Nat.add_le_add (length_kept_le _ _ _) (length_kept_le _ _ _))
  have hcollect : collect descriptor (layout read write error) 0 =
      some (requestsOf descriptor read write error) := collect_layout read write error
  rw [selectIcall, hcollect, hmore, Nat.add_sub_cancel_left]
  dsimp only
  split_ifs with hempty
  · rw [requestsOf, List.length_append, List.length_append, List.length_map, List.length_map,
      List.length_map] at hempty
    obtain rfl : read = [] := List.eq_nil_of_length_eq_zero (by omega)
    obtain rfl : write = [] := List.eq_nil_of_length_eq_zero (by omega)
    obtain rfl : error = [] := List.eq_nil_of_length_eq_zero (by omega)
    have hzero : more = 0 := by
      have hnone : results descriptor conditions ([] : List Obj) [] [] = 0 := rfl
      omega
    rw [hzero, List.replicate_zero, List.append_nil, ← hreads, ← hwrites, ← herrors]
    rfl
  · rw [poll]
    dsimp only
    rw [countP_requestsOf, hmore]
    by_cases hzero : reads.length + writes.length + errors.length + more = 0
    · obtain rfl : reads = [] := List.eq_nil_of_length_eq_zero (by omega)
      obtain rfl : writes = [] := List.eq_nil_of_length_eq_zero (by omega)
      obtain rfl : errors = [] := List.eq_nil_of_length_eq_zero (by omega)
      obtain rfl : more = 0 := by omega
      rfl
    · have hfill := fillLoop_layout (polled linux descriptor conditions 0 0 read)
        (polled linux descriptor conditions 1 read.length write)
        (polled linux descriptor conditions 2 (read.length + write.length) error) more
      rw [map_fst_polled, map_fst_polled, map_fst_polled, ready_polled, ready_polled, ready_polled,
        hreads, hwrites, herrors] at hfill
      have hlength : reads.length + writes.length + errors.length + more + 3 =
          reads.length + (writes.length + (errors.length + more + 1) + 1) + 1 := by omega
      rw [if_neg hzero]
      dsimp only
      rw [if_pos (Nat.pos_of_ne_zero hzero), map_requestsOf, hlength, hfill, Option.map_some]

theorem length_kept_eq_results_iff (read write error : List Obj) :
    results descriptor conditions read write error ≤
        (kept linux descriptor conditions 0 0 read).length +
          (kept linux descriptor conditions 1 read.length write).length +
          (kept linux descriptor conditions 2 (read.length + write.length) error).length ↔
      AllReady linux descriptor conditions 0 0 read ∧
        AllReady linux descriptor conditions 1 read.length write ∧
        AllReady linux descriptor conditions 2 (read.length + write.length) error := by
  rw [results, ← length_kept_eq_iff, ← length_kept_eq_iff, ← length_kept_eq_iff]
  have hread : (kept linux descriptor conditions 0 0 read).length ≤ _ := length_kept_le 0 0 read
  have hwrite : (kept linux descriptor conditions 1 read.length write).length ≤ _ :=
    length_kept_le 1 read.length write
  have herror :
      (kept linux descriptor conditions 2 (read.length + write.length) error).length ≤ _ :=
    length_kept_le 2 (read.length + write.length) error
  omega

/-- A socket for which `poll` reports only what its section does not look for is counted, but not
kept. -/
theorem keepsLayout_iff (linux : Bool) (descriptor : Obj → ℤ) (outcome : Outcome)
    (read write error : List Obj) : KeepsLayout linux descriptor outcome read write error ↔
      ∀ conditions, outcome = .done conditions →
        AllReady linux descriptor conditions 0 0 read ∧
        AllReady linux descriptor conditions 1 read.length write ∧
        AllReady linux descriptor conditions 2 (read.length + write.length) error := by
  cases outcome with
  | failed errno =>
    refine iff_of_true ?_ fun conditions h => Outcome.noConfusion h
    have hsome :
        (selectIcall linux descriptor (.failed errno) (layout read write error)).isSome := by
      rw [selectIcall, collect_layout]
      dsimp only
      split_ifs <;> rfl
    obtain ⟨result, hresult⟩ := Option.isSome_iff_exists.1 hsome
    exact ⟨result, hresult, fun conditions h => Outcome.noConfusion h⟩
  | done conditions =>
    obtain ⟨reads, writes, errors, hreads, hwrites, herrors, hselect⟩ :=
      selectIcall_done linux descriptor conditions read write error
    constructor
    · rintro ⟨result, hresult, hlayout⟩ conditions' hsame
      cases hsame
      have hok := hlayout conditions rfl
      rw [hselect, Option.some.injEq] at hresult
      rw [← hresult, hreads, hwrites, herrors, Except.ok.injEq] at hok
      have hlength := congrArg List.length hok
      rw [List.length_append, List.length_replicate] at hlength
      refine (length_kept_eq_results_iff read write error).1 ?_
      rw [hreads, hwrites, herrors]
      omega
    · intro h
      have hle := (length_kept_eq_results_iff read write error).2 (h conditions rfl)
      rw [hreads, hwrites, herrors] at hle
      refine ⟨_, hselect, fun conditions' hsame => ?_⟩
      cases hsame
      rw [hreads, hwrites, herrors, Nat.sub_eq_zero_of_le hle, List.replicate_zero,
        List.append_nil]

/-- One socket to read from, with descriptor 3, that is not connected. -/
theorem not_keepsLayout_hup : ¬KeepsLayout true (fun _ : Unit => 3)
    (.done fun _ => kPollFlagsOut ||| kPollFlagsHup) [()] [] [] := by
  rintro ⟨result, hresult, hlayout⟩
  have hok := hlayout _ rfl
  cases hresult
  cases hok

end Select

end Il2Cpp
