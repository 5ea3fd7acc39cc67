import Il2Cpp.Data.Fueled

/-!
# Sending a file over a socket

`SocketImpl::SendFile` sends a head, a file and a tail, each with a loop over its call.  The
outcomes of the calls are given, in the order in which the calls are made.

* `sendFile` : the function, which may not end.
* `Sound` : it ends once its calls are no longer interrupted, closes the file, and reports success
  only when head, file and tail have been sent.
* `sound_iff` : the outcomes for which it is sound.
-/

namespace Il2Cpp

namespace SendFile

/-! ### Calls -/

inductive Errno
  | EINTR
  | EAGAIN
  | other (n : ℕ)
deriving DecidableEq

/-- What a call does: it fails, or it succeeds.  A call that transfers bytes transfers `n` of them,
or as many as there are. -/
inductive Outcome
  | failed (e : Errno)
  | done (n : ℕ)
deriving DecidableEq

inductive WaitStatus
  | kWaitStatusSuccess
  | kWaitStatusFailure
deriving DecidableEq

/-- `IL2CPP_TARGET_DARWIN` or not. -/
inductive Target
  | darwin
  | other

/-- `TransmitFileBuffers`.  The lengths are those of the buffers. -/
structure TransmitFileBuffers where
  head : Option (List UInt8)
  tail : Option (List UInt8)

structure State where
  /-- The calls that have been made. -/
  calls : ℕ
  errno : Errno
  /-- What the last call returned, `none` for -1. -/
  ret : Option ℕ
  /-- What `StoreLastError` has stored. -/
  lastError : Option Errno
  /-- What has gone over the socket. -/
  sent : List UInt8
  /-- The offset of the open file. -/
  position : ℕ
  /-- `statbuf.st_size`. -/
  size : ℕ
  closed : Bool

def storeLastError (s : State) : State := { s with lastError := some s.errno }

variable (outcome : ℕ → Outcome)

/-- A system call.  One that succeeds leaves `errno` as it was. -/
def call (s : State) : State :=
  match outcome s.calls with
  | .failed e => { s with calls := s.calls + 1, errno := e, ret := none }
  | .done n => { s with calls := s.calls + 1, ret := some n }

/-- `send` of a buffer. -/
def send (bytes : List UInt8) (s : State) : State :=
  match outcome s.calls with
  | .failed _ => call outcome s
  | .done n => { call outcome s with
      ret := some (min n bytes.length), sent := s.sent ++ bytes.take n }

/-- `fstat` of a file with these contents. -/
def fstat (contents : List UInt8) (s : State) : State :=
  match outcome s.calls with
  | .failed _ => call outcome s
  | .done _ => { call outcome s with size := contents.length }

/-- `sendfile`.  Darwin reads from the given offset 0, to the end where the size is 0, and writes
back how many bytes it has sent; the others read from the offset of the file. -/
def sendfile (target : Target) (contents : List UInt8) (s : State) : State :=
  match outcome s.calls, target with
  | .failed _, _ => call outcome s
  | .done n, .darwin =>
    let bytes := (if s.size = 0 then contents else contents.take s.size).take n
    { call outcome s with ret := some 0, sent := s.sent ++ bytes, size := bytes.length }
  | .done n, .other =>
    let bytes := ((contents.drop s.position).take s.size).take n
    { call outcome s with
      ret := some bytes.length, sent := s.sent ++ bytes, position := s.position + bytes.length }

/-- `SOCK_CLOSE(file)`. -/
def sockClose (s : State) : State := { call outcome s with closed := true }

/-! ### The function -/

/-- The errors for which the loop over `sendfile` looks. -/
def Retried (e : Errno) : Prop := e = .EINTR ∨ e = .EAGAIN

instance (e : Errno) : Decidable (Retried e) := inferInstanceAs (Decidable (_ ∨ _))

/-- The bytes at `buffers->head`, none where a pointer is `NULL`. -/
def headBytes (buffers : Option TransmitFileBuffers) : List UInt8 :=
  (buffers.bind (·.head)).getD []

/-- The bytes at `buffers->tail`. -/
def tailBytes (buffers : Option TransmitFileBuffers) : List UInt8 :=
  (buffers.bind (·.tail)).getD []

/-- The loop over `send`, where there is something to send. -/
def sendBuffer (bytes : List UInt8) (s : State) : Fueled State :=
  if bytes.length > 0 then
    Fueled.doWhile (send outcome bytes) (fun s => s.ret = none ∧ s.errno = .EINTR) s
  else Fueled.pure s

/-- The loop over `sendfile`. -/
def sendfileLoop (target : Target) (contents : List UInt8) (s : State) : Fueled State :=
  Fueled.doWhile (sendfile outcome target contents) (fun s => s.ret ≠ none ∧ Retried s.errno) s

/-- The state in which `SendFile` is called. -/
def start (errno : Errno) : State := ⟨0, errno, none, none, [], 0, 0, false⟩

/-- `SocketImpl::SendFile` after the loop over `sendfile`. -/
def sendTail (buffers : Option TransmitFileBuffers) (s : State) : Fueled (WaitStatus × State) :=
  if s.ret = none then .pure (.kWaitStatusFailure, sockClose outcome (storeLastError s))
  else
    (sendBuffer outcome (tailBytes buffers) s).bind fun s =>
    if s.ret = none then .pure (.kWaitStatusFailure, sockClose outcome (storeLastError s))
    else
      let s := sockClose outcome s
      if s.ret = none then .pure (.kWaitStatusFailure, storeLastError s)
      else .pure (.kWaitStatusSuccess, s)

/-- `SocketImpl::SendFile` after the head. -/
def sendContents (target : Target) (buffers : Option TransmitFileBuffers) (contents : List UInt8)
    (s : State) : Fueled (WaitStatus × State) :=
  if s.ret = none then .pure (.kWaitStatusFailure, sockClose outcome (storeLastError s))
  else
    let s := fstat outcome contents s
    -- the file is not closed here
    if s.ret = none then .pure (.kWaitStatusFailure, storeLastError s)
    else (sendfileLoop outcome target contents s).bind (sendTail outcome buffers)

/-- `SocketImpl::SendFile` -/
def sendFile (target : Target) (buffers : Option TransmitFileBuffers) (contents : List UInt8)
    (errno : Errno) : Fueled (WaitStatus × State) :=
  let s := call outcome (start errno)
  if s.ret = none then .pure (.kWaitStatusFailure, storeLastError s)
  else
    (sendBuffer outcome (headBytes buffers) s).bind (sendContents outcome target buffers contents)

/-! ### What is promised -/

/-- From some call on, none is interrupted. -/
def StopsInterrupting : Prop :=
  ∃ first, ∀ k ≥ first, outcome k ≠ .failed .EINTR ∧ outcome k ≠ .failed .EAGAIN

/-- Call `k` succeeds. -/
def Succeeds (k : ℕ) : Prop := ∃ n, outcome k = .done n

structure Sound (target : Target) (buffers : Option TransmitFileBuffers) (contents : List UInt8)
    (errno : Errno) : Prop where
  ends : StopsInterrupting outcome →
    ∃ result, (sendFile outcome target buffers contents errno).Returns result
  closes : ∀ status s, (sendFile outcome target buffers contents errno).Returns (status, s) →
    Succeeds outcome 0 → s.closed
  sends : ∀ s, (sendFile outcome target buffers contents errno).Returns (.kWaitStatusSuccess, s) →
    s.sent = headBytes buffers ++ contents ++ tailBytes buffers

/-! ### The loops over `send` -/

variable {outcome} {bytes contents : List UInt8} {target : Target} {s t : State} {n i j sent : ℕ}

/-- The state after `n` interrupted calls. -/
def interrupted (s : State) (n : ℕ) : State :=
  { s with
    calls := s.calls + n
    errno := if n = 0 then s.errno else .EINTR
    ret := if n = 0 then s.ret else none }

theorem again_send_iff :
    ((send outcome bytes s).ret = none ∧ (send outcome bytes s).errno = .EINTR) ↔
    outcome s.calls = .failed .EINTR := by
  cases h : outcome s.calls with
  | failed e => simp [send, call, h]
  | done n => simp [send, h]

theorem iterate_send (h : ∀ i < n, outcome (s.calls + i) = .failed .EINTR) :
    (send outcome bytes)^[n] s = interrupted s n := by
  induction n with
  | zero => rfl
  | succ n ih =>
    rw [Function.iterate_succ_apply', ih fun i hi => h i (Nat.lt_succ_of_lt hi)]
    simp [send, call, interrupted, h n (Nat.lt_succ_self n), Nat.add_assoc]

theorem again_iterate_send_iff (h : ∀ i < n, outcome (s.calls + i) = .failed .EINTR) :
    (((send outcome bytes)^[n + 1] s).ret = none ∧
      ((send outcome bytes)^[n + 1] s).errno = .EINTR) ↔
      outcome (s.calls + n) = .failed .EINTR := by
  rw [Function.iterate_succ_apply', iterate_send h]
  exact again_send_iff

theorem forall_again_send_iff : (∀ i < n, ((send outcome bytes)^[i + 1] s).ret = none ∧
      ((send outcome bytes)^[i + 1] s).errno = .EINTR) ↔
    ∀ i < n, outcome (s.calls + i) = .failed .EINTR := by
  induction n with
  | zero =>
    exact iff_of_true (fun i hi => absurd hi i.not_lt_zero) fun i hi => absurd hi i.not_lt_zero
  | succ n ih =>
    rw [Nat.forall_lt_succ_right, Nat.forall_lt_succ_right, ih]
    exact and_congr_right again_iterate_send_iff

theorem sendLoop_returns_iff :
    (Fueled.doWhile (send outcome bytes) (fun s => s.ret = none ∧ s.errno = .EINTR) s).Returns t ↔
      ∃ n, (∀ i < n, outcome (s.calls + i) = .failed .EINTR) ∧
        outcome (s.calls + n) ≠ .failed .EINTR ∧ t = send outcome bytes (interrupted s n) := by
  rw [Fueled.returns_doWhile_iff]
  refine exists_congr fun n => ?_
  rw [forall_again_send_iff]
  refine and_congr_right fun h => ?_
  rw [again_iterate_send_iff h, Function.iterate_succ_apply', iterate_send h]

variable (outcome) in
/-- From call `i` on, the bytes are sent before call `j`, and `sent` of them have gone: calls that
are interrupted are made again, and a buffer without bytes needs no call. -/
def SentBy (bytes : List UInt8) (i j sent : ℕ) : Prop :=
  bytes = [] ∧ j = i ∧ sent = 0 ∨
    bytes ≠ [] ∧ ∃ n m, (∀ k < n, outcome (i + k) = .failed .EINTR) ∧ outcome (i + n) = .done m ∧
      j = i + n + 1 ∧ sent = min m bytes.length

variable (outcome) in
/-- The state after a buffer has been sent. -/
def afterSend (bytes : List UInt8) (s : State) (j sent : ℕ) : State :=
  { s with
    calls := j
    errno := if bytes ≠ [] ∧ outcome s.calls = .failed .EINTR then .EINTR else s.errno
    ret := if bytes = [] then s.ret else some sent
    sent := s.sent ++ bytes.take sent }

/-- The state after a `send` that failed for good. -/
def afterFailure (s : State) (n : ℕ) (e : Errno) : State :=
  { s with calls := s.calls + n + 1, errno := e, ret := none }

theorem send_of_done {m : ℕ} (hne : bytes ≠ [])
    (h : ∀ k < n, outcome (s.calls + k) = .failed .EINTR)
    (hdone : outcome (s.calls + n) = .done m) :
    send outcome bytes (interrupted s n) =
      afterSend outcome bytes s (s.calls + n + 1) (min m bytes.length) := by
  have hinterrupted : outcome s.calls = .failed .EINTR ↔ n ≠ 0 := by
    constructor
    · rintro hfirst rfl
      exact nomatch hfirst.symm.trans hdone
    · intro hn
      exact h 0 (Nat.pos_of_ne_zero hn)
  have hcall : outcome (interrupted s n).calls = .done m := hdone
  rw [send, call, hcall]
  by_cases hn : n = 0
  · simp [afterSend, interrupted, hne, hinterrupted, hn, List.take_eq_take_min (i := m)]
  · simp [afterSend, interrupted, hne, hinterrupted, hn, List.take_eq_take_min (i := m)]

theorem send_of_failed {e : Errno} (hfailed : outcome (s.calls + n) = .failed e) :
    send outcome bytes (interrupted s n) = afterFailure s n e := by
  have hcall : outcome (interrupted s n).calls = .failed e := hfailed
  rw [send, call, hcall]
  rfl

theorem sendBuffer_returns_iff : (sendBuffer outcome bytes s).Returns t ↔
    (∃ sent, SentBy outcome bytes s.calls t.calls sent ∧
      t = afterSend outcome bytes s t.calls sent) ∨
    bytes ≠ [] ∧ ∃ n e, (∀ k < n, outcome (s.calls + k) = .failed .EINTR) ∧
      outcome (s.calls + n) = .failed e ∧ e ≠ .EINTR ∧ t = afterFailure s n e := by
  rw [sendBuffer]
  split_ifs with hpos
  · have hne := List.length_pos_iff.1 hpos
    rw [sendLoop_returns_iff]
    constructor
    · rintro ⟨n, hall, hend, rfl⟩
      cases hcall : outcome (s.calls + n) with
      | failed e =>
        exact Or.inr ⟨hne, n, e, hall, hcall, fun he => hend (he ▸ hcall), send_of_failed hcall⟩
      | done m =>
        rw [send_of_done hne hall hcall]
        exact Or.inl ⟨_, Or.inr ⟨hne, n, m, hall, hcall, rfl, rfl⟩, rfl⟩
    · rintro (⟨sent, ⟨hnil, -, -⟩ | ⟨-, n, m, hall, hcall, hcalls, rfl⟩, ht⟩ |
        ⟨-, n, e, hall, hcall, he, rfl⟩)
      · exact absurd hnil hne
      · refine ⟨n, hall, hcall ▸ Outcome.noConfusion, ?_⟩
        rw [send_of_done hne hall hcall, ← hcalls]
        exact ht
      · exact ⟨n, hall, fun hfailed => he (Outcome.failed.inj (hcall.symm.trans hfailed)),
          (send_of_failed hcall).symm⟩
  · have hnil : bytes = [] := List.eq_nil_of_length_eq_zero (by omega)
    have hsame : afterSend outcome bytes s s.calls 0 = s := by simp [afterSend, hnil]
    rw [Fueled.returns_pure_iff]
    constructor
    · rintro rfl
      exact Or.inl ⟨0, Or.inl ⟨hnil, rfl, rfl⟩, hsame.symm⟩
    · rintro (⟨sent, ⟨-, hcalls, rfl⟩ | ⟨hne, -⟩, ht⟩ | ⟨hne, -⟩)
      · rwa [hcalls, hsame] at ht
      · exact absurd hnil hne
      · exact absurd hnil hne

theorem sendBuffer_ends (h : StopsInterrupting outcome) (bytes : List UInt8) (s : State) :
    ∃ t, (sendBuffer outcome bytes s).Returns t := by
  rw [sendBuffer]
  split_ifs
  · have hend : ∃ n, outcome (s.calls + n) ≠ .failed .EINTR := by
      obtain ⟨first, hfirst⟩ := h
      exact ⟨first, (hfirst _ (Nat.le_add_left first s.calls)).1⟩
    exact ⟨_, sendLoop_returns_iff.2 ⟨Nat.find hend,
      fun i hi => Decidable.not_not.1 (Nat.find_min hend hi), Nat.find_spec hend, rfl⟩⟩
  · exact ⟨s, Fueled.returns_pure_iff.2 rfl⟩

/-! ### The loop over `sendfile` -/

theorem calls_sendfile (s : State) : (sendfile outcome target contents s).calls = s.calls + 1 := by
  cases h : outcome s.calls with
  | failed e => simp [sendfile, call, h]
  | done n => cases target <;> simp [sendfile, call, h]

theorem ret_sendfile_iff : (sendfile outcome target contents s).ret ≠ none ↔
    Succeeds outcome s.calls := by
  cases h : outcome s.calls with
  | failed e => simp [sendfile, call, h, Succeeds]
  | done n => cases target <;> simp [sendfile, h, Succeeds]

theorem errno_sendfile (h : Succeeds outcome s.calls) :
    (sendfile outcome target contents s).errno = s.errno := by
  obtain ⟨n, hn⟩ := h
  cases target <;> simp [sendfile, call, hn]

theorem again_sendfile_iff : ((sendfile outcome target contents s).ret ≠ none ∧
      Retried (sendfile outcome target contents s).errno) ↔
    Succeeds outcome s.calls ∧ Retried s.errno := by
  rw [ret_sendfile_iff]
  exact and_congr_right fun h => by rw [errno_sendfile h]

theorem sendfileLoop_of_not_retried (h : ¬Retried s.errno) :
    (sendfileLoop outcome target contents s).Returns (sendfile outcome target contents s) :=
  Fueled.returns_doWhile_iff.2 ⟨0, fun i hi => absurd hi i.not_lt_zero,
    fun hagain => h (again_sendfile_iff.1 hagain).2, rfl⟩

theorem iterate_sendfile (h : ∀ i < n, Succeeds outcome (s.calls + i)) :
    ((sendfile outcome target contents)^[n] s).calls = s.calls + n ∧
      ((sendfile outcome target contents)^[n] s).errno = s.errno := by
  induction n with
  | zero => exact ⟨rfl, rfl⟩
  | succ n ih =>
    obtain ⟨hcalls, herrno⟩ := ih fun i hi => h i (Nat.lt_succ_of_lt hi)
    have hcall := h n (Nat.lt_succ_self n)
    rw [← hcalls] at hcall
    rw [Function.iterate_succ_apply', calls_sendfile, hcalls, errno_sendfile hcall, herrno]
    exact ⟨rfl, rfl⟩

theorem succeeds_of_again (h : ∀ i < n, ((sendfile outcome target contents)^[i + 1] s).ret ≠ none ∧
      Retried ((sendfile outcome target contents)^[i + 1] s).errno) :
    ∀ i < n, Succeeds outcome (s.calls + i) := by
  induction n with
  | zero => exact fun i hi => absurd hi i.not_lt_zero
  | succ n ih =>
    rw [Nat.forall_lt_succ_right] at h ⊢
    have hbefore := ih h.1
    refine ⟨hbefore, ?_⟩
    have hagain := h.2
    rw [Function.iterate_succ_apply'] at hagain
    have hcall := (again_sendfile_iff.1 hagain).1
    rwa [(iterate_sendfile hbefore).1] at hcall

theorem sendfileLoop_returns (h : (sendfileLoop outcome target contents s).Returns t) :
    t.ret = none ∨ ¬Retried s.errno ∧ t = sendfile outcome target contents s := by
  obtain ⟨n, hall, hend, rfl⟩ := Fueled.returns_doWhile_iff.1 h
  by_cases hretried : Retried s.errno
  · refine Or.inl (Decidable.not_not.1 fun hret => hend ?_)
    have herrno : ((sendfile outcome target contents)^[n] s).errno = s.errno :=
      (iterate_sendfile (succeeds_of_again hall)).2
    rw [Function.iterate_succ_apply'] at hret ⊢
    rw [again_sendfile_iff, herrno]
    exact ⟨ret_sendfile_iff.1 hret, hretried⟩
  · cases n with
    | zero => exact Or.inr ⟨hretried, rfl⟩
    | succ n => exact absurd (again_sendfile_iff.1 (hall 0 (Nat.succ_pos n))).2 hretried

theorem sendfileLoop_ends_iff (h : Retried s.errno) :
    (∃ t, (sendfileLoop outcome target contents s).Returns t) ↔
      ∃ k ≥ s.calls, ¬Succeeds outcome k := by
  refine Fueled.exists_returns_doWhile_iff.trans ⟨?_, ?_⟩
  · rintro ⟨n, hend⟩
    by_contra hnone
    have hall : ∀ k ≥ s.calls, Succeeds outcome k := fun k hk =>
      Classical.not_not.1 fun hfailed => hnone ⟨k, hk, hfailed⟩
    have hiterate : ((sendfile outcome target contents)^[n] s).calls = s.calls + n ∧
        ((sendfile outcome target contents)^[n] s).errno = s.errno :=
      iterate_sendfile fun i _ => hall _ (Nat.le_add_right s.calls i)
    obtain ⟨hcalls, herrno⟩ := hiterate
    rw [Function.iterate_succ_apply', again_sendfile_iff, hcalls, herrno] at hend
    exact hend ⟨hall _ (Nat.le_add_right s.calls n), h⟩
  · rintro ⟨k, hk, hfailed⟩
    by_contra hnone
    obtain ⟨n, rfl⟩ := Nat.exists_eq_add_of_le hk
    have hall (i : ℕ) : ((sendfile outcome target contents)^[i + 1] s).ret ≠ none ∧
        Retried ((sendfile outcome target contents)^[i + 1] s).errno :=
      Decidable.not_not.1 fun hend => hnone ⟨i, hend⟩
    exact hfailed (succeeds_of_again (fun i _ => hall i) n (Nat.lt_succ_self n))

/-! ### The whole function -/

/-- `errno` says that a call has been interrupted when `sendfile` is called: it said so before, or
the first `send` of the head was interrupted, which successful calls do not take back. -/
def Stale (outcome : ℕ → Outcome) (buffers : Option TransmitFileBuffers) (errno : Errno) : Prop :=
  Retried errno ∨ headBytes buffers ≠ [] ∧ outcome 1 = .failed .EINTR

/-- Where the file is open and the head has been sent before call `j`, `fstat` succeeds; a call for
which `errno` is stale is followed by a failure; and where all calls succeed, each of them transfers
everything that it is given. -/
def SendsAll (outcome : ℕ → Outcome) (buffers : Option TransmitFileBuffers) (contents : List UInt8)
    (errno : Errno) : Prop :=
  Succeeds outcome 0 → ∀ j sent, SentBy outcome (headBytes buffers) 1 j sent →
    Succeeds outcome j ∧
    (Stale outcome buffers errno → ∃ k > j, ¬Succeeds outcome k) ∧
    (¬Stale outcome buffers errno → ∀ n l sent', outcome (j + 1) = .done n →
      SentBy outcome (tailBytes buffers) (j + 2) l sent' → Succeeds outcome l →
        sent = (headBytes buffers).length ∧ contents.length ≤ n ∧
          sent' = (tailBytes buffers).length)

variable {buffers : Option TransmitFileBuffers} {errno : Errno} {l sent' : ℕ}
  {result : WaitStatus × State}

theorem ret_call_iff : (call outcome s).ret ≠ none ↔ Succeeds outcome s.calls := by
  cases h : outcome s.calls with
  | failed e => simp [call, h, Succeeds]
  | done n => simp [call, h, Succeeds]

theorem ret_fstat_iff : (fstat outcome contents s).ret ≠ none ↔ Succeeds outcome s.calls := by
  cases h : outcome s.calls with
  | failed e => simp [fstat, call, h, Succeeds]
  | done n => simp [fstat, call, h, Succeeds]

theorem fstat_of_succeeds (h : Succeeds outcome s.calls) : ∃ n, fstat outcome contents s =
    { s with calls := s.calls + 1, ret := some n, size := contents.length } := by
  obtain ⟨n, hn⟩ := h
  exact ⟨n, by simp [fstat, call, hn]⟩

theorem open_of_succeeds (errno : Errno) (h : Succeeds outcome 0) :
    ∃ n, call outcome (start errno) = { start errno with calls := 1, ret := some n } := by
  obtain ⟨n, hn⟩ := h
  have hcall : outcome (start errno).calls = .done n := hn
  exact ⟨n, by rw [call, hcall]; rfl⟩

theorem ret_afterSend (h : s.ret ≠ none) : (afterSend outcome bytes s j sent).ret ≠ none := by
  rw [afterSend]
  dsimp only
  split_ifs
  · exact h
  · exact Option.some_ne_none _

theorem ret_sockClose_iff : (sockClose outcome s).ret ≠ none ↔ Succeeds outcome s.calls :=
  ret_call_iff

theorem sendTail_returns_iff : (sendTail outcome buffers s).Returns result ↔
    s.ret = none ∧ result = (.kWaitStatusFailure, sockClose outcome (storeLastError s)) ∨
    s.ret ≠ none ∧ ∃ t, (sendBuffer outcome (tailBytes buffers) s).Returns t ∧
      (t.ret = none ∧ result = (.kWaitStatusFailure, sockClose outcome (storeLastError t)) ∨
        t.ret ≠ none ∧ (¬Succeeds outcome t.calls ∧
            result = (.kWaitStatusFailure, storeLastError (sockClose outcome t)) ∨
          Succeeds outcome t.calls ∧ result = (.kWaitStatusSuccess, sockClose outcome t))) := by
  simp only [sendTail, Fueled.returns_ite_iff, Fueled.returns_bind_iff, Fueled.returns_pure_iff,
    ← ret_sockClose_iff, ne_eq, not_not]

theorem sendContents_returns_iff : (sendContents outcome target buffers contents s).Returns result ↔
    s.ret = none ∧ result = (.kWaitStatusFailure, sockClose outcome (storeLastError s)) ∨
    s.ret ≠ none ∧ (¬Succeeds outcome s.calls ∧
        result = (.kWaitStatusFailure, storeLastError (fstat outcome contents s)) ∨
      Succeeds outcome s.calls ∧ ∃ t,
        (sendfileLoop outcome target contents (fstat outcome contents s)).Returns t ∧
          (sendTail outcome buffers t).Returns result) := by
  have hstat : Succeeds outcome s.calls ↔ (fstat outcome contents s).ret ≠ none :=
    ret_fstat_iff.symm
  simp only [sendContents, Fueled.returns_ite_iff, Fueled.returns_bind_iff,
    Fueled.returns_pure_iff, hstat, ne_eq, not_not]

theorem sendFile_returns_iff : (sendFile outcome target buffers contents errno).Returns result ↔
    ¬Succeeds outcome 0 ∧
      result = (.kWaitStatusFailure, storeLastError (call outcome (start errno))) ∨
    Succeeds outcome 0 ∧ ∃ t,
      (sendBuffer outcome (headBytes buffers) (call outcome (start errno))).Returns t ∧
        (sendContents outcome target buffers contents t).Returns result := by
  have hopen : Succeeds outcome 0 ↔ (call outcome (start errno)).ret ≠ none :=
    (ret_call_iff (s := start errno)).symm
  simp only [sendFile, Fueled.returns_ite_iff, Fueled.returns_bind_iff, Fueled.returns_pure_iff,
    hopen, ne_eq, not_not]

/-! ### What a run does -/

/-- The state in which `sendfile` is called first. -/
def beforeSendfile (outcome : ℕ → Outcome) (buffers : Option TransmitFileBuffers)
    (contents : List UInt8) (errno : Errno) (j sent : ℕ) : State :=
  fstat outcome contents
    (afterSend outcome (headBytes buffers) (call outcome (start errno)) j sent)

theorem beforeSendfile_eq (buffers : Option TransmitFileBuffers) (contents : List UInt8)
    (errno : Errno) (sent : ℕ) (hopen : Succeeds outcome 0) (hstat : Succeeds outcome j) :
    ∃ n, beforeSendfile outcome buffers contents errno j sent =
      { calls := j + 1
        errno := if headBytes buffers ≠ [] ∧ outcome 1 = .failed .EINTR then .EINTR else errno
        ret := some n
        lastError := none
        sent := (headBytes buffers).take sent
        position := 0
        size := contents.length
        closed := false } := by
  obtain ⟨n, hn⟩ := open_of_succeeds errno hopen
  rw [beforeSendfile, hn]
  exact fstat_of_succeeds hstat

theorem retried_beforeSendfile_iff (hopen : Succeeds outcome 0) (hstat : Succeeds outcome j) :
    Retried (beforeSendfile outcome buffers contents errno j sent).errno ↔
      Stale outcome buffers errno := by
  obtain ⟨n, hn⟩ := beforeSendfile_eq buffers contents errno sent hopen hstat
  rw [hn, Stale]
  dsimp only
  split_ifs with hinterrupted
  · exact iff_of_true (Or.inl rfl) (Or.inr hinterrupted)
  · exact (or_iff_left hinterrupted).symm

theorem calls_beforeSendfile (hopen : Succeeds outcome 0) (hstat : Succeeds outcome j) :
    (beforeSendfile outcome buffers contents errno j sent).calls = j + 1 := by
  obtain ⟨n, hn⟩ := beforeSendfile_eq buffers contents errno sent hopen hstat
  rw [hn]

theorem sent_sendfile (hopen : Succeeds outcome 0) (hstat : Succeeds outcome j)
    (hdone : outcome (j + 1) = .done n) :
    (sendfile outcome target contents
      (beforeSendfile outcome buffers contents errno j sent)).sent =
        (headBytes buffers).take sent ++ contents.take n := by
  obtain ⟨m, hm⟩ := beforeSendfile_eq buffers contents errno sent hopen hstat
  rw [hm]
  cases target with
  | darwin => simp [sendfile, hdone, List.take_length]
  | other => simp [sendfile, hdone, List.take_length]

theorem sent_sockClose (s : State) : (sockClose outcome s).sent = s.sent := by
  cases h : outcome s.calls with
  | failed e => simp [sockClose, call, h]
  | done n => simp [sockClose, call, h]

theorem returns_iff_of_sentBy (hopen : Succeeds outcome 0)
    (hsent : SentBy outcome (headBytes buffers) 1 j sent) :
    (sendFile outcome target buffers contents errno).Returns result ↔
      ¬Succeeds outcome j ∧ result = (.kWaitStatusFailure,
        storeLastError (beforeSendfile outcome buffers contents errno j sent)) ∨
      Succeeds outcome j ∧ ∃ t, (sendfileLoop outcome target contents
          (beforeSendfile outcome buffers contents errno j sent)).Returns t ∧
        (sendTail outcome buffers t).Returns result := by
  have hret : (call outcome (start errno)).ret ≠ none := ret_call_iff.2 hopen
  have hcalls : (call outcome (start errno)).calls = 1 := by
    obtain ⟨n, hn⟩ := open_of_succeeds errno hopen
    rw [hn]
  have hhead : (sendBuffer outcome (headBytes buffers) (call outcome (start errno))).Returns
      (afterSend outcome (headBytes buffers) (call outcome (start errno)) j sent) :=
    sendBuffer_returns_iff.2 (Or.inl ⟨sent, hcalls.symm ▸ hsent, rfl⟩)
  rw [sendFile, if_neg hret, Fueled.returns_bind hhead, sendContents_returns_iff]
  constructor
  · rintro (⟨hfailed, -⟩ | ⟨-, h⟩)
    · exact absurd hfailed (ret_afterSend hret)
    · exact h
  · exact fun h => Or.inr ⟨ret_afterSend hret, h⟩

theorem returns_success (target : Target) (hopen : Succeeds outcome 0)
    (hsent : SentBy outcome (headBytes buffers) 1 j sent) (hstat : Succeeds outcome j)
    (hstale : ¬Stale outcome buffers errno) (hdone : outcome (j + 1) = .done n)
    (htail : SentBy outcome (tailBytes buffers) (j + 2) l sent') (hclose : Succeeds outcome l) :
    ∃ s, (sendFile outcome target buffers contents errno).Returns (.kWaitStatusSuccess, s) ∧
      s.sent = (headBytes buffers).take sent ++ contents.take n ++
        (tailBytes buffers).take sent' := by
  obtain ⟨u, hu⟩ : ∃ u, sendfile outcome target contents
      (beforeSendfile outcome buffers contents errno j sent) = u := ⟨_, rfl⟩
  have hcalls : u.calls = j + 2 := by
    rw [← hu, calls_sendfile, calls_beforeSendfile hopen hstat]
  have hret : u.ret ≠ none := by
    rw [← hu, ret_sendfile_iff, calls_beforeSendfile hopen hstat]
    exact ⟨n, hdone⟩
  have hloop : (sendfileLoop outcome target contents
      (beforeSendfile outcome buffers contents errno j sent)).Returns u :=
    hu ▸ sendfileLoop_of_not_retried (mt (retried_beforeSendfile_iff hopen hstat).1 hstale)
  have hbuffer : (sendBuffer outcome (tailBytes buffers) u).Returns
      (afterSend outcome (tailBytes buffers) u l sent') := by
    refine sendBuffer_returns_iff.2 (Or.inl ⟨sent', ?_, rfl⟩)
    rw [hcalls]
    exact htail
  refine ⟨_, (returns_iff_of_sentBy hopen hsent).2 (Or.inr ⟨hstat, u, hloop,
    sendTail_returns_iff.2 (Or.inr ⟨hret, _, hbuffer,
      Or.inr ⟨ret_afterSend hret, Or.inr ⟨hclose, rfl⟩⟩⟩)⟩), ?_⟩
  rw [sent_sockClose, afterSend, ← hu, sent_sendfile hopen hstat hdone]

theorem returns_cases (hopen : Succeeds outcome 0)
    (h : (sendFile outcome target buffers contents errno).Returns result) :
    result.1 = .kWaitStatusFailure ∧ result.2.closed = true ∨
    (∃ j sent, SentBy outcome (headBytes buffers) 1 j sent ∧ ¬Succeeds outcome j) ∨
    ∃ j sent n l sent', SentBy outcome (headBytes buffers) 1 j sent ∧
      ¬Stale outcome buffers errno ∧ outcome (j + 1) = .done n ∧
      SentBy outcome (tailBytes buffers) (j + 2) l sent' ∧ Succeeds outcome l ∧
      result.2.closed = true ∧ result.2.sent = (headBytes buffers).take sent ++ contents.take n ++
        (tailBytes buffers).take sent' := by
  obtain ⟨hfailed, -⟩ | ⟨-, t, ht, hcontents⟩ := sendFile_returns_iff.1 h
  · exact absurd hopen hfailed
  have hcalls : (call outcome (start errno)).calls = 1 := by
    obtain ⟨n, hn⟩ := open_of_succeeds errno hopen
    rw [hn]
  obtain ⟨sent, hsent, -⟩ | ⟨-, n, e, -, -, -, rfl⟩ := sendBuffer_returns_iff.1 ht
  · rw [hcalls] at hsent
    obtain ⟨hstat, -⟩ | ⟨hstat, u, hu, htail⟩ := (returns_iff_of_sentBy hopen hsent).1 h
    · exact Or.inr (Or.inl ⟨t.calls, sent, hsent, hstat⟩)
    obtain ⟨-, rfl⟩ | ⟨hret, w, hw, hend⟩ := sendTail_returns_iff.1 htail
    · exact Or.inl ⟨rfl, rfl⟩
    obtain ⟨-, rfl⟩ | ⟨hretw, ⟨-, rfl⟩ | ⟨hclose, rfl⟩⟩ := hend
    · exact Or.inl ⟨rfl, rfl⟩
    · exact Or.inl ⟨rfl, rfl⟩
    -- all calls have succeeded
    obtain hnone | ⟨hretried, rfl⟩ := sendfileLoop_returns hu
    · exact absurd hnone hret
    rw [ret_sendfile_iff, calls_beforeSendfile hopen hstat] at hret
    obtain ⟨n, hdone⟩ := hret
    obtain ⟨sent', hsent', hsentw⟩ | ⟨-, n, e, -, -, -, rfl⟩ := sendBuffer_returns_iff.1 hw
    · rw [calls_sendfile, calls_beforeSendfile hopen hstat] at hsent'
      refine Or.inr (Or.inr ⟨t.calls, sent, n, w.calls, sent', hsent,
        mt (retried_beforeSendfile_iff hopen hstat).2 hretried, hdone, hsent', hclose, rfl, ?_⟩)
      dsimp only
      rw [sent_sockClose, hsentw, afterSend, sent_sendfile hopen hstat hdone]
    · exact absurd rfl hretw
  · obtain ⟨-, rfl⟩ | ⟨hret, -⟩ := sendContents_returns_iff.1 hcontents
    · exact Or.inl ⟨rfl, rfl⟩
    · exact absurd rfl hret

theorem closed_beforeSendfile (hopen : Succeeds outcome 0) :
    (beforeSendfile outcome buffers contents errno j sent).closed = false := by
  obtain ⟨n, hn⟩ := open_of_succeeds errno hopen
  rw [beforeSendfile, hn]
  cases h : outcome j with
  | failed e => simp [fstat, call, afterSend, h, start]
  | done m => simp [fstat, call, afterSend, h, start]

theorem sent_le (h : SentBy outcome bytes i j sent) : sent ≤ bytes.length := by
  obtain ⟨-, -, rfl⟩ | ⟨-, n, m, -, -, -, rfl⟩ := h
  · exact Nat.zero_le _
  · exact Nat.min_le_right _ _

theorem sendTail_ends (h : StopsInterrupting outcome) (buffers : Option TransmitFileBuffers)
    (s : State) : ∃ result, (sendTail outcome buffers s).Returns result := by
  by_cases hret : s.ret = none
  · exact ⟨_, sendTail_returns_iff.2 (Or.inl ⟨hret, rfl⟩)⟩
  obtain ⟨t, ht⟩ := sendBuffer_ends h (tailBytes buffers) s
  by_cases hrett : t.ret = none
  · exact ⟨_, sendTail_returns_iff.2 (Or.inr ⟨hret, t, ht, Or.inl ⟨hrett, rfl⟩⟩)⟩
  by_cases hclose : Succeeds outcome t.calls
  · exact ⟨_, sendTail_returns_iff.2
      (Or.inr ⟨hret, t, ht, Or.inr ⟨hrett, Or.inr ⟨hclose, rfl⟩⟩⟩)⟩
  · exact ⟨_, sendTail_returns_iff.2
      (Or.inr ⟨hret, t, ht, Or.inr ⟨hrett, Or.inl ⟨hclose, rfl⟩⟩⟩)⟩

theorem ends_of_sendsAll (h : SendsAll outcome buffers contents errno)
    (hstops : StopsInterrupting outcome) :
    ∃ result, (sendFile outcome target buffers contents errno).Returns result := by
  rcases Classical.em (Succeeds outcome 0) with hopen | hopen
  case inr => exact ⟨_, sendFile_returns_iff.2 (Or.inl ⟨hopen, rfl⟩)⟩
  have hcalls : (call outcome (start errno)).calls = 1 := by
    obtain ⟨n, hn⟩ := open_of_succeeds errno hopen
    rw [hn]
  obtain ⟨t, ht⟩ := sendBuffer_ends hstops (headBytes buffers) (call outcome (start errno))
  obtain ⟨sent, hsent, -⟩ | ⟨-, n, e, -, -, -, rfl⟩ := sendBuffer_returns_iff.1 ht
  · rw [hcalls] at hsent
    obtain ⟨hstat, hstale, -⟩ := h hopen t.calls sent hsent
    obtain ⟨u, hu⟩ : ∃ u, (sendfileLoop outcome target contents
        (beforeSendfile outcome buffers contents errno t.calls sent)).Returns u := by
      by_cases hretried : Stale outcome buffers errno
      · refine (sendfileLoop_ends_iff ((retried_beforeSendfile_iff hopen hstat).2 hretried)).2 ?_
        rw [calls_beforeSendfile hopen hstat]
        exact hstale hretried
      · exact ⟨_, sendfileLoop_of_not_retried
          (mt (retried_beforeSendfile_iff hopen hstat).1 hretried)⟩
    obtain ⟨result, hresult⟩ := sendTail_ends hstops buffers u
    exact ⟨result, (returns_iff_of_sentBy hopen hsent).2 (Or.inr ⟨hstat, u, hu, hresult⟩)⟩
  · exact ⟨_, sendFile_returns_iff.2
      (Or.inr ⟨hopen, _, ht, sendContents_returns_iff.2 (Or.inl ⟨rfl, rfl⟩)⟩)⟩

theorem sendsAll_of_sound (h : Sound outcome target buffers contents errno) :
    SendsAll outcome buffers contents errno := by
  intro hopen j sent hsent
  have hstat : Succeeds outcome j := by
    by_contra hfailed
    have hclosed := h.closes _ _
      ((returns_iff_of_sentBy hopen hsent).2 (Or.inl ⟨hfailed, rfl⟩)) hopen
    exact Bool.false_ne_true ((closed_beforeSendfile hopen).symm.trans hclosed)
  refine ⟨hstat, fun hstale => ?_, fun hstale n l sent' hdone htail hclose => ?_⟩
  · by_contra hnone
    have hall : ∀ k > j, Succeeds outcome k := fun k hk =>
      Classical.not_not.1 fun hfailed => hnone ⟨k, hk, hfailed⟩
    have hstops : StopsInterrupting outcome := by
      refine ⟨j + 1, fun k hk => ?_⟩
      obtain ⟨n, hn⟩ := hall k hk
      rw [hn]
      exact ⟨Outcome.noConfusion, Outcome.noConfusion⟩
    obtain ⟨result, hresult⟩ := h.ends hstops
    obtain ⟨hfailed, -⟩ | ⟨-, t, ht, -⟩ := (returns_iff_of_sentBy hopen hsent).1 hresult
    · exact hfailed hstat
    · obtain ⟨k, hk, hfailed⟩ :=
        (sendfileLoop_ends_iff ((retried_beforeSendfile_iff hopen hstat).2 hstale)).1 ⟨t, ht⟩
      rw [calls_beforeSendfile hopen hstat] at hk
      exact hfailed (hall k hk)
  · obtain ⟨s, hreturns, hbytes⟩ :=
      returns_success target hopen hsent hstat hstale hdone htail hclose
    have hlength := congrArg List.length (hbytes.symm.trans (h.sends s hreturns))
    rw [List.length_append, List.length_append, List.length_append, List.length_append,
      List.length_take, List.length_take, List.length_take] at hlength
    have hhead := sent_le hsent
    have htail' := sent_le htail
    omega

theorem sound_iff (outcome : ℕ → Outcome) (target : Target) (buffers : Option TransmitFileBuffers)
    (contents : List UInt8) (errno : Errno) :
    Sound outcome target buffers contents errno ↔ SendsAll outcome buffers contents errno := by
  refine ⟨sendsAll_of_sound, fun h => ⟨ends_of_sendsAll h, fun status s hreturns hopen => ?_,
    fun s hreturns => ?_⟩⟩
  · obtain ⟨-, hclosed⟩ | ⟨j, sent, hsent, hstat⟩ |
        ⟨j, sent, n, l, sent', -, -, -, -, -, hclosed, -⟩ :=
      returns_cases hopen hreturns
    · exact hclosed
    · exact absurd (h hopen j sent hsent).1 hstat
    · exact hclosed
  · have hopen : Succeeds outcome 0 := by
      obtain ⟨-, hresult⟩ | ⟨hopen, -⟩ := sendFile_returns_iff.1 hreturns
      · exact WaitStatus.noConfusion (congrArg Prod.fst hresult)
      · exact hopen
    obtain ⟨hstatus, -⟩ | ⟨j, sent, hsent, hstat⟩ |
        ⟨j, sent, n, l, sent', hsent, hstale, hdone, htail, hclose, -, hbytes⟩ :=
      returns_cases hopen hreturns
    · exact WaitStatus.noConfusion hstatus
    · exact absurd (h hopen j sent hsent).1 hstat
    · obtain ⟨rfl, hle, rfl⟩ := (h hopen j sent hsent).2.2 hstale n l sent' hdone htail hclose
      rw [List.take_length, List.take_of_length_le hle, List.take_length] at hbytes
      exact hbytes

/-- `fstat` fails, and nothing else. -/
def statFails : ℕ → Outcome
  | 1 => .failed (.other 0)
  | _ => .done 0

/-- The file stays open. -/
theorem not_sound_statFails : ¬Sound statFails .other none [] (.other 0) := by
  intro h
  have hclosed := h.closes .kWaitStatusFailure _ ⟨0, rfl⟩ ⟨0, rfl⟩
  exact Bool.noConfusion hclosed

end SendFile

end Il2Cpp
