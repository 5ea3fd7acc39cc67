import Il2Cpp.LTS.Basic
import Il2Cpp.Data.MachineInt

/-!
# The time that is left of a timed wait

The loop of `WaitObject::Wait` with a timeout.  A round is one call of `ConditionTimedWait`; between
the two readings of the clock it takes a number of ticks of 100 ns.

* `nextRemaining` : how the round that is over changes `remainingWaitTime`.  The ticks are narrowed
  to `int32_t` before they are divided.
* `step` : the rounds as steps.
* `remaining_exact` : in every run whose rounds take less than `2 ^ 31` ticks, a little less than
  215 seconds, the time that remains is the timeout without the milliseconds of the rounds, and a
  wait that goes on has not taken the timeout yet.  The part of a millisecond that a round takes
  besides is not counted.
-/

namespace Il2Cpp

namespace TimedWait

open IntType

/-- `remainingWaitTime` after a round that has taken some ticks. -/
def nextRemaining (remainingWaitTime : ℤ) (ticks : ℤ) : ℤ :=
  let waitTimeThisRound := (int32.wrap ticks).tdiv 10000
  if waitTimeThisRound > remainingWaitTime then 0
  else int32.wrap (remainingWaitTime - waitTimeThisRound)

/-- How far the loop is. -/
inductive Status
  /-- `m_Count` is zero -/
  | waiting
  /-- `m_Count` is not zero -/
  | released
  /-- `kWaitStatusTimeout` -/
  | timedOut
  deriving DecidableEq

/-- The loop of a timed wait. -/
structure State where
  timeoutMS : ℕ
  remainingWaitTime : ℤ
  status : Status
  /-- The ticks of the rounds that have ended with a wakeup, the last one first. -/
  rounds : List ℕ
  deriving DecidableEq

/-- A round of the loop. -/
inductive Round
  /-- the thread is woken, but `m_Count` is zero -/
  | wakeup (ticks : ℕ)
  /-- the thread is woken, and `m_Count` is not zero -/
  | release (ticks : ℕ)
  /-- the wait times out -/
  | timeout

/-- The loop, before its first round. -/
def init (timeoutMS : ℕ) : State := ⟨timeoutMS, int32.wrap timeoutMS, .waiting, []⟩

/-- The state after a wakeup. -/
def State.wake (s : State) (ticks : ℕ) (status : Status) : State :=
  { s with
    remainingWaitTime := nextRemaining s.remainingWaitTime ticks
    status
    rounds := ticks :: s.rounds }

@[simp] theorem State.wake_rounds (s : State) (ticks : ℕ) (status : Status) :
    (s.wake ticks status).rounds = ticks :: s.rounds := by
  rw [State.wake]

@[simp] theorem State.wake_remainingWaitTime (s : State) (ticks : ℕ) (status : Status) :
    (s.wake ticks status).remainingWaitTime = nextRemaining s.remainingWaitTime ticks := by
  rw [State.wake]

def step (s : State) (r : Round) : Option State :=
  if s.status = .waiting then
    match r with
    | .wakeup ticks => some (s.wake ticks .waiting)
    | .release ticks => some (s.wake ticks .released)
    | .timeout => some { s with status := .timedOut }
  else none

def lts : LTS State Round := .ofFun step

/-- A round that ends with a wakeup takes less than `2 ^ 31` ticks. -/
def Short (_ : State) : Round → Prop
  | .wakeup ticks | .release ticks => ticks < 2 ^ 31
  | .timeout => True

/-- The whole milliseconds of some rounds, one by one. -/
def totalMS (rounds : List ℕ) : ℕ := (rounds.map (· / 10000)).sum

@[simp] theorem totalMS_nil : totalMS [] = 0 := rfl

@[simp] theorem totalMS_cons (ticks : ℕ) (rounds : List ℕ) :
    totalMS (ticks :: rounds) = ticks / 10000 + totalMS rounds := by
  rw [totalMS, List.map_cons, List.sum_cons, totalMS]

/-! ### A round -/

theorem nextRemaining_of_lt {remaining : ℤ} {ticks : ℕ} (h₀ : 0 ≤ remaining)
    (h₁ : remaining < 2 ^ 31) (h : ticks < 2 ^ 31) :
    nextRemaining remaining ticks = max 0 (remaining - (ticks / 10000 : ℕ)) := by
  have hwrap : int32.wrap ticks = ticks := wrap_of_fits (fits_int32.2 (by omega))
  have hdiv : (ticks : ℤ).tdiv 10000 = (ticks / 10000 : ℕ) := by
    rw [Int.tdiv_eq_ediv_of_nonneg (by omega)]
    push_cast
    rfl
  rw [nextRemaining, hwrap, hdiv]
  split_ifs with hgt
  · omega
  · rw [wrap_of_fits (fits_int32.2 (by omega))]
    omega

/-! ### Runs -/

/-- **The time that remains** is the timeout without the milliseconds of the rounds. -/
structure Exact (timeoutMS : ℕ) (s : State) : Prop where
  remaining : s.remainingWaitTime = (timeoutMS - totalMS s.rounds : ℕ)

theorem Exact.init {timeoutMS : ℕ} (h : timeoutMS < 2 ^ 31) :
    Exact timeoutMS (init timeoutMS) := by
  constructor
  have hwrap : int32.wrap timeoutMS = timeoutMS := wrap_of_fits (fits_int32.2 (by omega))
  rw [TimedWait.init, totalMS_nil, Nat.sub_zero]
  exact hwrap

theorem Exact.wake_remaining {timeoutMS : ℕ} {s : State} {ticks : ℕ} (hs : Exact timeoutMS s)
    (htimeout : timeoutMS < 2 ^ 31) (h : ticks < 2 ^ 31) (status : Status) :
    (s.wake ticks status).remainingWaitTime =
      max 0 (s.remainingWaitTime - (ticks / 10000 : ℕ)) := by
  have hremaining := hs.remaining
  rw [State.wake_remainingWaitTime]
  exact nextRemaining_of_lt (by omega) (by omega) h

theorem Exact.wake {timeoutMS : ℕ} {s : State} {ticks : ℕ} (hs : Exact timeoutMS s)
    (htimeout : timeoutMS < 2 ^ 31) (h : ticks < 2 ^ 31) (status : Status) :
    Exact timeoutMS (s.wake ticks status) := by
  have hremaining := hs.remaining
  have hnext := hs.wake_remaining htimeout h status
  constructor
  rw [hnext, State.wake_rounds, totalMS_cons]
  omega

theorem Exact.step {timeoutMS : ℕ} {s s' : State} {r : Round} (hs : Exact timeoutMS s)
    (htimeout : timeoutMS < 2 ^ 31) (hr : Short s r) (h : step s r = some s') :
    Exact timeoutMS s' := by
  rw [TimedWait.step.eq_def] at h
  split_ifs at h
  cases r with
  | wakeup ticks =>
    obtain rfl := Option.some.inj h
    exact hs.wake htimeout hr _
  | release ticks =>
    obtain rfl := Option.some.inj h
    exact hs.wake htimeout hr _
  | timeout =>
    obtain rfl := Option.some.inj h
    constructor
    rw [hs.remaining]

theorem sum_le_totalMS (rounds : List ℕ) :
    10000 * totalMS rounds ≤ rounds.sum ∧
      rounds.sum ≤ 10000 * totalMS rounds + 9999 * rounds.length := by
  induction rounds with
  | nil => simp [totalMS]
  | cons ticks rounds ih =>
    simp only [totalMS_cons, List.sum_cons, List.length_cons]
    omega

theorem sum_eq_totalMS {rounds : List ℕ} (h : ∀ ticks ∈ rounds, 10000 ∣ ticks) :
    rounds.sum = 10000 * totalMS rounds := by
  induction rounds with
  | nil => rfl
  | cons ticks rounds ih =>
    obtain ⟨hticks, hrounds⟩ := List.forall_mem_cons.1 h
    have := ih hrounds
    simp only [totalMS_cons, List.sum_cons]
    omega

/-- In every run whose rounds each take less than `2 ^ 31` ticks: a wakeup subtracts its
milliseconds from what remains; what remains is the timeout without the milliseconds of all rounds;
and as long as something remains, the rounds have not taken the timeout, in whole milliseconds, in
ticks but for less than a millisecond for each round, and in ticks if the rounds take whole
milliseconds. -/
theorem remaining_exact {timeoutMS : ℕ} {s : State} (htimeout : timeoutMS < 2 ^ 31)
    (h : lts.ReachWith Short (init timeoutMS) s) :
    (∀ ticks s', Short s (.wakeup ticks) → step s (.wakeup ticks) = some s' →
      s'.remainingWaitTime = max 0 (s.remainingWaitTime - (ticks / 10000 : ℕ))) ∧
    s.remainingWaitTime = (timeoutMS - totalMS s.rounds : ℕ) ∧
    (0 < s.remainingWaitTime → totalMS s.rounds < timeoutMS ∧
      s.rounds.sum < 10000 * timeoutMS + 9999 * s.rounds.length ∧
      ((∀ ticks ∈ s.rounds, 10000 ∣ ticks) → s.rounds.sum < 10000 * timeoutMS)) := by
  have hs : Exact timeoutMS s := by
    refine LTS.ReachWith.invariant (I := Exact timeoutMS) h (.init htimeout) ?_
    intro s r s' hs hr hst
    exact hs.step htimeout hr hst
  refine ⟨fun ticks s' hr hst => ?_, hs.remaining, fun hpos => ?_⟩
  · rw [step.eq_def] at hst
    split_ifs at hst
    obtain rfl := Option.some.inj hst
    exact hs.wake_remaining htimeout hr _
  · have hlt : totalMS s.rounds < timeoutMS := by
      have := hs.remaining
      omega
    obtain ⟨-, hsum⟩ := sum_le_totalMS s.rounds
    refine ⟨hlt, by omega, fun hdvd => ?_⟩
    rw [sum_eq_totalMS hdvd]
    omega

/-- A wakeup after 300 of 1000 milliseconds. -/
theorem remaining_exact_wakeup :
    (∀ ticks s', ticks < 2 ^ 31 →
      step ((init 1000).wake 3000000 .waiting) (.wakeup ticks) = some s' →
      s'.remainingWaitTime = max 0 (700 - (ticks / 10000 : ℕ) : ℤ)) ∧
    ((init 1000).wake 3000000 .waiting).remainingWaitTime = 700 := by
  have hshort : Short (init 1000) (.wakeup 3000000) := by
    show 3000000 < 2 ^ 31
    decide
  have hreach : lts.ReachWith Short (init 1000) ((init 1000).wake 3000000 .waiting) :=
    .step .init hshort (if_pos rfl)
  obtain ⟨hstep, hremaining, -⟩ := remaining_exact (by decide) hreach
  rw [hremaining] at hstep
  exact ⟨fun ticks s' hticks hst => hstep ticks s' hticks hst, hremaining⟩

/-- After a wakeup at 214749 of 300000 milliseconds the loop waits for 514747 more. -/
theorem remaining_not_exact :
    ¬ ∀ timeoutMS s ticks s', lts.Reachable (init timeoutMS) s → ticks / 10000 < timeoutMS →
      step s (.wakeup ticks) = some s' →
      s'.remainingWaitTime = max 0 (s.remainingWaitTime - (ticks / 10000 : ℕ)) := by
  intro h
  have hwake := h 300000 (init 300000) 2147490000 _ .init (by decide) (if_pos rfl)
  have hvalue : nextRemaining (init 300000).remainingWaitTime (2147490000 : ℕ) = 514747 := by
    decide
  rw [State.wake_remainingWaitTime, hvalue] at hwake
  revert hwake
  decide

end TimedWait

end Il2Cpp
