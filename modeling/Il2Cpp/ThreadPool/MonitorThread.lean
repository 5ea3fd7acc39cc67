import Il2Cpp.LTS.Threads

/-!
# The monitor thread of the thread pool

`monitor_ensure_running` and the loop of `monitor_thread` hand `s_MonitorStatus` to one another.

* `PC` : where a call of `monitor_ensure_running` or a monitor thread is.  The body of an iteration
  is one place: nothing in it reads or writes the status.
* `PC.Runs` : a monitor thread that has not given up, or that is going to be created.
* `OneRuns` : the invariant: there is exactly one, unless the status is `NOT_RUNNING`.
* `Run.Iteration` : a full iteration of a monitor thread in an infinite run.
* `monitor_handoff` : at most one monitor thread is in its loop, and a call that has returned is
  followed by a full iteration.
* `two_monitors` : a monitor thread that has given up may still exist when the next one is created.
-/

namespace Il2Cpp

namespace MonitorThread

/-- `MonitorStatus`. -/
inductive MonitorStatus
  | requested
  | waitingForRequest
  | notRunning
  deriving DecidableEq

/-- `MONITOR_MINIMAL_LIFETIME`, in milliseconds. -/
def monitorMinimalLifetime : ℤ := 60 * 1000

/-- The shared data. -/
structure Shared where
  /-- `s_MonitorStatus`. -/
  status : MonitorStatus
  lastShouldKeepRunning : ℤ
  shuttingDown : Bool
  deriving DecidableEq

/-- Where an activity is. -/
inductive PC
  /-- `monitor_ensure_running`, at the `switch` -/
  | switch
  /-- before the status is raised from `WAITING_FOR_REQUEST` -/
  | raise
  /-- the status was `NOT_RUNNING` -/
  | checkShutdown
  /-- before the status is raised from `NOT_RUNNING` -/
  | claim
  /-- before `Thread::CreateInternal` -/
  | create
  | returned
  /-- `monitor_thread`, before its loop -/
  | start
  /-- at the head of the loop -/
  | head
  | body
  /-- `monitor_should_keep_running`, before `Exchange` -/
  | exchange
  /-- nothing was requested since the last time -/
  | checkRequest
  /-- before `CompareExchange` -/
  | giveUp
  /-- `monitor_should_keep_running` returned false -/
  | leaving
  | finished
  deriving DecidableEq

/-- What a step reads that the shared data does not determine. -/
structure Input where
  /-- `Thread::CreateInternal` creates the thread. -/
  created : Bool
  /-- `domain_any_has_request`. -/
  anyHasRequest : Bool
  /-- `GetTicks100NanosecondsMonotonic`, for the comparison. -/
  ticks : ℤ
  /-- `GetTicks100NanosecondsMonotonic`, for the assignment. -/
  ticks' : ℤ
  deriving DecidableEq

/-- One step of an activity: the shared data, where it is then, and a thread that it created. -/
def runPC (g : Shared) (c : Input) : PC → Option (Shared × PC × List PC)
  | .switch =>
    match g.status with
    | .requested => some (g, .returned, [])
    | .waitingForRequest => some (g, .raise, [])
    | .notRunning => some (g, .checkShutdown, [])
  | .raise =>
    if g.status = .waitingForRequest then some ({ g with status := .requested }, .switch, [])
    else some (g, .switch, [])
  | .checkShutdown => if g.shuttingDown then some (g, .returned, []) else some (g, .claim, [])
  | .claim =>
    if g.status = .notRunning then some ({ g with status := .requested }, .create, [])
    else some (g, .switch, [])
  | .create =>
    if c.created then some (g, .returned, [.start])
    else some ({ g with status := .notRunning }, .returned, [])
  | .returned => none
  | .start => some (g, .head, [])
  | .head => some (g, .body, [])
  | .body => some (g, .exchange, [])
  | .exchange =>
    if g.status = .waitingForRequest then some (g, .checkRequest, [])
    else some ({ g with status := .waitingForRequest }, .head, [])
  | .checkRequest =>
    if g.shuttingDown then some ({ g with lastShouldKeepRunning := -1 }, .giveUp, [])
    else if c.anyHasRequest then some ({ g with lastShouldKeepRunning := c.ticks' }, .head, [])
    else if g.lastShouldKeepRunning = -1 then
      some ({ g with lastShouldKeepRunning := c.ticks' }, .head, [])
    else if c.ticks - g.lastShouldKeepRunning < monitorMinimalLifetime * 1000 * 10 then
      some (g, .head, [])
    else some ({ g with lastShouldKeepRunning := -1 }, .giveUp, [])
  | .giveUp =>
    if g.status = .waitingForRequest then some ({ g with status := .notRunning }, .leaving, [])
    else some (g, .head, [])
  | .leaving => some (g, .finished, [])
  | .finished => none

/-- A state of the system. -/
structure State where
  shared : Shared
  threads : List PC
  deriving DecidableEq

/-- What happens in the system. -/
inductive Label
  /-- `monitor_ensure_running` is called -/
  | call
  /-- an activity takes a step -/
  | run (i : ℕ) (c : Input)
  | shutDown
  deriving DecidableEq

/-- A step of the system. -/
def step (s : State) : Label → Option State
  | .call => some { s with threads := s.threads ++ [.switch] }
  | .run i c => do
    let pc ← s.threads[i]?
    let (shared, pc, new) ← runPC s.shared c pc
    some ⟨shared, s.threads.set i pc ++ new⟩
  | .shutDown => some { s with shared := { s.shared with shuttingDown := true } }

/-- No monitor thread was ever requested. -/
def init : State := ⟨⟨.notRunning, -1, false⟩, []⟩

/-- The transition system. -/
def lts : LTS State Label := .ofFun step

/-! ### A step -/

theorem step_run {s s' : State} {i : ℕ} {c : Input} :
    step s (.run i c) = some s' ↔
      ∃ pc g' pc' new, s.threads[i]? = some pc ∧ runPC s.shared c pc = some (g', pc', new) ∧
        s' = ⟨g', s.threads.set i pc' ++ new⟩ := by
  simp only [step, Option.bind_eq_bind, Option.bind_eq_some_iff, Prod.exists, Option.some.injEq]
  grind

theorem step_frame {s s' : State} {l : Label} {j : ℕ} {pc : PC} (h : step s l = some s')
    (hj : s.threads[j]? = some pc) (hl : ∀ c, l ≠ .run j c) : s'.threads[j]? = some pc := by
  cases l with
  | call =>
    cases h
    obtain ⟨hlt, -⟩ := List.getElem?_eq_some_iff.1 hj
    rw [List.getElem?_append_left hlt, hj]
  | run i c =>
    obtain ⟨-, g', pc', new, -, -, rfl⟩ := step_run.1 h
    exact getElem?_set_append_of_ne (fun hij => hl c (by rw [hij])) hj pc' new
  | shutDown => cases h; exact hj

/-! ### One monitor thread runs -/

/-- A monitor thread that has not given up, or a call that is going to create one. -/
def PC.runs : PC → Bool
  | create | start | head | body | exchange | checkRequest | giveUp => true
  | _ => false

/-- A monitor thread that has not given up. -/
def PC.inLoop : PC → Bool
  | start | head | body | exchange | checkRequest | giveUp => true
  | _ => false

/-- A monitor thread. -/
def PC.isMonitor : PC → Bool
  | start | head | body | exchange | checkRequest | giveUp | leaving => true
  | _ => false

theorem PC.runs_of_inLoop {pc : PC} (h : pc.inLoop = true) : pc.runs = true := by
  cases pc <;> first | rfl | cases h

/-- How many are running. -/
def MonitorStatus.count : MonitorStatus → ℕ
  | notRunning => 0
  | requested | waitingForRequest => 1

/-- **Exactly one monitor thread runs, unless the status is `NOT_RUNNING`.** -/
def OneRuns (s : State) : Prop := s.threads.countP PC.runs = s.shared.status.count

theorem runPC_runs {g g' : Shared} {c : Input} {pc pc' : PC} {new : List PC} {n : ℕ}
    (h : runPC g c pc = some (g', pc', new)) (hn : n + pc.runs.toNat = g.status.count) :
    n + pc'.runs.toNat + new.countP PC.runs = g'.status.count := by
  cases pc with
  | returned | finished => cases h
  | start | head | body | leaving => cases h; simpa [PC.runs] using hn
  | switch =>
    rw [runPC] at h
    split at h <;> cases h <;> simpa [PC.runs] using hn
  | raise =>
    rw [runPC] at h
    split_ifs at h with hs <;> cases h
    · simpa [PC.runs, hs, MonitorStatus.count] using hn
    · simpa [PC.runs] using hn
  | claim | giveUp =>
    rw [runPC] at h
    split_ifs at h with hs <;> cases h
    · simp only [PC.runs, hs, MonitorStatus.count] at hn ⊢
      simpa using hn
    · simpa [PC.runs] using hn
  | checkShutdown =>
    rw [runPC] at h
    split_ifs at h <;> cases h <;> simpa [PC.runs] using hn
  | create =>
    rw [runPC] at h
    split_ifs at h <;> cases h
    · simpa [PC.runs] using hn
    · simp only [PC.runs, MonitorStatus.count] at hn ⊢
      cases hs : g.status <;> simp_all
  | exchange =>
    rw [runPC] at h
    split_ifs at h <;> cases h
    · simpa [PC.runs] using hn
    · simp only [PC.runs, MonitorStatus.count] at hn ⊢
      cases hs : g.status <;> simp_all
  | checkRequest =>
    rw [runPC] at h
    split_ifs at h <;> cases h <;> simpa [PC.runs] using hn

theorem OneRuns.step {s s' : State} {l : Label} (hs : OneRuns s) (h : step s l = some s') :
    OneRuns s' := by
  cases l with
  | call => cases h; simpa [OneRuns, PC.runs] using hs
  | run i c =>
    obtain ⟨pc, g', pc', new, hpc, hrun, rfl⟩ := step_run.1 h
    obtain ⟨n, hn, hset⟩ := countP_set_append (p := PC.runs) hpc
    rw [OneRuns, hn] at hs
    show _ = g'.status.count
    rw [hset, runPC_runs hrun hs]
  | shutDown => cases h; exact hs

theorem oneRuns_of_reachable {s : State} (h : lts.Reachable init s) : OneRuns s :=
  h.invariant rfl fun _ _ _ hs _ hst => hs.step hst

theorem OneRuns.unique {s : State} (hs : OneRuns s) {i j : ℕ} {a b : PC}
    (hi : s.threads[i]? = some a) (hj : s.threads[j]? = some b) (ha : a.runs = true)
    (hb : b.runs = true) : i = j := by
  refine eq_of_countP_le_one ?_ hi hj ha hb
  rw [hs]
  cases s.shared.status <;> decide

/-! ### The request is not lost -/

/-- Creating the thread succeeds, and the runtime does not shut down. -/
def Undisturbed (s : State) : Label → Prop
  | .call => True
  | .run i c => s.threads[i]? = some .create → c.created = true
  | .shutDown => False

instance (s : State) : (l : Label) → Decidable (Undisturbed s l)
  | .call => isTrue trivial
  | .run i c => inferInstanceAs (Decidable (s.threads[i]? = some .create → c.created = true))
  | .shutDown => isFalse id

theorem requested_step {s s' : State} {l : Label} {i : ℕ} {pc : PC} (hone : OneRuns s)
    (hst : s.shared.status = .requested) (hl : Undisturbed s l) (h : step s l = some s')
    (hi : s.threads[i]? = some pc) (hruns : pc.runs = true)
    (hne : pc = .exchange → ∀ c, l ≠ .run i c) : s'.shared.status = .requested := by
  cases l with
  | call => cases h; exact hst
  | shutDown => exact hl.elim
  | run j c =>
    obtain ⟨qc, g', qc', new, hqc, hrun, rfl⟩ := step_run.1 h
    cases qc with
    | returned | finished => cases hrun
    | start | head | body | leaving => cases hrun; exact hst
    | switch => rw [runPC, hst] at hrun; cases hrun; exact hst
    | raise | claim | giveUp => simp [runPC, hst] at hrun; obtain ⟨rfl, -⟩ := hrun; exact hst
    | checkShutdown => rw [runPC] at hrun; split_ifs at hrun <;> cases hrun <;> exact hst
    | create => rw [runPC, if_pos (hl hqc)] at hrun; cases hrun; exact hst
    | checkRequest => rw [runPC] at hrun; split_ifs at hrun <;> cases hrun <;> exact hst
    | exchange =>
      cases hone.unique hi hqc hruns rfl
      cases hi.symm.trans hqc
      exact absurd rfl (hne rfl c)

/-- Nothing is left to do. -/
def PC.Ended (pc : PC) : Prop := pc = returned ∨ pc = finished

/-- Every activity that is not at its end takes a step some time. -/
def Fair (r : lts.Run init) : Prop :=
  ∀ n i pc, (r.st n).threads[i]? = some pc → ¬ pc.Ended → ∃ m, n ≤ m ∧ ∃ c, r.lab m = .run i c

/-- From `m₁` to `m₂` thread `i` runs through its loop once. -/
structure Iteration (r : lts.Run init) (i m₁ m₂ : ℕ) : Prop where
  lt : m₁ < m₂
  head : (r.st m₁).threads[i]? = some .head
  body : ∀ k, m₁ < k → k ≤ m₂ → (r.st k).threads[i]? = some .body
  exchange : (r.st (m₂ + 1)).threads[i]? = some .exchange

/-- The call of activity `i` returns in step `n`. -/
structure Returns (r : lts.Run init) (i n : ℕ) : Prop where
  before : (r.st n).threads[i]? ≠ some .returned
  after : (r.st (n + 1)).threads[i]? = some .returned

/-- A full iteration starts at `n` or later. -/
def Served (r : lts.Run init) (n : ℕ) : Prop := ∃ i m₁ m₂, n ≤ m₁ ∧ Iteration r i m₁ m₂

theorem Served.mono {r : lts.Run init} {n m : ℕ} (h : n ≤ m) (hs : Served r m) : Served r n := by
  obtain ⟨i, m₁, m₂, hle, hi⟩ := hs
  exact ⟨i, m₁, m₂, le_trans h hle, hi⟩

section Runs

variable {r : lts.Run init} (hund : ∀ n, Undisturbed (r.st n) (r.lab n)) (hfair : Fair r)

include hfair

theorem next_step {Q : State → Prop} {n i : ℕ} {pc : PC} (hi : (r.st n).threads[i]? = some pc)
    (hpc : ¬ pc.Ended) (hQ : Q (r.st n))
    (hQst : ∀ k, (r.st k).threads[i]? = some pc → (∀ c, r.lab k ≠ .run i c) → Q (r.st k) →
      Q (r.st (k + 1))) :
    ∃ m, n ≤ m ∧ (∀ k, n ≤ k → k ≤ m → (r.st k).threads[i]? = some pc ∧ Q (r.st k)) ∧
      ∃ c g' pc' new, r.lab m = .run i c ∧ runPC (r.st m).shared c pc = some (g', pc', new) ∧
        r.st (m + 1) = ⟨g', (r.st m).threads.set i pc' ++ new⟩ := by
  obtain ⟨m, hm, ⟨c, hc⟩, hk⟩ := r.exists_first (P := fun s => s.threads[i]? = some pc ∧ Q s)
    (F := fun l => ∃ c, l = .run i c) ⟨hi, hQ⟩ (hfair n i pc hi hpc) fun k hk hl =>
      have hl : ∀ c, r.lab k ≠ .run i c := fun c hc => hl ⟨c, hc⟩
      ⟨step_frame (r.step k) hk.1 hl, hQst k hk.1 hl hk.2⟩
  have hst := r.step m
  rw [hc] at hst
  obtain ⟨qc, g', pc', new, hqc, hrun, hs'⟩ := step_run.1 hst
  cases (hk m hm le_rfl).1.symm.trans hqc
  exact ⟨m, hm, hk, c, g', pc', new, hc, hrun, hs'⟩

theorem served_of_head {n i : ℕ} (hi : (r.st n).threads[i]? = some .head) : Served r n := by
  obtain ⟨m₁, hm₁, hk₁, c, g', pc', new, -, hrun, hs'⟩ :=
    next_step (Q := fun _ => True) hfair hi (by simp [PC.Ended]) trivial (by simp)
  cases hrun
  have hb : (r.st (m₁ + 1)).threads[i]? = some .body := by
    rw [hs']; exact getElem?_set_append_self (hk₁ m₁ hm₁ le_rfl).1 _ _
  obtain ⟨m₂, hm₂, hk₂, c, g', pc', new, -, hrun, hs'⟩ :=
    next_step (Q := fun _ => True) hfair hb (by simp [PC.Ended]) trivial (by simp)
  cases hrun
  refine ⟨i, m₁, m₂, hm₁, by omega, (hk₁ m₁ hm₁ le_rfl).1, fun k hk hk' => (hk₂ k hk hk').1, ?_⟩
  rw [hs']
  exact getElem?_set_append_self (hk₂ m₂ hm₂ le_rfl).1 _ _

include hund

theorem next_requested {n i : ℕ} {pc : PC} (hst : (r.st n).shared.status = .requested)
    (hi : (r.st n).threads[i]? = some pc) (hruns : pc.runs = true) :
    ∃ m, n ≤ m ∧ (r.st m).threads[i]? = some pc ∧ (r.st m).shared.status = .requested ∧
      (pc ≠ .exchange → (r.st (m + 1)).shared.status = .requested) ∧
      ∃ c g' pc' new, r.lab m = .run i c ∧ runPC (r.st m).shared c pc = some (g', pc', new) ∧
        r.st (m + 1) = ⟨g', (r.st m).threads.set i pc' ++ new⟩ := by
  have hone := fun k => oneRuns_of_reachable (r.reachable k)
  obtain ⟨m, hm, hk, hrest⟩ := next_step (Q := fun s => s.shared.status = .requested) hfair hi
    (by rintro (rfl | rfl) <;> cases hruns) hst
    fun k hk hl hst => requested_step (hone k) hst (hund k) (r.step k) hk hruns fun _ => hl
  obtain ⟨hpc, hst⟩ := hk m hm le_rfl
  exact ⟨m, hm, hpc, hst, fun hne => requested_step (hone m) hst (hund m) (r.step m) hpc hruns
    fun h => absurd h hne, hrest⟩

theorem served_of_next {n i : ℕ} {pc : PC} (hst : (r.st n).shared.status = .requested)
    (hi : (r.st n).threads[i]? = some pc) (hruns : pc.runs = true)
    (hnext : ∀ m c g' pc' new, (r.st m).shared.status = .requested →
      runPC (r.st m).shared c pc = some (g', pc', new) →
      (pc ≠ .exchange → (r.st (m + 1)).shared.status = .requested) →
      (r.st (m + 1)).threads[i]? = some pc' → Served r (m + 1)) : Served r n := by
  obtain ⟨m, hm, hpc, hstm, hst', c, g', pc', new, -, hrun, hs'⟩ :=
    next_requested hund hfair hst hi hruns
  refine Served.mono (by omega) (hnext m c g' pc' new hstm hrun hst' ?_)
  rw [hs']
  exact getElem?_set_append_self hpc pc' new

theorem served_of_start {n i : ℕ} (hst : (r.st n).shared.status = .requested)
    (hi : (r.st n).threads[i]? = some .start) : Served r n := by
  refine served_of_next hund hfair hst hi rfl fun m c g' pc' new _ hrun _ hpc' => ?_
  cases hrun
  exact served_of_head hfair hpc'

theorem served_of_exchange {n i : ℕ} (hst : (r.st n).shared.status = .requested)
    (hi : (r.st n).threads[i]? = some .exchange) : Served r n := by
  refine served_of_next hund hfair hst hi rfl fun m c g' pc' new hstm hrun _ hpc' => ?_
  rw [runPC, hstm] at hrun
  cases hrun
  exact served_of_head hfair hpc'

theorem served_of_body {n i : ℕ} (hst : (r.st n).shared.status = .requested)
    (hi : (r.st n).threads[i]? = some .body) : Served r n := by
  refine served_of_next hund hfair hst hi rfl fun m c g' pc' new _ hrun hst' hpc' => ?_
  cases hrun
  exact served_of_exchange hund hfair (hst' (by decide)) hpc'

theorem served_of_giveUp {n i : ℕ} (hst : (r.st n).shared.status = .requested)
    (hi : (r.st n).threads[i]? = some .giveUp) : Served r n := by
  refine served_of_next hund hfair hst hi rfl fun m c g' pc' new hstm hrun _ hpc' => ?_
  rw [runPC, hstm] at hrun
  cases hrun
  exact served_of_head hfair hpc'

theorem served_of_checkRequest {n i : ℕ} (hst : (r.st n).shared.status = .requested)
    (hi : (r.st n).threads[i]? = some .checkRequest) : Served r n := by
  refine served_of_next hund hfair hst hi rfl fun m c g' pc' new _ hrun hst' hpc' => ?_
  have hst' := hst' (by decide)
  rw [runPC] at hrun
  split_ifs at hrun <;> cases hrun <;>
    first | exact served_of_head hfair hpc' | exact served_of_giveUp hund hfair hst' hpc'

theorem served_of_create {n i : ℕ} (hst : (r.st n).shared.status = .requested)
    (hi : (r.st n).threads[i]? = some .create) : Served r n := by
  obtain ⟨m, hm, hpc, hstm, hst', c, g', pc', new, hc, hrun, hs'⟩ :=
    next_requested hund hfair hst hi rfl
  have hcreated : c.created = true := by
    have := hund m
    rw [hc] at this
    exact this hpc
  rw [runPC, if_pos hcreated] at hrun
  cases hrun
  refine Served.mono (by omega) (served_of_start hund hfair (i := (r.st m).threads.length)
    (hst' (by decide)) ?_)
  rw [hs', List.getElem?_append_right (by simp)]
  simp

/-- **While the status is `REQUESTED` a full iteration is still to come**, wherever the thread that
runs is. -/
theorem served_of_requested {n : ℕ} (hst : (r.st n).shared.status = .requested) : Served r n := by
  have hone := oneRuns_of_reachable (r.reachable n)
  rw [OneRuns, hst] at hone
  obtain ⟨pc, hmem, hruns⟩ := List.countP_pos_iff.1 (by rw [hone]; decide)
  obtain ⟨i, hi⟩ := List.getElem?_of_mem hmem
  cases pc with
  | create => exact served_of_create hund hfair hst hi
  | start => exact served_of_start hund hfair hst hi
  | head => exact served_of_head hfair hi
  | body => exact served_of_body hund hfair hst hi
  | exchange => exact served_of_exchange hund hfair hst hi
  | checkRequest => exact served_of_checkRequest hund hfair hst hi
  | giveUp => exact served_of_giveUp hund hfair hst hi
  | _ => cases hruns

end Runs

/-- Under the conditions nothing shuts down, and a call that is going to create a thread has
requested it. -/
structure Calm (s : State) : Prop where
  oneRuns : OneRuns s
  shuttingDown : s.shared.shuttingDown = false
  create : ∀ i : ℕ, s.threads[i]? = some .create → s.shared.status = .requested

theorem runPC_shuttingDown {g g' : Shared} {c : Input} {pc pc' : PC} {new : List PC}
    (h : runPC g c pc = some (g', pc', new)) : g'.shuttingDown = g.shuttingDown := by
  cases pc with
  | returned | finished => cases h
  | start | head | body | leaving => cases h; rfl
  | switch => rw [runPC] at h; split at h <;> cases h <;> rfl
  | _ => rw [runPC] at h; split_ifs at h <;> cases h <;> rfl

theorem runPC_create {g g' : Shared} {c : Input} {pc : PC} {new : List PC}
    (h : runPC g c pc = some (g', .create, new)) : g'.status = .requested := by
  cases pc with
  | returned | finished => cases h
  | start | head | body | leaving => cases h
  | switch => rw [runPC] at h; split at h <;> cases h
  | claim => rw [runPC] at h; split_ifs at h <;> cases h; rfl
  | _ => rw [runPC] at h; split_ifs at h <;> cases h

theorem runPC_new {g g' : Shared} {c : Input} {pc pc' : PC} {new : List PC}
    (h : runPC g c pc = some (g', pc', new)) : ∀ q ∈ new, q = .start := by
  cases pc with
  | returned | finished => cases h
  | start | head | body | leaving => cases h; simp
  | switch => rw [runPC] at h; split at h <;> cases h <;> simp
  | _ => rw [runPC] at h; split_ifs at h <;> cases h <;> simp

theorem Calm.step {s s' : State} {l : Label} (hs : Calm s) (hl : Undisturbed s l)
    (h : step s l = some s') : Calm s' := by
  refine ⟨hs.oneRuns.step h, ?_, fun i hi => ?_⟩
  · cases l with
    | call => cases h; exact hs.shuttingDown
    | run i c =>
      obtain ⟨pc, g', pc', new, -, hrun, rfl⟩ := step_run.1 h
      exact (runPC_shuttingDown hrun).trans hs.shuttingDown
    | shutDown => exact hl.elim
  · have hkeep (hi : s.threads[i]? = some .create) : s'.shared.status = .requested :=
      requested_step hs.oneRuns (hs.create i hi) hl h hi rfl (by simp)
    cases l with
    | call =>
      cases h
      rcases getElem?_append_cases hi with hi | hi
      · exact hkeep hi
      · simp at hi
    | run j c =>
      obtain ⟨pc, g', pc', new, hpc, hrun, rfl⟩ := step_run.1 h
      rcases getElem?_set_append_cases hi with ⟨rfl, rfl⟩ | hi | hi
      · exact runPC_create hrun
      · exact hkeep hi
      · cases runPC_new hrun _ hi
    | shutDown => exact hl.elim

theorem Calm.requested_of_returns {s s' : State} {l : Label} {i : ℕ} (hs : Calm s)
    (hl : Undisturbed s l) (h : MonitorThread.step s l = some s')
    (hi : s.threads[i]? ≠ some .returned) (hi' : s'.threads[i]? = some .returned) :
    s'.shared.status = .requested := by
  cases l with
  | call =>
    cases h
    rcases getElem?_append_cases hi' with h | h
    · exact absurd h hi
    · simp at h
  | run j c =>
    obtain ⟨pc, g', pc', new, hpc, hrun, rfl⟩ := step_run.1 h
    rcases getElem?_set_append_cases hi' with ⟨rfl, rfl⟩ | h | h
    · cases pc with
      | switch => rw [runPC] at hrun; split at hrun <;> cases hrun; assumption
      | checkShutdown => rw [runPC, hs.shuttingDown] at hrun; cases hrun
      | create => rw [runPC, if_pos (hl hpc)] at hrun; cases hrun; exact hs.create _ hpc
      | returned | finished => cases hrun
      | start | head | body | leaving => cases hrun
      | _ => rw [runPC] at hrun; split_ifs at hrun <;> cases hrun
    · exact absurd h hi
    · cases runPC_new hrun _ h
  | shutDown => exact hl.elim

/-- **The hand-off.**  In every run at most one monitor thread is in its loop.  If no creation of a
thread fails and the runtime does not shut down, then every call that has returned is followed by a
full iteration of a monitor thread's loop that starts after that. -/
theorem monitor_handoff :
    (∀ s, lts.Reachable init s → ∀ (i j : ℕ) (a b : PC), s.threads[i]? = some a →
      s.threads[j]? = some b → a.inLoop = true → b.inLoop = true → i = j) ∧
    ∀ r : lts.Run init, (∀ n, Undisturbed (r.st n) (r.lab n)) → Fair r →
      ∀ i n, Returns r i n → ∃ j m₁ m₂, n < m₁ ∧ Iteration r j m₁ m₂ := by
  refine ⟨fun s hs i j a b hi hj ha hb => ?_, fun r hund hfair i n hret => ?_⟩
  · exact (oneRuns_of_reachable hs).unique hi hj (PC.runs_of_inLoop ha) (PC.runs_of_inLoop hb)
  · have hcalm : Calm (r.st n) := (r.reachWith hund n).invariant ⟨rfl, rfl, by simp [init]⟩
      fun _ _ _ hs hl hst => hs.step hl hst
    obtain ⟨j, m₁, m₂, hle, hit⟩ := served_of_requested hund hfair
      (hcalm.requested_of_returns (hund n) (r.step n) hret.before hret.after)
    exact ⟨j, m₁, m₂, hle, hit⟩

/-! ### A run in which requests never stop -/

/-- Threads are created, there is always a request, and no time passes. -/
def busy : Input := ⟨true, true, 0, 0⟩

/-- One call creates the monitor thread, which then runs alone. -/
def busyLabel (s : State) : Label :=
  match s.threads with
  | [] => .call
  | [.returned, _] => .run 1 busy
  | _ => .run 0 busy

/-- The states of the run. -/
def busyState : ℕ → State
  | 0 => init
  | n + 1 => (step (busyState n) (busyLabel (busyState n))).getD init

/-- The run comes back to a state that it has been in. -/
def busyStates : List State := (List.range 17).map busyState

theorem busyState_mem : ∀ n, busyState n ∈ busyStates
  | 0 => by decide
  | n + 1 => by
    have hclosed : ∀ s ∈ busyStates, (step s (busyLabel s)).getD init ∈ busyStates := by decide
    exact hclosed _ (busyState_mem n)

/-- The run. -/
def busyRun : lts.Run init where
  st := busyState
  lab n := busyLabel (busyState n)
  zero := rfl
  step n := by
    have hsome : ∀ s ∈ busyStates, (step s (busyLabel s)).isSome = true := by decide
    obtain ⟨s', hs'⟩ := Option.isSome_iff_exists.1 (hsome _ (busyState_mem n))
    show step _ _ = some (busyState (n + 1))
    rw [busyState, hs', Option.getD_some]

theorem busyRun_fair : Fair busyRun := by
  intro n i pc hi hpc
  refine ⟨n, le_rfl, busy, ?_⟩
  have hpick : ∀ s ∈ busyStates, ∀ i < s.threads.length, ∀ pc ∈ s.threads[i]?,
      pc = .returned ∨ pc = .finished ∨ busyLabel s = .run i busy := by decide
  obtain ⟨hlt, -⟩ := List.getElem?_eq_some_iff.1 hi
  rcases hpick _ (busyState_mem n) i hlt pc hi with h | h | h
  · exact absurd (.inl h) hpc
  · exact absurd (.inr h) hpc
  · exact h

theorem monitor_handoff_busy : ∃ j m₁ m₂, 4 < m₁ ∧ Iteration busyRun j m₁ m₂ := by
  have hund : ∀ s ∈ busyStates, Undisturbed s (busyLabel s) := by decide
  exact monitor_handoff.2 busyRun (fun n => hund _ (busyState_mem n)) busyRun_fair 0 4
    ⟨by decide, by decide⟩

/-! ### A monitor thread that has given up -/

/-- The first monitor thread gives up, a minute after it has started; before it ends a call creates
the next one. -/
def secondMonitor : List Label :=
  let quiet : Input := ⟨true, false, 600000000, 0⟩
  .call :: (List.replicate 4 (.run 0 quiet) ++ List.replicate 13 (.run 1 quiet) ++
    .call :: List.replicate 4 (.run 2 quiet))

theorem two_monitors : ¬ ∀ s, lts.ReachWith Undisturbed init s → ∀ (i j : ℕ) (a b : PC),
    s.threads[i]? = some a → s.threads[j]? = some b → a.isMonitor = true → b.isMonitor = true →
      i = j := by
  intro h
  obtain ⟨s, hs, ht⟩ := LTS.exists_reachWith (f := step) (G := Undisturbed) (i := init)
    secondMonitor (fun s => s.threads = [.returned, .leaving, .returned, .start]) (by decide)
  exact absurd (h s hs 1 3 .leaving .start (by rw [ht]; rfl) (by rw [ht]; rfl) rfl rfl) (by decide)

end MonitorThread

end Il2Cpp
