import Il2Cpp.LTS.Threads
import Il2Cpp.ThreadPool.Worker

/-!
# The counters of the thread pool

The counts agree with the threads while they fit in `int16_t`: as long as a worker is reserved only
when fewer than `2 ^ 15 - 1` workers exist, and `max_working` is not set to more than `2 ^ 15 - 1`.
The source makes sure of neither: there may be any number of workers that are about to be parked
and not yet in `parked_threads_count`, and `SetMaxThreads` takes any limit.

* `PC.working`, `PC.parked` : the phase of a worker, by where it is.
* `Fits` : the condition, on one step.
* `Counted` : the invariant, and `Counted.step` : the steps that meet the condition preserve it.
* `counters_exact` : in every run whose steps all meet the condition the counts are those of the
  threads.
* `counters_negative` : without the condition `active` becomes negative.
-/

namespace Il2Cpp

namespace ThreadPool

theorem toInt16_eq_self {n : ℤ} (h₁ : -32768 ≤ n) (h₂ : n ≤ 32767) : toInt16 n = n :=
  Int.bmod_eq_of_le (by omega) (by omega)

/-! ### Phases -/

/-- A worker that is not parked; `worker_try_create` counts one that it is going to create. -/
def PC.working : PC → Bool
  | createInternal | counterAtomic .undo _ | counterAtomic .park _ | counterAtomic .leave _
  | start | loop _ | job => true
  | _ => false

/-- A worker that is parked. -/
def PC.parked : PC → Bool
  | counterAtomic (.unpark _) _ | parkLock | timedWait => true
  | _ => false

/-- The number of workers that are not parked. -/
def State.workingCount (s : State) : ℕ := s.threads.countP PC.working

/-- The number of workers that are parked. -/
def State.parkedCount (s : State) : ℕ := s.threads.countP PC.parked

/-! ### The condition and the invariant -/

/-- The update of a block keeps the counts in the range of `int16_t`. -/
def Block.Fits (c : ThreadPoolCounter) : Block → Prop
  | reserve => c.active < 32767
  | raise => c.maxWorking < 32767
  | adjust newThreadCount => newThreadCount ≤ 32767
  | _ => True

instance (c : ThreadPoolCounter) : (b : Block) → Decidable (b.Fits c)
  | .reserve => inferInstanceAs (Decidable (c.active < 32767))
  | .raise => inferInstanceAs (Decidable (c.maxWorking < 32767))
  | .adjust newThreadCount => inferInstanceAs (Decidable (newThreadCount ≤ 32767))
  | .undo | .park | .unpark _ | .leave => inferInstanceAs (Decidable True)

/-- If the step is an update of the counters, then its block keeps them in range. -/
def Fits (s : State) : Label → Prop
  | .run i _ => ∀ pc ∈ s.threads[i]?, ∀ b, pc = .counterAtomic b (.exchange s.pool.counters) →
      b.Fits s.pool.counters
  | _ => True

instance (s : State) : (l : Label) → Decidable (Fits s l)
  | .run i _ =>
    match h : s.threads[i]? with
    | some (.counterAtomic b (.exchange old)) =>
      decidable_of_iff (old = s.pool.counters → b.Fits s.pool.counters) (by simp [Fits, h])
    | none | some .tryUnpark | some .tryCreate | some .createInternal | some .start
    | some (.loop _) | some .job | some .parkLock | some .timedWait | some .done
    | some (.counterAtomic _ .read) | some (.counterAtomic _ (.check _)) =>
      isTrue (by simp [Fits, h])
  | .request | .monitor | .starve | .climb _ | .setMinThreads _ | .setMaxThreads _ | .tick _
  | .shutDown => isTrue trivial

/-- The counts of a pool with `w` working and `p` parked threads. -/
structure ThreadPoolCounter.Counts (c : ThreadPoolCounter) (w p : ℕ) : Prop where
  working : c.working = w
  parked : c.parked = p
  active : c.active = w + p
  le : w + p ≤ 32767

/-- `max_working` is positive and in range, and its lower limit is positive. -/
structure Pool.Limits (g : Pool) : Prop where
  maxWorking : 0 < g.counters.maxWorking ∧ g.counters.maxWorking ≤ 32767
  min : 0 < g.limitWorkerMin

/-- `heuristic_adjust` sets `max_working` to a positive number. -/
def PC.Ok : PC → Prop
  | counterAtomic (.adjust newThreadCount) _ => 0 < newThreadCount
  | _ => True

/-- **The counts agree with the threads.** -/
structure Counted (s : State) : Prop where
  counts : s.pool.counters.Counts s.workingCount s.parkedCount
  limits : s.pool.Limits
  ok : ∀ pc ∈ s.threads, pc.Ok

/-! ### The updates -/

theorem Block.update_counts {b : Block} {c : ThreadPoolCounter} {w p : ℕ}
    (h : c.Counts (w + (PC.counterAtomic b (.exchange c)).working.toNat)
      (p + (PC.counterAtomic b (.exchange c)).parked.toNat))
    (hfit : b.Fits c) :
    (b.update c).Counts (w + b.next.working.toNat) (p + b.next.parked.toNat) := by
  obtain ⟨hw, hp, ha, hle⟩ := h
  cases b with
  | reserve =>
    have hfit : c.active < 32767 := hfit
    simp only [PC.working, PC.parked, Bool.toNat_false] at hw hp ha hle
    constructor <;> simp (disch := omega) only [Block.update, Block.next, PC.working, PC.parked,
      toInt16_eq_self, Bool.toNat_true, Bool.toNat_false] <;> omega
  | undo | leave | park =>
    simp only [PC.working, PC.parked, Bool.toNat_true, Bool.toNat_false] at hw hp ha hle
    constructor <;> simp (disch := omega) only [Block.update, Block.next, PC.working, PC.parked,
      toInt16_eq_self, Bool.toNat_true, Bool.toNat_false] <;> omega
  | unpark timeout =>
    simp only [PC.working, PC.parked, Bool.toNat_true, Bool.toNat_false] at hw hp ha hle
    cases timeout <;> constructor <;> simp (disch := omega) only [Block.update, Block.next,
      PC.working, PC.parked, toInt16_eq_self, Bool.toNat_true, Bool.toNat_false] <;> omega
  | raise | adjust newThreadCount => exact ⟨hw, hp, ha, hle⟩

theorem Block.update_maxWorking {b : Block} {c : ThreadPoolCounter}
    (h : 0 < c.maxWorking ∧ c.maxWorking ≤ 32767) (hok : (PC.counterAtomic b (.exchange c)).Ok)
    (hfit : b.Fits c) : 0 < (b.update c).maxWorking ∧ (b.update c).maxWorking ≤ 32767 := by
  cases b with
  | raise =>
    have hfit : c.maxWorking < 32767 := hfit
    simp only [Block.update]
    rw [toInt16_eq_self] <;> omega
  | adjust newThreadCount =>
    have hok : 0 < newThreadCount := hok
    have hfit : newThreadCount ≤ 32767 := hfit
    simp only [Block.update]
    rw [toInt16_eq_self] <;> omega
  | _ => exact h

/-! ### A step of an activity -/

@[simp] theorem Pool.checkRate_counters (g : Pool) : g.checkRate.1.counters = g.counters := by
  unfold Pool.checkRate; dsimp only; split_ifs <;> rfl

@[simp] theorem Pool.checkRate_limitWorkerMin (g : Pool) :
    g.checkRate.1.limitWorkerMin = g.limitWorkerMin := by
  unfold Pool.checkRate; dsimp only; split_ifs <;> rfl

@[simp] theorem Pool.checkRate_limitWorkerMax (g : Pool) :
    g.checkRate.1.limitWorkerMax = g.limitWorkerMax := by
  unfold Pool.checkRate; dsimp only; split_ifs <;> rfl

@[simp] theorem Block.unlock_counters (g : Pool) (b : Block) :
    (b.unlock g).counters = g.counters := by
  cases b <;> rfl

@[simp] theorem Block.unlock_limitWorkerMin (g : Pool) (b : Block) :
    (b.unlock g).limitWorkerMin = g.limitWorkerMin := by
  cases b <;> rfl

@[simp] theorem Block.unlock_limitWorkerMax (g : Pool) (b : Block) :
    (b.unlock g).limitWorkerMax = g.limitWorkerMax := by
  cases b <;> rfl

/-- What a step of an activity can do to the counters: nothing, when the thread stays in its
phase or is replaced by the one that it creates, or the update of its block. -/
theorem runPC_counters {g g' : Pool} {c : Choice} {pc pc' : PC} {new : List PC}
    (h : runPC g c pc = some (g', pc', new)) :
    (g'.counters = g.counters ∧
      pc'.working.toNat + new.countP PC.working = pc.working.toNat ∧
      pc'.parked.toNat + new.countP PC.parked = pc.parked.toNat) ∨
    ∃ b, pc = .counterAtomic b (.exchange g.counters) ∧ g'.counters = b.update g.counters ∧
      pc' = b.next ∧ new = [] := by
  cases pc with
  | counterAtomic b a =>
    cases a with
    | read => cases h; left; cases b <;> exact ⟨rfl, rfl, rfl⟩
    | check old =>
      left
      rw [runPC] at h
      split_ifs at h with hs
      · cases h
        cases b <;> first | exact ⟨rfl, rfl, rfl⟩ | cases hs
      · cases h; cases b <;> exact ⟨rfl, rfl, rfl⟩
    | exchange old =>
      rw [runPC] at h
      by_cases he : g.counters = old
      · right
        subst he
        rw [if_pos rfl] at h
        cases h
        exact ⟨b, rfl, by split_ifs <;> simp, rfl, rfl⟩
      · left
        rw [if_neg he] at h
        cases h
        cases b <;> exact ⟨rfl, rfl, rfl⟩
  | tryCreate =>
    left
    rw [runPC] at h
    split_ifs at h
    split at h <;> cases h <;> rename_i heq <;>
      exact ⟨by simpa [heq] using g.checkRate_counters, rfl, rfl⟩
  | createInternal | job | timedWait =>
    left
    cases c <;> cases h <;> exact ⟨rfl, rfl, rfl⟩
  | tryUnpark | loop | parkLock =>
    left
    rw [runPC] at h
    split_ifs at h <;> cases h <;> exact ⟨rfl, rfl, rfl⟩
  | start => left; cases h; exact ⟨rfl, rfl, rfl⟩
  | done => cases h

theorem runPC_limits {g g' : Pool} {c : Choice} {pc pc' : PC} {new : List PC}
    (h : runPC g c pc = some (g', pc', new)) :
    g'.limitWorkerMin = g.limitWorkerMin ∧ g'.limitWorkerMax = g.limitWorkerMax := by
  cases pc with
  | counterAtomic b a =>
    cases a with
    | read => cases h; exact ⟨rfl, rfl⟩
    | check old =>
      rw [runPC] at h
      split_ifs at h <;> cases h <;> simp
    | exchange old =>
      rw [runPC] at h
      by_cases he : g.counters = old
      · rw [if_pos he] at h
        cases h
        split_ifs <;> simp
      · rw [if_neg he] at h
        cases h
        exact ⟨rfl, rfl⟩
  | tryCreate =>
    rw [runPC] at h
    split_ifs at h
    have hmin := g.checkRate_limitWorkerMin
    have hmax := g.checkRate_limitWorkerMax
    split at h <;> cases h <;> rename_i heq <;> rw [heq] at hmin hmax <;> exact ⟨hmin, hmax⟩
  | createInternal | job | timedWait => cases c <;> cases h <;> exact ⟨rfl, rfl⟩
  | tryUnpark | loop | parkLock =>
    rw [runPC] at h
    split_ifs at h <;> cases h <;> exact ⟨rfl, rfl⟩
  | start => cases h; exact ⟨rfl, rfl⟩
  | done => cases h

theorem runPC_ok {g g' : Pool} {c : Choice} {pc pc' : PC} {new : List PC}
    (h : runPC g c pc = some (g', pc', new)) (hok : pc.Ok) :
    pc'.Ok ∧ ∀ q ∈ new, q.Ok := by
  cases pc with
  | counterAtomic b a =>
    cases a with
    | read => cases h; cases b <;> exact ⟨hok, by simp⟩
    | check old =>
      rw [runPC] at h
      split_ifs at h
      · cases h; exact ⟨trivial, by simp⟩
      · cases h; cases b <;> exact ⟨hok, by simp⟩
    | exchange old =>
      rw [runPC] at h
      by_cases he : g.counters = old
      · rw [if_pos he] at h
        cases h
        refine ⟨?_, by simp⟩
        cases b with
        | unpark timeout => cases timeout <;> trivial
        | _ => trivial
      · rw [if_neg he] at h
        cases h
        cases b <;> exact ⟨hok, by simp⟩
  | tryCreate =>
    rw [runPC] at h
    split_ifs at h
    split at h <;> cases h <;> exact ⟨trivial, by simp⟩
  | createInternal | job | timedWait => cases c <;> cases h <;> exact ⟨trivial, by simp [PC.Ok]⟩
  | tryUnpark | loop | parkLock =>
    rw [runPC] at h
    split_ifs at h <;> cases h <;> exact ⟨trivial, by simp⟩
  | start => cases h; exact ⟨trivial, by simp⟩
  | done => cases h

/-! ### A step of the system -/

theorem Counted.run {s s' : State} {i : ℕ} {c : Choice} (hs : Counted s)
    (hfit : Fits s (.run i c)) (h : step s (.run i c) = some s') : Counted s' := by
  simp only [step, Option.bind_eq_bind, Option.bind_eq_some_iff] at h
  obtain ⟨pc, hpc, ⟨g', pc', new⟩, hrun, h⟩ := h
  cases h
  obtain ⟨w, hw, hw'⟩ := countP_set_append (p := PC.working) hpc
  obtain ⟨k, hk, hk'⟩ := countP_set_append (p := PC.parked) hpc
  have hok := runPC_ok hrun (hs.ok _ (List.mem_of_getElem? hpc))
  have hcounts := hs.counts
  rw [State.workingCount, State.parkedCount, hw, hk] at hcounts
  have hcm : g'.counters.Counts (w + pc'.working.toNat + new.countP PC.working)
      (k + pc'.parked.toNat + new.countP PC.parked) ∧
      0 < g'.counters.maxWorking ∧ g'.counters.maxWorking ≤ 32767 := by
    obtain ⟨hcs, hnw, hnk⟩ | ⟨b, rfl, hcs, rfl, rfl⟩ := runPC_counters hrun
    · rw [hcs, Nat.add_assoc, hnw, Nat.add_assoc, hnk]
      exact ⟨hcounts, hs.limits.maxWorking⟩
    · rw [hcs]
      exact ⟨Block.update_counts hcounts (hfit _ hpc b rfl), Block.update_maxWorking
        hs.limits.maxWorking (hs.ok _ (List.mem_of_getElem? hpc)) (hfit _ hpc b rfl)⟩
  constructor
  · simpa only [State.workingCount, State.parkedCount, hw', hk'] using hcm.1
  · exact ⟨hcm.2, (runPC_limits hrun).1 ▸ hs.limits.min⟩
  · intro q hq
    rcases List.mem_append.1 hq with hq | hq
    · rcases List.mem_or_eq_of_mem_set hq with hq | rfl
      · exact hs.ok _ hq
      · exact hok.1
    · exact hok.2 _ hq

theorem Counted.append {g : Pool} {l : List PC} {pc : PC} (hs : Counted ⟨g, l⟩)
    (hw : pc.working = false) (hp : pc.parked = false) (hok : pc.Ok) : Counted ⟨g, l ++ [pc]⟩ := by
  obtain ⟨hc, hl, ho⟩ := hs
  refine ⟨?_, hl, ?_⟩
  · simpa [State.workingCount, State.parkedCount, hw, hp] using hc
  · intro q hq
    rcases List.mem_append.1 hq with hq | hq
    · exact ho _ hq
    · cases List.mem_singleton.1 hq; exact hok

theorem Counted.congr {g h : Pool} {l : List PC} (hs : Counted ⟨g, l⟩)
    (hc : h.counters = g.counters) (hl : h.Limits) : Counted ⟨h, l⟩ :=
  ⟨show h.counters.Counts _ _ from hc ▸ hs.counts, hl, hs.ok⟩

theorem Counted.step {s s' : State} {l : Label} (hs : Counted s) (hfit : Fits s l)
    (h : step s l = some s') : Counted s' := by
  obtain ⟨g, ts⟩ := s
  cases l with
  | run i c => exact hs.run hfit h
  | request =>
    rw [ThreadPool.step] at h
    split_ifs at h
    cases h
    have hg : Counted ⟨{ g with outstandingRequest := g.outstandingRequest + 1 }, ts⟩ :=
      hs.congr rfl ⟨hs.limits.maxWorking, hs.limits.min⟩
    exact hg.append rfl rfl trivial
  | monitor => cases h; exact hs.append rfl rfl trivial
  | starve => cases h; exact hs.append rfl rfl trivial
  | climb newThreadCount =>
    rw [ThreadPool.step] at h
    split_ifs at h with hc
    cases h
    refine hs.append rfl rfl (?_ : 0 < newThreadCount)
    have hn : 0 < g.limitWorkerMin := hs.limits.min
    have hx : 0 < g.counters.maxWorking := hs.limits.maxWorking.1
    rcases hc with hc | hc <;> dsimp only at hc <;> omega
  | setMinThreads n =>
    rw [ThreadPool.step] at h
    split_ifs at h with hn
    · cases h; exact hs
    · cases h; exact hs.congr rfl ⟨hs.limits.maxWorking, by dsimp only; omega⟩
  | setMaxThreads n =>
    rw [ThreadPool.step] at h
    split_ifs at h <;> cases h
    · exact hs
    · exact hs.congr rfl ⟨hs.limits.maxWorking, hs.limits.min⟩
  | tick n => cases h; exact hs.congr rfl ⟨hs.limits.maxWorking, hs.limits.min⟩
  | shutDown => cases h; exact hs.congr rfl ⟨hs.limits.maxWorking, hs.limits.min⟩

theorem Counted.init {processorCount : ℤ} (h₀ : 0 < processorCount)
    (h₁ : processorCount ≤ 32767) : Counted (init processorCount) := by
  refine ⟨⟨rfl, rfl, rfl, by simp [State.workingCount, State.parkedCount, ThreadPool.init]⟩, ⟨?_, h₀⟩,
    by simp [ThreadPool.init]⟩
  show 0 < toInt16 processorCount ∧ toInt16 processorCount ≤ 32767
  rw [toInt16_eq_self] <;> omega

/-! ### Runs -/

/-- `active` is the sum of `working` and `parked`, no count is negative, and each is the number of
the workers in its phase. -/
structure State.Exact (s : State) : Prop where
  active_eq : s.pool.counters.active = s.pool.counters.working + s.pool.counters.parked
  nonneg : 0 ≤ s.pool.counters.maxWorking ∧ 0 ≤ s.pool.counters.active ∧
    0 ≤ s.pool.counters.working ∧ 0 ≤ s.pool.counters.parked
  active : s.pool.counters.active = s.workingCount + s.parkedCount
  working : s.pool.counters.working = s.workingCount
  parked : s.pool.counters.parked = s.parkedCount

/-- In every run whose updates all keep the counts in the range of `int16_t`, the counts are those
of the threads. -/
theorem counters_exact {processorCount : ℤ} {s : State} (h₀ : 0 < processorCount)
    (h₁ : processorCount ≤ 32767) (h : lts.ReachWith Fits (init processorCount) s) : s.Exact := by
  have hc : Counted s := h.invariant (.init h₀ h₁) fun _ _ _ hs hfit hst => hs.step hfit hst
  obtain ⟨hw, hp, ha, -⟩ := hc.counts
  have hm := hc.limits.maxWorking
  exact ⟨by omega, by omega, ha, hw, hp⟩

/-- One worker is created and parked, creating another one fails, and the first is woken. -/
def createAndPark : List Label :=
  [.request, .run 0 .yes, .run 0 .yes, .run 0 .yes, .run 0 .yes, .run 0 .yes, .run 0 .yes,
   .run 1 .yes, .run 1 .yes, .run 1 .no, .run 1 .yes, .run 1 .yes, .run 1 .yes, .run 1 .yes,
   .monitor, .run 2 .yes, .run 2 .yes, .run 2 .yes, .run 2 .yes, .run 2 .yes, .run 2 .no,
   .run 2 .yes, .run 2 .yes, .run 2 .yes, .run 1 .yes, .run 1 .no, .run 1 .yes, .run 1 .yes,
   .run 1 .yes]
theorem counters_exact_createAndPark :
    ∃ s, lts.ReachWith Fits (init 1) s ∧ (s.workingCount, s.parkedCount) = (1, 0) ∧ s.Exact := by
  obtain ⟨s, hs, hw⟩ := LTS.exists_reachWith (f := step) (G := Fits) (i := init 1) createAndPark
    (fun s => (s.workingCount, s.parkedCount) = (1, 0)) (by decide)
  exact ⟨s, hs, hw, counters_exact (by decide) (by decide) hs⟩

/-! ### A run without the condition -/

/-- The pool between two rounds of `exists_parking`: `k` workers are parked, and none of them is in
`parked_threads_count` yet. -/
structure Pool.Parking (g : Pool) (k : ℕ) : Prop where
  counters : g.counters = ⟨1, toInt16 k, 0, toInt16 k⟩
  outstandingRequest : g.outstandingRequest = 0
  parkedThreadsCount : g.parkedThreadsCount = 0
  workerCreationLock : g.workerCreationLock = false
  second : g.workerCreationCurrentSecond ≤ g.ticks / 10000000
  ticks : 0 ≤ g.ticks
  shuttingDown : g.shuttingDown = false

theorem reachable_run_last {s₀ : State} {g g' : Pool} {ts new : List PC} {pc pc' : PC} (c : Choice)
    (hs : lts.Reachable s₀ ⟨g, ts ++ [pc]⟩) (h : runPC g c pc = some (g', pc', new)) :
    lts.Reachable s₀ ⟨g', ts ++ pc' :: new⟩ := by
  refine .step (l := .run ts.length c) hs trivial ?_
  simp [lts, step, h]

theorem reachable_tryCreate {s₀ : State} {g : Pool} {ts : List PC} {k : ℕ} (hg : g.Parking k)
    (hs : lts.Reachable s₀ ⟨g, ts⟩) :
    ∃ g', lts.Reachable s₀ ⟨g', ts ++ [.done, .start]⟩ ∧
      g' = { g with
        ticks := g.ticks + 10000000
        workerCreationCurrentSecond := (g.ticks + 10000000) / 10000000
        workerCreationCurrentCount := 1
        counters := ⟨1, toInt16 (k + 1 : ℕ), 1, toInt16 k⟩ } := by
  let g₁ : Pool := { g with ticks := g.ticks + 10000000 }
  let g₂ : Pool := { g₁ with
    workerCreationCurrentSecond := (g.ticks + 10000000) / 10000000
    workerCreationCurrentCount := 0 }
  have hrate : g₁.checkRate = (g₂, true) := by
    have := hg.second
    have := hg.ticks
    have h₁ : g.ticks + 10000000 ≠ 0 := by omega
    have h₂ : g.workerCreationCurrentSecond ≠ (g.ticks + 10000000) / 10000000 := by omega
    simp [Pool.checkRate, g₁, g₂, h₁, h₂]
  have hcounts : Block.update g.counters .reserve = ⟨1, toInt16 (k + 1 : ℕ), 1, toInt16 k⟩ := by
    rw [hg.counters]
    simp [Block.update, toInt16, Int.bmod_add_bmod]
  have h₁ : lts.Reachable s₀ ⟨g₁, ts ++ [.tryUnpark]⟩ :=
    .step (l := .monitor) (.step (l := .tick 10000000) hs trivial rfl) trivial rfl
  have h₂ : lts.Reachable s₀ ⟨g₁, ts ++ [.tryCreate]⟩ :=
    reachable_run_last .yes h₁ (by simp [runPC, g₁, hg.parkedThreadsCount])
  have h₃ : lts.Reachable s₀
      ⟨{ g₂ with workerCreationLock := true }, ts ++ [.counterAtomic .reserve .read]⟩ :=
    reachable_run_last .yes h₂ (by
      simp only [runPC, hrate]
      simp [g₁, hg.workerCreationLock])
  have h₄ := reachable_run_last .yes h₃ rfl
  have h₅ : lts.Reachable s₀ ⟨{ g₂ with workerCreationLock := true },
      ts ++ [.counterAtomic .reserve (.exchange g.counters)]⟩ :=
    reachable_run_last .yes h₄ (by simp [runPC, Block.stops, g₂, g₁, hg.counters])
  have h₆ : lts.Reachable s₀ ⟨{ g₂ with
      workerCreationLock := true
      counters := Block.update g.counters .reserve }, ts ++ [.createInternal]⟩ :=
    reachable_run_last .yes h₅ (by simp [runPC, Block.next, g₂, g₁])
  have h₇ := reachable_run_last .yes h₆ rfl
  refine ⟨_, h₇, ?_⟩
  simp [g₁, g₂, hcounts, hg.workerCreationLock]

theorem exists_parking (k : ℕ) : ∃ g ts, lts.Reachable (init 1) ⟨g, ts⟩ ∧ g.Parking k := by
  induction k with
  | zero => exact ⟨_, _, .init, rfl, rfl, rfl, rfl, by decide, by decide, rfl⟩
  | succ k ih =>
    obtain ⟨g, ts, hs, hg⟩ := ih
    obtain ⟨g', h₁, hg'⟩ := reachable_tryCreate hg hs
    have h₁ : lts.Reachable (init 1) ⟨g', (ts ++ [.done]) ++ [.start]⟩ := by simpa using h₁
    have h₂ := reachable_run_last .yes h₁ rfl
    have h₃ : lts.Reachable (init 1) ⟨g', (ts ++ [.done]) ++ [.counterAtomic .park .read]⟩ :=
      reachable_run_last .yes h₂
        (by simp [runPC, hg', hg.shuttingDown, hg.outstandingRequest])
    have h₄ := reachable_run_last .yes h₃ rfl
    have h₅ := reachable_run_last .yes h₄ rfl
    have h₆ : lts.Reachable (init 1) ⟨{ g' with counters := Block.update g'.counters .park },
        (ts ++ [.done]) ++ [.parkLock]⟩ :=
      reachable_run_last .yes h₅ (by simp [runPC, Block.next])
    refine ⟨_, _, h₆, ?_, ?_, ?_, ?_, ?_, ?_, ?_⟩
    · simp [hg', Block.update, toInt16, Int.bmod_add_bmod]
    · simp [hg', hg.outstandingRequest]
    · simp [hg', hg.parkedThreadsCount]
    · simp [hg', hg.workerCreationLock]
    · simp [hg']
    · have := hg.ticks
      simp only [hg']
      omega
    · simp [hg', hg.shuttingDown]

/-- When `2 ^ 15` workers have been created that are being parked, `active` is negative. -/
theorem counters_negative : ¬ ∀ s, lts.Reachable (init 1) s → s.Exact := by
  intro h
  obtain ⟨g, ts, hs, hg⟩ := exists_parking 32768
  have ha := (h _ hs).nonneg.2.1
  rw [hg.counters] at ha
  exact absurd ha (by decide)

end ThreadPool

end Il2Cpp
