import Il2Cpp.ThreadPool.Counters

/-!
# The limits of the workers

`max_working` is set by `heuristic_adjust` and raised by the monitor thread, and `SetMinThreads` and
`SetMaxThreads` change the limits meanwhile.  It stays in the limits as long as `SetMaxThreads` is
not accepted with a limit that is lower than `max_working`, or lower than what is about to be stored
there, and what is stored fits in `int16_t`.  The source makes sure of neither.

* `hillClimbingUpdate` : the thread count that `heuristic_adjust` sets.
* `PC.pending` : what an activity is about to store in `max_working`, and `assigned` what a step
  stores.
* `Keeps` : the condition, on one step.
* `Limited` : the invariant, and `Limited.step` : the steps that meet the condition preserve it.
* `max_working_in_limits` : in every run whose steps all meet the condition `max_working` is in the
  limits, and what is stored is not truncated.
* `max_working_out_of_limits` : without the condition it becomes zero, and more than the limit.
-/

namespace Il2Cpp

namespace ThreadPool

/-- `CLAMP`. -/
def clamp (a low high : ℤ) : ℤ := if a < low then low else if a > high then high else a

/-- What `hill_climbing_update` returns: the count that it was given as long as the sample is not
accurate enough, else the count that it found, in the limits. -/
def hillClimbingUpdate (g : Pool) (currentThreadCount : ℤ) : Option ℤ → ℤ
  | none => currentThreadCount
  | some newThreadCount => clamp newThreadCount g.limitWorkerMin g.limitWorkerMax

theorem clamp_of_mem {a low high : ℤ} (hlow : low ≤ a) (hhigh : a ≤ high) :
    clamp a low high = a := by
  rw [clamp, if_neg (by omega), if_neg (by omega)]

theorem clamp_mem {a low high : ℤ} (h : low ≤ high) :
    low ≤ clamp a low high ∧ clamp a low high ≤ high := by
  unfold clamp
  split_ifs <;> omega

/-- The counts that `heuristic_adjust` may set are those that the hill climbing returns. -/
theorem climb_isSome_iff {s : State} (h : s.pool.limitWorkerMin ≤ s.pool.limitWorkerMax)
    {newThreadCount : ℤ} :
    (step s (.climb newThreadCount)).isSome ↔
      ∃ found, hillClimbingUpdate s.pool s.pool.counters.maxWorking found = newThreadCount := by
  have hstep : (step s (.climb newThreadCount)).isSome ↔
      s.pool.limitWorkerMin ≤ newThreadCount ∧ newThreadCount ≤ s.pool.limitWorkerMax ∨
        newThreadCount = s.pool.counters.maxWorking := by
    rw [step]
    split_ifs with hc <;> simp [hc]
  rw [hstep]
  constructor
  · rintro (⟨hmin, hmax⟩ | rfl)
    · exact ⟨some newThreadCount, clamp_of_mem hmin hmax⟩
    · exact ⟨none, rfl⟩
  · rintro ⟨found, rfl⟩
    cases found with
    | none => exact .inr rfl
    | some n => exact .inl (clamp_mem h)

/-! ### The condition and the invariant -/

/-- What an activity is about to store in `max_working`. -/
def PC.pending : PC → Option ℤ
  | counterAtomic (.adjust newThreadCount) _ => some newThreadCount
  | counterAtomic .raise (.exchange old) => some (old.maxWorking + 1)
  | _ => none

/-- What a step stores in `max_working`, before it is narrowed. -/
def assigned (s : State) : Label → Option ℤ
  | .run i _ =>
    match s.threads[i]? with
    | some (.counterAtomic b (.exchange old)) =>
      if s.pool.counters = old then (PC.counterAtomic b (.exchange old)).pending else none
    | _ => none
  | _ => none

/-- What is stored fits in `int16_t`, and a limit that is accepted is not lower than `max_working`
or than what is about to be stored there. -/
def Keeps (s : State) : Label → Prop
  | .setMaxThreads n =>
    s.pool.limitWorkerMin ≤ n ∧ s.pool.processorCount ≤ n →
      s.pool.counters.maxWorking ≤ n ∧ ∀ pc ∈ s.threads, ∀ m ∈ pc.pending, m ≤ n
  | l => ∀ m ∈ assigned s l, m ≤ 32767

instance (s : State) : (l : Label) → Decidable (Keeps s l)
  | .setMaxThreads _ => inferInstanceAs (Decidable (_ → _))
  | .run .. | .request | .monitor | .starve | .climb _ | .setMinThreads _ | .tick _ | .shutDown =>
    inferInstanceAs (Decidable (∀ m ∈ assigned s _, m ≤ 32767))

/-- **`max_working` is in the limits**, and so is what is about to be stored. -/
structure Limited (s : State) : Prop where
  pos : 0 < s.pool.counters.maxWorking
  le_max : s.pool.counters.maxWorking ≤ s.pool.limitWorkerMax
  min_pos : 0 < s.pool.limitWorkerMin
  min_le_max : s.pool.limitWorkerMin ≤ s.pool.limitWorkerMax
  ok : ∀ pc ∈ s.threads, pc.Ok
  pending : ∀ pc ∈ s.threads, ∀ m ∈ pc.pending, m ≤ s.pool.limitWorkerMax

/-! ### A step of an activity -/

theorem Block.update_maxWorking_of_pending {b : Block} {c : ThreadPoolCounter} {m : ℤ}
    (h : (PC.counterAtomic b (.exchange c)).pending = some m) :
    (b.update c).maxWorking = toInt16 m := by
  cases b <;> cases h <;> rfl

theorem Block.update_maxWorking_of_not_pending {b : Block} {c : ThreadPoolCounter}
    (h : (PC.counterAtomic b (.exchange c)).pending = none) :
    (b.update c).maxWorking = c.maxWorking := by
  cases b with
  | raise | adjust newThreadCount => cases h
  | _ => rfl

@[simp] theorem Block.next_pending (b : Block) : b.next.pending = none := by
  cases b with
  | unpark timeout => cases timeout <;> rfl
  | _ => rfl

theorem runPC_pending {g g' : Pool} {c : Choice} {pc pc' : PC} {new : List PC}
    (h : runPC g c pc = some (g', pc', new)) :
    (∀ m ∈ pc'.pending, m ∈ pc.pending ∨ m ≤ g.limitWorkerMax) ∧ ∀ q ∈ new, q.pending = none := by
  cases pc with
  | counterAtomic b a =>
    cases a with
    | read =>
      cases h
      refine ⟨fun m hm => ?_, by simp⟩
      cases b with
      | adjust newThreadCount => exact .inl hm
      | _ => cases hm
    | check old =>
      rw [runPC] at h
      split_ifs at h with hstops
      · cases h
        exact ⟨by simp [PC.pending], by simp⟩
      · cases h
        refine ⟨fun m hm => ?_, by simp⟩
        cases b with
        | raise =>
          -- the monitor thread has found that `max_working` is less than the limit
          have hlt : ¬ old.maxWorking ≥ g.limitWorkerMax := fun hge =>
            hstops (decide_eq_true hge)
          obtain rfl : old.maxWorking + 1 = m := Option.some.inj hm
          exact .inr (by omega)
        | adjust newThreadCount => exact .inl hm
        | _ => cases hm
    | exchange old =>
      rw [runPC] at h
      by_cases he : g.counters = old
      · rw [if_pos he] at h
        cases h
        exact ⟨by simp, by simp⟩
      · rw [if_neg he] at h
        cases h
        refine ⟨fun m hm => ?_, by simp⟩
        cases b with
        | adjust newThreadCount => exact .inl hm
        | _ => cases hm
  | tryCreate =>
    rw [runPC] at h
    split_ifs at h
    split at h <;> cases h <;> exact ⟨by simp [PC.pending], by simp⟩
  | createInternal | job | timedWait =>
    cases c <;> cases h <;> exact ⟨by simp [PC.pending], by simp [PC.pending]⟩
  | tryUnpark | loop | parkLock =>
    rw [runPC] at h
    split_ifs at h <;> cases h <;> exact ⟨by simp [PC.pending], by simp⟩
  | start => cases h; exact ⟨by simp [PC.pending], by simp⟩
  | done => cases h

theorem runPC_maxWorking {s : State} {i : ℕ} {c : Choice} {pc pc' : PC} {g' : Pool} {new : List PC}
    (hpc : s.threads[i]? = some pc) (h : runPC s.pool c pc = some (g', pc', new)) :
    (assigned s (.run i c) = none ∧ g'.counters.maxWorking = s.pool.counters.maxWorking) ∨
    ∃ m, assigned s (.run i c) = some m ∧ pc.pending = some m ∧
      g'.counters.maxWorking = toInt16 m := by
  by_cases hstore : ∃ b, pc = .counterAtomic b (.exchange s.pool.counters)
  · obtain ⟨b, rfl⟩ := hstore
    have hassigned : assigned s (.run i c) =
        (PC.counterAtomic b (.exchange s.pool.counters)).pending := by
      simp [assigned, hpc]
    have hcounters : g'.counters = b.update s.pool.counters := by
      rw [runPC, if_pos rfl] at h
      cases h
      split_ifs <;> simp
    rw [hassigned, hcounters]
    cases hm : (PC.counterAtomic b (.exchange s.pool.counters)).pending with
    | none => exact .inl ⟨rfl, Block.update_maxWorking_of_not_pending hm⟩
    | some m => exact .inr ⟨m, rfl, rfl, Block.update_maxWorking_of_pending hm⟩
  · left
    obtain ⟨hcounters, -, -⟩ | ⟨b, hb, -⟩ := runPC_counters h
    · refine ⟨?_, by rw [hcounters]⟩
      simp only [assigned, hpc]
      split
      · rename_i b old hold
        rw [if_neg]
        rintro rfl
        exact hstore ⟨b, Option.some.inj hold⟩
      · rfl
    · exact absurd ⟨b, hb⟩ hstore

/-! ### A step of the system -/

theorem Limited.assigned_pos {s : State} {l : Label} {m : ℤ} (hs : Limited s)
    (h : assigned s l = some m) : 0 < m := by
  cases l with
  | run i c =>
    simp only [assigned] at h
    split at h
    · rename_i b old hpc
      split_ifs at h with hold
      subst hold
      cases b with
      | raise =>
        obtain rfl : s.pool.counters.maxWorking + 1 = m := Option.some.inj h
        have := hs.pos
        omega
      | adjust newThreadCount =>
        obtain rfl : newThreadCount = m := Option.some.inj h
        exact hs.ok _ (List.mem_of_getElem? hpc)
      | _ => cases h
    · cases h
  | _ => cases h

theorem Limited.run {s s' : State} {i : ℕ} {c : Choice} (hs : Limited s)
    (hk : Keeps s (.run i c)) (h : step s (.run i c) = some s') :
    Limited s' ∧ ∀ m ∈ assigned s (.run i c), s'.pool.counters.maxWorking = m := by
  simp only [step, Option.bind_eq_bind, Option.bind_eq_some_iff] at h
  obtain ⟨pc, hpc, ⟨g', pc', new⟩, hrun, h⟩ := h
  cases h
  have hmem := List.mem_of_getElem? hpc
  obtain ⟨hmin, hmax⟩ := runPC_limits hrun
  obtain ⟨hpending, hnew⟩ := runPC_pending hrun
  obtain ⟨hok, hoknew⟩ := runPC_ok hrun (hs.ok pc hmem)
  have hstored : (0 < g'.counters.maxWorking ∧ g'.counters.maxWorking ≤ g'.limitWorkerMax) ∧
      ∀ m ∈ assigned s (.run i c), g'.counters.maxWorking = m := by
    obtain ⟨hnone, heq⟩ | ⟨m, hm, hpm, heq⟩ := runPC_maxWorking hpc hrun
    · rw [heq, hmax, hnone]
      exact ⟨⟨hs.pos, hs.le_max⟩, by simp⟩
    · have hle : m ≤ 32767 := hk m hm
      have hpos : 0 < m := hs.assigned_pos hm
      rw [toInt16_eq_self (by omega) hle] at heq
      rw [heq, hmax, hm]
      exact ⟨⟨hpos, hs.pending pc hmem m hpm⟩, by simp⟩
  refine ⟨⟨hstored.1.1, hstored.1.2, ?_, ?_, ?_, ?_⟩, hstored.2⟩
  · exact hmin ▸ hs.min_pos
  · simpa only [hmin, hmax] using hs.min_le_max
  · intro q hq
    rcases List.mem_append.1 hq with hq | hq
    · rcases List.mem_or_eq_of_mem_set hq with hq | rfl
      · exact hs.ok q hq
      · exact hok
    · exact hoknew q hq
  · intro q hq m hm
    rw [hmax]
    rcases List.mem_append.1 hq with hq | hq
    · rcases List.mem_or_eq_of_mem_set hq with hq | rfl
      · exact hs.pending q hq m hm
      · exact (hpending m hm).elim (hs.pending pc hmem m) id
    · simp [hnew q hq] at hm

theorem Limited.append {g : Pool} {l : List PC} {pc : PC} (hs : Limited ⟨g, l⟩) (hok : pc.Ok)
    (hpending : ∀ m ∈ pc.pending, m ≤ g.limitWorkerMax) : Limited ⟨g, l ++ [pc]⟩ := by
  refine ⟨hs.pos, hs.le_max, hs.min_pos, hs.min_le_max, ?_, ?_⟩
  · exact List.forall_mem_append.2 ⟨hs.ok, List.forall_mem_singleton.2 hok⟩
  · exact List.forall_mem_append.2 ⟨hs.pending, List.forall_mem_singleton.2 hpending⟩

theorem Limited.congr {g h : Pool} {l : List PC} (hs : Limited ⟨g, l⟩)
    (hc : h.counters = g.counters) (hmin : h.limitWorkerMin = g.limitWorkerMin)
    (hmax : h.limitWorkerMax = g.limitWorkerMax) : Limited ⟨h, l⟩ := by
  obtain ⟨hpos, hle, hminpos, hminle, hok, hpending⟩ := hs
  constructor <;> simpa only [hc, hmin, hmax]

theorem Limited.climb {g : Pool} {l : List PC} {s' : State} {newThreadCount : ℤ}
    (hs : Limited ⟨g, l⟩) (h : step ⟨g, l⟩ (.climb newThreadCount) = some s') : Limited s' := by
  rw [ThreadPool.step] at h
  split_ifs at h with hc
  cases h
  have hpos : 0 < g.counters.maxWorking := hs.pos
  have hle : g.counters.maxWorking ≤ g.limitWorkerMax := hs.le_max
  have hmin : 0 < g.limitWorkerMin := hs.min_pos
  have hcount : 0 < newThreadCount ∧ newThreadCount ≤ g.limitWorkerMax := by
    rcases hc with hc | hc <;> dsimp only at hc <;> omega
  refine hs.append hcount.1 fun m hm => ?_
  obtain rfl : newThreadCount = m := Option.some.inj hm
  exact hcount.2

theorem Limited.setMinThreads {g : Pool} {l : List PC} {s' : State} {n : ℤ}
    (hs : Limited ⟨g, l⟩) (h : step ⟨g, l⟩ (.setMinThreads n) = some s') : Limited s' := by
  rw [ThreadPool.step] at h
  split_ifs at h with hn
  · cases h
    exact hs
  · cases h
    dsimp only at hn
    refine ⟨hs.pos, hs.le_max, ?_, ?_, hs.ok, hs.pending⟩
    · show 0 < n
      omega
    · show n ≤ g.limitWorkerMax
      omega

theorem Limited.setMaxThreads {g : Pool} {l : List PC} {s' : State} {n : ℤ}
    (hs : Limited ⟨g, l⟩) (hk : Keeps ⟨g, l⟩ (.setMaxThreads n))
    (h : step ⟨g, l⟩ (.setMaxThreads n) = some s') : Limited s' := by
  rw [ThreadPool.step] at h
  split_ifs at h with hn
  · cases h
    exact hs
  · cases h
    dsimp only at hn
    have haccepted : g.limitWorkerMin ≤ n ∧ g.processorCount ≤ n := by omega
    obtain ⟨hle, hpending⟩ := hk haccepted
    exact ⟨hs.pos, hle, hs.min_pos, haccepted.1, hs.ok, hpending⟩

theorem Limited.step {s s' : State} {l : Label} (hs : Limited s) (hk : Keeps s l)
    (h : step s l = some s') : Limited s' := by
  obtain ⟨g, ts⟩ := s
  cases l with
  | run i c => exact (hs.run hk h).1
  | request =>
    rw [ThreadPool.step] at h
    split_ifs at h
    cases h
    have hg : Limited ⟨{ g with outstandingRequest := g.outstandingRequest + 1 }, ts⟩ :=
      hs.congr rfl rfl rfl
    exact hg.append trivial (by simp [PC.pending])
  | monitor | starve =>
    cases h
    exact hs.append trivial (by simp [PC.pending])
  | climb newThreadCount => exact hs.climb h
  | setMinThreads n => exact hs.setMinThreads h
  | setMaxThreads n => exact hs.setMaxThreads hk h
  | tick n | shutDown =>
    cases h
    exact hs.congr rfl rfl rfl

theorem init_maxWorking {processorCount : ℤ} (h₀ : 0 < processorCount)
    (h₁ : processorCount ≤ 32767) :
    (init processorCount).pool.counters.maxWorking = processorCount :=
  toInt16_eq_self (by omega) h₁

theorem Limited.init {processorCount : ℤ} (h₀ : 0 < processorCount)
    (h₁ : processorCount ≤ 32767) : Limited (init processorCount) := by
  have hmax : processorCount ≤ processorCount * 100 := by omega
  refine ⟨?_, ?_, h₀, hmax, by simp [ThreadPool.init], by simp [ThreadPool.init]⟩
  · rwa [init_maxWorking h₀ h₁]
  · rwa [init_maxWorking h₀ h₁]

/-! ### Runs -/

/-- In every run whose steps all meet the condition `max_working` is at least one and at most the
limit, and each value is stored as it is, the first one included. -/
theorem max_working_in_limits {processorCount : ℤ} {s : State} (h₀ : 0 < processorCount)
    (h₁ : processorCount ≤ 32767) (h : lts.ReachWith Keeps (init processorCount) s) :
    (1 ≤ s.pool.counters.maxWorking ∧ s.pool.counters.maxWorking ≤ s.pool.limitWorkerMax) ∧
    (init processorCount).pool.counters.maxWorking = processorCount ∧
    ∀ l s', Keeps s l → step s l = some s' → ∀ m ∈ assigned s l,
      s'.pool.counters.maxWorking = m := by
  have hs : Limited s := h.invariant (.init h₀ h₁) fun _ _ _ hs hk hst => hs.step hk hst
  refine ⟨⟨hs.pos, hs.le_max⟩, init_maxWorking h₀ h₁, fun l s' hk hst m hm => ?_⟩
  cases l with
  | run i c => exact (hs.run hk hst).2 m hm
  | _ => cases hm

/-- The workers starve and `max_working` is raised, the minimum is raised and the hill climbing
sets `max_working` to it, and the maximum is lowered. -/
def raiseAndClimb : List Label :=
  [.starve, .run 0 .yes, .run 0 .yes, .run 0 .yes, .setMinThreads 5, .climb 5, .run 1 .yes,
   .run 1 .yes, .run 1 .yes, .setMaxThreads 10]

theorem max_working_in_limits_raiseAndClimb :
    ∃ s, lts.ReachWith Keeps (init 1) s ∧ s.pool.counters.maxWorking = 5 ∧
      s.pool.counters.maxWorking ≤ s.pool.limitWorkerMax := by
  obtain ⟨s, hs, hw⟩ := LTS.exists_reachWith (f := step) (G := Keeps) (i := init 1) raiseAndClimb
    (fun s => s.pool.counters.maxWorking = 5) (by decide)
  exact ⟨s, hs, hw, (max_working_in_limits (by decide) (by decide) hs).1.2⟩

/-- A minimum of `65536` workers, which is stored as zero. -/
def climbToZero : List Label :=
  [.setMaxThreads 100000, .setMinThreads 65536, .climb 65536, .run 0 .yes, .run 0 .yes, .run 0 .yes]

/-- A maximum that is lower than `max_working`. -/
def lowerMaximum : List Label :=
  [.setMinThreads 50, .climb 50, .run 0 .yes, .run 0 .yes, .run 0 .yes, .setMinThreads 1,
   .setMaxThreads 10]

theorem max_working_out_of_limits :
    (∃ s, lts.Reachable (init 1) s ∧ s.pool.counters.maxWorking = 0) ∧
    ∃ s, lts.Reachable (init 1) s ∧ s.pool.limitWorkerMax < s.pool.counters.maxWorking :=
  ⟨LTS.exists_reachWith climbToZero _ (by decide),
    LTS.exists_reachWith lowerMaximum _ (by decide)⟩

end ThreadPool

end Il2Cpp
