import Il2Cpp.ThreadPool.Worker

/-!
# Adjusting the number of workers

`heuristic_adjust` of `threadpool-ms.cpp`, with the macro `COUNTER_ATOMIC` that it uses.

* `counterAtomic` : the macro, for every outcome of its attempts.
* `heuristicAdjust` : the function, for every outcome of the attempts, of the clock and of the hill
  climbing.
* `heuristicAdjust_never_requests` : it compares the new thread count with the counters that the
  macro has just stored, which have that count.  So it requests no worker, whether it raises
  `max_working` or not.
-/

namespace Il2Cpp

namespace ThreadPool

/-- `COUNTER_ATOMIC`.  An attempt is what `COUNTER_READ` returns and what the counters are at the
compare-exchange.  The result is the variable at the end and the counters that it has replaced;
there is none as long as no attempt succeeds. -/
def counterAtomic (block : ThreadPoolCounter → ThreadPoolCounter) :
    List (ThreadPoolCounter × ThreadPoolCounter) → Option (ThreadPoolCounter × ThreadPoolCounter)
  | [] => none
  | (old, current) :: attempts =>
    let var := block old
    if current = old then some (var, current) else counterAtomic block attempts

/-- The data of the pool that `heuristic_adjust` uses. -/
structure Heuristic where
  counters : ThreadPoolCounter
  /-- Whether `heuristic_lock` is held. -/
  lock : Bool
  completions : ℤ
  sampleStart : ℤ
  lastAdjustment : ℤ
  adjustmentInterval : ℤ
  deriving DecidableEq

/-- What a call of `heuristic_adjust` sees of the rest of the system. -/
structure AdjustInput where
  /-- The clock when the sample ends. -/
  sampleEnd : ℤ
  /-- The clock when the adjustment is done. -/
  adjusted : ℤ
  /-- What the first `COUNTER_READ` returns. -/
  counter : ThreadPoolCounter
  /-- The attempts of `COUNTER_ATOMIC`. -/
  attempts : List (ThreadPoolCounter × ThreadPoolCounter)

/-- What a call of `heuristic_adjust` has done. -/
structure AdjustResult where
  heuristic : Heuristic
  /-- The counters that have been replaced. -/
  replaced : Option ThreadPoolCounter
  /-- Whether it has called `worker_request` for the current domain. -/
  requested : Bool
  deriving DecidableEq

/-- `heuristic_adjust`.  The hill climbing is given the current count, the duration of the sample,
the completions and the interval, and returns the new count and the new interval. -/
def heuristicAdjust (hillClimbingUpdate : ℤ → ℤ → ℤ → ℤ → ℤ × ℤ) (r : AdjustInput)
    (g : Heuristic) : Option AdjustResult :=
  -- TryAcquire
  if g.lock then some ⟨g, none, false⟩
  else
    let completions := g.completions
    let g := { g with completions := 0 }
    let sampleDuration := r.sampleEnd - g.sampleStart
    if sampleDuration ≥ g.adjustmentInterval.tdiv 2 then do
      let (found, interval) := hillClimbingUpdate r.counter.maxWorking (sampleDuration % 2 ^ 32)
        completions g.adjustmentInterval
      let newThreadCount := toInt16 found
      let (counter, replaced) ← counterAtomic (Block.adjust newThreadCount).update r.attempts
      some
        { heuristic :=
            { g with
              counters := counter
              sampleStart := r.sampleEnd
              lastAdjustment := r.adjusted
              adjustmentInterval := interval }
          replaced := some replaced
          requested := newThreadCount > counter.maxWorking }
    else some ⟨g, none, false⟩

/-- The call has raised `max_working` above its previous value. -/
def AdjustResult.Raises (o : AdjustResult) : Prop :=
  ∃ c, o.replaced = some c ∧ c.maxWorking < o.heuristic.counters.maxWorking

theorem counterAtomic_eq {block : ThreadPoolCounter → ThreadPoolCounter}
    {attempts : List (ThreadPoolCounter × ThreadPoolCounter)} {var old : ThreadPoolCounter}
    (h : counterAtomic block attempts = some (var, old)) : var = block old := by
  induction attempts with
  | nil => cases h
  | cons attempt attempts ih =>
    obtain ⟨read, current⟩ := attempt
    rw [counterAtomic] at h
    split_ifs at h with hsuccess
    · obtain ⟨rfl, rfl⟩ := Prod.mk.inj (Option.some.inj h)
      rw [hsuccess]
    · exact ih h

theorem toInt16_toInt16 (n : ℤ) : toInt16 (toInt16 n) = toInt16 n := Int.bmod_bmod

/-- **The raised limit asks for no worker**, whatever the outcome of the attempts. -/
theorem heuristicAdjust_never_requests {hillClimbingUpdate : ℤ → ℤ → ℤ → ℤ → ℤ × ℤ}
    {r : AdjustInput} {g : Heuristic} {o : AdjustResult}
    (h : heuristicAdjust hillClimbingUpdate r g = some o) (hraise : o.Raises) :
    o.requested = false := by
  obtain ⟨c, hreplaced, -⟩ := hraise
  simp only [heuristicAdjust, Option.bind_eq_bind] at h
  split_ifs at h
  · cases h
    cases hreplaced
  · rw [Option.bind_eq_some_iff] at h
    obtain ⟨⟨counter, replaced⟩, hatomic, h⟩ := h
    cases h
    -- the counters have the new count already
    have hcount : counter.maxWorking = toInt16 (toInt16 (hillClimbingUpdate r.counter.maxWorking
        ((r.sampleEnd - g.sampleStart) % 2 ^ 32) g.completions g.adjustmentInterval).1) := by
      rw [counterAtomic_eq hatomic]
      rfl
    rw [toInt16_toInt16] at hcount
    simp [hcount]
  · cases h
    cases hreplaced

/-- One failed attempt, and one that raises `max_working` from four to six. -/
def raisingInput : AdjustInput where
  sampleEnd := 1000
  adjusted := 1001
  counter := ⟨4, 4, 4, 0⟩
  attempts := [(⟨4, 4, 4, 0⟩, ⟨4, 3, 3, 0⟩), (⟨4, 3, 3, 0⟩, ⟨4, 3, 3, 0⟩)]

def raisingHeuristic : Heuristic := ⟨⟨4, 4, 4, 0⟩, false, 7, 0, 0, 100⟩

def raisingResult : AdjustResult :=
  ⟨⟨⟨6, 3, 3, 0⟩, false, 0, 1000, 1001, 10⟩, some ⟨4, 3, 3, 0⟩, false⟩

theorem heuristicAdjust_never_requests_raising : raisingResult.requested = false :=
  @heuristicAdjust_never_requests (fun _ _ _ _ => (6, 10)) raisingInput raisingHeuristic _
    (by decide) ⟨⟨4, 3, 3, 0⟩, rfl, by decide⟩

theorem heuristicAdjust_raises_without_request :
    ∃ o, heuristicAdjust (fun _ _ _ _ => (6, 10)) raisingInput raisingHeuristic = some o ∧
      o.Raises ∧ ¬ o.requested :=
  ⟨raisingResult, by decide, ⟨⟨4, 3, 3, 0⟩, rfl, by decide⟩, by decide⟩

end ThreadPool

end Il2Cpp
