import Il2Cpp.Monitor.Count

/-!
# Mutual exclusion

At most one thread at a time is between a successful enter and the matching exit of an object, as
long as the steps are orderly (`State.Orderly`) and no thread is aborted.

* `mutual_exclusion` : the theorem.
* `two_threads_in_section` : a run in which a timed `TryEnter` takes a block that by then belongs
  to another object.
-/

set_option linter.unusedSectionVars false

namespace Il2Cpp

namespace Monitor

variable {Tid Obj : Type} [DecidableEq Tid] [DecidableEq Obj]

/-! ### Runs without an abort -/

/-- No user APC throws `NativeThreadAbortException`. -/
def Label.NoAbort : Label Tid Obj → Prop
  | .run _ .abort => False
  | _ => True

instance (l : Label Tid Obj) : Decidable l.NoAbort := by
  rcases l with _ | ⟨_, _ | _⟩ <;> dsimp only [Label.NoAbort] <;> infer_instance

/-- No block carries the mark of an aborted thread, or is about to. -/
def Unmarked (s : State Tid Obj) : Prop :=
  (∀ m, s.threadAborted m = false) ∧ ∀ t f m, s.pc t ≠ .enter f (.abortMark m)

variable {s s' : State Tid Obj} {t u : Tid} {o : Obj} {l : Label Tid Obj}

theorem Unmarked.of_goesTo {places : PC Obj → Prop} (h : Unmarked s)
    (haborted : s'.threadAborted = s.threadAborted) (hto : s.GoesTo s' t places)
    (hplaces : ∀ pc, places pc → ∀ f m, pc ≠ .enter f (.abortMark m)) : Unmarked s' := by
  refine ⟨fun m => (congrFun haborted m).trans (h.1 m), fun u f m => ?_⟩
  rcases eq_or_ne u t with rfl | hu
  · exact hplaces _ hto.1 f m
  · rw [(hto.2 u hu).1]
    exact h.2 u f m

theorem Unmarked.goto {pc : PC Obj} (h : Unmarked s)
    (haborted : s'.threadAborted = s.threadAborted) (hpc : s'.pc = s.pc)
    (hdepth : s'.depth = s.depth) (hnew : ∀ f m, pc ≠ .enter f (.abortMark m)) :
    Unmarked (s'.goto t pc) :=
  h.of_goesTo haborted (State.goesTo_goto hpc hdepth hnew) fun _ hpc => hpc

theorem Unmarked.step (h : Unmarked s) (hl : l.NoAbort) (hstep : s.step l = some s') :
    Unmarked s' := by
  cases State.runs_of_step hstep with
  | @call t op => cases op <;> exact h.goto rfl rfl rfl fun _ _ heq => nomatch heq
  | @enter t c f loc s' hpc hstep =>
    have hloc : ∀ m, loc ≠ .abortMark m := by
      rintro m rfl
      exact h.2 t f m hpc
    refine h.of_goesTo ((State.enterStep_kept hstep).2.2 hloc) (State.enterStep_goesTo hstep) ?_
    rintro pc (⟨loc', rfl, habort⟩ | ⟨b, rfl⟩ | ⟨m, e, -, rfl⟩) f' m' heq
    · cases heq
      cases habort m' rfl
      exact hl
    · obtain ⟨o, caller⟩ := f
      cases caller <;> cases heq
    · cases heq
  | @get t c o purpose loc =>
    refine h.of_goesTo (s.getStep_kept ..).2.2.1 (s.getStep_goesTo t o purpose loc) ?_
    rintro pc (⟨loc', rfl⟩ | ⟨m, rfl⟩ | ⟨e, rfl⟩) f' m' heq
    · cases heq
    · rcases purpose with (_ | v) | all | timeout <;> cases heq
    · cases heq
  | @exit t c o caller loc =>
    refine h.of_goesTo (s.exitStep_kept ..).2.2 (s.exitStep_goesTo t o caller loc) ?_
    rintro pc (⟨loc', rfl, -⟩ | rfl) f' m' heq
    · cases heq
    · rcases caller with _ | ⟨m, timeout, count, _ | n⟩ <;> cases heq
  | @pulse t c o all loc =>
    refine h.of_goesTo (s.pulseStep_kept ..).2.1 (s.pulseStep_goesTo t o all loc) ?_
    rintro pc (⟨loc', rfl⟩ | rfl) f' m' heq <;> cases heq
  | wait _ hstep =>
    refine h.of_goesTo (State.waitStep_kept hstep).2 (State.waitStep_goesTo hstep) ?_
    rintro pc (⟨loc', rfl⟩ | ⟨v, rfl⟩ | ⟨v, rfl⟩ | ⟨v, -, -, rfl⟩ | ⟨m, v, -, rfl⟩) f' m' heq <;>
      cases heq

theorem Unmarked.markUnread (h : Unmarked s) (l : Label Tid Obj) : s.MarkUnread l :=
  fun m _ => h.1 m

/-! ### Mutual exclusion -/

theorem counted_inv
    (hs : (lts Tid Obj).ReachWith (fun s l => l.NoAbort ∧ s.Orderly l) (State.init Tid Obj) s) :
    Unmarked s ∧ s.ownership.Inv ∧ Counted s := by
  refine hs.invariant (I := fun s => Unmarked s ∧ s.ownership.Inv ∧ Counted s) ?_ ?_
  · exact ⟨⟨fun _ => rfl, fun _ _ _ => nofun⟩, ownership_init, counted_init⟩
  · rintro s l s' ⟨hU, hA, hI⟩ ⟨hl, horderly⟩ hst
    have hmark := hU.markUnread l
    exact ⟨hU.step hl hst, hA.step (step_ownership hA hmark hst), hI.step hA hmark horderly hst⟩

/-- **Mutual exclusion**: in an orderly run without an abort at most one thread at a time is
between a successful enter and the matching exit of an object. -/
theorem mutual_exclusion
    (hs : (lts Tid Obj).ReachWith (fun s l => l.NoAbort ∧ s.Orderly l) (State.init Tid Obj) s)
    (ht : s.InSection t o) (hu : s.InSection u o) : t = u := by
  obtain ⟨-, -, hI⟩ := counted_inv hs
  obtain ⟨m, hm, hown⟩ := (hI.entered t o ht.1).resolve_left ht.2
  obtain ⟨k, hk, hown'⟩ := (hI.entered u o hu.1).resolve_left hu.2
  cases hm.symm.trans hk
  simpa using hown.symm.trans hown'

/-! ### Runs -/

/-- Thread 1 waits until thread 0 has left the object, and enters it. -/
def handOver : List (Label ℕ ℕ) :=
  .call 0 (.tryEnter 0 infinite) :: proceed 0 4 ++
  .call 1 (.tryEnter 0 infinite) :: proceed 1 8 ++
  .call 0 (.exit 0) :: proceed 0 6 ++ proceed 1 4

/-- Also after a hand-over the thread that is in its section is alone there. -/
theorem mutual_exclusion_handOver :
    ∃ s : State ℕ ℕ, s.InSection 1 0 ∧ ∀ u, s.InSection u 0 → 1 = u := by
  obtain ⟨s, hs, hsection⟩ := LTS.exists_reachWith (f := State.step)
    (G := fun s l => l.NoAbort ∧ s.Orderly l) (i := State.init ℕ ℕ) handOver
    (fun s => s.InSection 1 0) (by decide)
  exact ⟨s, hsection, fun u hu => mutual_exclusion hs hsection hu⟩

/-- Thread 1 waits to enter object 0, with a time-out, and is about to call `TryAcquire` for the
last time; meanwhile thread 0 exits the object, enters object 1 with the same block, and waits for
a pulse there.  Thread 1 acquires the block; thread 2 enters object 0 with a new one. -/
def lateAcquire : List (Label ℕ ℕ) :=
  .call 0 (.tryEnter 0 infinite) :: proceed 0 4 ++
  .call 1 (.tryEnter 0 5) :: proceed 1 8 ++ .run 1 .timeout :: proceed 1 2 ++
  .call 0 (.exit 0) :: proceed 0 10 ++
  .call 0 (.tryEnter 1 infinite) :: proceed 0 4 ++
  .call 0 (.tryWait 1 infinite) :: proceed 0 11 ++
  proceed 1 1 ++
  .call 2 (.tryEnter 0 infinite) :: proceed 2 4

/-- **Two threads are in the section of one object.** -/
theorem two_threads_in_section :
    ∃ s, (lts ℕ ℕ).ReachWith (fun _ l => l.NoAbort) (State.init ℕ ℕ) s ∧
      s.InSection 1 0 ∧ s.InSection 2 0 :=
  LTS.exists_reachWith lateAcquire _ (by decide)

end Monitor

end Il2Cpp
