import Il2Cpp.Monitor.Refinement

/-!
# Aborted threads

A thread that is aborted while it waits in `TryEnter` leaves the mark `threadAborted` on the block,
so that the `Exit` that follows does not throw.  The mark says neither which thread was aborted nor
is it ever removed: `Exit` then goes on as if the thread owned the monitor.

* `owner_undisturbed` : as long as nobody passes the check because of the mark, only the owner of a
  block gives it up or changes its recursion count.
* `aborted_exit_releases_owner` : with the mark, the `Exit` of the aborted thread releases the
  monitor under its owner.
-/

namespace Il2Cpp

namespace Monitor

variable {Tid Obj : Type} [DecidableEq Tid] [DecidableEq Obj]

/-- **A monitor is its owner's.**  In a run in which no thread passes the check of `Exit`, `Pulse` or
`Wait` because of the mark of an aborted thread, a step leaves the owner and the recursion count of
every block that another thread owns; and a thread that fails the check throws and changes
nothing. -/
theorem owner_undisturbed {s s' : State Tid Obj} {l : Label Tid Obj}
    (hs : (lts Tid Obj).ReachWith State.MarkUnread (State.init Tid Obj) s)
    (hl : s.MarkUnread l) (h : s.step l = some s') :
    (∀ m u, s.owningThreadId m = .thread u → u ≠ l.thread →
      s'.owningThreadId m = .thread u ∧
      s'.recursiveLockingCount m = s.recursiveLockingCount m) ∧
    ∀ m, s.markRead l = some m → s' = s.goto l.thread (.idle (.raised .synchronizationLock)) := by
  have hA := ownership_inv hs
  refine ⟨fun m u hm hu => ⟨?_, ?_⟩, fun m hm => ?_⟩
  · exact ((step_ownership hA hl h).owner_iff hA hu m).2 hm
  · refine count_frame hA h fun o ho => hu ?_
    simpa [hm] using ho.2
  · cases l with
    | call t op => cases hm
    | run t c =>
      simp only [State.markRead] at hm
      split at hm
      · rename_i o purpose k hpc
        cases hm
        have hmark := hl m (by rw [State.markRead, hpc]; rfl)
        simp only [State.step, State.runThread, hpc, State.getStep, hmark, Bool.false_eq_true,
          if_false] at h
        exact (Option.some.inj h).symm
      · cases hm

/-! ### A run with an abort -/

/-- Thread 0 enters the object; thread 1 waits to enter it and is aborted. -/
def abortedRun : List (Label ℕ ℕ) :=
  .call 0 (.tryEnter 0 infinite) :: proceed 0 4 ++
  .call 1 (.tryEnter 0 infinite) :: proceed 1 8 ++
  .run 1 .abort :: proceed 1 1

/-- The aborted thread calls `Exit`, passes the check because of the mark and is about to release
the monitor. -/
def exitOfAborted : List (Label ℕ ℕ) := .call 1 (.exit 0) :: proceed 1 5

/-- Until the mark is read, the owner keeps its monitor, whatever the aborted thread does. -/
theorem owner_undisturbed_abortedRun :
    ∃ s s' : State ℕ ℕ, s.threadAborted 0 = true ∧ s.step (.run 1 .proceed) = some s' ∧
      s'.owningThreadId 0 = Owner.thread 0 := by
  obtain ⟨s, hs, haborted, howner, hmark, hstep⟩ := LTS.exists_reachWith (f := State.step)
    (G := State.MarkUnread) (i := State.init ℕ ℕ) (abortedRun ++ [.call 1 (.exit 0)])
    (fun s => s.threadAborted 0 = true ∧ s.owningThreadId 0 = .thread 0 ∧
      s.MarkUnread (.run 1 .proceed) ∧ (s.step (.run 1 .proceed)).isSome) (by decide)
  obtain ⟨s', hs'⟩ := Option.isSome_iff_exists.1 hstep
  exact ⟨s, s', haborted, hs',
    ((owner_undisturbed hs hmark hs').1 0 0 howner (by decide)).1⟩

/-- **The `Exit` of an aborted thread takes the monitor from its owner.** -/
theorem aborted_exit_releases_owner :
    ∃ s s', (lts ℕ ℕ).Reachable (State.init ℕ ℕ) s ∧ s.threadAborted 0 = true ∧
      s.pc 1 = .exit 0 none (.unacquireReady 0) ∧ s.owningThreadId 0 = .thread 0 ∧
      s.InSection 0 0 ∧ s.step (.run 1 .proceed) = some s' ∧
      s'.owningThreadId 0 = .canBeAcquired := by
  obtain ⟨s, hs, haborted, hpc, howner, hsection, hstep⟩ := LTS.exists_reachWith
    (f := State.step) (G := fun _ _ => True) (i := State.init ℕ ℕ) (abortedRun ++ exitOfAborted)
    (fun s => s.threadAborted 0 = true ∧ s.pc 1 = .exit 0 none (.unacquireReady 0) ∧
      s.owningThreadId 0 = .thread 0 ∧ s.InSection 0 0 ∧
      (s.step (.run 1 .proceed)).any fun s' => s'.owningThreadId 0 = .canBeAcquired) (by decide)
  obtain ⟨s', hs', hreleased⟩ := (Option.any_eq_true _ _).1 hstep
  exact ⟨s, s', hs, haborted, hpc, howner, hsection, hs', of_decide_eq_true hreleased⟩

end Monitor

end Il2Cpp
