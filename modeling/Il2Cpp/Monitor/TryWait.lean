import Il2Cpp.Monitor.Exclusion
import Il2Cpp.Monitor.Waiting

/-!
# What `TryWait` leaves behind

`TryWait` gives the monitor of the object up and has it again when it ends, also when the wait ends
by an exception: the exception is kept and thrown again at the end.  The `Enter` by which the
monitor is had again may throw too, and nobody catches that.

* `tryWait_leaves_consistent` : without an exception there, the thread holds the monitor with its
  old recursion count, and no list has its node.
* `interrupted_reentry` : with one, it does not.
* `pulse_reported` : a pulse that comes in time reaches a thread that reports it.
* `pulse_lost` : a pulse pops the node of a thread whose wait has timed out, while another waits.
-/

set_option linter.unusedSectionVars false

namespace Il2Cpp

namespace Monitor

variable {Tid Obj : Type} [DecidableEq Tid] [DecidableEq Obj]

/-! ### The recursion count -/

/-- What a thread in `TryWait` knows of the recursion count at its call. -/
def State.CountSaved (s : State Tid Obj) (t : Tid) : PC Obj → Prop
  | .getMonitor o (.tryWait _) _ =>
    ∀ m, s.Holds t o m → s.recursiveLockingCount m = s.countAtCall t
  | .wait _ (.saveCount m _) | .wait _ (.removeNode m _ _) | .wait _ (.resetNode m _ _)
  | .wait _ (.releaseNode m _ _) | .wait _ (.leave m _) =>
    s.recursiveLockingCount m = s.countAtCall t
  | .getMonitor _ (.exit (some v)) _ | .exit _ (some v) _ | .wait _ (.allocateNode v)
  | .wait _ (.pushNode v _) | .wait _ (.eventWait v _) | .wait _ (.eventBlocked v _) =>
    v.oldLockingCount = s.countAtCall t
  | .enter ⟨_, .tryWait v⟩ _ | .wait _ (.readMonitor v) | .wait _ (.restoreCount _ v) =>
    v.oldLockingCount = s.countAtCall t
  | _ => True

variable {s s' : State Tid Obj} {t u : Tid} {o : Obj} {l : Label Tid Obj}

namespace State

theorem CountSaved.goto {pc : PC Obj} (h : s.CountSaved t (s.pc t))
    (hnew : s.CountSaved t (s.pc t) → s'.CountSaved t pc) :
    (s'.goto t pc).CountSaved t ((s'.goto t pc).pc t) := by
  rw [goto_pc_self]
  exact hnew h

theorem enterStep_countSaved {f : EnterFrame Obj} {loc : EnterLoc} {c : Choice}
    (hpc : s.pc t = .enter f loc) (hI : s.CountSaved t (s.pc t))
    (h : s.enterStep t c f loc = some s') : s'.CountSaved t (s'.pc t) := by
  have hinside : ∀ (s₁ : State Tid Obj) (loc' : EnterLoc), s₁.countAtCall = s.countAtCall →
      (s₁.goto t (.enter f loc')).CountSaved t ((s₁.goto t (.enter f loc')).pc t) := by
    intro s₁ loc' hcall
    refine hI.goto fun hI => ?_
    rw [hpc] at hI
    obtain ⟨o, caller⟩ := f
    cases caller with
    | client timeOut => trivial
    | tryWait v => exact hI.trans (congrFun hcall t).symm
  have hreturn : ∀ (s₁ : State Tid Obj) (b : Bool), s₁.countAtCall = s.countAtCall →
      (s₁.returnFromEnter t f b).CountSaved t ((s₁.returnFromEnter t f b).pc t) := by
    intro s₁ b hcall
    refine hI.goto fun hI => ?_
    rw [hpc] at hI
    obtain ⟨o, caller⟩ := f
    cases caller with
    | client timeOut => trivial
    | tryWait v => exact hI.trans (congrFun hcall t).symm
  have hraise : ∀ (s₁ : State Tid Obj) (last : Outcome),
      (s₁.goto t (.idle last)).CountSaved t ((s₁.goto t (.idle last)).pc t) :=
    fun s₁ last => hI.goto fun _ => trivial
  cases loc <;> simp only [enterStep] at h
  all_goals
    repeat' split at h
    all_goals
      cases h
      try first
        | exact hreturn _ _ rfl
        | exact hinside _ _ rfl
        | exact hraise _ _

theorem getStep_countSaved {purpose : Purpose} {loc : GetLoc} (hA : s.ownership.Inv)
    (hpc : s.pc t = .getMonitor o purpose loc) (hI : s.CountSaved t (s.pc t))
    (hmark : ∀ m, loc = .loadAborted m → s.threadAborted m = false) :
    (s.getStep t o purpose loc).CountSaved t ((s.getStep t o purpose loc).pc t) := by
  have hrole : s.ownership.role t = loc.role o purpose := by rw [ownership_role, hpc, PC.role]
  have hok := hA.roles t
  rw [hrole] at hok
  have hinside : ∀ loc' : GetLoc, (s.goto t (.getMonitor o purpose loc')).CountSaved t
      ((s.goto t (.getMonitor o purpose loc')).pc t) := by
    intro loc'
    refine hI.goto fun hI => ?_
    rw [hpc] at hI
    rcases purpose with (_ | v) | all | timeout <;> exact hI
  have hraise : ∀ last, (s.goto t (.idle last)).CountSaved t ((s.goto t (.idle last)).pc t) :=
    fun last => hI.goto fun _ => trivial
  cases loc with
  | readMonitor =>
    simp only [getStep]
    cases s.monitor o with
    | none => exact hraise _
    | some m => exact hinside _
  | loadAborted m =>
    simp only [getStep, hmark m rfl, Bool.false_eq_true, if_false]
    exact hraise _
  | loadOwner m =>
    simp only [getStep]
    split_ifs with hown
    · refine hI.goto fun hI => ?_
      rw [hpc] at hI
      rcases purpose with (_ | v) | all | timeout
      · trivial
      · exact hI
      · trivial
      · exact hI m ⟨hok hown, hown⟩
    · exact hinside _

theorem exitStep_countSaved {caller : Option WaitVars} {loc : ExitLoc}
    (hpc : s.pc t = .exit o caller loc) (hI : s.CountSaved t (s.pc t)) :
    (s.exitStep t o caller loc).CountSaved t ((s.exitStep t o caller loc).pc t) := by
  have hinside : ∀ (s₁ : State Tid Obj) (loc' : ExitLoc), s₁.countAtCall = s.countAtCall →
      (s₁.goto t (.exit o caller loc')).CountSaved t
        ((s₁.goto t (.exit o caller loc')).pc t) := by
    intro s₁ loc' hcall
    refine hI.goto fun hI => ?_
    rw [hpc] at hI
    cases caller with
    | none => trivial
    | some v => exact hI.trans (congrFun hcall t).symm
  have hreturn : ∀ s₁ : State Tid Obj, s₁.countAtCall = s.countAtCall →
      (s₁.returnFromExit t o caller).CountSaved t ((s₁.returnFromExit t o caller).pc t) := by
    intro s₁ hcall
    refine hI.goto fun hI => ?_
    rw [hpc] at hI
    rcases caller with _ | ⟨m, timeout, count, _ | n⟩
    · trivial
    · exact hI.trans (congrFun hcall t).symm
    · exact hI.trans (congrFun hcall t).symm
  cases loc <;> simp only [exitStep]
  all_goals
    repeat' split
    all_goals first
      | exact hinside _ _ rfl
      | exact hreturn _ rfl

theorem waitStep_countSaved {loc : WaitLoc} {c : Choice} (hpc : s.pc t = .wait o loc)
    (hI : s.CountSaved t (s.pc t)) (h : s.waitStep t c o loc = some s') :
    s'.CountSaved t (s'.pc t) := by
  cases loc with
  | restoreCount m v =>
    simp only [waitStep] at h
    split at h <;> cases h
    all_goals
      refine hI.goto fun hI => ?_
      rw [hpc] at hI
      exact (Function.update_self m _ _).trans hI
  | _ =>
    simp only [waitStep] at h
    repeat' split at h
    all_goals
      cases h
      try exact hI.goto fun hI => by first | trivial | (rw [hpc] at hI; exact hI)

theorem call_countSaved {op : Op Obj} :
    (s.call t op).CountSaved t ((s.call t op).pc t) := by
  cases op with
  | tryWait o timeout =>
    rw [call, goto_pc_self]
    rintro m ⟨ho, -⟩
    change s.recursiveLockingCount m =
      Function.update s.countAtCall t ((s.monitor o).elim 1 s.recursiveLockingCount) t
    have ho : s.monitor o = some m := ho
    rw [Function.update_self, ho]
    rfl
  | _ =>
    rw [call, goto_pc_self]
    trivial

end State

theorem countAtCall_frame (h : s.step l = some s') (hu : u ≠ l.thread) :
    s'.countAtCall u = s.countAtCall u := by
  cases State.runs_of_step h with
  | @call t op =>
    cases op with
    | tryWait o timeout => exact Function.update_of_ne hu _ _
    | _ => rfl
  | enter _ h => rw [(State.enterStep_kept h).2.1]
  | get => rw [(s.getStep_kept ..).2.1]
  | exit => rw [(s.exitStep_kept ..).2.1]
  | pulse => rw [(s.pulseStep_kept ..).1]
  | wait _ h => rw [(State.waitStep_kept h).1]

theorem countSaved_frame (hA : s.ownership.Inv) (hmark : s.MarkUnread l)
    (h : s.step l = some s') (hu : u ≠ l.thread) (hI : s.CountSaved u (s.pc u)) :
    s'.CountSaved u (s'.pc u) := by
  have hstep := step_ownership hA hmark h
  have hok := hA.roles u
  -- the block that the thread holds
  have hcount : ∀ o m, s.Holds u o m → s'.recursiveLockingCount m = s.recursiveLockingCount m := by
    rintro o m ⟨-, hown⟩
    refine count_frame hA h ?_
    rintro o' ⟨-, hown'⟩
    exact hu (by simpa using hown.symm.trans hown')
  have hheld : ∀ o m, (s.pc u).role = .holds o m →
      s'.recursiveLockingCount m = s.recursiveLockingCount m := by
    intro o m hrole
    rw [State.ownership_role, hrole] at hok
    exact hcount o m hok.symm
  rw [(step_frame h hu).1]
  generalize s.pc u = pc at hI hheld
  have hcall := countAtCall_frame h hu
  cases pc with
  | getMonitor o purpose loc =>
    rcases purpose with (_ | v) | all | timeout
    · trivial
    · exact hI.trans hcall.symm
    · trivial
    · intro m hm
      have hm := (holds_iff hA hstep hu _ m).1 hm
      rw [hcount _ m hm, hcall]
      exact hI m hm
  | enter f loc =>
    obtain ⟨o, caller⟩ := f
    cases caller with
    | client timeOut => trivial
    | tryWait v => exact hI.trans hcall.symm
  | exit o caller loc =>
    cases caller with
    | none => trivial
    | some v => exact hI.trans hcall.symm
  | wait o loc =>
    cases loc
    all_goals first
      | exact hI.trans hcall.symm
      | exact ((hheld _ _ rfl).trans hI).trans hcall.symm
  | idle | pulse | crashed => trivial

theorem countSaved_step (hA : s.ownership.Inv) (hmark : s.MarkUnread l)
    (hI : ∀ u, s.CountSaved u (s.pc u)) (h : s.step l = some s') (u : Tid) :
    s'.CountSaved u (s'.pc u) := by
  rcases eq_or_ne u l.thread with rfl | hu
  swap
  · exact countSaved_frame hA hmark h hu (hI u)
  cases State.runs_of_step h with
  | call => exact State.call_countSaved
  | enter hpc h => exact State.enterStep_countSaved hpc (hI _) h
  | get hpc =>
    refine State.getStep_countSaved hA hpc (hI _) ?_
    rintro m rfl
    exact hmark m (by rw [State.markRead, hpc]; rfl)
  | exit hpc => exact State.exitStep_countSaved hpc (hI _)
  | @pulse t c o all loc =>
    obtain ⟨⟨loc', hto⟩ | hto, -⟩ := s.pulseStep_goesTo t o all loc <;>
      rw [Label.thread, hto] <;> trivial
  | wait hpc h => exact State.waitStep_countSaved hpc (hI _) h

theorem countSaved_inv
    (hs : (lts Tid Obj).ReachWith State.MarkUnread (State.init Tid Obj) s) (u : Tid) :
    s.CountSaved u (s.pc u) := by
  have hall : s.ownership.Inv ∧ ∀ u, s.CountSaved u (s.pc u) := by
    refine hs.invariant (I := fun s => s.ownership.Inv ∧ ∀ u, s.CountSaved u (s.pc u)) ?_ ?_
    · exact ⟨ownership_init, fun _ => trivial⟩
    · rintro s l s' ⟨hA, hI⟩ hmark hst
      exact ⟨hA.step (step_ownership hA hmark hst), countSaved_step hA hmark hI hst⟩
  exact hall.2 u

/-! ### Leaving `TryWait` -/

/-- In `TryWait` on the object, past its check. -/
def PC.tryWaitOn : PC Obj → Option Obj
  | .enter ⟨o, .tryWait _⟩ _ | .getMonitor o (.exit (some _)) _ | .exit o (some _) _
  | .wait o _ => some o
  | _ => none

theorem leave_of_tryWaitOn (hA : s.ownership.Inv) (hmark : s.MarkUnread l)
    (hreenter : s.Reenters l) (h : s.step l = some s') (ho : (s.pc l.thread).tryWaitOn = some o)
    (hleft : (s'.pc l.thread).tryWaitOn = none) :
    ∃ m v, s.pc l.thread = .wait o (.leave m v) ∧ s' = s.goto l.thread (.idle v.outcome) := by
  have hroles := hA.roles l.thread
  rw [State.ownership_role] at hroles
  -- a place that is not past the end
  have hstay : ∀ {pc : PC Obj} {p : Prop}, s'.pc l.thread = pc → pc.tryWaitOn ≠ none → p :=
    fun hto hne => absurd hleft (hto ▸ hne)
  cases State.runs_of_step h with
  | call hpc =>
    rw [Label.thread, hpc] at ho
    cases ho
  | @enter t c f loc s' hpc h =>
    rw [Label.thread, hpc] at ho
    obtain ⟨p, caller⟩ := f
    cases caller with
    | client timeOut => cases ho
    | tryWait v =>
      obtain ⟨⟨loc', hto, -⟩ | ⟨b, hto⟩ | ⟨m, e, hloc, -⟩, -⟩ := State.enterStep_goesTo h
      · exact hstay hto (by rintro ⟨⟩)
      · exact hstay hto (by rintro ⟨⟩)
      · simp only [State.Reenters, hpc] at hreenter
        obtain rfl | rfl := hloc <;> cases hreenter
  | @get t c p purpose loc hpc =>
    rw [Label.thread, hpc] at ho hroles
    rcases purpose with (_ | v) | all | timeout
    · cases ho
    · cases loc with
      | loadAborted m => exact hroles.elim
      | readMonitor =>
        have hm : s.monitor p = some v.monitor := hroles.2
        have hto : (s.getStep t p (.exit (some v)) .readMonitor).pc t =
            .getMonitor p (.exit (some v)) (.loadOwner v.monitor) := by
          simp only [State.getStep, hm]
          exact State.goto_pc_self _ _ _
        exact hstay hto (by rintro ⟨⟩)
      | loadOwner m =>
        have hm : s.owningThreadId m = .thread t := hroles.1
        have hto : (s.getStep t p (.exit (some v)) (.loadOwner m)).pc t =
            .exit p (some v) (.undo m) := by
          simp only [State.getStep, if_pos hm]
          exact State.goto_pc_self _ _ _
        exact hstay hto (by rintro ⟨⟩)
    · cases ho
    · cases ho
  | @exit t c p caller loc hpc =>
    rw [Label.thread, hpc] at ho
    cases caller with
    | none => cases ho
    | some v =>
      obtain ⟨⟨loc', hto, -⟩ | hto, -⟩ := s.exitStep_goesTo t p (some v) loc
      · exact hstay hto (by rintro ⟨⟩)
      · obtain ⟨m, timeout, count, _ | n⟩ := v <;> exact hstay hto (by rintro ⟨⟩)
  | pulse hpc =>
    rw [Label.thread, hpc] at ho
    cases ho
  | wait hpc h =>
    rw [Label.thread, hpc] at ho hroles
    cases ho
    obtain ⟨⟨loc', hto⟩ | ⟨v, hto⟩ | ⟨v, hto⟩ | ⟨v, rfl, hnone, -⟩ | ⟨m, v, rfl, -⟩, -⟩ :=
      State.waitStep_goesTo h
    · exact hstay hto (by rintro ⟨⟩)
    · exact hstay hto (by rintro ⟨⟩)
    · exact hstay hto (by rintro ⟨⟩)
    · obtain ⟨m, -, hm⟩ := hroles
      cases hnone.symm.trans hm
    · cases h
      exact ⟨m, v, hpc, rfl⟩

/-- **`TryWait` leaves a consistent state.**  In a run in which no exception leaves its `Enter`, a
node is handed back when it is on no list; and a thread that leaves `TryWait`, by a return or by an
exception, holds the monitor of the object with the recursion count of its call, and the nodes on
the lists belong to other threads. -/
theorem tryWait_leaves_consistent
    (hs : (lts Tid Obj).ReachWith (fun s l => s.MarkUnread l ∧ s.Reenters l)
      (State.init Tid Obj) s) :
    (∀ t o m v n, s.pc t = .wait o (.releaseNode m v n) →
      ∀ k, n ∉ s.threadsWaitingForPulse k) ∧
    ∀ l s' o, s.MarkUnread l → s.Reenters l → s.step l = some s' →
      (s.pc l.thread).tryWaitOn = some o → (s'.pc l.thread).tryWaitOn = none →
      ∃ m, s'.Holds l.thread o m ∧ s'.recursiveLockingCount m = s'.countAtCall l.thread ∧
        ∀ k, ∀ n ∈ s'.threadsWaitingForPulse k, ∃ u ≠ l.thread, ∃ w ∈ (s'.pc u).waiter,
          w.node = n := by
  obtain ⟨hA, -, hW⟩ := waitSet_inv hs
  have hcount := countSaved_inv (hs.mono fun _ _ hg => hg.1)
  refine ⟨fun t o m v n hpc k hn => ?_, fun l s' o hmark hreenter h ho hleft => ?_⟩
  · have hw : s.waitSet.waiter t = some ⟨o, n, .cleared v.reported⟩ := by
      rw [State.waitSet_waiter, hpc]
      rfl
    obtain ⟨u, w, hu, hnode, hph, -⟩ := hW.listed k n hn
    cases hW.node_inj u t w _ hu hw hnode
    cases hu.symm.trans hw
    exact hph
  · obtain ⟨m, v, hpc, rfl⟩ := leave_of_tryWaitOn hA hmark hreenter h ho hleft
    have hok := hA.roles l.thread
    rw [State.ownership_role, hpc] at hok
    have hsaved := hcount l.thread
    rw [hpc] at hsaved
    refine ⟨m, hok.symm, hsaved, fun k n hn => ?_⟩
    obtain ⟨u, w, hu, hnode, -, -⟩ := hW.listed k n hn
    have hne : u ≠ l.thread := by
      rintro rfl
      rw [State.waitSet_waiter, hpc] at hu
      cases hu
    refine ⟨u, hne, w, ?_, hnode⟩
    rw [(State.goto_frame s _ hne).1]
    exact hu

/-- Thread 0 enters the object and waits for a pulse, with a time-out; thread 1 enters it. -/
def waitAndEnter : List (Label ℕ ℕ) :=
  .call 0 (.tryEnter 0 infinite) :: proceed 0 4 ++ .call 0 (.tryWait 0 5) :: proceed 0 13 ++
  .call 1 (.tryEnter 0 infinite) :: proceed 1 4

/-- The wait times out, and thread 0 has the monitor again when thread 1 has left. -/
theorem tryWait_leaves_consistent_timeout :
    ∃ s s' : State ℕ ℕ, s.step (.run 0 .proceed) = some s' ∧ s'.pc 0 = .idle (.returned false) ∧
      ∃ m, s'.Holds 0 0 m ∧ s'.recursiveLockingCount m = s'.countAtCall 0 := by
  obtain ⟨s, hs, hwaits, hmark, hreenter, hstep⟩ := LTS.exists_reachWith (f := State.step)
    (G := fun s l => s.MarkUnread l ∧ s.Reenters l) (i := State.init ℕ ℕ)
    (waitAndEnter ++ .run 0 .timeout :: proceed 0 8 ++ .call 1 (.exit 0) :: proceed 1 6 ++
      proceed 0 9)
    (fun s => (s.pc 0).tryWaitOn = some 0 ∧ s.MarkUnread (.run 0 .proceed) ∧
      s.Reenters (.run 0 .proceed) ∧
      (s.step (.run 0 .proceed)).any fun s' => s'.pc 0 = .idle (.returned false)) (by decide)
  obtain ⟨s', hs', hpc⟩ := (Option.any_eq_true _ _).1 hstep
  have hpc := of_decide_eq_true hpc
  obtain ⟨m, hm, hcount, -⟩ := (tryWait_leaves_consistent hs).2 (.run 0 .proceed) s' 0 hmark
    hreenter hs' hwaits (by rw [Label.thread, hpc]; rfl)
  exact ⟨s, s', hs', hpc, m, hm, hcount⟩

/-- **`TryWait` leaves by an exception of its `Enter`**: the thread does not hold the monitor, and
its node stays on the list. -/
theorem interrupted_reentry :
    ∃ s s', (lts ℕ ℕ).ReachWith (fun _ l => l.NoAbort) (State.init ℕ ℕ) s ∧
      (s.pc 0).tryWaitOn = some 0 ∧ s.step (.run 0 .proceed) = some s' ∧
      s'.pc 0 = .idle (.raised .interrupted) ∧ (∀ m, ¬ s'.Holds 0 0 m) ∧
      0 ∈ s'.threadsWaitingForPulse 0 := by
  obtain ⟨s, hs, hwaits, hstep⟩ := LTS.exists_reachWith (f := State.step)
    (G := fun _ l => l.NoAbort) (i := State.init ℕ ℕ)
    (waitAndEnter ++ .run 0 .timeout :: proceed 0 8 ++ [.run 0 .interrupt])
    (fun s => (s.pc 0).tryWaitOn = some 0 ∧
      (s.step (.run 0 .proceed)).any fun s' => s'.pc 0 = .idle (.raised .interrupted) ∧
        s'.monitor 0 = some 0 ∧ s'.owningThreadId 0 = .thread 1 ∧
        0 ∈ s'.threadsWaitingForPulse 0) (by decide)
  obtain ⟨s', hs', h⟩ := (Option.any_eq_true _ _).1 hstep
  obtain ⟨hpc, hm, hown, hlist⟩ := of_decide_eq_true h
  refine ⟨s, s', hs, hwaits, hs', hpc, ?_, hlist⟩
  rintro m ⟨hm', hown'⟩
  cases hm.symm.trans hm'
  exact absurd (hown.symm.trans hown') (by decide)

/-! ### Pulses -/

/-- **A pulse is not lost.**  In a run in which every pulse comes in time, a node that was popped
belongs to a thread that still waits for the object; the signal stays until this thread finds it;
and a thread whose node was signaled will return `true`. -/
theorem pulse_reported
    (hs : (lts Tid Obj).ReachWith
      (fun s l => (s.MarkUnread l ∧ s.Reenters l) ∧ s.PulsesInTime l) (State.init Tid Obj) s) :
    (∀ u o all m isFirst n, s.pc u = .pulse o all (.signal m isFirst n) →
      ∃ t, (s.pc t).waiter = some ⟨o, n, .waiting⟩) ∧
    (∀ t o n, (s.pc t).waiter = some ⟨o, n, .waiting⟩ → s.pulsed n = true →
      s.signalWaitingThread n = true) ∧
    (∀ t o n b, (s.pc t).waiter = some ⟨o, n, .ended b⟩ ∨
      (s.pc t).waiter = some ⟨o, n, .removed b⟩ ∨ (s.pc t).waiter = some ⟨o, n, .cleared b⟩ →
      s.pulsed n = true → b = true) ∧
    ∀ t o m v n, s.pc t = .wait o (.releaseNode m v n) → s.pulsed n = true →
      v.outcome = .returned true := by
  obtain ⟨-, hP⟩ := pulse_inv hs
  refine ⟨fun u o all m isFirst n hpc => ?_, fun t o n hw hn => ?_, hP.reported,
    fun t o m v n hpc hn => ?_⟩
  · refine (hP.popped u o n ?_).1
    rw [State.waitSet_popped, hpc]
    rfl
  · exact (hP.waiting t o n hw).trans hn
  · have hreported := hP.reported t o n v.reported (.inr (.inr ?_)) hn
    · exact of_decide_eq_true hreported
    · rw [State.waitSet_waiter, hpc]
      rfl

/-- Thread 2 waits for a pulse, then thread 1 with a time-out; then thread 0 enters the object. -/
def twoWait : List (Label (Fin 3) ℕ) :=
  .call 2 (.tryEnter 0 infinite) :: proceed 2 4 ++ .call 2 (.tryWait 0 infinite) :: proceed 2 13 ++
  .call 1 (.tryEnter 0 infinite) :: proceed 1 4 ++ .call 1 (.tryWait 0 5) :: proceed 1 13

/-- Thread 0 enters the object and pops a node. -/
def enterAndPop : List (Label (Fin 3) ℕ) :=
  .call 0 (.tryEnter 0 infinite) :: proceed 0 4 ++ .call 0 (.pulse 0) :: proceed 0 3

/-- A node that is popped while both threads wait. -/
theorem pulse_reported_twoWait :
    ∃ s : State (Fin 3) ℕ, s.pc 0 = .pulse 0 false (.signal 0 true 1) ∧
      ∃ t, (s.pc t).waiter = some ⟨0, 1, .waiting⟩ := by
  obtain ⟨s, hs, hpc⟩ := LTS.exists_reachWith (f := State.step)
    (G := fun s l => (s.MarkUnread l ∧ s.Reenters l) ∧ s.PulsesInTime l)
    (i := State.init (Fin 3) ℕ) (twoWait ++ enterAndPop)
    (fun s => s.pc 0 = .pulse 0 false (.signal 0 true 1)) (by decide)
  exact ⟨s, hpc, (pulse_reported hs).1 0 0 false 0 true 1 hpc⟩

/-- **A pulse is lost**: it pops the node of thread 1, whose wait has timed out.  Thread 1 returns
`false`, and thread 2 goes on to wait. -/
theorem pulse_lost :
    ∃ s s', (lts (Fin 3) ℕ).ReachWith (fun _ l => l.NoAbort) (State.init (Fin 3) ℕ) s ∧
      (lts (Fin 3) ℕ).ReachWith (fun _ l => l.NoAbort) s s' ∧
      s.pc 0 = .pulse 0 false (.signal 0 true 1) ∧ (s.pc 1).waiter = some ⟨0, 1, .ended false⟩ ∧
      s'.pc 1 = .idle (.returned false) ∧ (s'.pc 2).waiter = some ⟨0, 0, .waiting⟩ ∧
      s'.signalWaitingThread 0 = false ∧ 0 ∈ s'.threadsWaitingForPulse 0 := by
  obtain ⟨s, hs, hpop, hover, hrun⟩ := LTS.exists_reachWith (f := State.step)
    (G := fun _ l => l.NoAbort) (i := State.init (Fin 3) ℕ)
    (twoWait ++ .run 1 .timeout :: enterAndPop)
    (fun s => s.pc 0 = .pulse 0 false (.signal 0 true 1) ∧
      (s.pc 1).waiter = some ⟨0, 1, .ended false⟩ ∧
      (LTS.execWith State.step (fun _ l => l.NoAbort) s
        (proceed 0 1 ++ .call 0 (.exit 0) :: proceed 0 7 ++ proceed 1 10)).any
        fun s' => s'.pc 1 = .idle (.returned false) ∧ (s'.pc 2).waiter = some ⟨0, 0, .waiting⟩ ∧
          s'.signalWaitingThread 0 = false ∧ 0 ∈ s'.threadsWaitingForPulse 0) (by decide)
  obtain ⟨s', hs', h⟩ := (Option.any_eq_true _ _).1 hrun
  exact ⟨s, s', hs, LTS.reachWith_of_execWith .init hs', hpop, hover, of_decide_eq_true h⟩

end Monitor

end Il2Cpp
