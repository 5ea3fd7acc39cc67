import Il2Cpp.Monitor.Count
import Il2Cpp.Monitor.WaitSet

/-!
# The monitors refine the model of the waiting threads

Each place of the code tells which node the thread waits with (`PC.waiter`) or has popped
(`PC.popped`), and with it each state of the monitors gives a `WaitSet`.  As long as no exception
leaves the `Enter` by which `TryWait` has the monitor again, every step is a step of that model.

* `State.Reenters`, `State.PulsesInTime` : the conditions on a step.
* `step_waitSet` : the simulation.
* `waitSet_inv`, `pulse_inv` : the invariants along every run.
-/

set_option linter.unusedSectionVars false

namespace Il2Cpp

namespace Monitor

variable {Tid Obj : Type}

/-! ### The threads -/

/-- `TryWait` will return `true`. -/
def ReentryVars.reported (v : ReentryVars) : Bool := v.outcome = .returned true

/-- The node of a thread that waits. -/
def WaitVars.waiter (o : Obj) (v : WaitVars) : Option (Waiter Obj) :=
  v.waitNode.map fun n => ⟨o, n, .waiting⟩

/-- The node of a thread whose wait is over. -/
def ReentryVars.waiter (o : Obj) (v : ReentryVars) : Option (Waiter Obj) :=
  v.waitNode.map fun n => ⟨o, n, .ended v.reported⟩

/-- The node of a thread in `TryEnter`. -/
def EnterFrame.waiter (f : EnterFrame Obj) : Option (Waiter Obj) :=
  match f.caller with
  | .client _ => none
  | .tryWait v => v.waiter f.obj

/-- **The node that the thread holds.** -/
def PC.waiter : PC Obj → Option (Waiter Obj)
  | .enter f _ => f.waiter
  | .getMonitor o (.exit (some v)) _ | .exit o (some v) _ => v.waiter o
  | .wait o (.pushNode _ n) => some ⟨o, n, .allocated⟩
  | .wait o (.eventWait _ n) | .wait o (.eventBlocked _ n) => some ⟨o, n, .waiting⟩
  | .wait o (.readMonitor v) | .wait o (.restoreCount _ v) => v.waiter o
  | .wait o (.removeNode _ v n) => some ⟨o, n, .ended v.reported⟩
  | .wait o (.resetNode _ v n) => some ⟨o, n, .removed v.reported⟩
  | .wait o (.releaseNode _ v n) => some ⟨o, n, .cleared v.reported⟩
  | _ => none

/-- The node that the thread has popped and not yet signaled. -/
def PC.popped : PC Obj → Option (Obj × Node)
  | .pulse o _ (.signal _ _ n) => some (o, n)
  | _ => none

namespace State

/-- The waiting lists and the nodes of the threads. -/
@[simps]
def waitSet (s : State Tid Obj) : WaitSet Tid Obj where
  monitor := s.monitor
  list := s.threadsWaitingForPulse
  free := s.freeNodes
  fresh := s.newNode
  event := s.signalWaitingThread
  pulsed := s.pulsed
  waiter t := (s.pc t).waiter
  popped t := (s.pc t).popped

variable [DecidableEq Tid] [DecidableEq Obj]

@[simp] theorem waitSet_goto (s : State Tid Obj) (t : Tid) (pc : PC Obj) :
    (s.goto t pc).waitSet = s.waitSet.setThread t pc.waiter pc.popped := by
  simp only [waitSet, goto, WaitSet.setThread, WaitSet.mk.injEq, true_and]
  constructor <;> funext u <;> rcases eq_or_ne u t with rfl | hne <;> simp [*]

/-! ### Conditions on a step -/

/-- **No exception leaves the `Enter` of `TryWait`.** -/
def Reenters (s : State Tid Obj) : Label Tid Obj → Prop
  | .call _ _ => True
  | .run t _ =>
    match s.pc t with
    | .enter f (.abortMark _) | .enter f (.unwind _) => f.caller.isClient
    | _ => True

/-- **A pulse comes in time**: the node that it pops belongs to a thread that waits, and the wait of
a thread ends by a time-out or an exception only while its node is on the list. -/
def PulsesInTime (s : State Tid Obj) : Label Tid Obj → Prop
  | .call _ _ => True
  | .run t c =>
    match s.pc t with
    | .pulse _ _ (.pop m _) =>
      ∀ n ∈ (s.threadsWaitingForPulse m).head?, ∀ u, ∀ w ∈ (s.pc u).waiter,
        w.node = n → w.phase = .waiting
    | .wait _ (.eventWait v n) =>
      c = .abort ∨ c = .interrupt → n ∈ s.threadsWaitingForPulse v.monitor
    | .wait _ (.eventBlocked v n) =>
      c = .abort ∨ c = .interrupt ∨ c = .timeout → n ∈ s.threadsWaitingForPulse v.monitor
    | _ => True

instance (s : State Tid Obj) (l : Label Tid Obj) : Decidable (s.Reenters l) := by
  rcases l with _ | ⟨t, _⟩ <;> dsimp only [Reenters]
  · infer_instance
  · rcases s.pc t with _ | ⟨_, _ | _⟩ | _ | _ | _ | _ | _ <;> dsimp only <;> infer_instance

instance [Fintype Tid] (s : State Tid Obj) (l : Label Tid Obj) : Decidable (s.PulsesInTime l) := by
  rcases l with _ | ⟨t, _⟩ <;> dsimp only [PulsesInTime]
  · infer_instance
  · rcases s.pc t with _ | _ | _ | _ | ⟨_, _, _ | _⟩ | ⟨_, _ | _⟩ | _ <;> dsimp only <;>
      infer_instance

/-- A block that is about to be detached has nobody on its list. -/
def Emptied (s : State Tid Obj) : Prop :=
  ∀ t o caller m, s.pc t = .exit o caller (.deflate m) → s.threadsWaitingForPulse m = []

/-! ### The simulation -/

variable {s s' : State Tid Obj} {t : Tid} {o : Obj} {P : Prop}

@[simp] theorem setThread_self (A : WaitSet Tid Obj) (t : Tid) :
    A.setThread t (A.waiter t) (A.popped t) = A := by
  simp [WaitSet.setThread]

theorem waitSet_quiet {pc : PC Obj} (hs : s'.waitSet = s.waitSet)
    (hwaiter : pc.waiter = (s.pc t).waiter) (hpopped : pc.popped = (s.pc t).popped) :
    s.waitSet.Step P t (s'.goto t pc).waitSet := by
  have heq : (s'.goto t pc).waitSet = s.waitSet := by
    rw [waitSet_goto, hs, hwaiter, hpopped]
    exact setThread_self s.waitSet t
  rw [heq]
  exact .stay

theorem returnPC_waiter {f : EnterFrame Obj} (b : Bool) : (f.returnPC b).waiter = f.waiter := by
  obtain ⟨o, caller⟩ := f
  cases caller <;> rfl

theorem returnPC_popped {f : EnterFrame Obj} (b : Bool) : (f.returnPC b).popped = none := by
  obtain ⟨o, caller⟩ := f
  cases caller <;> rfl

theorem exitReturn_waiter (caller : Option WaitVars) (loc : ExitLoc) :
    (PC.exitReturn o caller).waiter = (PC.exit o caller loc).waiter := by
  rcases caller with _ | ⟨m, timeout, count, _ | n⟩ <;> rfl

theorem exitReturn_popped (caller : Option WaitVars) : (PC.exitReturn o caller).popped = none := by
  rcases caller with _ | ⟨m, timeout, count, _ | n⟩ <;> rfl

theorem enterStep_waitSet {f : EnterFrame Obj} {loc : EnterLoc} {c : Choice}
    (hA : s.ownership.Inv) (hpc : s.pc t = .enter f loc)
    (hleave : ∀ m, loc = .abortMark m ∨ loc = .unwind m → f.caller.isClient)
    (h : s.enterStep t c f loc = some s') : s.waitSet.Step P t s'.waitSet := by
  have hinside : ∀ (s₁ : State Tid Obj) (loc' : EnterLoc), s₁.waitSet = s.waitSet →
      s.waitSet.Step P t (s₁.goto t (.enter f loc')).waitSet := by
    intro s₁ loc' hs
    refine waitSet_quiet hs ?_ ?_ <;> rw [hpc] <;> rfl
  have hreturn : ∀ (s₁ : State Tid Obj) (b : Bool), s₁.waitSet = s.waitSet →
      s.waitSet.Step P t (s₁.returnFromEnter t f b).waitSet := by
    intro s₁ b hs
    refine waitSet_quiet hs ?_ ?_ <;> rw [hpc]
    · exact returnPC_waiter b
    · exact returnPC_popped b
  have hraise : ∀ (s₁ : State Tid Obj) (e : Exc), f.caller.isClient → s₁.waitSet = s.waitSet →
      s.waitSet.Step P t (s₁.goto t (.idle (.raised e))).waitSet := by
    intro s₁ e hf hs
    refine waitSet_quiet hs ?_ ?_ <;> rw [hpc]
    · obtain ⟨o, caller⟩ := f
      cases caller with
      | client timeOut => rfl
      | tryWait v => cases hf
    · rfl
  cases loc with
  | install m =>
    have hrole : s.ownership.role t = .outside m := by rw [ownership_role, hpc]; rfl
    have hok := hA.roles t
    rw [hrole] at hok
    simp only [enterStep] at h
    split_ifs at h with ho <;> cases h
    · have heq : ((s.setMonitor f.obj (some m)).returnFromEnter t f true).waitSet =
          s.waitSet.setMonitor f.obj (some m) := by
        rw [returnFromEnter, waitSet_goto, returnPC_waiter, returnPC_popped]
        have hself := setThread_self (s.waitSet.setMonitor f.obj (some m)) t
        simp only [WaitSet.setMonitor_waiter, WaitSet.setMonitor_popped, waitSet_waiter,
          waitSet_popped, hpc] at hself
        exact hself
      rw [heq]
      exact .attach f.obj m ho hok.2
    · exact hinside _ _ rfl
  | abortMark m =>
    cases h
    exact hraise _ _ (hleave m (.inl rfl)) rfl
  | unwind m =>
    cases h
    exact hraise _ _ (hleave m (.inr rfl)) rfl
  | _ =>
    simp only [enterStep] at h
    repeat' split at h
    all_goals
      cases h
      try first
        | exact hinside _ _ rfl
        | exact hreturn _ _ rfl

theorem getStep_waitSet {purpose : Purpose} {loc : GetLoc} (hA : s.ownership.Inv)
    (hpc : s.pc t = .getMonitor o purpose loc)
    (hmark : ∀ m, loc = .loadAborted m → s.threadAborted m = false) :
    s.waitSet.Step P t (s.getStep t o purpose loc).waitSet := by
  have hrole : s.ownership.role t = loc.role o purpose := by rw [ownership_role, hpc, PC.role]
  have hok := hA.roles t
  rw [hrole] at hok
  have hinside : ∀ loc' : GetLoc,
      s.waitSet.Step P t (s.goto t (.getMonitor o purpose loc')).waitSet := by
    intro loc'
    refine waitSet_quiet rfl ?_ ?_ <;> rw [hpc] <;>
      rcases purpose with (_ | v) | all | timeout <;> rfl
  have hraise : (∀ v, purpose ≠ .exit (some v)) → ∀ last,
      s.waitSet.Step P t (s.goto t (.idle last)).waitSet := by
    intro hne last
    refine waitSet_quiet rfl ?_ ?_ <;> rw [hpc] <;> rcases purpose with (_ | v) | all | timeout
    all_goals first
      | rfl
      | exact absurd rfl (hne v)
  cases loc with
  | readMonitor =>
    simp only [getStep]
    cases hm : s.monitor o with
    | none =>
      refine hraise ?_ _
      rintro v rfl
      cases hm.symm.trans hok.2
    | some m => exact hinside _
  | loadAborted m =>
    simp only [getStep, hmark m rfl, Bool.false_eq_true, if_false]
    refine hraise ?_ _
    rintro v rfl
    exact hok
  | loadOwner m =>
    simp only [getStep]
    split_ifs
    · refine waitSet_quiet rfl ?_ ?_ <;> rw [hpc] <;>
        rcases purpose with (_ | v) | all | timeout <;> rfl
    · exact hinside _

theorem exitStep_waitSet {caller : Option WaitVars} {loc : ExitLoc} (hA : s.ownership.Inv)
    (hE : s.Emptied) (hpc : s.pc t = .exit o caller loc) :
    s.waitSet.Step P t (s.exitStep t o caller loc).waitSet := by
  have hrole : s.ownership.role t = loc.role o := by rw [ownership_role, hpc, PC.role]
  have hok := hA.roles t
  rw [hrole] at hok
  have hinside : ∀ (s₁ : State Tid Obj) (loc' : ExitLoc), s₁.waitSet = s.waitSet →
      s.waitSet.Step P t (s₁.goto t (.exit o caller loc')).waitSet := by
    intro s₁ loc' hs
    refine waitSet_quiet hs ?_ ?_ <;> rw [hpc] <;> cases caller <;> rfl
  have hreturn : ∀ s₁ : State Tid Obj, s₁.waitSet = s.waitSet →
      s.waitSet.Step P t (s₁.returnFromExit t o caller).waitSet := by
    intro s₁ hs
    refine waitSet_quiet hs ?_ ?_ <;> rw [hpc]
    · exact exitReturn_waiter caller loc
    · exact exitReturn_popped caller
  cases loc with
  | deflate m =>
    have heq : (s.exitStep t o caller (.deflate m)).waitSet = s.waitSet.setMonitor o none := by
      have hself := setThread_self (s.waitSet.setMonitor o none) t
      simp only [WaitSet.setMonitor_waiter, WaitSet.setMonitor_popped, waitSet_waiter,
        waitSet_popped, hpc] at hself
      rw [exitStep, waitSet_goto]
      cases caller <;> exact hself
    rw [heq]
    exact .detach o m hok.2 (hE t o caller m hpc)
  | _ =>
    simp only [exitStep]
    repeat' split
    all_goals first
      | exact hinside _ _ rfl
      | exact hreturn _ rfl

theorem pulseStep_waitSet {all : Bool} {loc : PulseLoc} {c : Choice} (hA : s.ownership.Inv)
    (hpc : s.pc t = .pulse o all loc) (htimely : P → s.PulsesInTime (.run t c)) :
    s.waitSet.Step P t (s.pulseStep t o all loc).waitSet := by
  have hrole : s.ownership.role t = (PC.pulse o all loc).role := by rw [ownership_role, hpc]
  have hok := hA.roles t
  rw [hrole] at hok
  simp only [PulsesInTime, hpc] at htimely
  cases loc with
  | pop m isFirst =>
    have hwaiter : s.waitSet.waiter t = none := by rw [waitSet_waiter, hpc]; rfl
    have hpopped : s.waitSet.popped t = none := by rw [waitSet_popped, hpc]; rfl
    simp only [pulseStep]
    cases hlist : s.threadsWaitingForPulse m with
    | nil => refine waitSet_quiet rfl ?_ ?_ <;> rw [hpc] <;> rfl
    | cons n rest =>
      have hstep := WaitSet.Step.pop (P := P) (A := s.waitSet) (t := t) o m n rest hpopped hok.2
        hlist ?_
      · rw [hwaiter] at hstep
        rw [waitSet_goto]
        exact hstep
      · intro hP u w hw hn
        exact htimely hP n (by simp [hlist]) u w hw hn
  | signal m isFirst n =>
    have hwaiter : s.waitSet.waiter t = none := by rw [waitSet_waiter, hpc]; rfl
    have hstep := WaitSet.Step.signal (P := P) (A := s.waitSet) (t := t) o n
      (by rw [waitSet_popped, hpc]; rfl)
    rw [hwaiter] at hstep
    simp only [pulseStep]
    split_ifs <;> rw [waitSet_goto] <;> exact hstep

theorem call_waitSet {op : Op Obj} {last : Outcome} (hpc : s.pc t = .idle last) :
    s.waitSet.Step P t (s.call t op).waitSet := by
  cases op <;> refine waitSet_quiet rfl ?_ ?_ <;> rw [hpc] <;> rfl

theorem allocateNode_cases (s : State Tid Obj) (c : Choice) :
    s.allocateNode c = (s.newNode, { s with newNode := s.newNode + 1 }) ∨
      ∃ n rest, s.freeNodes = n :: rest ∧
        s.allocateNode c = (n, { s with freeNodes := rest }) := by
  cases hfree : s.freeNodes with
  | nil =>
    left
    simp only [allocateNode, allocate, hfree]
  | cons n rest =>
    by_cases hc : c = .popFails
    · left
      simp only [allocateNode, allocate, hfree, if_pos hc]
    · right
      exact ⟨n, rest, rfl, by simp only [allocateNode, allocate, hfree, if_neg hc]⟩

theorem allocateNode_waitSet {v : WaitVars} {c : Choice}
    (hpc : s.pc t = .wait o (.allocateNode v)) :
    s.waitSet.Step P t (((s.allocateNode c).2.setPulsed (s.allocateNode c).1 false).goto t
      (.wait o (.pushNode v (s.allocateNode c).1))).waitSet := by
  have hwaiter : s.waitSet.waiter t = none := by rw [waitSet_waiter, hpc]; rfl
  have hpopped : s.waitSet.popped t = none := by rw [waitSet_popped, hpc]; rfl
  rw [waitSet_goto]
  rcases allocateNode_cases s c with heq | ⟨n, rest, hfree, heq⟩ <;> rw [heq]
  · have hnew := WaitSet.Step.new (P := P) (A := s.waitSet) (t := t) o hwaiter
    rw [hpopped] at hnew
    exact hnew
  · have hreuse := WaitSet.Step.reuse (P := P) (A := s.waitSet) (t := t) o n rest hfree hwaiter
    rw [hpopped] at hreuse
    exact hreuse

theorem waitStep_waitSet {loc : WaitLoc} {c : Choice} (hA : s.ownership.Inv)
    (hpc : s.pc t = .wait o loc) (htimely : P → s.PulsesInTime (.run t c))
    (h : s.waitStep t c o loc = some s') : s.waitSet.Step P t s'.waitSet := by
  have hrole : s.ownership.role t = loc.role o := by rw [ownership_role, hpc, PC.role]
  have hok := hA.roles t
  rw [hrole] at hok
  have hpopped : s.waitSet.popped t = none := by rw [waitSet_popped, hpc]; rfl
  have hwaiter : s.waitSet.waiter t = (PC.wait o loc).waiter := by rw [waitSet_waiter, hpc]
  -- the wait is over
  have hfinish : ∀ (v : WaitVars) (n : Node), (PC.wait o loc).waiter = some ⟨o, n, .waiting⟩ →
      s.signalWaitingThread n = true → s.waitSet.Step P t
        ((s.setEvent n false).goto t (.reenter o (v.afterWait n .success none))).waitSet := by
    intro v n hw he
    have hstep := WaitSet.Step.finish (P := P) (A := s.waitSet) (t := t) o n (hwaiter.trans hw) he
    rw [hpopped] at hstep
    rw [waitSet_goto]
    exact hstep
  have hgiveUp : ∀ (v : WaitVars) (n : Node) (status : WaitStatus) (e : Option Exc),
      (v.afterWait n status e).reported = false → (PC.wait o loc).waiter = some ⟨o, n, .waiting⟩ →
      (P → n ∈ s.threadsWaitingForPulse v.monitor) → s.waitSet.Step P t
        (s.goto t (.reenter o (v.afterWait n status e))).waitSet := by
    intro v n status e hreported hw hlist
    have hstep := WaitSet.Step.giveUp (P := P) (A := s.waitSet) (t := t) o n (hwaiter.trans hw)
      (fun hP => ⟨v.monitor, hlist hP⟩)
    rw [hpopped, ← hreported] at hstep
    rw [waitSet_goto]
    exact hstep
  cases loc with
  | saveCount m timeout =>
    simp only [waitStep] at h
    split_ifs at h <;> cases h <;> refine waitSet_quiet rfl ?_ ?_ <;> rw [hpc] <;> rfl
  | allocateNode v =>
    simp only [waitStep, Option.some.injEq] at h
    subst h
    exact allocateNode_waitSet hpc
  | pushNode v n =>
    cases h
    have hstep := WaitSet.Step.push (P := P) (A := s.waitSet) (t := t) o v.monitor n hwaiter hok.2
    rw [hpopped] at hstep
    rw [waitSet_goto]
    exact hstep
  | eventWait v n =>
    simp only [PulsesInTime, hpc] at htimely
    cases c with
    | abort =>
      cases h
      exact hgiveUp v n _ _ rfl rfl fun hP => htimely hP (.inl rfl)
    | interrupt =>
      cases h
      exact hgiveUp v n _ _ rfl rfl fun hP => htimely hP (.inr rfl)
    | proceed | popFails | timeout =>
      simp only [waitStep] at h
      split_ifs at h with he <;> cases h
      · exact hfinish v n rfl he
      · refine waitSet_quiet rfl ?_ ?_ <;> rw [hpc] <;> rfl
  | eventBlocked v n =>
    simp only [PulsesInTime, hpc] at htimely
    cases c with
    | abort =>
      cases h
      exact hgiveUp v n _ _ rfl rfl fun hP => htimely hP (.inl rfl)
    | interrupt =>
      cases h
      exact hgiveUp v n _ _ rfl rfl fun hP => htimely hP (.inr (.inl rfl))
    | timeout =>
      simp only [waitStep] at h
      split_ifs at h
      cases h
      exact hgiveUp v n _ _ rfl rfl fun hP => htimely hP (.inr (.inr rfl))
    | proceed | popFails =>
      simp only [waitStep] at h
      split_ifs at h with he
      cases h
      exact hfinish v n rfl he
  | readMonitor v =>
    simp only [waitStep] at h
    cases hm : s.monitor o with
    | none =>
      obtain ⟨k, -, ho⟩ := hok
      cases hm.symm.trans ho
    | some m =>
      rw [hm] at h
      cases h
      refine waitSet_quiet rfl ?_ ?_ <;> rw [hpc] <;> rfl
  | restoreCount m v =>
    simp only [waitStep] at h
    split at h <;> cases h
    all_goals
      rename_i hnode
      refine waitSet_quiet rfl ?_ ?_ <;> rw [hpc]
      · simp only [PC.waiter, ReentryVars.waiter, hnode, Option.map]
      · rfl
  | removeNode m v n =>
    cases h
    have hstep := WaitSet.Step.remove (P := P) (A := s.waitSet) (t := t) o m n _ hwaiter hok.2
    rw [hpopped] at hstep
    rw [waitSet_goto]
    exact hstep
  | resetNode m v n =>
    cases h
    have hstep := WaitSet.Step.clear (P := P) (A := s.waitSet) (t := t) o n _ hwaiter
    rw [hpopped] at hstep
    rw [waitSet_goto]
    exact hstep
  | releaseNode m v n =>
    cases h
    have hstep := WaitSet.Step.release (P := P) (A := s.waitSet) (t := t) o n _ hwaiter
    rw [hpopped] at hstep
    rw [waitSet_goto]
    exact hstep
  | leave m v =>
    cases h
    refine waitSet_quiet rfl ?_ ?_ <;> rw [hpc] <;> rfl

/-! ### The lists change in the hands of the owner only -/

theorem waitStep_list {loc : WaitLoc} {c : Choice} (h : s.waitStep t c o loc = some s') :
    s'.threadsWaitingForPulse = s.threadsWaitingForPulse ∨
      ∃ m nodes, loc.role o = .holds o m ∧
        s'.threadsWaitingForPulse = Function.update s.threadsWaitingForPulse m nodes := by
  cases loc with
  | pushNode v n =>
    cases h
    exact .inr ⟨v.monitor, _, rfl, rfl⟩
  | removeNode m v n =>
    cases h
    exact .inr ⟨m, _, rfl, rfl⟩
  | _ =>
    left
    simp only [waitStep] at h
    repeat' split at h
    all_goals
      cases h
      try rfl

end State

variable [DecidableEq Tid] [DecidableEq Obj] {s s' : State Tid Obj} {t : Tid} {l : Label Tid Obj}

/-- **The list of a block is changed only by a thread that holds it.** -/
theorem list_frame (hA : s.ownership.Inv) (h : s.step l = some s') {m : Block}
    (hm : ∀ o, ¬ s.Holds l.thread o m) :
    s'.threadsWaitingForPulse m = s.threadsWaitingForPulse m := by
  have hroles := hA.roles l.thread
  have hset : ∀ o k nodes, s.owningThreadId k = .thread l.thread ∧ s.monitor o = some k →
      Function.update s.threadsWaitingForPulse k nodes m = s.threadsWaitingForPulse m := by
    intro o k nodes hk
    refine Function.update_of_ne ?_ _ _
    rintro rfl
    exact hm o hk.symm
  cases State.runs_of_step h with
  | @call t op => cases op <;> rfl
  | enter _ h => rw [(State.enterStep_kept h).1]
  | get => rw [(s.getStep_kept ..).1]
  | exit => rw [(s.exitStep_kept ..).1]
  | @pulse t c o all loc hpc =>
    rw [State.ownership_role, Label.thread, hpc] at hroles
    cases loc with
    | pop k isFirst =>
      simp only [State.pulseStep]
      split
      · rfl
      · exact hset o k _ hroles
    | signal k isFirst n =>
      simp only [State.pulseStep]
      split_ifs <;> rfl
  | wait hpc h =>
    rcases State.waitStep_list h with heq | ⟨k, nodes, hrole, heq⟩ <;> rw [heq]
    rw [State.ownership_role, Label.thread, hpc, PC.role, hrole] at hroles
    exact hset _ k nodes hroles

theorem emptied_self (h : s.step l = some s') {o : Obj} {caller : Option WaitVars} {m : Block}
    (hpc' : s'.pc l.thread = .exit o caller (.deflate m)) : s'.threadsWaitingForPulse m = [] := by
  cases State.runs_of_step h with
  | @call t op => cases op <;> cases (State.goto_pc_self _ _ _).symm.trans hpc'
  | @enter t c f loc s' _ h =>
    obtain ⟨⟨loc', hto, -⟩ | ⟨b, hto⟩ | ⟨k, e, -, hto⟩, -⟩ := State.enterStep_goesTo h
    · cases hto.symm.trans hpc'
    · obtain ⟨p, caller⟩ := f
      cases caller <;> cases hto.symm.trans hpc'
    · cases hto.symm.trans hpc'
  | @get t c p purpose loc =>
    obtain ⟨⟨loc', hto⟩ | ⟨k, hto⟩ | ⟨e, hto⟩, -⟩ := s.getStep_goesTo t p purpose loc
    · cases hto.symm.trans hpc'
    · rcases purpose with (_ | v) | all | timeout <;> cases hto.symm.trans hpc'
    · cases hto.symm.trans hpc'
  | @exit t c p caller loc =>
    obtain ⟨⟨loc', hto, hlist⟩ | hto, -⟩ := s.exitStep_goesTo t p caller loc
    · cases hto.symm.trans hpc'
      rw [(s.exitStep_kept ..).1]
      exact hlist m rfl
    · rcases caller with _ | ⟨k, timeout, count, _ | n⟩ <;> cases hto.symm.trans hpc'
  | @pulse t c p all loc =>
    obtain ⟨⟨loc', hto⟩ | hto, -⟩ := s.pulseStep_goesTo t p all loc <;>
      cases hto.symm.trans hpc'
  | wait _ h =>
    obtain ⟨⟨loc', hto⟩ | ⟨v, hto⟩ | ⟨v, hto⟩ | ⟨v, -, -, hto⟩ | ⟨k, v, -, hto⟩, -⟩ :=
      State.waitStep_goesTo h <;> cases hto.symm.trans hpc'

theorem emptied_step (hE : s.Emptied) (hA : s.ownership.Inv) (h : s.step l = some s') :
    s'.Emptied := by
  intro u o caller m hu
  rcases eq_or_ne u l.thread with rfl | hne
  · exact emptied_self h hu
  · rw [(step_frame h hne).1] at hu
    have hok := hA.roles u
    rw [State.ownership_role, hu] at hok
    rw [list_frame hA h, hE u o caller m hu]
    -- the block is owned by the thread that detaches it
    rintro o' ⟨-, hown⟩
    exact hne (by simpa using hok.1.symm.trans hown)

/-! ### The run -/

/-- **The monitors simulate the model of the waiting threads.** -/
theorem step_waitSet {P : Prop} (hA : s.ownership.Inv) (hE : s.Emptied) (hmark : s.MarkUnread l)
    (hreenter : s.Reenters l) (htimely : P → s.PulsesInTime l) (h : s.step l = some s') :
    s.waitSet.Step P l.thread s'.waitSet := by
  cases State.runs_of_step h with
  | call hpc => exact State.call_waitSet hpc
  | enter hpc h =>
    simp only [State.Reenters] at hreenter
    rw [hpc] at hreenter
    refine State.enterStep_waitSet hA hpc ?_ h
    rintro m (rfl | rfl) <;> exact hreenter
  | get hpc =>
    refine State.getStep_waitSet hA hpc ?_
    rintro m rfl
    exact hmark m (by rw [State.markRead, hpc]; rfl)
  | exit hpc => exact State.exitStep_waitSet hA hE hpc
  | pulse hpc => exact State.pulseStep_waitSet hA hpc htimely
  | wait hpc h => exact State.waitStep_waitSet hA hpc htimely h

theorem emptied_init : (State.init Tid Obj).Emptied := fun _ _ _ _ h => nomatch h

theorem waitSet_init : (State.init Tid Obj).waitSet.Inv where
  inj _ _ _ h := nomatch h
  nodup_free := List.nodup_nil
  free _ h := nomatch h
  lt _ _ h := nomatch h
  node_inj _ _ _ _ h := nomatch h
  listed _ _ h := nomatch h
  nodup _ := List.nodup_nil

theorem pulse_init : (State.init Tid Obj).waitSet.PulseInv where
  free _ _ := rfl
  allocated _ _ _ h := nomatch h
  waiting _ _ _ _ := rfl
  listed _ _ _ := rfl
  popped _ _ _ h := nomatch h
  popped_inj _ _ _ _ _ h := nomatch h
  reported _ _ _ _ _ h := nomatch h
  cleared _ _ _ _ _ := rfl

/-- **The invariant of the waiting lists**, along every run in which `TryWait` has the monitor
again. -/
theorem waitSet_inv
    (hs : (lts Tid Obj).ReachWith (fun s l => s.MarkUnread l ∧ s.Reenters l)
      (State.init Tid Obj) s) : s.ownership.Inv ∧ s.Emptied ∧ s.waitSet.Inv := by
  refine hs.invariant (I := fun s => s.ownership.Inv ∧ s.Emptied ∧ s.waitSet.Inv) ?_ ?_
  · exact ⟨ownership_init, emptied_init, waitSet_init⟩
  · rintro s l s' ⟨hA, hE, hW⟩ ⟨hmark, hreenter⟩ hst
    have hstep := step_waitSet (P := False) hA hE hmark hreenter False.elim hst
    exact ⟨hA.step (step_ownership hA hmark hst), emptied_step hE hA hst, hW.step hstep⟩

/-- **The invariant of the pulses**, along every such run in which the pulses come in time. -/
theorem pulse_inv
    (hs : (lts Tid Obj).ReachWith
      (fun s l => (s.MarkUnread l ∧ s.Reenters l) ∧ s.PulsesInTime l) (State.init Tid Obj) s) :
    s.waitSet.Inv ∧ s.waitSet.PulseInv := by
  have hall : (s.ownership.Inv ∧ s.Emptied) ∧ s.waitSet.Inv ∧ s.waitSet.PulseInv := by
    refine hs.invariant
      (I := fun s => (s.ownership.Inv ∧ s.Emptied) ∧ s.waitSet.Inv ∧ s.waitSet.PulseInv) ?_ ?_
    · exact ⟨⟨ownership_init, emptied_init⟩, waitSet_init, pulse_init⟩
    · rintro s l s' ⟨⟨hA, hE⟩, hW, hP⟩ ⟨⟨hmark, hreenter⟩, htimely⟩ hst
      have hstep := step_waitSet (P := True) hA hE hmark hreenter (fun _ => htimely) hst
      exact ⟨⟨hA.step (step_ownership hA hmark hst), emptied_step hE hA hst⟩, hW.step hstep,
        hP.step hW hstep⟩
  exact hall.2

end Monitor

end Il2Cpp
