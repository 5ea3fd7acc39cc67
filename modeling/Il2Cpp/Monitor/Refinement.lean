import Il2Cpp.Monitor.Ownership
import Il2Cpp.Monitor.Step

/-!
# The monitors refine the ownership model

Each place of the code gives a thread a role (`PC.role`), and with it each state of the monitors an
`Ownership`.  As long as no thread passes the check of `Exit`, `Pulse` or `Wait` only because the
block carries the mark of an aborted thread, every step is a step of the ownership model, and its
invariant holds in every state.

* `State.MarkUnread` : the condition on a step.
* `step_ownership` : the simulation.
* `ownership_inv` : the invariant along every run.
-/

set_option linter.unusedSectionVars false

namespace Il2Cpp

namespace Monitor

variable {Tid Obj : Type}

/-! ### Roles -/

/-- The role of a thread that has returned from `TryEnter`. -/
def EnterFrame.returnRole (f : EnterFrame Obj) : Role Obj :=
  match f.caller with
  | .client _ => .none
  | .tryWait _ => .entered f.obj

/-- A role that only a client's call has; `TryWait` calls `Enter` without a time-out. -/
def EnterFrame.clientRole (f : EnterFrame Obj) (r : Role Obj) : Role Obj :=
  match f.caller with
  | .client _ => r
  | .tryWait _ => .unreachable

/-- The role at a place of `TryEnter`. -/
def EnterLoc.role (f : EnterFrame Obj) : EnterLoc → Role Obj
  | .readMonitor | .allocate | .tryAcquire _ | .addReady _ | .acknowledge _ => .none
  | .exchangeOwner m | .release m => .kept m
  | .install m | .returnOwner m => .outside m
  | .checkOwner m => .saw f.obj m
  | .incrementCount m => .holds f.obj m
  | .recheck m | .unacquire m => .acquired m
  | .recheckReady m | .vacate m | .abortMark m | .unwind m => .ready m
  | .loopCheck m | .loopAcquire m | .semaphoreWait m | .semaphoreBlocked m => .pinned f.obj m
  | .loopRemove m => .pinnedOwner f.obj m
  | .timeoutRemove m => f.clientRole (.ready m)
  | .timeoutCheck _ | .timeoutAcquire _ | .timeoutRecheck _ | .timeoutAcknowledge _ =>
    f.clientRole .none

/-- The role at a place of `GetMonitorAndThrowIfNotLockedByCurrentThread`. -/
def GetLoc.role (o : Obj) : Purpose → GetLoc → Role Obj
  | .exit (some v), .readMonitor => .holds o v.monitor
  | .exit (some _), .loadOwner m => .holds o m
  | .exit (some _), .loadAborted _ => .unreachable
  | _, .readMonitor | _, .loadAborted _ => .none
  | _, .loadOwner m => .saw o m

/-- The role at a place of `Exit`. -/
def ExitLoc.role (o : Obj) : ExitLoc → Role Obj
  | .undo m | .checkReady m | .unacquireReady m | .checkWaiting m | .unacquireWaiting m
  | .deflate m => .holds o m
  | .post _ | .recheckReady _ => .none
  | .resetFlush m | .flushCheck m | .flushRead m | .flushPost m _ | .flushWait m => .deflating m
  | .returnOwner m => .deflated m
  | .release m => .kept m

/-- The role at a place of `TryWait`. -/
def WaitLoc.role (o : Obj) : WaitLoc → Role Obj
  | .saveCount m _ | .restoreCount m _ | .removeNode m _ _ | .resetNode m _ _
  | .releaseNode m _ _ | .leave m _ => .holds o m
  | .allocateNode v | .pushNode v _ => .holds o v.monitor
  | .eventWait _ _ | .eventBlocked _ _ => .none
  | .readMonitor _ => .entered o

/-- **The role of a thread.** -/
def PC.role : PC Obj → Role Obj
  | .idle _ | .crashed => .none
  | .enter f loc => loc.role f
  | .getMonitor o purpose loc => loc.role o purpose
  | .exit o _ loc => loc.role o
  | .pulse o _ (.pop m _) | .pulse o _ (.signal m _ _) => .holds o m
  | .wait o loc => loc.role o

namespace State

/-- The blocks and the roles of the threads. -/
@[simps]
def ownership (s : State Tid Obj) : Ownership Tid Obj where
  monitor := s.monitor
  owner := s.owningThreadId
  ready := s.numThreadsWaitingForSemaphore
  free := s.freeMonitors
  fresh := s.newMonitor
  role t := (s.pc t).role

variable [DecidableEq Tid] [DecidableEq Obj]

section ownership

variable (s : State Tid Obj) (t : Tid) (o : Obj) (m : Block) (n : Node)

@[simp] theorem ownership_goto (pc : PC Obj) :
    (s.goto t pc).ownership = s.ownership.setRole t pc.role := by
  simp only [ownership, goto, Ownership.setRole, Ownership.mk.injEq, true_and]
  funext u
  rcases eq_or_ne u t with rfl | hne <;> simp [*]

@[simp] theorem ownership_setOwner (x : Owner Tid) :
    (s.setOwner m x).ownership = s.ownership.setOwner m x := rfl

@[simp] theorem ownership_setMonitor (x : Option Block) :
    (s.setMonitor o x).ownership = s.ownership.setMonitor o x := rfl

@[simp] theorem ownership_addReady :
    (s.addReady m).ownership = s.ownership.setReady m (s.ownership.ready m + 1) := rfl

@[simp] theorem ownership_removeReady :
    (s.removeReady m).ownership = s.ownership.setReady m (s.ownership.ready m - 1) := rfl

@[simp] theorem ownership_setAborted : (s.setAborted m).ownership = s.ownership := rfl

@[simp] theorem ownership_setCount (c : BitVec 32) :
    (s.setCount m c).ownership = s.ownership := rfl

@[simp] theorem ownership_takeSemaphore : (s.takeSemaphore m).ownership = s.ownership := rfl

@[simp] theorem ownership_postSemaphore (k : ℕ) :
    (s.postSemaphore m k).ownership = s.ownership := rfl

@[simp] theorem ownership_setFlush (b : Bool) : (s.setFlush m b).ownership = s.ownership := rfl

@[simp] theorem ownership_setWaiting (nodes : List Node) :
    (s.setWaiting m nodes).ownership = s.ownership := rfl

@[simp] theorem ownership_setEvent (b : Bool) : (s.setEvent n b).ownership = s.ownership := rfl

@[simp] theorem ownership_setPulsed (b : Bool) : (s.setPulsed n b).ownership = s.ownership := rfl

@[simp] theorem ownership_releaseMonitor :
    (s.releaseMonitor m).ownership =
      { s.ownership with free := s.ownership.free ++ [m] } := rfl

@[simp] theorem ownership_releaseNode : (s.releaseNode n).ownership = s.ownership := rfl

@[simp] theorem ownership_allocateNode (c : Choice) :
    (s.allocateNode c).2.ownership = s.ownership := rfl

@[simp] theorem ownership_returnFromEnter (f : EnterFrame Obj) (b : Bool) :
    (s.returnFromEnter t f b).ownership = s.ownership.setRole t f.returnRole := by
  have hrole : (f.returnPC b).role = f.returnRole := by
    rw [EnterFrame.returnPC, EnterFrame.returnRole]
    cases f.caller <;> rfl
  rw [returnFromEnter, ownership_goto, hrole]
  rfl

@[simp] theorem ownership_returnFromExit (caller : Option WaitVars) :
    (s.returnFromExit t o caller).ownership = s.ownership.setRole t .none := by
  have hrole : (PC.exitReturn o caller).role = .none := by
    rcases caller with _ | v
    · rfl
    · rw [PC.exitReturn]
      cases v.waitNode <;> rfl
  rw [returnFromExit, ownership_goto, hrole]

@[simp] theorem ownership_passCheck (purpose : Purpose) :
    (s.passCheck t o m purpose).ownership = s.ownership.setRole t (.holds o m) := by
  rw [passCheck, ownership_goto]
  cases purpose <;> rfl

end ownership

end State

/-! ### The simulation -/

/-- The thread has no block of its own and is on no ready list. -/
def Role.Plain (r : Role Obj) : Prop :=
  r.keptBlock = Option.none ∧ r.outsideBlock = Option.none ∧ r.readyBlock = Option.none

variable [DecidableEq Tid] [DecidableEq Obj]

namespace Ownership

variable {A : Ownership Tid Obj} {t : Tid} {r r' : Role Obj}

theorem Step.learn (hrole : A.role t = r) (h : r.Plain) (h' : r'.Plain) (hr : A.RoleOk t r') :
    A.Step t (A.setRole t r') := by
  obtain ⟨hkept, houtside, hready⟩ := h
  refine .observe r' hr ?_ ?_ ?_ (.inr h'.2.2)
  · rw [hrole, hkept, h'.1]
  · rw [hrole, houtside, h'.2.1]
  · intro m hm
    rw [← hrole, hm] at houtside
    exact absurd houtside nofun

theorem Step.wait {m : Block} (hrole : A.role t = r) (h : r.readyBlock = some m)
    (h' : r'.readyBlock = some m) (hr : A.RoleOk t r') : A.Step t (A.setRole t r') := by
  have hplain : ∀ q : Role Obj, q.readyBlock = some m →
      q.keptBlock = none ∧ q.outsideBlock = none := by
    intro q hq
    cases q <;> simp_all [Role.readyBlock, Role.keptBlock, Role.outsideBlock]
  refine .observe r' hr ?_ ?_ ?_ (.inl ?_)
  · rw [hrole, (hplain r h).1, (hplain r' h').1]
  · rw [hrole, (hplain r h).2, (hplain r' h').2]
  · intro k hk
    have := (hplain r h).2
    rw [← hrole, hk] at this
    cases this
  · rw [hrole, h, h']

theorem Step.stay (hA : A.Inv) (hrole : A.role t = r) : A.Step t (A.setRole t r) := by
  subst hrole
  exact .observe _ (hA.roles t) rfl rfl (fun _ => .inl) (.inl rfl)

end Ownership

namespace State

variable {s s' : State Tid Obj} {t : Tid} {o : Obj}

theorem ownership_allocateMonitor (c : Choice) (hrole : s.ownership.role t = .none) :
    s.ownership.Step t
      ((s.allocateMonitor c).2.ownership.setRole t (.kept (s.allocateMonitor c).1)) := by
  have hnew : s.ownership.Step t
      ({ s.ownership with fresh := s.ownership.fresh + 1 }.setRole t (.kept s.ownership.fresh)) :=
    .new hrole
  cases hfree : s.freeMonitors with
  | nil => simpa [allocateMonitor, allocate, hfree, ownership] using hnew
  | cons m rest =>
    by_cases hc : c = .popFails
    · simpa [allocateMonitor, allocate, hfree, ownership, hc] using hnew
    · have hpop := Ownership.Step.pop (A := s.ownership) m rest hfree hrole
      simpa [allocateMonitor, allocate, hfree, ownership, hc] using hpop

theorem returnRole_plain (f : EnterFrame Obj) : f.returnRole.Plain := by
  rw [EnterFrame.returnRole]
  cases f.caller <;> exact ⟨rfl, rfl, rfl⟩

theorem returnRole_eq (f : EnterFrame Obj) :
    f.returnRole = .none ∨ ∃ o, f.returnRole = .entered o := by
  rw [EnterFrame.returnRole]
  cases f.caller
  · exact .inl rfl
  · exact .inr ⟨_, rfl⟩

theorem returnRole_ok {A : Ownership Tid Obj} {f : EnterFrame Obj} {m : Block}
    (h : A.owner m = .thread t ∧ A.monitor f.obj = some m) : A.RoleOk t f.returnRole := by
  rw [EnterFrame.returnRole]
  cases f.caller
  · trivial
  · exact ⟨m, h⟩

theorem clientRole_ok {A : Ownership Tid Obj} {f : EnterFrame Obj} {r : Role Obj}
    (h : A.RoleOk t (f.clientRole r)) :
    f.clientRole r = r ∧ f.returnRole = .none ∧ ∀ r', f.clientRole r' = r' := by
  obtain ⟨o, caller⟩ := f
  cases caller
  · exact ⟨rfl, rfl, fun _ => rfl⟩
  · exact False.elim h

theorem enterStep_ownership {f : EnterFrame Obj} {loc : EnterLoc} {c : Choice}
    (hA : s.ownership.Inv) (hpc : s.pc t = .enter f loc) (h : s.enterStep t c f loc = some s') :
    s.ownership.Step t s'.ownership := by
  have hrole : s.ownership.role t = loc.role f := by rw [ownership_role, hpc, PC.role]
  have hok := hA.roles t
  rw [hrole] at hok
  cases loc with
  | readMonitor =>
    simp only [enterStep] at h
    split at h <;> cases h
    · rw [ownership_goto]
      exact .learn hrole ⟨rfl, rfl, rfl⟩ ⟨rfl, rfl, rfl⟩ trivial
    · rename_i m hm
      rw [ownership_goto]
      exact .learn hrole ⟨rfl, rfl, rfl⟩ ⟨rfl, rfl, rfl⟩ fun _ => hm
  | allocate =>
    cases h
    rw [ownership_goto]
    exact ownership_allocateMonitor c hrole
  | exchangeOwner m =>
    cases h
    rw [ownership_goto]
    exact .take m hrole
  | install m =>
    simp only [enterStep] at h
    split_ifs at h with hm <;> cases h
    · rw [ownership_returnFromEnter]
      refine .install f.obj m _ hrole hm ?_
      rw [EnterFrame.returnRole]
      cases f.caller
      · exact .inl rfl
      · exact .inr rfl
    · rw [ownership_goto]
      exact .stay hA hrole
  | returnOwner m =>
    cases h
    rw [ownership_goto]
    exact .giveBack m (.inl hrole)
  | release m =>
    cases h
    rw [ownership_goto]
    exact .push m hrole
  | checkOwner m =>
    simp only [enterStep] at h
    split_ifs at h with hm <;> cases h
    · rw [ownership_goto]
      exact .learn hrole ⟨rfl, rfl, rfl⟩ ⟨rfl, rfl, rfl⟩ ⟨hm, hok hm⟩
    · rw [ownership_goto]
      exact .learn hrole ⟨rfl, rfl, rfl⟩ ⟨rfl, rfl, rfl⟩ trivial
  | incrementCount m =>
    cases h
    rw [ownership_returnFromEnter, ownership_setCount]
    exact .learn hrole ⟨rfl, rfl, rfl⟩ (returnRole_plain f) (returnRole_ok hok)
  | tryAcquire m =>
    simp only [enterStep] at h
    split_ifs at h with hm htimeOut <;> cases h
    · rw [ownership_goto, ownership_setOwner]
      obtain ⟨o, ho⟩ := hA.unowned m hm
      refine .acquire m _ hm ⟨by simp, o, ho⟩ ?_ ?_ rfl rfl ?_ <;> rw [hrole] <;> rfl
    · rw [ownership_returnFromEnter]
      refine .learn hrole ⟨rfl, rfl, rfl⟩ (returnRole_plain f) ?_
      rw [EnterFrame.returnRole]
      cases hcaller : f.caller with
      | client timeOut => trivial
      | tryWait v =>
        -- `Enter` passes a time-out that is not zero
        rw [hcaller] at htimeOut
        exact absurd (show infinite = 0 from htimeOut) (by decide)
    · rw [ownership_goto]
      exact .learn hrole ⟨rfl, rfl, rfl⟩ ⟨rfl, rfl, rfl⟩ trivial
  | recheck m =>
    simp only [enterStep] at h
    split_ifs at h with hm <;> cases h
    · rw [ownership_returnFromEnter]
      exact .learn hrole ⟨rfl, rfl, rfl⟩ (returnRole_plain f) (returnRole_ok ⟨hok.1, hm⟩)
    · rw [ownership_goto]
      exact .stay hA hrole
  | unacquire m =>
    cases h
    rw [ownership_goto]
    exact .release m (.inr hrole)
  | addReady m =>
    cases h
    rw [ownership_goto]
    exact .join m hrole
  | recheckReady m =>
    simp only [enterStep] at h
    split_ifs at h with hm <;> cases h
    · rw [ownership_goto]
      exact .wait hrole rfl rfl (.inl hm)
    · rw [ownership_goto]
      exact .stay hA hrole
  | vacate m =>
    cases h
    rw [ownership_goto]
    exact .leave m _ (by rw [hrole]; rfl) trivial (.inl rfl)
  | acknowledge m =>
    cases h
    rw [ownership_goto]
    exact .stay hA hrole
  | loopCheck m =>
    simp only [enterStep] at h
    split_ifs at h with hm <;> cases h
    · rw [ownership_goto]
      exact .stay hA hrole
    · rw [ownership_goto]
      exact .wait hrole rfl rfl trivial
  | loopAcquire m =>
    simp only [enterStep] at h
    split_ifs at h with hm <;> cases h
    · rw [ownership_goto, ownership_setOwner]
      -- the block is attached: the thread that recycles it would own it
      have ho : s.monitor f.obj = some m := by
        refine hok.resolve_right ?_
        rintro ⟨u, hu⟩
        have hdef := hA.roles u
        rw [hu] at hdef
        cases hm.symm.trans hdef.1
      refine .acquire m _ hm ⟨by simp, ho⟩ ?_ ?_ rfl rfl ?_ <;> rw [hrole] <;> rfl
    · rw [ownership_goto]
      exact .stay hA hrole
  | loopRemove m =>
    cases h
    rw [ownership_returnFromEnter]
    exact .leave m _ (by rw [hrole]; rfl) (returnRole_ok hok) (returnRole_eq f)
  | semaphoreWait m =>
    cases c with
    | abort | interrupt =>
      cases h
      rw [ownership_goto]
      exact .wait hrole rfl rfl trivial
    | proceed | popFails | timeout =>
      simp only [enterStep] at h
      split_ifs at h <;> cases h <;> rw [ownership_goto] <;> exact .stay hA hrole
  | semaphoreBlocked m =>
    cases c with
    | abort | interrupt =>
      cases h
      rw [ownership_goto]
      exact .wait hrole rfl rfl trivial
    | proceed | popFails =>
      simp only [enterStep] at h
      split_ifs at h
      cases h
      rw [ownership_goto]
      exact .stay hA hrole
    | timeout =>
      simp only [enterStep] at h
      split_ifs at h with htimeOut
      cases h
      have hclient : f.clientRole (.ready m) = .ready m := by
        rw [EnterFrame.clientRole]
        cases hcaller : f.caller with
        | client timeOut => rfl
        | tryWait v =>
          rw [hcaller] at htimeOut
          exact absurd rfl htimeOut
      rw [ownership_goto, PC.role, EnterLoc.role, hclient]
      exact .wait hrole rfl rfl trivial
  | timeoutRemove m =>
    obtain ⟨hready, -, hclient⟩ := clientRole_ok hok
    have hset : (s.removeReady m).ownership.setRole t (f.clientRole .none) =
        (s.removeReady m).ownership.setRole t .none := by rw [hclient]
    simp only [enterStep] at h
    split_ifs at h <;> cases h <;> rw [ownership_goto, PC.role, EnterLoc.role, hset] <;>
      exact .leave m _ (by rw [hrole, EnterLoc.role, hready]; rfl) trivial (.inl rfl)
  | timeoutCheck m =>
    simp only [enterStep] at h
    split_ifs at h <;> cases h <;> rw [ownership_goto] <;> exact .stay hA hrole
  | timeoutAcquire m =>
    obtain ⟨hnone, hreturn, -⟩ := clientRole_ok hok
    rw [EnterLoc.role, hnone] at hrole
    simp only [enterStep] at h
    split_ifs at h with hm <;> cases h
    · rw [ownership_returnFromEnter, hreturn]
      refine .acquire m _ hm trivial ?_ ?_ rfl rfl ?_ <;> rw [hrole] <;> rfl
    · rw [ownership_goto, PC.role, EnterLoc.role, hnone]
      exact .stay hA hrole
  | timeoutRecheck m =>
    obtain ⟨hnone, hreturn, -⟩ := clientRole_ok hok
    rw [EnterLoc.role, hnone] at hrole
    simp only [enterStep] at h
    split_ifs at h with hm <;> cases h
    · rw [ownership_returnFromEnter, hreturn]
      exact .stay hA hrole
    · rw [ownership_goto, PC.role, EnterLoc.role, hnone]
      exact .stay hA hrole
  | timeoutAcknowledge m =>
    obtain ⟨hnone, hreturn, -⟩ := clientRole_ok hok
    rw [EnterLoc.role, hnone] at hrole
    cases h
    rw [ownership_returnFromEnter, hreturn]
    exact .stay hA hrole
  | abortMark m =>
    cases h
    rw [ownership_goto]
    refine .observe _ trivial ?_ ?_ ?_ (.inr rfl)
    · rw [hrole]; rfl
    · rw [hrole]; rfl
    · intro k hk
      cases hrole.symm.trans hk
  | unwind m =>
    cases h
    rw [ownership_goto]
    exact .leave m _ (by rw [hrole]; rfl) trivial (.inl rfl)

/-! ### The other functions -/

/-- The block whose mark of an aborted thread is read in a step: a thread that does not own it is
in the check of `Exit`, `Pulse` or `Wait`. -/
def markRead (s : State Tid Obj) : Label Tid Obj → Option Block
  | .call _ _ => none
  | .run t _ =>
    match s.pc t with
    | .getMonitor _ _ (.loadAborted m) => some m
    | _ => none

/-- **The thread of the step does not pass the check because of the mark.** -/
def MarkUnread (s : State Tid Obj) (l : Label Tid Obj) : Prop :=
  ∀ m ∈ s.markRead l, s.threadAborted m = false

instance (s : State Tid Obj) (l : Label Tid Obj) : Decidable (s.MarkUnread l) :=
  inferInstanceAs (Decidable (∀ m ∈ s.markRead l, _))

theorem getStep_ownership {purpose : Purpose} {loc : GetLoc} (hA : s.ownership.Inv)
    (hpc : s.pc t = .getMonitor o purpose loc)
    (hmark : ∀ m, loc = .loadAborted m → s.threadAborted m = false) :
    s.ownership.Step t (s.getStep t o purpose loc).ownership := by
  have hrole : s.ownership.role t = loc.role o purpose := by rw [ownership_role, hpc, PC.role]
  have hok := hA.roles t
  rw [hrole] at hok
  have hplain : (loc.role o purpose).Plain ∨ loc.role o purpose = .unreachable := by
    cases loc <;> rcases purpose with (_ | v) | all | timeout <;>
      simp [GetLoc.role, Role.Plain, Role.keptBlock, Role.outsideBlock, Role.readyBlock]
  replace hplain := hplain.resolve_right fun h => by rw [h] at hok; exact hok
  cases loc with
  | readMonitor =>
    simp only [getStep]
    cases hm : s.monitor o with
    | none =>
      rw [ownership_goto]
      exact .learn hrole hplain ⟨rfl, rfl, rfl⟩ trivial
    | some m =>
      rw [ownership_goto]
      refine .learn hrole hplain ?_ ?_
      · rcases purpose with (_ | v) | all | timeout <;> exact ⟨rfl, rfl, rfl⟩
      · rcases purpose with (_ | v) | all | timeout
        · exact fun _ => hm
        · obtain ⟨hown, ho⟩ := hok
          cases hm.symm.trans ho
          exact ⟨hown, ho⟩
        · exact fun _ => hm
        · exact fun _ => hm
  | loadOwner m =>
    have hheld : s.owningThreadId m = .thread t →
        s.ownership.owner m = .thread t ∧ s.ownership.monitor o = some m := by
      intro hown
      rcases purpose with (_ | v) | all | timeout
      · exact ⟨hown, hok hown⟩
      · exact hok
      · exact ⟨hown, hok hown⟩
      · exact ⟨hown, hok hown⟩
    simp only [getStep]
    split_ifs with hown
    · rw [ownership_passCheck]
      exact .learn hrole hplain ⟨rfl, rfl, rfl⟩ (hheld hown)
    · rw [ownership_goto]
      refine .learn hrole hplain ?_ ?_
      · rcases purpose with (_ | v) | all | timeout <;> exact ⟨rfl, rfl, rfl⟩
      · rcases purpose with (_ | v) | all | timeout
        · trivial
        · exact absurd hok.1 hown
        · trivial
        · trivial
  | loadAborted m =>
    simp only [getStep, hmark m rfl, Bool.false_eq_true, if_false]
    rw [ownership_goto]
    exact .learn hrole hplain ⟨rfl, rfl, rfl⟩ trivial

theorem exitStep_ownership {caller : Option WaitVars} {loc : ExitLoc} (hA : s.ownership.Inv)
    (hpc : s.pc t = .exit o caller loc) :
    s.ownership.Step t (s.exitStep t o caller loc).ownership := by
  have hrole : s.ownership.role t = loc.role o := by rw [ownership_role, hpc, PC.role]
  cases loc with
  | undo m =>
    simp only [exitStep]
    split_ifs
    · rw [ownership_returnFromExit]
      exact .learn hrole ⟨rfl, rfl, rfl⟩ ⟨rfl, rfl, rfl⟩ trivial
    · rw [ownership_goto]
      exact .stay hA hrole
  | checkReady m | checkWaiting m =>
    simp only [exitStep]
    split_ifs <;> rw [ownership_goto] <;> exact .stay hA hrole
  | unacquireReady m | unacquireWaiting m =>
    simp only [exitStep]
    rw [ownership_goto]
    exact .release m (.inl ⟨o, hrole⟩)
  | post m =>
    simp only [exitStep]
    rw [ownership_returnFromExit, ownership_postSemaphore]
    exact .stay hA hrole
  | recheckReady m =>
    simp only [exitStep]
    split_ifs
    · rw [ownership_goto]
      exact .stay hA hrole
    · rw [ownership_returnFromExit]
      exact .stay hA hrole
  | deflate m =>
    simp only [exitStep]
    rw [ownership_goto]
    exact .deflate o m hrole
  | resetFlush m | flushRead m | flushWait m =>
    simp only [exitStep]
    rw [ownership_goto]
    exact .stay hA hrole
  | flushPost m n =>
    simp only [exitStep]
    rw [ownership_goto, ownership_postSemaphore]
    exact .stay hA hrole
  | flushCheck m =>
    simp only [exitStep]
    split_ifs with hready
    · rw [ownership_goto]
      exact .stay hA hrole
    · -- nobody is on the ready list, so nobody is pinned to the block
      have hok := hA.roles t
      rw [hrole] at hok
      rw [ownership_goto]
      refine .observe _ hok ?_ ?_ ?_ (.inr rfl)
      · rw [hrole]; rfl
      · rw [hrole]; rfl
      · intro k hk
        rw [hrole] at hk
        cases hk
        exact .inr (not_not.1 hready)
  | returnOwner m =>
    simp only [exitStep]
    rw [ownership_goto]
    exact .giveBack m (.inr hrole)
  | release m =>
    simp only [exitStep]
    rw [ownership_returnFromExit]
    exact .push m hrole

theorem pulseStep_ownership {all : Bool} {loc : PulseLoc} (hA : s.ownership.Inv)
    (hpc : s.pc t = .pulse o all loc) :
    s.ownership.Step t (s.pulseStep t o all loc).ownership := by
  have hrole : s.ownership.role t = (PC.pulse o all loc).role := by rw [ownership_role, hpc]
  cases loc with
  | pop m isFirst =>
    simp only [pulseStep]
    cases s.threadsWaitingForPulse m with
    | nil =>
      rw [ownership_goto]
      exact .learn hrole ⟨rfl, rfl, rfl⟩ ⟨rfl, rfl, rfl⟩ trivial
    | cons n nodes =>
      rw [ownership_goto]
      exact .stay hA hrole
  | signal m isFirst n =>
    simp only [pulseStep]
    split_ifs
    · rw [ownership_goto]
      exact .learn hrole ⟨rfl, rfl, rfl⟩ ⟨rfl, rfl, rfl⟩ trivial
    · rw [ownership_goto]
      exact .stay hA hrole

theorem waitStep_ownership {loc : WaitLoc} {c : Choice} (hA : s.ownership.Inv)
    (hpc : s.pc t = .wait o loc) (h : s.waitStep t c o loc = some s') :
    s.ownership.Step t s'.ownership := by
  have hrole : s.ownership.role t = loc.role o := by rw [ownership_role, hpc, PC.role]
  have hok := hA.roles t
  rw [hrole] at hok
  cases loc with
  | saveCount m timeout =>
    simp only [waitStep] at h
    split_ifs at h <;> cases h <;> rw [ownership_goto] <;> exact .stay hA hrole
  | allocateNode v =>
    simp only [waitStep, Option.some.injEq] at h
    subst h
    rw [ownership_goto, ownership_setPulsed, ownership_allocateNode]
    exact .stay hA hrole
  | pushNode v n =>
    cases h
    rw [ownership_goto]
    exact .stay hA hrole
  | eventWait v n =>
    cases c <;> simp only [waitStep] at h
    all_goals
      try split_ifs at h
      all_goals
        cases h
        rw [ownership_goto]
        exact .stay hA hrole
  | eventBlocked v n =>
    cases c <;> simp only [waitStep] at h
    all_goals
      try split_ifs at h
      all_goals
        cases h
        rw [ownership_goto]
        exact .stay hA hrole
  | readMonitor v =>
    simp only [waitStep] at h
    cases hm : s.monitor o with
    | none =>
      rw [hm] at h
      cases h
      rw [ownership_goto]
      exact .learn hrole ⟨rfl, rfl, rfl⟩ ⟨rfl, rfl, rfl⟩ trivial
    | some m =>
      rw [hm] at h
      cases h
      obtain ⟨k, hown, ho⟩ := hok
      cases hm.symm.trans ho
      rw [ownership_goto]
      exact .learn hrole ⟨rfl, rfl, rfl⟩ ⟨rfl, rfl, rfl⟩ ⟨hown, ho⟩
  | restoreCount m v =>
    simp only [waitStep] at h
    split at h <;> cases h <;> rw [ownership_goto] <;> exact .stay hA hrole
  | removeNode m v n | resetNode m v n | releaseNode m v n =>
    cases h
    rw [ownership_goto]
    exact .stay hA hrole
  | leave m v =>
    cases h
    rw [ownership_goto]
    exact .learn hrole ⟨rfl, rfl, rfl⟩ ⟨rfl, rfl, rfl⟩ trivial

theorem call_ownership {op : Op Obj} {last : Outcome} (hA : s.ownership.Inv)
    (hpc : s.pc t = .idle last) : s.ownership.Step t (s.call t op).ownership := by
  have hrole : s.ownership.role t = .none := by rw [ownership_role, hpc, PC.role]
  cases op with
  | tryWait o timeout =>
    have heq : (s.call t (.tryWait o timeout)).ownership = s.ownership.setRole t .none :=
      ownership_goto _ t _
    rw [heq]
    exact .stay hA hrole
  | _ =>
    simp only [call]
    rw [ownership_goto]
    exact .stay hA hrole

end State

/-- The thread that takes a step. -/
def Label.thread : Label Tid Obj → Tid
  | .call t _ | .run t _ => t

variable {s s₀ s' : State Tid Obj} {l : Label Tid Obj}

/-- What a step is: a call, or a step of the function that the thread is in. -/
inductive State.Runs (s : State Tid Obj) : Label Tid Obj → State Tid Obj → Prop
  | call {t op last} : s.pc t = .idle last → s.Runs (.call t op) (s.call t op)
  | enter {t c f loc s'} : s.pc t = .enter f loc → s.enterStep t c f loc = some s' →
      s.Runs (.run t c) s'
  | get {t c o purpose loc} : s.pc t = .getMonitor o purpose loc →
      s.Runs (.run t c) (s.getStep t o purpose loc)
  | exit {t c o caller loc} : s.pc t = .exit o caller loc →
      s.Runs (.run t c) (s.exitStep t o caller loc)
  | pulse {t c o all loc} : s.pc t = .pulse o all loc →
      s.Runs (.run t c) (s.pulseStep t o all loc)
  | wait {t c o loc s'} : s.pc t = .wait o loc → s.waitStep t c o loc = some s' →
      s.Runs (.run t c) s'

theorem State.runs_of_step (h : s.step l = some s') : s.Runs l s' := by
  cases l with
  | call t op =>
    simp only [State.step] at h
    split at h
    · rename_i last hpc
      cases h
      exact .call hpc
    · cases h
  | run t c =>
    simp only [State.step, State.runThread] at h
    split at h
    · cases h
    · rename_i f loc hpc
      exact .enter hpc h
    · rename_i o purpose loc hpc
      cases h
      exact .get hpc
    · rename_i o caller loc hpc
      cases h
      exact .exit hpc
    · rename_i o all loc hpc
      cases h
      exact .pulse hpc
    · rename_i o loc hpc
      exact .wait hpc h
    · cases h

/-- **The monitors simulate the ownership model.** -/
theorem step_ownership (hA : s.ownership.Inv) (hmark : s.MarkUnread l) (h : s.step l = some s') :
    s.ownership.Step l.thread s'.ownership := by
  cases State.runs_of_step h with
  | call hpc => exact State.call_ownership hA hpc
  | enter hpc h => exact State.enterStep_ownership hA hpc h
  | get hpc =>
    refine State.getStep_ownership hA hpc ?_
    rintro m rfl
    exact hmark m (by rw [State.markRead, hpc]; rfl)
  | exit hpc => exact State.exitStep_ownership hA hpc
  | pulse hpc => exact State.pulseStep_ownership hA hpc
  | wait hpc h => exact State.waitStep_ownership hA hpc h

theorem ownership_init : (State.init Tid Obj).ownership.Inv where
  inj _ _ _ h := nomatch h
  attached _ _ h := nomatch h
  unowned _ h := nomatch h
  owned _ _ h := nomatch h
  free _ h := nomatch h
  nodup := List.nodup_nil
  fresh _ _ := rfl
  kept_inj _ _ _ h := nomatch h
  roles _ := trivial
  finite _ := Set.finite_empty.subset fun _ h => nomatch h
  counted m := by
    have hempty : {t | ((State.init Tid Obj).ownership.role t).readyBlock = some m} = ∅ :=
      Set.eq_empty_of_forall_notMem fun _ h => nomatch h
    rw [hempty, Set.ncard_empty]
    exact Nat.zero_le _

/-- **The invariant of the blocks holds along every run in which the mark is not read.** -/
theorem ownership_inv
    (hs : (lts Tid Obj).ReachWith State.MarkUnread (State.init Tid Obj) s) : s.ownership.Inv :=
  hs.invariant (I := fun s => s.ownership.Inv) ownership_init
    fun _ _ _ hA hmark hst => hA.step (step_ownership hA hmark hst)

/-! ### What a step of one thread leaves to the others -/

namespace State

variable {t u : Tid} {o : Obj}

theorem goto_frame (s : State Tid Obj) (pc : PC Obj) (hu : u ≠ t) :
    (s.goto t pc).pc u = s.pc u ∧ (s.goto t pc).depth u = s.depth u :=
  ⟨Function.update_of_ne hu _ _, rfl⟩

theorem returnFromEnter_frame (s : State Tid Obj) (f : EnterFrame Obj) (b : Bool) (hu : u ≠ t) :
    (s.returnFromEnter t f b).pc u = s.pc u ∧ (s.returnFromEnter t f b).depth u = s.depth u := by
  refine ⟨Function.update_of_ne hu _ _, ?_⟩
  obtain ⟨o, caller⟩ := f
  cases caller <;> cases b
  case client.true => exact Function.update_of_ne hu _ _
  all_goals rfl

theorem passCheck_frame (s : State Tid Obj) (m : Block) (purpose : Purpose) (hu : u ≠ t) :
    (s.passCheck t o m purpose).pc u = s.pc u ∧
      (s.passCheck t o m purpose).depth u = s.depth u := by
  refine ⟨Function.update_of_ne hu _ _, ?_⟩
  rcases purpose with (_ | v) | all | timeout
  · exact Function.update_of_ne hu _ _
  all_goals rfl

/-- A step leads the thread to one of the places, and leaves the other threads where they are. -/
def GoesTo (s s' : State Tid Obj) (t : Tid) (places : PC Obj → Prop) : Prop :=
  places (s'.pc t) ∧ ∀ u, u ≠ t → s'.pc u = s.pc u ∧ s'.depth u = s.depth u

section GoesTo

variable {s₁ : State Tid Obj} {pc : PC Obj} {places : PC Obj → Prop}

theorem goesTo_goto (hpc : s₁.pc = s.pc) (hdepth : s₁.depth = s.depth) (hplaces : places pc) :
    s.GoesTo (s₁.goto t pc) t places := by
  refine ⟨?_, fun u hu => ?_⟩
  · rw [show (s₁.goto t pc).pc t = pc from Function.update_self ..]
    exact hplaces
  · rw [← hpc, ← hdepth]
    exact goto_frame s₁ pc hu

theorem goesTo_returnFromEnter {f : EnterFrame Obj} {b : Bool} (hpc : s₁.pc = s.pc)
    (hdepth : s₁.depth = s.depth) (hplaces : places (f.returnPC b)) :
    s.GoesTo (s₁.returnFromEnter t f b) t places := by
  refine ⟨?_, fun u hu => ?_⟩
  · rw [show (s₁.returnFromEnter t f b).pc t = f.returnPC b from Function.update_self ..]
    exact hplaces
  · rw [← hpc, ← hdepth]
    exact returnFromEnter_frame s₁ f b hu

theorem goesTo_passCheck {m : Block} {purpose : Purpose} (hplaces : places (purpose.passPC o m)) :
    s.GoesTo (s.passCheck t o m purpose) t places := by
  refine ⟨?_, fun u hu => passCheck_frame s m purpose hu⟩
  rw [show (s.passCheck t o m purpose).pc t = purpose.passPC o m from Function.update_self ..]
  exact hplaces

end GoesTo

theorem enterStep_goesTo {f : EnterFrame Obj} {loc : EnterLoc} {c : Choice}
    (h : s.enterStep t c f loc = some s') :
    s.GoesTo s' t fun pc =>
      (∃ loc', pc = .enter f loc' ∧ ∀ m, loc' = .abortMark m → c = .abort) ∨
      (∃ b, pc = f.returnPC b) ∨
      ∃ m e, (loc = .abortMark m ∨ loc = .unwind m) ∧ pc = .idle (.raised e) := by
  cases loc with
  | abortMark m =>
    cases h
    exact goesTo_goto rfl rfl (.inr (.inr ⟨m, _, .inl rfl, rfl⟩))
  | unwind m =>
    cases h
    exact goesTo_goto rfl rfl (.inr (.inr ⟨m, _, .inr rfl, rfl⟩))
  | semaphoreWait m | semaphoreBlocked m =>
    cases c <;> simp only [enterStep] at h
    case abort =>
      cases h
      exact goesTo_goto rfl rfl (.inl ⟨_, rfl, fun _ _ => rfl⟩)
    all_goals
      try split_ifs at h
      all_goals
        cases h
        exact goesTo_goto rfl rfl (.inl ⟨_, rfl, nofun⟩)
  | _ =>
    simp only [enterStep] at h
    repeat' split at h
    all_goals
      cases h
      first
      | exact goesTo_goto rfl rfl (.inl ⟨_, rfl, nofun⟩)
      | exact goesTo_returnFromEnter rfl rfl (.inr (.inl ⟨_, rfl⟩))

theorem getStep_goesTo (s : State Tid Obj) (t : Tid) (o : Obj) (purpose : Purpose)
    (loc : GetLoc) :
    s.GoesTo (s.getStep t o purpose loc) t fun pc =>
      (∃ loc', pc = .getMonitor o purpose loc') ∨ (∃ m, pc = purpose.passPC o m) ∨
      ∃ e, pc = .idle (.raised e) := by
  cases loc <;> simp only [getStep]
  all_goals
    split
    all_goals first
      | exact goesTo_passCheck (.inr (.inl ⟨_, rfl⟩))
      | exact goesTo_goto rfl rfl (.inl ⟨_, rfl⟩)
      | exact goesTo_goto rfl rfl (.inr (.inr ⟨_, rfl⟩))

theorem exitStep_goesTo (s : State Tid Obj) (t : Tid) (o : Obj) (caller : Option WaitVars)
    (loc : ExitLoc) :
    s.GoesTo (s.exitStep t o caller loc) t fun pc =>
      (∃ loc', pc = .exit o caller loc' ∧
        ∀ m, loc' = .deflate m → s.threadsWaitingForPulse m = []) ∨
      pc = .exitReturn o caller := by
  cases loc with
  | checkWaiting m =>
    simp only [exitStep]
    split_ifs with hlist
    · exact goesTo_goto rfl rfl (.inl ⟨_, rfl, nofun⟩)
    · refine goesTo_goto rfl rfl (.inl ⟨_, rfl, fun k hk => ?_⟩)
      cases hk
      exact not_not.1 hlist
  | _ =>
    simp only [exitStep]
    try split_ifs
    all_goals first
      | exact goesTo_goto rfl rfl (.inr rfl)
      | exact goesTo_goto rfl rfl (.inl ⟨_, rfl, nofun⟩)

theorem pulseStep_goesTo (s : State Tid Obj) (t : Tid) (o : Obj) (all : Bool) (loc : PulseLoc) :
    s.GoesTo (s.pulseStep t o all loc) t fun pc =>
      (∃ loc', pc = .pulse o all loc') ∨ pc = .idle .done := by
  cases loc <;> simp only [pulseStep]
  all_goals
    split
    all_goals first
      | exact goesTo_goto rfl rfl (.inl ⟨_, rfl⟩)
      | exact goesTo_goto rfl rfl (.inr rfl)

theorem waitStep_goesTo {loc : WaitLoc} {c : Choice} (h : s.waitStep t c o loc = some s') :
    s.GoesTo s' t fun pc =>
      (∃ loc', pc = .wait o loc') ∨ (∃ v, pc = .getMonitor o (.exit (some v)) .readMonitor) ∨
      (∃ v, pc = .reenter o v) ∨
      (∃ v, loc = .readMonitor v ∧ s.monitor o = none ∧ pc = .crashed) ∨
      ∃ m v, loc = .leave m v ∧ pc = .idle v.outcome := by
  cases loc with
  | leave m v =>
    cases h
    exact goesTo_goto rfl rfl (.inr (.inr (.inr (.inr ⟨m, v, rfl, rfl⟩))))
  | readMonitor v =>
    simp only [waitStep] at h
    split at h
    · rename_i hnone
      cases h
      exact goesTo_goto rfl rfl (.inr (.inr (.inr (.inl ⟨v, rfl, hnone, rfl⟩))))
    · cases h
      exact goesTo_goto rfl rfl (.inl ⟨_, rfl⟩)
  | _ =>
    simp only [waitStep] at h
    repeat' split at h
    all_goals
      cases h
      try first
        | exact goesTo_goto rfl rfl (.inl ⟨_, rfl⟩)
        | exact goesTo_goto rfl rfl (.inr (.inl ⟨_, rfl⟩))
        | exact goesTo_goto rfl rfl (.inr (.inr (.inl ⟨_, rfl⟩)))

/-! ### What a function does not write -/

theorem enterStep_kept {f : EnterFrame Obj} {loc : EnterLoc} {c : Choice}
    (h : s.enterStep t c f loc = some s') :
    s'.threadsWaitingForPulse = s.threadsWaitingForPulse ∧ s'.countAtCall = s.countAtCall ∧
      ((∀ m, loc ≠ .abortMark m) → s'.threadAborted = s.threadAborted) := by
  cases loc with
  | abortMark m =>
    cases h
    exact ⟨rfl, rfl, fun hne => absurd rfl (hne m)⟩
  | _ =>
    simp only [enterStep] at h
    repeat' split at h
    all_goals
      cases h
      try exact ⟨rfl, rfl, fun _ => rfl⟩

theorem getStep_kept (s : State Tid Obj) (t : Tid) (o : Obj) (purpose : Purpose) (loc : GetLoc) :
    (s.getStep t o purpose loc).threadsWaitingForPulse = s.threadsWaitingForPulse ∧
      (s.getStep t o purpose loc).countAtCall = s.countAtCall ∧
      (s.getStep t o purpose loc).threadAborted = s.threadAborted ∧
      (s.getStep t o purpose loc).recursiveLockingCount = s.recursiveLockingCount := by
  cases loc <;> simp only [getStep] <;> split <;> exact ⟨rfl, rfl, rfl, rfl⟩

theorem exitStep_kept (s : State Tid Obj) (t : Tid) (o : Obj) (caller : Option WaitVars)
    (loc : ExitLoc) :
    (s.exitStep t o caller loc).threadsWaitingForPulse = s.threadsWaitingForPulse ∧
      (s.exitStep t o caller loc).countAtCall = s.countAtCall ∧
      (s.exitStep t o caller loc).threadAborted = s.threadAborted := by
  cases loc <;> simp only [exitStep]
  all_goals
    try split_ifs
    all_goals exact ⟨rfl, rfl, rfl⟩

theorem pulseStep_kept (s : State Tid Obj) (t : Tid) (o : Obj) (all : Bool) (loc : PulseLoc) :
    (s.pulseStep t o all loc).countAtCall = s.countAtCall ∧
      (s.pulseStep t o all loc).threadAborted = s.threadAborted ∧
      (s.pulseStep t o all loc).recursiveLockingCount = s.recursiveLockingCount := by
  cases loc <;> simp only [pulseStep] <;> split <;> exact ⟨rfl, rfl, rfl⟩

theorem waitStep_kept {loc : WaitLoc} {c : Choice} (h : s.waitStep t c o loc = some s') :
    s'.countAtCall = s.countAtCall ∧ s'.threadAborted = s.threadAborted := by
  cases loc <;> simp only [waitStep] at h
  all_goals
    repeat' split at h
    all_goals
      cases h
      try exact ⟨rfl, rfl⟩

end State

/-- **A step changes neither the place nor the history of another thread.** -/
theorem step_frame {u : Tid} (h : s.step l = some s') (hu : u ≠ l.thread) :
    s'.pc u = s.pc u ∧ s'.depth u = s.depth u := by
  cases State.runs_of_step h with
  | @call t op =>
    cases op <;> exact State.goto_frame _ _ hu
  | enter _ h => exact (State.enterStep_goesTo h).2 u hu
  | get => exact (State.getStep_goesTo ..).2 u hu
  | exit => exact (State.exitStep_goesTo ..).2 u hu
  | pulse => exact (State.pulseStep_goesTo ..).2 u hu
  | wait _ h => exact (State.waitStep_goesTo h).2 u hu

namespace State

variable {t : Tid} {o : Obj}

theorem enterStep_count {f : EnterFrame Obj} {loc : EnterLoc} {c : Choice}
    (h : s.enterStep t c f loc = some s') :
    s'.recursiveLockingCount = s.recursiveLockingCount ∨
      ∃ m x, loc = .incrementCount m ∧
        s'.recursiveLockingCount = Function.update s.recursiveLockingCount m x := by
  cases loc with
  | incrementCount m =>
    cases h
    exact .inr ⟨m, _, rfl, rfl⟩
  | _ =>
    left
    simp only [enterStep] at h
    repeat' split at h
    all_goals
      cases h
      try rfl

theorem exitStep_count (caller : Option WaitVars) (loc : ExitLoc) :
    (s.exitStep t o caller loc).recursiveLockingCount = s.recursiveLockingCount ∨
      ∃ m x, loc = .undo m ∧ (s.exitStep t o caller loc).recursiveLockingCount =
        Function.update s.recursiveLockingCount m x := by
  cases loc with
  | undo m =>
    simp only [exitStep]
    split_ifs
    · exact .inr ⟨m, _, rfl, rfl⟩
    · exact .inl rfl
  | _ =>
    left
    simp only [exitStep]
    try split_ifs
    all_goals rfl

theorem waitStep_count {loc : WaitLoc} {c : Choice} (h : s.waitStep t c o loc = some s') :
    s'.recursiveLockingCount = s.recursiveLockingCount ∨
      ∃ m x, loc.role o = .holds o m ∧
        s'.recursiveLockingCount = Function.update s.recursiveLockingCount m x := by
  cases loc with
  | saveCount m timeout | restoreCount m v =>
    right
    simp only [waitStep] at h
    split at h <;> cases h <;> exact ⟨m, _, rfl, rfl⟩
  | _ =>
    left
    simp only [waitStep] at h
    repeat' split at h
    all_goals
      cases h
      try rfl

end State

/-- **The recursion count of a block is changed only by a thread that holds it.** -/
theorem count_frame (hA : s.ownership.Inv) (h : s.step l = some s') {m : Block}
    (hm : ∀ o, ¬ s.Holds l.thread o m) :
    s'.recursiveLockingCount m = s.recursiveLockingCount m := by
  have hroles := hA.roles l.thread
  -- the block whose count is written is held by the thread
  have hset : ∀ o k x, s.owningThreadId k = .thread l.thread ∧ s.monitor o = some k →
      Function.update s.recursiveLockingCount k x m = s.recursiveLockingCount m := by
    intro o k x hk
    refine Function.update_of_ne ?_ _ _
    rintro rfl
    exact hm o hk.symm
  cases State.runs_of_step h with
  | @call t op => cases op <;> rfl
  | enter hpc h =>
    rcases State.enterStep_count h with heq | ⟨k, x, rfl, heq⟩ <;> rw [heq]
    rw [State.ownership_role, Label.thread, hpc] at hroles
    exact hset _ k x hroles
  | get => rw [(s.getStep_kept ..).2.2.2]
  | @exit t c o caller loc hpc =>
    rcases s.exitStep_count (t := t) (o := o) caller loc with heq | ⟨k, x, rfl, heq⟩ <;> rw [heq]
    rw [State.ownership_role, Label.thread, hpc] at hroles
    exact hset _ k x hroles
  | pulse => rw [(s.pulseStep_kept ..).2.2]
  | wait hpc h =>
    rcases State.waitStep_count h with heq | ⟨k, x, hrole, heq⟩ <;> rw [heq]
    rw [State.ownership_role, Label.thread, hpc, PC.role, hrole] at hroles
    exact hset _ k x hroles

end Monitor

end Il2Cpp
