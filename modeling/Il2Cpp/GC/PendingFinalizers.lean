import Il2Cpp.LTS.Threads

/-!
# Waiting for pending finalizers

`gc/GarbageCollector.cpp`: `WaitForPendingFinalizers` resets `s_FinalizersCompletedEvent`, wakes the
finalizer thread and waits for the event, which the finalizer thread sets after each
`InvokeFinalizers`.  The event does not say which round it belongs to.

* `FinalizerPC`, `CallPC` : where the finalizer thread and a call are; a call remembers the
  finalizers that it found pending.
* `InTime` : a call does not reset the event between the end of an `InvokeFinalizers` and the signal
  of that round, unless its finalizers have been invoked already.
* `waitForPendingFinalizers_waits` : then a call that waited returns after its finalizers.
* `returns_early` : after any other reset the call can return before them.
-/

namespace Il2Cpp

namespace Finalizers

/-- An entry of the collector's list of finalizers. -/
abbrev Finalizer := ℕ

/-- Where `FinalizerThread` is. -/
inductive FinalizerPC
  /-- at `while (!s_StopFinalizer)` -/
  | head
  /-- before `s_FinalizerSemaphore.Wait` -/
  | wait
  /-- `GC_invoke_finalizers`, at the head of its loop -/
  | invoke
  /-- before an entry is taken from the list -/
  | pop
  /-- a finalizer is running -/
  | running (f : Finalizer)
  /-- before `s_FinalizersCompletedEvent.Set` -/
  | set
  | exited
  deriving DecidableEq

/-- The finalizer that is running. -/
def FinalizerPC.current : FinalizerPC → List Finalizer
  | running f => [f]
  | _ => []

/-- Where a call of `WaitForPendingFinalizers` is, and the finalizers that it found pending. -/
inductive CallPC
  /-- before `HasPendingFinalizers` -/
  | hasPending (onFinalizerThread : Bool)
  /-- before `s_FinalizersCompletedEvent.Reset` -/
  | reset (pending : List Finalizer)
  /-- before `NotifyFinalizers` -/
  | notify (pending : List Finalizer)
  /-- before `s_FinalizersCompletedEvent.Wait` -/
  | wait (pending : List Finalizer)
  /-- after the wait -/
  | waited (pending : List Finalizer)
  /-- returned without a wait -/
  | returned
  deriving DecidableEq

/-- The collector's list, the objects of the finalizer thread, and the threads. -/
structure State where
  /-- `GC_fnlz_roots.finalize_now`. -/
  finalizeNow : List Finalizer
  /-- The next entry. -/
  next : Finalizer
  /-- The entries whose finalizer has been invoked. -/
  invoked : List Finalizer
  /-- The count of `s_FinalizerSemaphore`. -/
  semaphore : ℕ
  /-- Whether `s_FinalizersCompletedEvent` is signaled. -/
  completed : Bool
  /-- `s_StopFinalizer`. -/
  stop : Bool
  thread : FinalizerPC
  calls : List CallPC
  deriving DecidableEq

/-- The maximum of `s_FinalizerSemaphore`. -/
def semaphoreMaximum : ℕ := 32767

def init : State := ⟨[], 0, [], 0, false, false, .head, []⟩

/-- What happens. -/
inductive Label
  /-- a collection puts an object on the list -/
  | queue
  /-- `NotifyFinalizers`, by the collector or by `UninitializeFinalizers` -/
  | notify
  | stop
  /-- `WaitForPendingFinalizers` is called -/
  | call (onFinalizerThread : Bool)
  /-- the finalizer thread takes a step -/
  | thread
  /-- a call takes a step -/
  | run (i : ℕ)
  deriving DecidableEq

/-- `NotifyFinalizers`: `Post` fails when the count is at its maximum. -/
def notifyFinalizers (s : State) : State :=
  if s.semaphore + 1 > semaphoreMaximum then s else { s with semaphore := s.semaphore + 1 }

/-- One step of the finalizer thread. -/
def runThread (s : State) : Option State :=
  match s.thread with
  | .head => some { s with thread := if s.stop then .exited else .wait }
  | .wait =>
    if 0 < s.semaphore then some { s with semaphore := s.semaphore - 1, thread := .invoke }
    else none
  | .invoke => some { s with thread := if s.finalizeNow = [] then .set else .pop }
  | .pop =>
    match s.finalizeNow with
    | [] => some { s with thread := .set }
    | f :: fs => some { s with finalizeNow := fs, thread := .running f }
  | .running f => some { s with invoked := f :: s.invoked, thread := .invoke }
  | .set => some { s with completed := true, thread := .head }
  | .exited => none

/-- One step of a call. -/
def runCall (s : State) : CallPC → Option (State × CallPC)
  | .hasPending onFinalizerThread =>
    if s.finalizeNow = [] then some (s, .returned)
    -- avoid deadlocks
    else if onFinalizerThread then some (s, .returned)
    else some (s, .reset (s.thread.current ++ s.finalizeNow))
  | .reset pending => some ({ s with completed := false }, .notify pending)
  | .notify pending => some (notifyFinalizers s, .wait pending)
  | .wait pending => if s.completed then some (s, .waited pending) else none
  | .waited _ => none
  | .returned => none

/-- A step. -/
def step (s : State) : Label → Option State
  | .queue => some { s with finalizeNow := s.next :: s.finalizeNow, next := s.next + 1 }
  | .notify => some (notifyFinalizers s)
  | .stop => some { s with stop := true }
  | .call onFinalizerThread => some { s with calls := s.calls ++ [.hasPending onFinalizerThread] }
  | .thread => runThread s
  | .run i => do
    let pc ← s.calls[i]?
    let (s', pc') ← runCall s pc
    some { s' with calls := s'.calls.set i pc' }

/-- The transition system. -/
def lts : LTS State Label := .ofFun step

/-- The finalizers of a call that is going to reset the event. -/
def CallPC.resets : CallPC → List Finalizer
  | reset pending => pending
  | _ => []

/-- **No reset between the end of an `InvokeFinalizers` and its signal**, by a call with a finalizer
that is still pending. -/
def InTime (s : State) : Label → Prop
  | .run i => s.thread = .set → ∀ f ∈ (s.calls[i]?.map CallPC.resets).getD [], f ∉ s.finalizeNow
  | .queue | .notify | .stop | .call _ | .thread => True

instance (s : State) : ∀ l, Decidable (InTime s l)
  | .run i => inferInstanceAs (Decidable (s.thread = .set →
      ∀ f ∈ (s.calls[i]?.map CallPC.resets).getD [], f ∉ s.finalizeNow))
  | .queue | .notify | .stop | .call _ | .thread => .isTrue trivial

/-! ### The invariant -/

/-- The finalizers that a call found pending. -/
def CallPC.pending : CallPC → List Finalizer
  | reset pending | notify pending | wait pending | waited pending => pending
  | hasPending _ | returned => []

/-- The call has reset the event and waits for it. -/
def CallPC.awaits : CallPC → Bool
  | notify _ | wait _ => true
  | _ => false

/-- The call has waited. -/
def CallPC.done : CallPC → Bool
  | waited _ => true
  | _ => false

/-- What holds of a call. -/
structure Waits (s : State) (pc : CallPC) : Prop where
  known : ∀ f ∈ pc.pending, f ∈ s.invoked ∨ f ∈ s.finalizeNow ∨ f ∈ s.thread.current
  /-- The signal comes after its finalizers. -/
  signal : pc.awaits = true → s.completed = true ∨ s.thread = .set → ∀ f ∈ pc.pending, f ∈ s.invoked
  done : pc.done = true → ∀ f ∈ pc.pending, f ∈ s.invoked

/-- The invariant. -/
def Inv (s : State) : Prop := ∀ pc ∈ s.calls, Waits s pc

variable {s s' : State} {pc : CallPC}

theorem Waits.of_grow (h : Waits s pc) (hinvoked : ∀ f, f ∈ s.invoked → f ∈ s'.invoked)
    (hlist : ∀ f, f ∈ s.finalizeNow → f ∈ s'.finalizeNow) (hthread : s'.thread = s.thread)
    (hcompleted : s'.completed = true → s.completed = true) : Waits s' pc where
  known f hf := by
    rw [hthread]
    exact (h.known f hf).imp (hinvoked f) (Or.imp_left (hlist f))
  signal hpc hsig f hf := by
    rw [hthread] at hsig
    exact hinvoked f (h.signal hpc (hsig.imp_left hcompleted) f hf)
  done hpc f hf := hinvoked f (h.done hpc f hf)

theorem waits_notifyFinalizers (h : Waits s pc) : Waits (notifyFinalizers s) pc := by
  rw [notifyFinalizers]
  split_ifs
  · exact h
  · exact ⟨h.known, h.signal, h.done⟩

/-- **A step of the finalizer thread.**  It comes to the signal when the list is empty, and no
finalizer is running then. -/
theorem waits_runThread (h : Waits s pc) (ht : runThread s = some s') : Waits s' pc := by
  obtain ⟨hknown, hsignal, hdone⟩ := h
  -- what is known when the list is empty and nothing runs
  have hall (hl : s.finalizeNow = []) (hr : s.thread.current = []) :
      ∀ f ∈ pc.pending, f ∈ s.invoked := by
    intro f hf
    rcases hknown f hf with hf | hf | hf
    · exact hf
    · simp [hl] at hf
    · simp [hr] at hf
  rw [runThread] at ht
  cases hth : s.thread with
  | exited => simp [hth] at ht
  | head =>
    simp only [hth, Option.some.injEq] at ht hknown
    subst ht
    refine ⟨fun f hf => ?_, fun hpc hsig => hsignal hpc (.inl ?_), hdone⟩
    · rcases hknown f hf with hf | hf | hf
      · exact .inl hf
      · exact .inr (.inl hf)
      · cases hf
    · rcases hsig with hsig | hsig
      · exact hsig
      · simp only at hsig
        split_ifs at hsig
  | wait =>
    simp only [hth] at ht hknown
    obtain ⟨-, ⟨⟩⟩ := Option.ite_none_right_eq_some.1 ht
    exact ⟨hknown, fun hpc hsig => hsignal hpc (.inl (hsig.resolve_right nofun)), hdone⟩
  | invoke =>
    simp only [hth, Option.some.injEq] at ht hknown hall
    subst ht
    by_cases hl : s.finalizeNow = []
    · have hall := hall hl rfl
      exact ⟨fun f hf => .inl (hall f hf), fun _ _ => hall, fun _ => hall⟩
    · simp only [hl, if_false]
      exact ⟨hknown, fun hpc hsig => hsignal hpc (.inl (hsig.resolve_right nofun)), hdone⟩
  | pop =>
    simp only [hth] at ht hknown hall
    cases hl : s.finalizeNow with
    | nil =>
      simp only [hl, Option.some.injEq] at ht
      subst ht
      have hall := hall hl rfl
      exact ⟨fun f hf => .inl (hall f hf), fun _ _ => hall, fun _ => hall⟩
    | cons g fs =>
      simp only [hl, Option.some.injEq] at ht hknown
      subst ht
      refine ⟨fun f hf => ?_, fun hpc hsig => hsignal hpc (.inl (hsig.resolve_right nofun)), hdone⟩
      rcases hknown f hf with hf | hf | hf
      · exact .inl hf
      · rcases List.mem_cons.1 hf with rfl | hf
        · exact .inr (.inr (.head _))
        · exact .inr (.inl hf)
      · cases hf
  | running g =>
    simp only [hth, Option.some.injEq] at ht hknown
    subst ht
    refine ⟨fun f hf => ?_, fun hpc hsig f hf => .tail _ ?_,
      fun hpc f hf => .tail _ (hdone hpc f hf)⟩
    · rcases hknown f hf with hf | hf | hf
      · exact .inl (.tail _ hf)
      · exact .inr (.inl hf)
      · exact .inl (List.mem_singleton.1 hf ▸ .head _)
    · exact hsignal hpc (.inl (hsig.resolve_right nofun)) f hf
  | set =>
    simp only [hth, Option.some.injEq] at ht hknown
    subst ht
    exact ⟨hknown, fun hpc _ => hsignal hpc (.inr hth), hdone⟩

/-- **A step of a call**, which sees the state before it. -/
theorem waits_runCall {pc' : CallPC} (h : Waits s pc)
    (htime : s.thread = .set → ∀ f ∈ pc.resets, f ∉ s.finalizeNow)
    (ht : runCall s pc = some (s', pc')) : Waits s' pc' := by
  obtain ⟨hknown, hsignal, hdone⟩ := h
  cases pc with
  | waited | returned => cases ht
  | hasPending onFinalizerThread =>
    rw [runCall] at ht
    split_ifs at ht with hl hon
    · cases ht
      exact ⟨nofun, nofun, nofun⟩
    · cases ht
      exact ⟨nofun, nofun, nofun⟩
    · simp only [Option.some.injEq, Prod.mk.injEq] at ht
      obtain ⟨rfl, rfl⟩ := ht
      refine ⟨fun f hf => ?_, nofun, nofun⟩
      rcases List.mem_append.1 hf with hf | hf
      · exact .inr (.inr hf)
      · exact .inr (.inl hf)
  | reset pending =>
    cases ht
    refine ⟨hknown, fun _ hsig f hf => ?_, nofun⟩
    -- the signal of a round that had ended before
    have hset : s.thread = .set := hsig.resolve_left nofun
    rcases hknown f hf with hi | hl | hr
    · exact hi
    · exact absurd hl (htime hset f hf)
    · rw [hset] at hr
      cases hr
  | notify pending =>
    cases ht
    exact waits_notifyFinalizers ⟨hknown, hsignal, nofun⟩
  | wait pending =>
    obtain ⟨hc, ⟨⟩⟩ := Option.ite_none_right_eq_some.1 ht
    exact ⟨hknown, nofun, fun _ => hsignal rfl (.inl hc)⟩

theorem waits_runCall_other {pc₁ pc' : CallPC} (h : Waits s pc)
    (ht : runCall s pc₁ = some (s', pc')) : Waits s' pc := by
  cases pc₁ with
  | waited | returned => cases ht
  | hasPending onFinalizerThread =>
    rw [runCall] at ht
    split_ifs at ht <;> cases ht <;> exact h
  | reset pending =>
    cases ht
    exact ⟨h.known, fun hpc hsig => h.signal hpc (.inr (hsig.resolve_left nofun)), h.done⟩
  | notify pending =>
    cases ht
    exact waits_notifyFinalizers h
  | wait pending =>
    obtain ⟨-, ⟨⟩⟩ := Option.ite_none_right_eq_some.1 ht
    exact h

theorem runThread_calls (ht : runThread s = some s') : s'.calls = s.calls := by
  rw [runThread] at ht
  cases hth : s.thread with
  | exited => simp [hth] at ht
  | head | invoke | running | set =>
    simp only [hth, Option.some.injEq] at ht
    rw [← ht]
  | wait =>
    simp only [hth] at ht
    obtain ⟨-, ⟨⟩⟩ := Option.ite_none_right_eq_some.1 ht
    rfl
  | pop =>
    cases hl : s.finalizeNow <;> simp only [hth, hl, Option.some.injEq] at ht <;> rw [← ht]

theorem runCall_calls {pc' : CallPC} (ht : runCall s pc = some (s', pc')) : s'.calls = s.calls := by
  cases pc with
  | waited | returned => cases ht
  | hasPending onFinalizerThread =>
    rw [runCall] at ht
    split_ifs at ht <;> cases ht <;> rfl
  | reset pending => cases ht; rfl
  | notify pending =>
    cases ht
    rw [notifyFinalizers]
    split_ifs <;> rfl
  | wait pending =>
    obtain ⟨-, ⟨⟩⟩ := Option.ite_none_right_eq_some.1 ht
    rfl

theorem step_run {i : ℕ} : step s (.run i) = some s' ↔ ∃ pc t pc', s.calls[i]? = some pc ∧
    runCall s pc = some (t, pc') ∧ s' = { t with calls := s.calls.set i pc' } := by
  simp only [step, Option.bind_eq_bind, Option.bind_eq_some_iff, Prod.exists, Option.some.injEq]
  constructor
  · rintro ⟨pc, hpc, t, pc', ht, rfl⟩
    exact ⟨pc, t, pc', hpc, ht, by rw [runCall_calls ht]⟩
  · rintro ⟨pc, t, pc', hpc, ht, rfl⟩
    exact ⟨pc, hpc, t, pc', ht, by rw [runCall_calls ht]⟩

/-- **A step keeps the invariant.** -/
theorem Inv.step {l : Label} (h : Inv s) (hg : InTime s l) (ht : Finalizers.step s l = some s') :
    Inv s' := by
  cases l with
  | queue =>
    cases ht
    exact fun pc hpc => (h pc hpc).of_grow (fun _ hf => hf) (fun _ => .tail _) rfl id
  | notify =>
    cases ht
    rw [Inv, notifyFinalizers]
    split_ifs
    · exact h
    · exact fun pc hpc => ⟨(h pc hpc).known, (h pc hpc).signal, (h pc hpc).done⟩
  | stop =>
    cases ht
    exact fun pc hpc => ⟨(h pc hpc).known, (h pc hpc).signal, (h pc hpc).done⟩
  | call onFinalizerThread =>
    cases ht
    intro pc hpc
    rcases List.mem_append.1 hpc with hpc | hpc
    · exact ⟨(h pc hpc).known, (h pc hpc).signal, (h pc hpc).done⟩
    · cases List.mem_singleton.1 hpc
      exact ⟨nofun, nofun, nofun⟩
  | thread =>
    intro pc hpc
    rw [runThread_calls ht] at hpc
    exact waits_runThread (h pc hpc) ht
  | run i =>
    obtain ⟨pc, t, pc', hi, ht', rfl⟩ := step_run.1 ht
    intro pc₂ hpc₂
    suffices Waits t pc₂ from ⟨this.known, this.signal, this.done⟩
    rcases List.mem_or_eq_of_mem_set hpc₂ with hmem | rfl
    · exact waits_runCall_other (h pc₂ hmem) ht'
    · refine waits_runCall (h pc (List.mem_of_getElem? hi)) (fun hset => ?_) ht'
      simpa [hi] using hg hset

theorem inv_init : Inv init := fun _ hpc => by cases hpc

/-- **A call that waited returns after its finalizers**, when no reset comes between the end of an
`InvokeFinalizers` and its signal. -/
theorem waitForPendingFinalizers_waits (h : lts.ReachWith InTime init s) {pending : List Finalizer}
    (hpc : .waited pending ∈ s.calls) : ∀ f ∈ pending, f ∈ s.invoked := by
  have hs : Inv s := h.invariant inv_init fun _ _ _ hs hg hst => hs.step hg hst
  exact (hs _ hpc).done rfl

/-- One call, and the finalizer thread that it wakes. -/
def waitForOne : List Label :=
  [.queue, .thread, .call false, .run 0, .run 0, .run 0, .thread, .thread, .thread, .thread,
   .thread, .thread, .run 0]

theorem waitForPendingFinalizers_waits_one :
    ∃ s, lts.ReachWith InTime init s ∧ (.waited [0] ∈ s.calls) ∧ ∀ f ∈ [0], f ∈ s.invoked := by
  obtain ⟨s, hs, hw⟩ := LTS.exists_reachWith (f := step) (G := InTime) (i := init) waitForOne
    (fun s => .waited [0] ∈ s.calls) (by decide)
  exact ⟨s, hs, hw, waitForPendingFinalizers_waits hs hw⟩

/-- The finalizer thread has emptied the list and is going to signal when a collection puts an
object on it and a call resets the event. -/
def staleSignal : List Label :=
  [.notify, .thread, .thread, .thread, .queue, .call false, .run 0, .run 0, .run 0, .thread, .run 0]

/-- A call returns before the finalizer that it found pending. -/
theorem waitForPendingFinalizers_early : ¬ ∀ (s : State) (pending : List Finalizer),
    lts.Reachable init s → .waited pending ∈ s.calls → ∀ f ∈ pending, f ∈ s.invoked := by
  intro h
  obtain ⟨s, hs, hw, hi⟩ := LTS.exists_reachWith (f := step) (G := fun _ _ => True) (i := init)
    staleSignal (fun s => .waited [0] ∈ s.calls ∧ 0 ∉ s.invoked) (by decide)
  exact hi (h s [0] hs hw 0 (.head _))

/-! ### The condition is exact -/

/-- All entries that were put on the list. -/
def entries (s : State) : List Finalizer := s.thread.current ++ s.finalizeNow ++ s.invoked

theorem entries_runThread (ht : runThread s = some s') :
    (entries s').Perm (entries s) ∧ s'.next = s.next := by
  rw [runThread] at ht
  cases hth : s.thread with
  | exited => simp [hth] at ht
  | head =>
    simp only [hth, Option.some.injEq] at ht
    subst ht
    refine ⟨.of_eq ?_, rfl⟩
    simp only [entries, hth, FinalizerPC.current]
    split_ifs <;> rfl
  | set =>
    simp only [hth, Option.some.injEq] at ht
    subst ht
    exact ⟨.of_eq (by simp [entries, hth, FinalizerPC.current]), rfl⟩
  | wait =>
    simp only [hth] at ht
    obtain ⟨-, ⟨⟩⟩ := Option.ite_none_right_eq_some.1 ht
    exact ⟨.of_eq (by simp [entries, hth, FinalizerPC.current]), rfl⟩
  | invoke =>
    simp only [hth, Option.some.injEq] at ht
    subst ht
    refine ⟨.of_eq ?_, rfl⟩
    by_cases hl : s.finalizeNow = [] <;> simp [entries, hth, hl, FinalizerPC.current]
  | pop =>
    cases hl : s.finalizeNow <;> simp only [hth, hl, Option.some.injEq] at ht <;> subst ht <;>
      exact ⟨.of_eq (by simp [entries, hth, hl, FinalizerPC.current]), rfl⟩
  | running g =>
    simp only [hth, Option.some.injEq] at ht
    subst ht
    refine ⟨?_, rfl⟩
    simp [entries, hth, FinalizerPC.current]

/-- The entries of the list are pending, and have not been invoked. -/
def Listed (s : State) : Prop := (entries s).Nodup ∧ ∀ f ∈ entries s, f < s.next

theorem Listed.step {l : Label} (h : Listed s) (ht : Finalizers.step s l = some s') :
    Listed s' := by
  obtain ⟨hnd, hlt⟩ := h
  cases l with
  | queue =>
    cases ht
    have hperm : (s.thread.current ++ s.next :: s.finalizeNow ++ s.invoked).Perm
        (s.next :: entries s) := by
      simp [entries]
    refine ⟨hperm.nodup_iff.2 (List.nodup_cons.2 ⟨fun hf => ?_, hnd⟩), fun f hf => ?_⟩
    · exact absurd (hlt _ hf) (Nat.lt_irrefl _)
    · rcases List.mem_cons.1 (hperm.mem_iff.1 hf) with rfl | hf
      · exact Nat.lt_succ_self _
      · exact Nat.lt_succ_of_lt (hlt f hf)
  | notify =>
    cases ht
    rw [Listed, notifyFinalizers]
    split_ifs <;> exact ⟨hnd, hlt⟩
  | stop | call => cases ht; exact ⟨hnd, hlt⟩
  | thread =>
    obtain ⟨hperm, hnext⟩ := entries_runThread ht
    exact ⟨hperm.nodup_iff.2 hnd, fun f hf => hnext ▸ hlt f (hperm.mem_iff.1 hf)⟩
  | run i =>
    obtain ⟨pc, t, pc', -, ht', rfl⟩ := step_run.1 ht
    suffices entries t = entries s ∧ t.next = s.next by
      rw [Listed, show entries { t with calls := s.calls.set i pc' } = entries t from rfl, this.1,
        this.2]
      exact ⟨hnd, hlt⟩
    cases pc with
    | waited | returned => cases ht'
    | hasPending onFinalizerThread =>
      rw [runCall] at ht'
      split_ifs at ht' <;> cases ht' <;> exact ⟨rfl, rfl⟩
    | reset pending => cases ht'; exact ⟨rfl, rfl⟩
    | notify pending =>
      cases ht'
      rw [notifyFinalizers]
      split_ifs <;> exact ⟨rfl, rfl⟩
    | wait pending =>
      obtain ⟨-, ⟨⟩⟩ := Option.ite_none_right_eq_some.1 ht'
      exact ⟨rfl, rfl⟩

theorem listed_of_reachable (h : lts.Reachable init s) : Listed s :=
  h.invariant ⟨.nil, nofun⟩ fun _ _ _ hs _ hst => hs.step hst

/-- **After any other reset the call can return before its finalizers.** -/
theorem returns_early {i : ℕ} {pending : List Finalizer} {f : Finalizer} (h : lts.Reachable init s)
    (hi : s.calls[i]? = some (.reset pending)) (hset : s.thread = .set) (hf : f ∈ pending)
    (hl : f ∈ s.finalizeNow) :
    ∃ t, lts.Reachable s t ∧ t.calls[i]? = some (.waited pending) ∧
      ¬ ∀ f ∈ pending, f ∈ t.invoked := by
  have hlt : i < s.calls.length := (List.getElem?_eq_some_iff.1 hi).1
  have hnot : f ∉ s.invoked := fun hf =>
    (List.nodup_append.1 (listed_of_reachable h).1).2.2 f (List.mem_append_right _ hl) f hf rfl
  let n := (notifyFinalizers s).semaphore
  have h₁ : lts.Reachable s
      { s with completed := false, calls := s.calls.set i (.notify pending) } :=
    .step (l := .run i) .init trivial (step_run.2 ⟨_, _, _, hi, rfl, rfl⟩)
  have h₂ : lts.Reachable s
      { s with semaphore := n, completed := false, calls := s.calls.set i (.wait pending) } := by
    refine .step (l := .run i) h₁ trivial
      (step_run.2 ⟨_, _, _, List.getElem?_set_self hlt, rfl, ?_⟩)
    simp only [notifyFinalizers, List.set_set, n]
    split_ifs <;> rfl
  have h₃ : lts.Reachable s
      { s with
        semaphore := n
        completed := true
        thread := .head
        calls := s.calls.set i (.wait pending) } := by
    refine .step (l := .thread) h₂ trivial ?_
    simp [lts, step, runThread, hset]
  refine ⟨_, .step (l := .run i) h₃ trivial
    (step_run.2 ⟨_, _, _, List.getElem?_set_self hlt, rfl, rfl⟩), ?_, fun hall => hnot (hall f hf)⟩
  exact List.getElem?_set_self (by simpa using hlt)

theorem returns_early_one :
    ∃ s t, lts.Reachable init s ∧ lts.Reachable s t ∧ t.calls[0]? = some (.waited [0]) ∧
      ¬ ∀ f ∈ [0], f ∈ t.invoked := by
  obtain ⟨s, hs, hi, hset, hl⟩ := LTS.exists_reachWith (f := step) (G := fun _ _ => True)
    (i := init) [.notify, .thread, .thread, .thread, .queue, .call false, .run 0]
    (fun s => s.calls[0]? = some (.reset [0]) ∧ s.thread = .set ∧ 0 ∈ s.finalizeNow) (by decide)
  obtain ⟨t, ht, hw⟩ := returns_early hs hi hset (List.mem_singleton_self 0) hl
  exact ⟨s, t, hs, ht, hw⟩

end Finalizers

end Il2Cpp
