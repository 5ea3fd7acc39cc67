import Il2Cpp.WaitObject.Frame

/-!
# Wakeups of a wait object

While the count is positive and threads wait, one of them has a wakeup that makes it look at the
count again.  For events this always holds, since `Set` wakes all threads.  For semaphores and
mutexes a wakeup is meant for one thread, and it is lost in two ways:

* it is given to a thread that has timed out and has not yet left the list;
* the thread that has it leaves because an APC throws.

Neither passes it on.

* `Thread.waiting`, `Thread.pending` : a thread waits; it has a wakeup.
* `NoLostWakeup` : the property.
* `WakeupKept` : the condition, on one step.
* `Inv` : the invariant, and `Inv.step` : the steps that meet the condition preserve it.
* `no_lost_wakeup` : the property along every run whose steps all meet the condition.
* `lost_wakeup` : a run without the condition.
-/

namespace Il2Cpp

namespace WaitObject

variable {Tid : Type}

/-- Whether the object is an event. -/
def ObjectType.isEvent : ObjectType → Bool
  | manualResetEvent | autoResetEvent => true
  | mutex | semaphore => false

/-- The call of a thread that has acquired its semaphore and is about to lock the object. -/
def PC.acquiredCall : PC → Option Call
  | .relock c true => some c
  | _ => none

namespace State

/-- While the count is positive and threads wait, one of them has a wakeup. -/
def NoLostWakeup (s : State Tid) : Prop :=
  0 < s.count → (∃ t, (s.threads t).waiting = true) →
    ∃ t, (s.threads t).waiting = true ∧ (s.threads t).pending = true

/-! ### The invariant -/

/-- The list of the waiting threads is right. -/
structure Wf (s : State Tid) : Prop where
  mem : ∀ u, u ∈ s.waitingThreads ↔ (s.threads u).registered = true
  nodup : s.waitingThreads.Nodup
  count : s.waitingThreadCount = s.waitingThreads.length

/-- The list of the waiting threads is right while thread `t`, which is not in it, takes a step. -/
structure WfBut (t : Tid) (s : State Tid) : Prop where
  mem : ∀ u, u ∈ s.waitingThreads ↔ u ≠ t ∧ (s.threads u).registered = true
  nodup : s.waitingThreads.Nodup
  count : s.waitingThreadCount = s.waitingThreads.length

/-- While an event is set, all threads that wait for it have a wakeup. -/
def EventWoken (s : State Tid) : Prop :=
  s.type.isEvent = true → 0 < s.count → ∀ u ∈ s.waitingThreads,
    (s.threads u).waiting = true → (s.threads u).pending = true

/-- The waiting threads have the wakeups that they need. -/
structure Woken (s : State Tid) : Prop where
  served : 0 < s.count → s.Served s.waitingThreads
  event : s.EventWoken

variable {s s' : State Tid} {t : Tid} {c : Call}

theorem Wf.frame (h : Wf s) (hf : Frame (fun _ => True) s s') : Wf s' where
  mem u := by rw [hf.waitingThreads, h.mem, (hf.quiet u trivial).registered]
  nodup := hf.waitingThreads ▸ h.nodup
  count := by rw [hf.waitingThreadCount, hf.waitingThreads, h.count]

theorem Wf.frame_of_registered (h : Wf s) (hf : Frame (· ≠ t) s s')
    (ht : (s'.threads t).registered = (s.threads t).registered) : Wf s' where
  mem u := by
    rw [hf.waitingThreads, h.mem]
    by_cases hu : u = t
    · rw [hu, ht]
    · rw [(hf.quiet u hu).registered]
  nodup := hf.waitingThreads ▸ h.nodup
  count := by rw [hf.waitingThreadCount, hf.waitingThreads, h.count]

theorem Wf.but (h : Wf s) (ht : (s.threads t).registered = false) : WfBut t s where
  mem u := by
    rw [h.mem]
    refine ⟨fun hu => ⟨?_, hu⟩, And.right⟩
    rintro rfl
    rw [ht] at hu
    cases hu
  nodup := h.nodup
  count := h.count

namespace WfBut

theorem wf (h : WfBut t s) (ht : (s.threads t).registered = false) : Wf s where
  mem u := by
    rw [h.mem]
    refine ⟨And.right, fun hu => ⟨?_, hu⟩⟩
    rintro rfl
    rw [ht] at hu
    cases hu
  nodup := h.nodup
  count := h.count

theorem notMem (h : WfBut t s) : t ∉ s.waitingThreads := fun ht => ((h.mem t).1 ht).1 rfl

theorem ne_of_mem (h : WfBut t s) : ∀ u ∈ s.waitingThreads, u ≠ t := fun u hu => ((h.mem u).1 hu).1

theorem frame (h : WfBut t s) (hf : Frame (· ≠ t) s s') : WfBut t s' where
  mem u := by
    rw [hf.waitingThreads, h.mem]
    exact and_congr_right fun hu => by rw [(hf.quiet u hu).registered]
  nodup := hf.waitingThreads ▸ h.nodup
  count := by rw [hf.waitingThreadCount, hf.waitingThreads, h.count]

end WfBut

variable [DecidableEq Tid]

/-- `Post` has no effect. -/
def PostFails (s : State Tid) (releaseCount : ℤ) : Prop :=
  (s.count + releaseCount) % 2 ^ 64 > s.maximumValue

/-- A thread that has acquired its semaphore does not lose the wakeup when it has `m_Mutex` again:
if it leaves because an APC throws, the wakeup is not needed; if a semaphore has more releases
then, the thread next in line hears the signal. -/
def RelockKept (s : State Tid) (t : Tid) (c : Call) : Prop :=
  if c.interruptible ∧ (s.threads t).throws then
    s.type.isEvent = true ∨ s.count = 0 ∨ s.Served (eraseSwapBack t s.waitingThreads)
  else s.type = .semaphore → 1 < s.count → s.Heard (eraseSwapBack t s.waitingThreads)

/-- The step does not lose a wakeup. -/
def WakeupKept (s : State Tid) : Label Tid → Prop
  | .post releaseCount =>
    s.PostFails releaseCount ∨ (s.count + releaseCount) % 2 ^ 32 = 0 ∨ s.Heard s.waitingThreads
  | .unlock => s.Heard s.waitingThreads
  | .wait t => ∀ c ∈ (s.threads t).pc.acquiredCall, s.RelockKept t c
  | _ => True

instance (s : State Tid) (l : List Tid) : Decidable (s.Served l) :=
  inferInstanceAs (Decidable (_ ∨ _))

instance (s : State Tid) (l : List Tid) : Decidable (s.Heard l) :=
  inferInstanceAs (Decidable (_ ∨ _))

instance (s : State Tid) (releaseCount : ℤ) : Decidable (s.PostFails releaseCount) :=
  inferInstanceAs (Decidable (_ > _))

instance (s : State Tid) (t : Tid) (c : Call) : Decidable (s.RelockKept t c) :=
  inferInstanceAs (Decidable (ite ..))

instance (s : State Tid) : ∀ l, Decidable (s.WakeupKept l)
  | .post _ => inferInstanceAs (Decidable (_ ∨ _ ∨ _))
  | .unlock => inferInstanceAs (Decidable (s.Heard _))
  | .wait t => inferInstanceAs (Decidable (∀ c ∈ (s.threads t).pc.acquiredCall, s.RelockKept t c))
  | .call _ _ | .timeout _ | .set | .reset | .queueUserAPC _ _ | .interrupt _ | .elsewhere _ _ _ =>
    .isTrue trivial

/-! ### Steps of a thread in `Wait` -/

@[simp] theorem count_pushThread (s : State Tid) (t : Tid) (c : Call) :
    (s.pushThread t c).count = s.count := rfl

theorem WfBut.pushThread (h : WfBut t s) : Wf (s.pushThread t c) where
  mem u := by
    have hl : (s.pushThread t c).waitingThreads = s.waitingThreads ++ [t] := rfl
    rw [hl, List.mem_append, List.mem_singleton, h.mem]
    by_cases hu : u = t
    · subst hu
      simp [State.pushThread, Thread.registered, Thread.waiting]
    · have hq := (frame_setPC { s with
        waitingThreadCount := s.waitingThreadCount + 1
        waitingThreads := s.waitingThreads ++ [t] } t (.acquireSemaphore c)).quiet u hu
      rw [State.pushThread, hq.registered]
      simp [hu]
  nodup := by
    have hp := List.perm_append_singleton t s.waitingThreads
    exact hp.nodup_iff.2 (List.nodup_cons.2 ⟨h.notMem, h.nodup⟩)
  count := by simp [State.pushThread, setPC, modify, h.count]

theorem Wf.popThread (h : Wf s) (ht : (s.threads t).registered = true) :
    WfBut t (s.popThread t) := by
  have hp := perm_eraseSwapBack ((h.mem t).2 ht)
  have hn : (t :: eraseSwapBack t s.waitingThreads).Nodup := hp.nodup_iff.2 h.nodup
  refine ⟨fun u => ?_, hn.of_cons, ?_⟩
  · have hu := hp.mem_iff (a := u)
    rw [List.mem_cons, h.mem] at hu
    refine ⟨fun hm => ⟨?_, hu.1 (.inr hm)⟩, fun ⟨hne, hr⟩ => (hu.2 hr).resolve_left hne⟩
    rintro rfl
    exact (List.nodup_cons.1 hn).1 hm
  · have hl := hp.length_eq
    simp only [State.popThread, h.count, ← hl]
    simp

omit [DecidableEq Tid] in
theorem EventWoken.frame {p : Tid → Prop} (h : EventWoken s) (hf : Frame p s s')
    (hp : ∀ u ∈ s.waitingThreads, p u) (hc : s'.count ≤ s.count) : EventWoken s' := by
  intro he hpos u hu hw
  rw [hf.waitingThreads] at hu
  rw [hf.type] at he
  have hq := hf.quiet u (hp u hu)
  rw [hq.waiting] at hw
  exact hq.pending (h he (by omega) u hu hw)

namespace Woken

omit [DecidableEq Tid]

theorem frame {p : Tid → Prop} (h : Woken s) (hf : Frame p s s') (hp : ∀ u ∈ s.waitingThreads, p u)
    (hc : s'.count ≤ s.count) : Woken s' where
  served hpos := by
    rw [hf.waitingThreads]
    exact hf.served hp (h.served (by omega))
  event := h.event.frame hf hp hc

theorem of_count_eq_zero (h : s.count = 0) : Woken s :=
  ⟨fun hpos => by omega, fun _ hpos => by omega⟩

theorem of_event (h : ∀ u ∈ s.waitingThreads, (s.threads u).waiting = true →
    (s.threads u).pending = true) : Woken s where
  served _ := by
    by_cases hw : ∃ u ∈ s.waitingThreads, (s.threads u).waiting = true
    · obtain ⟨u, hu, hw⟩ := hw
      exact .inr ⟨u, hu, hw, h u hu hw⟩
    · exact .inl fun u hu => by simpa using fun hw' => hw ⟨u, hu, hw'⟩
  event _ _ := h

theorem of_served (he : s.type.isEvent = false) (h : s.Served s.waitingThreads) : Woken s :=
  ⟨fun _ => h, fun he' => by rw [he] at he'; cases he'⟩

end Woken

theorem mem_of_mem_popThread {u : Tid} (ht : t ∈ s.waitingThreads)
    (hu : u ∈ (s.popThread t).waitingThreads) : u ∈ s.waitingThreads :=
  (perm_eraseSwapBack ht).mem_iff.1 (.tail _ hu)

theorem EventWoken.popThread (h : EventWoken s) (ht : t ∈ s.waitingThreads) :
    EventWoken (s.popThread t) :=
  fun he hc u hu => h he hc u (mem_of_mem_popThread ht hu)

theorem Woken.popThread (h : Woken s) (ht : t ∈ s.waitingThreads)
    (hw : (s.threads t).waiting = false) : Woken (s.popThread t) := by
  refine ⟨fun hc => ?_, h.event.popThread ht⟩
  have hp := perm_eraseSwapBack ht
  rcases h.served hc with hs | ⟨u, hu, huw, hup⟩
  · exact .inl fun u hu => hs u (mem_of_mem_popThread ht hu)
  · refine .inr ⟨u, ?_, huw, hup⟩
    rcases List.mem_cons.1 (hp.mem_iff.2 hu) with rfl | hu
    · rw [hw] at huw
      cases huw
    · exact hu

@[simp] theorem count_signalNext (s : State Tid) : s.signalNext.count = s.count := by
  rw [signalNext]
  split
  · exact count_wakeupThreads s true
  · rfl

theorem frame_signalNext (s : State Tid) : Frame (fun _ => True) s s.signalNext := by
  rw [signalNext]
  split
  · exact frame_wakeupThreads s true
  · exact .refl s

theorem count_acquire_le (s : State Tid) : s.acquire.count ≤ s.count := by
  rw [acquire]
  split
  · exact Nat.le_refl _
  · exact Nat.zero_le _
  · exact Nat.zero_le _
  · rw [count_signalNext]
    exact Nat.sub_le _ _

theorem frame_acquire (s : State Tid) : Frame (fun _ => True) s s.acquire := by
  have hc (n : ℕ) : Frame (fun _ => True) s { s with count := n } :=
    ⟨rfl, rfl, rfl, fun _ _ => .refl _⟩
  rw [acquire]
  split
  · exact .refl s
  · exact hc 0
  · exact hc 0
  · exact (hc _).trans (frame_signalNext _)

theorem WfBut.woken_acquire (h : WfBut t s)
    (hev : s.EventWoken)
    (hheard : s.type = .semaphore → 1 < s.count → s.Heard s.waitingThreads) (hpos : 0 < s.count) :
    Woken s.acquire := by
  rw [acquire]
  split
  · rename_i hty
    exact .of_event (hev (by rw [hty]; rfl) hpos)
  · exact .of_count_eq_zero rfl
  · exact .of_count_eq_zero rfl
  · rename_i hty
    have hty' : s.type.isEvent = false := by rw [hty]; rfl
    rw [signalNext]
    split
    · rename_i hc
      have h1 : 0 < s.count - 1 := hc.1
      have hs := hheard hty (by omega)
      refine .of_served (by rwa [(frame_wakeupThreads _ _).type]) ?_
      rw [(frame_wakeupThreads _ _).waitingThreads]
      exact Heard.served (s := { s with count := s.count - 1 }) hs fun u hu => ((h.mem u).1 hu).2
    · rename_i hc
      by_cases h0 : s.count - 1 = 0
      · exact .of_count_eq_zero h0
      · have hnil : s.waitingThreads = [] := by
          simpa [State.haveWaitingThreads, h.count, Nat.pos_of_ne_zero h0] using hc
        exact .of_served hty' (.inl (by simp [hnil]))

/-- The invariant. -/
structure Inv (s : State Tid) : Prop where
  wf : Wf s
  woken : Woken s

theorem Inv.leave (h : WfBut t s) (hw : Woken s) {pc : PC}
    (hpc : ∀ th : Thread, { th with pc }.registered = false) : Inv (s.setPC t pc) where
  wf := (h.frame (s.frame_setPC t pc)).wf (by rw [threads_setPC_self]; exact hpc _)
  woken := hw.frame (s.frame_setPC t pc) h.ne_of_mem (Nat.le_refl _)

theorem Inv.checkAPCs {next : State Tid → State Tid} (h : WfBut t s) (hw : Woken s)
    (hnext : ∀ s', WfBut t s' → Woken s' → s'.count = s.count → Inv (next s')) :
    Inv (s.checkAPCs t c next) := by
  have hf := s.frame_modify t Thread.handleAPCs
  have h₁ := h.frame hf
  have hw₁ := hw.frame hf h.ne_of_mem (Nat.le_refl _)
  rw [State.checkAPCs]
  split
  · dsimp only
    split
    · have hf₂ := (s.modify t Thread.handleAPCs).frame_setWaitObject t c false
      exact .leave (h₁.frame hf₂) (hw₁.frame hf₂ h₁.ne_of_mem (by simp)) fun _ => rfl
    · exact hnext _ h₁ hw₁ rfl
  · exact hnext _ h hw rfl

/-- The state after the APCs have been handled and none has thrown. -/
def handled (s : State Tid) (t : Tid) (c : Call) : State Tid :=
  if c.interruptible then s.modify t Thread.handleAPCs else s

theorem frame_handled (s : State Tid) (t : Tid) (c : Call) : Frame (· ≠ t) s (s.handled t c) := by
  rw [handled]
  split
  · exact s.frame_modify t _
  · exact .refl s

@[simp] theorem count_handled (s : State Tid) (t : Tid) (c : Call) :
    (s.handled t c).count = s.count := by
  rw [handled]
  split <;> rfl

/-- An APC throws in the wait. -/
def Throws (s : State Tid) (t : Tid) (c : Call) : Prop :=
  c.interruptible = true ∧ (s.threads t).throws = true

theorem checkAPCs_of_throws {next : State Tid → State Tid} (h : s.Throws t c) :
    s.checkAPCs t c next =
      ((s.handled t c).setWaitObject t c false).setPC t (.idle (some .exception)) := by
  simp [State.checkAPCs, handled, h.1, h.2]

theorem checkAPCs_of_not_throws {next : State Tid → State Tid} (h : ¬ s.Throws t c) :
    s.checkAPCs t c next = next (s.handled t c) := by
  rw [State.checkAPCs, handled]
  split
  · rename_i hc
    rw [if_neg fun ht => h ⟨hc, ht⟩]
  · rfl

theorem not_throws_setWaitObject (h : ¬ s.Throws t c) (b : Bool) :
    ¬ ((s.handled t c).setWaitObject t c b).Throws t c := by
  rintro ⟨hc, ht⟩
  have hnone : ∀ b ∈ (s.threads t).pendingAPCs, (! b) = true := by
    simpa [Throws, hc, Thread.throws] using h
  have hdrop := List.dropWhile_eq_nil_iff.2 hnone
  simp [handled, hc, setWaitObject, Thread.handleAPCs, Thread.throws, hdrop] at ht

theorem Inv.relock_acquired (h : Inv s) (hpc : (s.threads t).pc = .relock c true)
    (hk : s.WakeupKept (.wait t)) (hs : s.wait t = some s') : Inv s' := by
  have hr : (s.threads t).registered = true := by
    simp [Thread.registered, Thread.waiting, hpc]
  have hb : WfBut t (s.popThread t) := h.wf.popThread hr
  have hev : EventWoken (s.popThread t) := h.woken.event.popThread ((h.wf.mem t).2 hr)
  simp only [State.wait, hpc, if_true, Option.some.injEq] at hs
  have hk := hk c (by rw [hpc]; rfl)
  rw [RelockKept] at hk
  subst hs
  by_cases ht : (s.popThread t).Throws t c
  · -- an APC throws: by the condition the wakeup of the thread is not needed
    rw [if_pos (show c.interruptible = true ∧ (s.threads t).throws = true from ht)] at hk
    rw [checkAPCs_of_throws ht]
    have hw : Woken (s.popThread t) := by
      rcases hk with he | h0 | hsv
      · exact ⟨fun hc => (Woken.of_event (hev he hc)).served hc, hev⟩
      · exact .of_count_eq_zero h0
      · exact ⟨fun _ => hsv, hev⟩
    have hf := ((s.popThread t).frame_handled t c).trans (frame_setWaitObject _ t c false)
    exact .leave (hb.frame hf) (hw.frame hf hb.ne_of_mem (by simp)) fun _ => rfl
  · rw [if_neg (show ¬ (c.interruptible = true ∧ (s.threads t).throws = true) from ht)] at hk
    rw [checkAPCs_of_not_throws ht]
    have hf₁ := (s.popThread t).frame_handled t c
    split
    · -- the wakeup was for an APC: the thread waits again
      rename_i h0
      exact ⟨(hb.frame hf₁).pushThread, .of_count_eq_zero h0⟩
    · rename_i h0
      rw [checkAPCs_of_not_throws (not_throws_setWaitObject ht false)]
      have hf := (hf₁.trans (frame_setWaitObject _ t c false)).trans (frame_handled _ t c)
      have hb' := hb.frame hf
      have hw := hb'.woken_acquire (hev.frame hf hb.ne_of_mem (by simp))
        (fun hty h1 => by
          rw [hf.waitingThreads]
          rw [hf.type] at hty
          rw [count_handled, count_setWaitObject, count_handled] at h1
          exact hf.heard hb.ne_of_mem (hk hty h1))
        (by simpa [Nat.pos_iff_ne_zero] using h0)
      exact .leave (hb'.frame ((frame_acquire _).mono fun _ _ => trivial)) hw fun _ => rfl

theorem Inv.relock_timedOut (h : Inv s) (hpc : (s.threads t).pc = .relock c false)
    (hs : s.wait t = some s') : Inv s' := by
  have hr : (s.threads t).registered = true := by
    simp [Thread.registered, Thread.timedOut, hpc]
  have hb : WfBut t (s.popThread t) := h.wf.popThread hr
  have hw : Woken (s.popThread t) :=
    h.woken.popThread ((h.wf.mem t).2 hr) (by simp [Thread.waiting, hpc])
  have hf := (s.popThread t).frame_setWaitObject t c false
  simp only [State.wait, hpc, Bool.false_eq_true, if_false, Option.some.injEq] at hs
  subst hs
  exact .checkAPCs (hb.frame hf) (hw.frame hf hb.ne_of_mem (by simp))
    fun s' h' hw' _ => .leave h' hw' fun _ => rfl

omit [DecidableEq Tid] in
theorem Inv.frame {s s' : State Tid} (h : Inv s) (hf : Frame (fun _ => True) s s') (hc : s'.count ≤ s.count) :
    Inv s' :=
  ⟨h.wf.frame hf, h.woken.frame hf (fun _ _ => trivial) hc⟩

theorem Inv.wait_step (h : Inv s) (hk : s.WakeupKept (.wait t)) (hs : s.wait t = some s') :
    Inv s' := by
  rw [State.wait] at hs
  split at hs
  -- `idle` and `sleeping`: no step
  · cases hs
  · cases hs
  case h_3 c hpc =>
    have hr : (s.threads t).registered = false := by
      simp [Thread.registered, Thread.waiting, Thread.timedOut, hpc]
    split at hs <;> cases hs
    · exact .leave (h.wf.but hr) h.woken fun _ => rfl
    · exact .checkAPCs (h.wf.but hr) h.woken fun s' h' hw _ => .leave h' hw fun _ => rfl
  case h_4 c hpc =>
    have hr : (s.threads t).registered = false := by
      simp [Thread.registered, Thread.waiting, Thread.timedOut, hpc]
    have hb := h.wf.but hr
    split_ifs at hs with hc ht
    · cases hs
      have hf := s.frame_acquire
      have hw := h.woken.frame hf (fun _ _ => trivial) s.count_acquire_le
      exact .leave (hb.frame (hf.mono fun _ _ => trivial)) hw fun _ => rfl
    · cases hs
      exact .leave hb h.woken fun _ => rfl
    · cases hs
      have hf := s.frame_setWaitObject t c true
      have hc0 : s.count = 0 := by simpa using hc
      refine .checkAPCs (hb.frame hf) (h.woken.frame hf hb.ne_of_mem (by simp)) ?_
      intro s' h' _ hcount
      exact ⟨h'.pushThread, .of_count_eq_zero (by simpa [hc0] using hcount)⟩
  case h_5 c hpc =>
    -- the thread keeps its wakeup: the token, or that it has acquired the semaphore
    split_ifs at hs with htok <;> cases hs
    · rw [setPC, modify_modify]
      refine h.frame (frame_modify_quiet ⟨?_, ?_, fun _ => rfl⟩) (Nat.le_refl _)
      · simp [Thread.waiting, hpc]
      · simp [Thread.timedOut, hpc]
    · refine h.frame (frame_modify_quiet ⟨?_, ?_, ?_⟩) (Nat.le_refl _)
      · simp [Thread.waiting, hpc]
      · simp [Thread.timedOut, hpc]
      · simp [Thread.pending, hpc, htok]
  case h_6 c acquired hpc =>
    cases acquired with
    | true => exact h.relock_acquired hpc hk (by rw [State.wait]; simpa [hpc] using hs)
    | false => exact h.relock_timedOut hpc (by rw [State.wait]; simpa [hpc] using hs)

/-! ### Signals -/

omit [DecidableEq Tid] in
theorem Wf.setCount (h : Wf s) (n : ℕ) : Wf { s with count := n } := ⟨h.mem, h.nodup, h.count⟩

omit [DecidableEq Tid] in
theorem Wf.waitingThreads_eq_nil (h : Wf s) (hs : ¬ s.haveWaitingThreads = true) :
    s.waitingThreads = [] := by
  simpa [State.haveWaitingThreads, h.count] using hs

theorem Inv.set (h : Inv s) : Inv s.set := by
  have hwf := h.wf.setCount 1
  rw [State.set]
  split
  · have hf := frame_wakeupThreads { s with count := 1 } false
    refine ⟨hwf.frame hf, .of_event fun u hu hw => ?_⟩
    rw [hf.waitingThreads] at hu
    rw [(hf.quiet u trivial).waiting] at hw
    exact pending_wakeupThreads hu hw
  · rename_i hn
    refine ⟨hwf, .of_event ?_⟩
    rw [hwf.waitingThreads_eq_nil hn]
    simp

theorem Inv.signal (h : Inv s) (hty : s.type.isEvent = false) (hk : s.Heard s.waitingThreads)
    (n : ℕ) : Inv ({ s with count := n }.wakeupThreads true) := by
  have hwf := h.wf.setCount n
  have hf := frame_wakeupThreads { s with count := n } true
  refine ⟨hwf.frame hf, .of_served (by rwa [hf.type]) ?_⟩
  rw [hf.waitingThreads]
  exact Heard.served hk fun u hu => (hwf.mem u).1 hu

theorem Inv.post (h : Inv s) (hty : s.type.isEvent = false) {releaseCount : ℤ}
    (hk : s.WakeupKept (.post releaseCount)) : Inv (s.post releaseCount) := by
  rw [State.post]
  split
  · exact h
  · rename_i hle
    rcases hk with hk | h0 | hk
    · exact absurd hk hle
    · rw [h0]
      exact (Inv.mk (h.wf.setCount 0) (.of_count_eq_zero rfl)).frame (frame_wakeupThreads _ true)
        (by simp)
    · exact h.signal hty hk _

theorem Inv.unlock (h : Inv s) (hty : s.type.isEvent = false) (hk : s.Heard s.waitingThreads) :
    Inv s.unlock := by
  rw [State.unlock]
  split
  · exact h.signal hty hk 1
  · rename_i hn
    have hnil := (h.wf.setCount 1).waitingThreads_eq_nil hn
    exact ⟨h.wf.setCount 1, .of_served hty (.inl (by rw [hnil]; simp))⟩

/-! ### Runs -/

theorem Woken.timeout (h : Woken s) (hpc : (s.threads t).pc = .sleeping c) :
    Woken (s.setPC t (.relock c false)) := by
  have hf := s.frame_setPC t (.relock c false)
  have ht : ((s.setPC t (.relock c false)).threads t).waiting = false := by
    rw [threads_setPC_self]
    rfl
  refine ⟨fun hc => ?_, fun he hc u hu hw => ?_⟩
  · rcases h.served hc with hs | ⟨u, hu, hw, hp⟩
    · refine .inl fun u hu => ?_
      by_cases hut : u = t
      · rw [hut, ht]
      · rw [(hf.quiet u hut).waiting, hs u hu]
    · have hut : u ≠ t := by
        rintro rfl
        simp [Thread.pending, hpc] at hp
      exact .inr ⟨u, hu, by rw [(hf.quiet u hut).waiting, hw], (hf.quiet u hut).pending hp⟩
  · have hut : u ≠ t := by
      rintro rfl
      rw [ht] at hw
      cases hw
    rw [(hf.quiet u hut).waiting] at hw
    exact (hf.quiet u hut).pending (h.event he hc u hu hw)

theorem Inv.step (h : Inv s) {l : Label Tid} (hk : s.WakeupKept l)
    (hs : WaitObject.step s l = some s') : Inv s' := by
  cases l with
  | call t c =>
    simp only [WaitObject.step] at hs
    split at hs <;> cases hs
    rename_i o hpc
    refine h.frame (frame_modify_quiet ⟨?_, ?_, ?_⟩) (Nat.le_refl _)
    · simp [Thread.waiting, hpc]
    · simp [Thread.timedOut, hpc]
    · simp [Thread.pending, hpc]
  | wait t => exact h.wait_step hk hs
  | timeout t =>
    simp only [WaitObject.step] at hs
    split at hs
    · rename_i c hpc
      split at hs <;> cases hs
      have hf := s.frame_setPC t (.relock c false)
      refine ⟨h.wf.frame_of_registered hf ?_, h.woken.timeout hpc⟩
      simp [Thread.registered, Thread.waiting, Thread.timedOut, hpc]
    · cases hs
  | set =>
    simp only [WaitObject.step] at hs
    split at hs <;> cases hs
    exact h.set
  | reset =>
    simp only [WaitObject.step] at hs
    split at hs <;> cases hs
    exact ⟨h.wf.setCount 0, .of_count_eq_zero rfl⟩
  | post releaseCount =>
    simp only [WaitObject.step] at hs
    split at hs <;> cases hs
    rename_i hty
    exact h.post (by rw [hty]; rfl) hk
  | unlock =>
    simp only [WaitObject.step] at hs
    split at hs <;> cases hs
    rename_i hty
    exact h.unlock (by rw [hty.1]; rfl) hk
  | queueUserAPC t throws =>
    cases hs
    have hf : Frame (fun _ => True) s
        (s.modify t fun th => { th with pendingAPCs := th.pendingAPCs ++ [throws] }) :=
      frame_modify_quiet (Thread.quiet_of_pc rfl id)
    exact h.frame (hf.trans ⟨rfl, rfl, rfl, fun _ _ => .refl _⟩) (Nat.le_refl _)
  | interrupt k =>
    obtain ⟨t, -, hs⟩ := Option.bind_eq_some_iff.1 hs
    have hi : Inv { s with interrupting := s.interrupting.eraseIdx k } :=
      h.frame ⟨rfl, rfl, rfl, fun _ _ => .refl _⟩ (Nat.le_refl _)
    dsimp only at hs
    split at hs <;> cases hs
    · exact hi.frame (frame_modify_quiet (Thread.quiet_releaseSemaphore _)) (Nat.le_refl _)
    · exact hi
  | elsewhere t token pendingAPCs =>
    simp only [WaitObject.step] at hs
    split at hs <;> cases hs
    rename_i o hpc
    refine h.frame (frame_modify_quiet ⟨?_, ?_, ?_⟩) (Nat.le_refl _)
    · simp [Thread.waiting, hpc]
    · simp [Thread.timedOut, hpc]
    · simp [Thread.pending, hpc]

omit [DecidableEq Tid] in
theorem Initial.inv (h : s.Initial) : Inv s where
  wf := by
    refine ⟨fun u => ?_, by simp [h.waitingThreads], ?_⟩
    · simp [h.waitingThreads, Thread.registered, Thread.waiting, Thread.timedOut, h.idle u]
    · rw [h.waitingThreads, h.waitingThreadCount, List.length_nil]
  woken := .of_event (by simp [h.waitingThreads])

omit [DecidableEq Tid] in
theorem Inv.noLostWakeup (h : Inv s) : s.NoLostWakeup := by
  rintro hc ⟨t, ht⟩
  rcases h.woken.served hc with hs | ⟨u, -, hu⟩
  · have hmem := (h.wf.mem t).2 (by simp [Thread.registered, ht])
    rw [hs t hmem] at ht
    cases ht
  · exact ⟨u, hu⟩

end State

/-- **No lost wakeup.**  In every run whose steps do not lose a wakeup, from a wait object that no
thread waits for, whenever the count is positive and threads wait, one of them has a wakeup. -/
theorem no_lost_wakeup [DecidableEq Tid] {s₀ s : State Tid} (h₀ : s₀.Initial)
    (h : lts.ReachWith State.WakeupKept s₀ s) : s.NoLostWakeup := by
  refine State.Inv.noLostWakeup (h.invariant h₀.inv ?_)
  intro s l s' hi hk hs
  exact hi.step hk hs

/-- A semaphore with the count 0, and two threads that have not waited. -/
def idleSemaphore : State Bool where
  type := .semaphore
  count := 0
  maximumValue := 10
  waitingThreads := []
  waitingThreadCount := 0
  threads _ := { pc := .idle none, token := false, pendingAPCs := [], hasWaitObject := false }
  interrupting := []

theorem initial_idleSemaphore : idleSemaphore.Initial := ⟨rfl, rfl, fun _ => rfl⟩

/-- The two threads wait, one of them for a limited time. -/
def twoWaits : List (Label Bool) :=
  let wait (t : Bool) (timeout : Timeout) : List (Label Bool) :=
    [.call t ⟨timeout, false⟩, .wait t, .wait t, .wait t]
  wait false .finite ++ wait true .infinite

theorem no_lost_wakeup_post :
    ∃ s, lts.ReachWith State.WakeupKept idleSemaphore s ∧
      (0 < s.count ∧ (s.threads true).waiting = true) ∧ s.NoLostWakeup := by
  obtain ⟨s, hs, hw⟩ := LTS.exists_reachWith (f := step) (G := State.WakeupKept)
    (i := idleSemaphore) (twoWaits ++ [.post 1])
    (fun s => 0 < s.count ∧ (s.threads true).waiting = true) (by decide)
  exact ⟨s, hs, hw, no_lost_wakeup initial_idleSemaphore hs⟩

/-- The semaphore is posted when the first thread has timed out and is still in the list. -/
theorem lost_wakeup :
    ¬ ∀ s₀ s : State Bool, s₀.Initial → lts.Reachable s₀ s → s.NoLostWakeup := by
  intro h
  obtain ⟨s, hs, hc, hfalse, htrue, hp⟩ := LTS.exists_reachWith (f := step)
    (G := fun _ _ => True) (i := idleSemaphore)
    (twoWaits ++ [.timeout false, .post 1, .wait false])
    (fun s => 0 < s.count ∧ (s.threads false).waiting = false ∧
      (s.threads true).waiting = true ∧ (s.threads true).pending = false) (by decide)
  obtain ⟨t, ht, hpt⟩ := h _ s initial_idleSemaphore hs hc ⟨true, htrue⟩
  cases t with
  | false => simp [hfalse] at ht
  | true => simp [hp] at hpt

end WaitObject

end Il2Cpp
