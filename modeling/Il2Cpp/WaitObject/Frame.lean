import Il2Cpp.WaitObject.Step

/-!
# What other threads see of a step

A step of a thread in `Wait` leaves the other threads where they are, and may give them wakeups.

* `Thread.waiting`, `Thread.timedOut`, `Thread.pending` : a thread waits; its wait has timed out;
  it has a wakeup.
* `State.Served`, `State.Heard` : one of some threads has a wakeup; it will, after a signal.
* `Thread.Quiet`, `State.Frame` : a thread waits as before; a step that leaves the list, and some
  threads as they were.
* `State.frame_wakeupThreads`, `State.Heard.served` : what a signal does.
-/

namespace Il2Cpp

namespace WaitObject

variable {Tid : Type}

/-- The thread waits for the count to become positive. -/
def Thread.waiting (th : Thread) : Bool :=
  match th.pc with
  | .acquireSemaphore _ | .sleeping _ | .relock _ true => true
  | _ => false

/-- The wait of the thread has timed out; it is in the list of the waiting threads still. -/
def Thread.timedOut (th : Thread) : Bool :=
  match th.pc with
  | .relock _ false => true
  | _ => false

/-- The thread has a wakeup: it will look at the count again. -/
def Thread.pending (th : Thread) : Bool :=
  match th.pc with
  | .acquireSemaphore _ => th.token
  | .relock _ true => true
  | _ => false

namespace State

/-- None of these threads waits, or one that waits has a wakeup. -/
def Served (s : State Tid) (l : List Tid) : Prop :=
  (∀ t ∈ l, (s.threads t).waiting = false) ∨
    ∃ t ∈ l, (s.threads t).waiting = true ∧ (s.threads t).pending = true

/-- A wakeup for one of these threads is given to one that has not timed out, or it is not
needed. -/
def Heard (s : State Tid) (l : List Tid) : Prop :=
  (∀ t ∈ l.head?, (s.threads t).timedOut = false) ∨ s.Served l

/-! ### The list of the waiting threads -/

theorem perm_eraseSwapBack [DecidableEq Tid] {t : Tid} {l : List Tid} (h : t ∈ l) :
    (t :: eraseSwapBack t l).Perm l := by
  rcases List.eq_nil_or_concat l with rfl | ⟨l, u, rfl⟩
  · simp at h
  simp only [List.concat_eq_append] at h ⊢
  have hlast : (l ++ [u]).getLast? = some u := by simp
  simp only [eraseSwapBack, hlast, h, if_true]
  by_cases ht : t ∈ l
  · have hk : l.idxOf t < l.length := List.idxOf_lt_length_iff.2 ht
    have hset := (List.set_perm_cons_eraseIdx hk u).cons t
    have hget := (List.getElem_cons_eraseIdx_perm hk).cons u
    rw [List.idxOf_append_of_mem ht, List.set_append_left _ _ hk, List.dropLast_concat]
    rw [List.getElem_idxOf hk] at hget
    exact (hset.trans (.swap ..)).trans (hget.trans (List.perm_append_singleton u l).symm)
  · obtain rfl : t = u := by simpa [ht] using h
    rw [List.idxOf_append_of_notMem ht]
    simpa using (List.perm_append_singleton t l).symm

end State

/-! ### What other threads see of a step -/

/-- The thread is in the list of the waiting threads. -/
def Thread.registered (th : Thread) : Bool := th.waiting || th.timedOut

/-- The thread waits as before, and keeps its wakeup. -/
structure Thread.Quiet (th th' : Thread) : Prop where
  waiting : th'.waiting = th.waiting
  timedOut : th'.timedOut = th.timedOut
  pending : th.pending = true → th'.pending = true

namespace Thread

variable {th th' th'' : Thread}

theorem Quiet.refl (th : Thread) : th.Quiet th := ⟨rfl, rfl, id⟩

theorem Quiet.trans (h : th.Quiet th') (h' : th'.Quiet th'') : th.Quiet th'' :=
  ⟨h'.waiting.trans h.waiting, h'.timedOut.trans h.timedOut, fun hp => h'.pending (h.pending hp)⟩

theorem Quiet.registered (h : th.Quiet th') : th'.registered = th.registered := by
  rw [Thread.registered, h.waiting, h.timedOut, Thread.registered]

theorem waiting_of_registered (h : th.registered = true) (ht : th.timedOut = false) :
    th.waiting = true := by
  simpa [Thread.registered, ht] using h

theorem quiet_of_pc (hpc : th'.pc = th.pc) (ht : th.token = true → th'.token = true) :
    th.Quiet th' := by
  refine ⟨by rw [waiting, waiting, hpc], by rw [timedOut, timedOut, hpc], ?_⟩
  rw [pending, pending, hpc]
  split
  · exact ht
  · exact id
  · exact id

theorem quiet_releaseSemaphore (th : Thread) : th.Quiet th.releaseSemaphore := by
  rw [releaseSemaphore]
  split
  · rename_i c hpc
    exact ⟨by simp [waiting, hpc], by simp [timedOut, hpc], by simp [pending]⟩
  · exact quiet_of_pc rfl fun _ => rfl

theorem pending_releaseSemaphore (h : th.waiting = true) :
    th.releaseSemaphore.pending = true := by
  rw [waiting] at h
  rw [releaseSemaphore]
  split
  · rfl
  · simp only [pending]
    split at h <;> simp_all

end Thread

namespace State

variable {s s' s'' : State Tid} {t : Tid} {c : Call} {l : List Tid}

/-- A step that leaves the list, and that the threads with `p` do not notice. -/
structure Frame (p : Tid → Prop) (s s' : State Tid) : Prop where
  type : s'.type = s.type
  waitingThreads : s'.waitingThreads = s.waitingThreads
  waitingThreadCount : s'.waitingThreadCount = s.waitingThreadCount
  quiet : ∀ u, p u → (s.threads u).Quiet (s'.threads u)

namespace Frame

variable {p q : Tid → Prop}

theorem refl (s : State Tid) : Frame p s s := ⟨rfl, rfl, rfl, fun _ _ => .refl _⟩

theorem trans (h : Frame p s s') (h' : Frame p s' s'') : Frame p s s'' :=
  ⟨h'.type.trans h.type, h'.waitingThreads.trans h.waitingThreads,
    h'.waitingThreadCount.trans h.waitingThreadCount,
    fun u hu => (h.quiet u hu).trans (h'.quiet u hu)⟩

theorem mono (h : Frame p s s') (hpq : ∀ u, q u → p u) : Frame q s s' :=
  ⟨h.type, h.waitingThreads, h.waitingThreadCount, fun u hu => h.quiet u (hpq u hu)⟩

theorem served (h : Frame p s s') (hl : ∀ u ∈ l, p u) (hs : s.Served l) : s'.Served l := by
  rcases hs with hs | ⟨u, hu, hw, hp⟩
  · exact .inl fun u hu => by rw [(h.quiet u (hl u hu)).waiting, hs u hu]
  · have hq := h.quiet u (hl u hu)
    exact .inr ⟨u, hu, by rw [hq.waiting, hw], hq.pending hp⟩

theorem heard (h : Frame p s s') (hl : ∀ u ∈ l, p u) (hs : s.Heard l) : s'.Heard l := by
  rcases hs with hs | hs
  · refine .inl fun u hu => ?_
    rw [(h.quiet u (hl u (List.mem_of_head? hu))).timedOut, hs u hu]
  · exact .inr (h.served hl hs)

end Frame

variable [DecidableEq Tid]

@[simp] theorem threads_modify_self (s : State Tid) (t : Tid) (f : Thread → Thread) :
    (s.modify t f).threads t = f (s.threads t) := by
  simp [modify]

theorem modify_modify (s : State Tid) (t : Tid) (f g : Thread → Thread) :
    (s.modify t f).modify t g = s.modify t fun th => g (f th) := by
  simp [modify]

@[simp] theorem count_modify (s : State Tid) (t : Tid) (f : Thread → Thread) :
    (s.modify t f).count = s.count := rfl

@[simp] theorem count_setPC (s : State Tid) (t : Tid) (pc : PC) : (s.setPC t pc).count = s.count :=
  rfl

@[simp] theorem threads_setPC_self (s : State Tid) (t : Tid) (pc : PC) :
    (s.setPC t pc).threads t = { s.threads t with pc } :=
  s.threads_modify_self t _

@[simp] theorem count_setWaitObject (s : State Tid) (t : Tid) (c : Call) (b : Bool) :
    (s.setWaitObject t c b).count = s.count := by
  rw [setWaitObject]
  split <;> rfl

theorem frame_modify (s : State Tid) (t : Tid) (f : Thread → Thread) :
    Frame (· ≠ t) s (s.modify t f) where
  type := rfl
  waitingThreads := rfl
  waitingThreadCount := rfl
  quiet u hu := by
    have h : (s.modify t f).threads u = s.threads u := Function.update_of_ne hu _ _
    rw [h]
    exact .refl _

theorem frame_setPC (s : State Tid) (t : Tid) (pc : PC) : Frame (· ≠ t) s (s.setPC t pc) :=
  s.frame_modify t _

theorem frame_setWaitObject (s : State Tid) (t : Tid) (c : Call) (b : Bool) :
    Frame (· ≠ t) s (s.setWaitObject t c b) := by
  rw [setWaitObject]
  split
  · exact s.frame_modify t _
  · exact .refl s

theorem frame_modify_quiet {f : Thread → Thread} (hf : (s.threads t).Quiet (f (s.threads t))) :
    Frame (fun _ => True) s (s.modify t f) where
  type := rfl
  waitingThreads := rfl
  waitingThreadCount := rfl
  quiet u _ := by
    by_cases hu : u = t
    · subst hu
      rwa [threads_modify_self]
    · exact (s.frame_modify t f).quiet u hu

/-! ### Waking threads -/

private theorem releaseAll_spec (l : List Tid) (s : State Tid) :
    let s' := l.foldl (fun s t => s.modify t Thread.releaseSemaphore) s
    Frame (fun _ => True) s s' ∧ s'.count = s.count ∧
      ∀ u ∈ l, (s.threads u).waiting = true → (s'.threads u).pending = true := by
  induction l generalizing s with
  | nil => exact ⟨.refl s, rfl, by simp⟩
  | cons t l ih =>
    obtain ⟨hf, hc, hp⟩ := ih (s.modify t Thread.releaseSemaphore)
    have hf₁ : Frame (fun _ => True) s (s.modify t Thread.releaseSemaphore) :=
      frame_modify_quiet (Thread.quiet_releaseSemaphore _)
    refine ⟨hf₁.trans hf, hc, fun u hu hw => ?_⟩
    rcases List.mem_cons.1 hu with rfl | hu
    · refine (hf.quiet u trivial).pending ?_
      rw [threads_modify_self]
      exact Thread.pending_releaseSemaphore hw
    · exact hp u hu (by rw [(hf₁.quiet u trivial).waiting, hw])

theorem frame_wakeupThreads (s : State Tid) (b : Bool) :
    Frame (fun _ => True) s (s.wakeupThreads b) :=
  (releaseAll_spec _ s).1

@[simp] theorem count_wakeupThreads (s : State Tid) (b : Bool) :
    (s.wakeupThreads b).count = s.count :=
  (releaseAll_spec _ s).2.1

theorem pending_wakeupThreads {u : Tid} (hu : u ∈ s.waitingThreads)
    (hw : (s.threads u).waiting = true) : ((s.wakeupThreads false).threads u).pending = true :=
  (releaseAll_spec _ s).2.2 u hu hw

theorem Heard.served (h : s.Heard s.waitingThreads)
    (hreg : ∀ u ∈ s.waitingThreads, (s.threads u).registered = true) :
    (s.wakeupThreads true).Served s.waitingThreads := by
  have hf := s.frame_wakeupThreads true
  rcases h with h | h
  · rcases hl : s.waitingThreads with _ | ⟨u, l⟩
    · exact .inl (by simp)
    have hu : u ∈ s.waitingThreads := by simp [hl]
    have hw := Thread.waiting_of_registered (hreg u hu) (h u (by simp [hl]))
    refine .inr ⟨u, by simp, by rw [(hf.quiet u trivial).waiting, hw], ?_⟩
    exact (releaseAll_spec _ s).2.2 u (by simp [hl]) hw
  · exact hf.served (fun _ _ => trivial) h

end State

end WaitObject

end Il2Cpp
