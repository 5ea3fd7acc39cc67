import Il2Cpp.Monitor.Exclusion

/-!
# Lost wakeups

A thread that waits for the semaphore of a block is woken by a count, and there is a witness that
a count will come: the owner of the block, a thread in `Exit` that gave the block up and has yet to
post, or a woken thread that has yet to try to acquire the block.

The witness is lost in one place: a thread that acquired a block which is no longer the monitor of
its object hands the block back without looking whether somebody began to wait for it meanwhile.

* `State.HandsBack` : the condition that nobody did.
* `waiting_has_witness` : the theorem.
* `blocked_without_owner` : runs in which the block has no owner, by design and by that slip.
-/

set_option linter.unusedSectionVars false

namespace Il2Cpp

namespace Monitor

variable {Tid Obj : Type} [DecidableEq Tid] [DecidableEq Obj]

/-! ### Waiting threads and their witnesses -/

/-- The thread waits, or is about to wait, for the semaphore of the block. -/
def PC.Waits (m : Block) : PC Obj → Prop
  | .enter _ (.semaphoreWait k) | .enter _ (.semaphoreBlocked k) => k = m
  | _ => False

/-- The thread gave the block up in `Exit` and has yet to post. -/
def PC.Posts (m : Block) : PC Obj → Prop
  | .exit _ _ (.post k) | .exit _ _ (.recheckReady k) => k = m
  | _ => False

/-- The thread on the ready list is awake and has yet to try to acquire the block. -/
def PC.Tries (m : Block) : PC Obj → Prop
  | .enter _ (.loopCheck k) | .enter _ (.loopAcquire k) => k = m
  | _ => False

instance (m : Block) (pc : PC Obj) : Decidable (pc.Waits m) := by
  rcases pc with _ | ⟨_, _ | _⟩ | _ | _ | _ | _ | _ <;> dsimp only [PC.Waits] <;>
    infer_instance

instance (m : Block) (pc : PC Obj) : Decidable (pc.Posts m) := by
  rcases pc with _ | _ | _ | ⟨_, _, _ | _⟩ | _ | _ | _ <;> dsimp only [PC.Posts] <;>
    infer_instance

instance (m : Block) (pc : PC Obj) : Decidable (pc.Tries m) := by
  rcases pc with _ | ⟨_, _ | _⟩ | _ | _ | _ | _ | _ <;> dsimp only [PC.Tries] <;>
    infer_instance

namespace State

/-- There is a count, or somebody who will bring one. -/
def Witness (s : State Tid Obj) (m : Block) : Prop :=
  0 < s.semaphore m ∨ (∃ u, s.owningThreadId m = .thread u) ∨
    ∃ u, (s.pc u).Posts m ∨ (s.pc u).Tries m

/-- Somebody waits for the semaphore. -/
def Watched (s : State Tid Obj) (m : Block) : Prop := ∃ t, (s.pc t).Waits m

instance [Fintype Tid] (s : State Tid Obj) (m : Block) : Decidable (s.Watched m) :=
  inferInstanceAs (Decidable (∃ _, _))

/-- **The condition on a step**: a block that was acquired too late is handed back only while
nobody waits for it. -/
def HandsBack (s : State Tid Obj) : Label Tid Obj → Prop
  | .call _ _ => True
  | .run t _ =>
    match s.pc t with
    | .enter _ (.unacquire m) => ¬ s.Watched m
    | _ => True

instance [Fintype Tid] (s : State Tid Obj) (l : Label Tid Obj) : Decidable (s.HandsBack l) := by
  rcases l with _ | ⟨t, _⟩ <;> dsimp only [HandsBack]
  · infer_instance
  · rcases s.pc t with _ | ⟨_, _ | _⟩ | _ | _ | _ | _ | _ <;> dsimp only <;> infer_instance

end State

/-- Every thread that waits has a witness. -/
def Woken (s : State Tid Obj) : Prop := ∀ m, s.Watched m → s.Witness m

variable {s s' : State Tid Obj} {t u : Tid} {o : Obj} {m : Block} {l : Label Tid Obj}

/-! ### A block that is watched -/

theorem waits_role {pc : PC Obj} (h : pc.Waits m) : ∃ o, pc.role = .pinned o m := by
  unfold PC.Waits at h
  split at h
  · exact ⟨_, congrArg _ h⟩
  · exact ⟨_, congrArg _ h⟩
  · exact h.elim

theorem State.Watched.ready_ne_zero (h : s.Watched m) (hA : s.ownership.Inv) :
    s.numThreadsWaitingForSemaphore m ≠ 0 := by
  obtain ⟨t, ht⟩ := h
  obtain ⟨o, hrole⟩ := waits_role ht
  have hpos := hA.ready_pos (t := t) (m := m) (by rw [State.ownership_role, hrole]; rfl)
  exact Nat.pos_iff_ne_zero.1 hpos

theorem pinned_owned (hA : s.ownership.Inv) (h : (s.pc t).role = .pinned o m) :
    s.monitor o = some m ∨ ∃ u, s.ownership.role u = .deflating m ∧
      s.owningThreadId m = .thread u := by
  have hok : s.ownership.RoleOk t (.pinned o m) := h ▸ hA.roles t
  refine hok.imp id ?_
  rintro ⟨u, hu⟩
  have hdef := hA.roles u
  rw [hu] at hdef
  exact ⟨u, hu, hdef.1⟩

theorem State.Watched.deflating (h : s.Watched m) (hA : s.ownership.Inv)
    (hown : s.owningThreadId m = .thread t) (hout : ∀ o, s.monitor o ≠ some m) :
    s.ownership.role t = .deflating m := by
  obtain ⟨u, hu⟩ := h
  obtain ⟨o, hrole⟩ := waits_role hu
  obtain ⟨v, hv, hown'⟩ := (pinned_owned hA hrole).resolve_left (hout o)
  cases hown.symm.trans hown'
  exact hv

/-! ### What a step does to the witnesses -/

/-- What the thread of a step has to show. -/
structure Keeps (s s' : State Tid Obj) (t : Tid) : Prop where
  semaphore : ∀ m, 0 < s.semaphore m → 0 < s'.semaphore m ∨ (s'.pc t).Tries m
  owner : ∀ m, s.Watched m → s.owningThreadId m = .thread t →
    s'.owningThreadId m = .thread t ∨ (s'.pc t).Posts m
  posts : ∀ m, s.Watched m → (s.pc t).Posts m → (s'.pc t).Posts m ∨ 0 < s'.semaphore m
  tries : ∀ m, (s.pc t).Tries m → s'.Witness m
  waits : ∀ m, (s'.pc t).Waits m → (s.pc t).Waits m ∨ s'.Witness m

/-- **A step that keeps the witnesses of its thread keeps all of them.** -/
theorem Woken.of_keeps (hW : Woken s) (hA : s.ownership.Inv)
    (hstep : s.ownership.Step t s'.ownership) (hpc : ∀ u ≠ t, s'.pc u = s.pc u)
    (h : Keeps s s' t) : Woken s' := by
  rintro m ⟨w, hw⟩
  -- somebody waited before
  have hold : s.Watched m ∨ s'.Witness m := by
    rcases eq_or_ne w t with rfl | hne
    · exact (h.waits m hw).imp (fun hw => ⟨w, hw⟩) id
    · rw [hpc w hne] at hw
      exact .inl ⟨w, hw⟩
  rcases hold with hold | hnew
  swap
  · exact hnew
  rcases hW m hold with hsem | ⟨u, hu⟩ | ⟨u, hu⟩
  · rcases h.semaphore m hsem with hsem | htries
    · exact .inl hsem
    · exact .inr (.inr ⟨t, .inr htries⟩)
  · rcases eq_or_ne u t with rfl | hne
    · rcases h.owner m hold hu with hu | hposts
      · exact .inr (.inl ⟨u, hu⟩)
      · exact .inr (.inr ⟨u, .inl hposts⟩)
    · exact .inr (.inl ⟨u, (hstep.owner_iff hA hne m).2 hu⟩)
  · rcases eq_or_ne u t with rfl | hne
    · rcases hu with hposts | htries
      · rcases h.posts m hold hposts with hposts | hsem
        · exact .inr (.inr ⟨u, .inl hposts⟩)
        · exact .inl hsem
      · exact h.tries m htries
    · rw [← hpc u hne] at hu
      exact .inr (.inr ⟨u, hu⟩)

theorem Keeps.quiet (hsem : s'.semaphore = s.semaphore)
    (hown : ∀ m, s.Watched m → s.owningThreadId m = .thread t →
      s'.owningThreadId m = .thread t)
    (hposts : ∀ m, ¬ (s.pc t).Posts m) (htries : ∀ m, (s.pc t).Tries m → s'.Witness m)
    (hwaits : ∀ m, (s'.pc t).Waits m → (s.pc t).Waits m ∨ s'.Witness m) : Keeps s s' t where
  semaphore m h := .inl (by rwa [hsem])
  owner m hw h := .inl (hown m hw h)
  posts m _ h := absurd h (hposts m)
  tries := htries
  waits := hwaits

theorem Keeps.take {f : EnterFrame Obj} (hpc : (s.pc t).Waits m) :
    Keeps s ((s.takeSemaphore m).goto t (.enter f (.loopCheck m))) t := by
  have hloc : (∀ k, ¬ (s.pc t).Posts k) ∧ ∀ k, ¬ (s.pc t).Tries k := by
    unfold PC.Waits at hpc
    split at hpc
    · exact ⟨fun _ => ‹s.pc t = _› ▸ id, fun _ => ‹s.pc t = _› ▸ id⟩
    · exact ⟨fun _ => ‹s.pc t = _› ▸ id, fun _ => ‹s.pc t = _› ▸ id⟩
    · exact hpc.elim
  refine ⟨fun k hk => ?_, fun _ _ => .inl, fun k _ h => absurd h (hloc.1 k),
    fun k h => absurd h (hloc.2 k), fun k h => ?_⟩
  · rcases eq_or_ne k m with rfl | hne
    · right
      rw [State.goto_pc_self]
      rfl
    · left
      simpa [State.takeSemaphore, State.goto, hne] using hk
  · rw [State.goto_pc_self] at h
    exact h.elim

theorem owner_setOwner_self {x : Owner Tid} {k : Block}
    (hk : x = .thread t ∨ ¬ (s.Watched k ∧ s.owningThreadId k = .thread t)) (hw : s.Watched m)
    (hm : s.owningThreadId m = .thread t) : (s.setOwner k x).owningThreadId m = .thread t := by
  rcases eq_or_ne m k with rfl | hne
  · rcases hk with rfl | hk
    · simp [State.setOwner]
    · exact absurd ⟨hw, hm⟩ hk
  · simpa [State.setOwner, hne] using hm

theorem returnPC_not_waits (f : EnterFrame Obj) (b : Bool) (m : Block) :
    ¬ (f.returnPC b).Waits m := by
  obtain ⟨o, caller⟩ := f
  cases caller <;> exact id

theorem enterStep_keeps {f : EnterFrame Obj} {loc : EnterLoc} {c : Choice}
    (hA : s.ownership.Inv) (hpc : s.pc t = .enter f loc)
    (hback : ∀ m, loc = .unacquire m → ¬ s.Watched m)
    (h : s.enterStep t c f loc = some s') : Keeps s s' t := by
  have hrole : s.ownership.role t = loc.role f := by rw [State.ownership_role, hpc, PC.role]
  have hok := hA.roles t
  rw [hrole] at hok
  -- outside the loop that waits for the semaphore
  have hquiet : ∀ (s₁ : State Tid Obj) (pc : PC Obj), s₁.semaphore = s.semaphore →
      (∀ m, s.Watched m → s.owningThreadId m = .thread t → s₁.owningThreadId m = .thread t) →
      (∀ m, ¬ (PC.enter f loc).Tries m) → (∀ m, ¬ pc.Waits m) → Keeps s (s₁.goto t pc) t := by
    intro s₁ pc hsem hown htries hwaits
    refine .quiet hsem hown ?_ ?_ ?_
    · rw [hpc]
      exact fun _ => id
    · rw [hpc]
      exact fun k hk => absurd hk (htries k)
    · rw [State.goto_pc_self]
      exact fun k hk => absurd hk (hwaits k)
  -- inside of it, at a block that is pinned
  have hloop : ∀ (m : Block) (loc' : EnterLoc), loc = .loopCheck m ∨ loc = .loopAcquire m →
      (∀ k, (PC.enter f loc').Waits k → m = k) →
      (s.goto t (.enter f loc')).Witness m → Keeps s (s.goto t (.enter f loc')) t := by
    intro m loc' hloc hwaits hm
    refine .quiet rfl (fun _ _ => id) ?_ ?_ ?_
    · rw [hpc]
      exact fun _ => id
    · rw [hpc]
      intro k hk
      have hk : m = k := by rcases hloc with rfl | rfl <;> exact hk
      exact hk ▸ hm
    · rw [State.goto_pc_self]
      exact fun k hk => .inr (hwaits k hk ▸ hm)
  cases loc with
  | readMonitor =>
    simp only [State.enterStep] at h
    split at h <;> cases h <;> exact hquiet _ _ rfl (fun _ _ => id) (fun _ => id) (fun _ => id)
  | allocate | release m | addReady m | vacate m | acknowledge m | unwind m | abortMark m =>
    cases h
    exact hquiet _ _ rfl (fun _ _ => id) (fun _ => id) (fun _ => id)
  | incrementCount m | loopRemove m | timeoutAcknowledge m =>
    cases h
    exact hquiet _ _ rfl (fun _ _ => id) (fun _ => id) (returnPC_not_waits f _)
  | exchangeOwner m =>
    cases h
    exact hquiet _ _ rfl (fun _ => owner_setOwner_self (.inl rfl)) (fun _ => id) (fun _ => id)
  | returnOwner m =>
    cases h
    refine hquiet _ _ rfl (fun _ => owner_setOwner_self (.inr ?_)) (fun _ => id) (fun _ => id)
    rintro ⟨hw, -⟩
    cases hrole.symm.trans (hw.deflating hA hok.1 hok.2)
  | unacquire m =>
    cases h
    refine hquiet _ _ rfl (fun _ => owner_setOwner_self (.inr ?_)) (fun _ => id) (fun _ => id)
    exact fun hw => hback m rfl hw.1
  | install m | recheck m | timeoutRecheck m =>
    simp only [State.enterStep] at h
    split_ifs at h <;> cases h
    · exact hquiet _ _ rfl (fun _ _ => id) (fun _ => id) (returnPC_not_waits f _)
    · exact hquiet _ _ rfl (fun _ _ => id) (fun _ => id) (fun _ => id)
  | checkOwner m | recheckReady m | timeoutRemove m | timeoutCheck m =>
    simp only [State.enterStep] at h
    split_ifs at h <;> cases h <;>
      exact hquiet _ _ rfl (fun _ _ => id) (fun _ => id) (fun _ => id)
  | tryAcquire m =>
    simp only [State.enterStep] at h
    split_ifs at h <;> cases h
    · exact hquiet _ _ rfl (fun _ => owner_setOwner_self (.inl rfl)) (fun _ => id) (fun _ => id)
    · exact hquiet _ _ rfl (fun _ _ => id) (fun _ => id) (returnPC_not_waits f _)
    · exact hquiet _ _ rfl (fun _ _ => id) (fun _ => id) (fun _ => id)
  | timeoutAcquire m =>
    simp only [State.enterStep] at h
    split_ifs at h <;> cases h
    · exact hquiet _ _ rfl (fun _ => owner_setOwner_self (.inl rfl)) (fun _ => id)
        (returnPC_not_waits f _)
    · exact hquiet _ _ rfl (fun _ _ => id) (fun _ => id) (fun _ => id)
  | loopCheck m =>
    simp only [State.enterStep] at h
    split_ifs at h with hm <;> cases h
    · refine hloop m _ (.inl rfl) (fun _ => False.elim) (.inr (.inr ⟨t, .inr ?_⟩))
      rw [State.goto_pc_self]
      rfl
    · obtain ⟨u, -, hu⟩ := (pinned_owned hA hrole).resolve_left hm
      exact hloop m _ (.inl rfl) (fun _ => False.elim) (.inr (.inl ⟨u, hu⟩))
  | loopAcquire m =>
    simp only [State.enterStep] at h
    split_ifs at h with hm <;> cases h
    · have hself : (s.setOwner m (.thread t)).owningThreadId m = .thread t := by
        simp [State.setOwner]
      refine .quiet rfl (fun _ => owner_setOwner_self (.inl rfl)) ?_ ?_ ?_
      · rw [hpc]
        exact fun _ => id
      · rw [hpc]
        rintro k rfl
        exact .inr (.inl ⟨t, hself⟩)
      · rw [State.goto_pc_self]
        exact fun _ => False.elim
    · -- a block that is attached and cannot be acquired is owned
      have howned : ∃ u, s.owningThreadId m = .thread u := by
        rcases pinned_owned hA hrole with ho | ⟨u, -, hu⟩
        · cases hown : s.owningThreadId m with
          | canBeAcquired => exact absurd hown hm
          | returnedToFreeList => exact absurd hown (hA.attached _ m ho)
          | thread u => exact ⟨u, rfl⟩
        · exact ⟨u, hu⟩
      exact hloop m _ (.inr rfl) (fun _ => id) (.inr (.inl howned))
  | semaphoreWait m =>
    have hwaits : (s.pc t).Waits m := by rw [hpc]; rfl
    cases c with
    | abort | interrupt =>
      cases h
      exact hquiet _ _ rfl (fun _ _ => id) (fun _ => id) (fun _ => id)
    | proceed | popFails | timeout =>
      simp only [State.enterStep] at h
      split_ifs at h <;> cases h
      · refine .quiet rfl (fun _ _ => id) ?_ ?_ ?_ <;> rw [hpc]
        · exact fun _ => id
        · exact fun _ => False.elim
        · rw [State.goto_pc_self]
          exact fun _ => .inl
      · exact .take hwaits
  | semaphoreBlocked m =>
    have hwaits : (s.pc t).Waits m := by rw [hpc]; rfl
    cases c with
    | abort | interrupt =>
      cases h
      exact hquiet _ _ rfl (fun _ _ => id) (fun _ => id) (fun _ => id)
    | timeout =>
      simp only [State.enterStep] at h
      split_ifs at h
      cases h
      exact hquiet _ _ rfl (fun _ _ => id) (fun _ => id) (fun _ => id)
    | proceed | popFails =>
      simp only [State.enterStep] at h
      split_ifs at h
      cases h
      exact .take hwaits

/-! ### `Exit` -/

theorem postSemaphore_le (s : State Tid Obj) (k : Block) (n : ℕ) (m : Block) :
    s.semaphore m ≤ (s.postSemaphore k n).semaphore m := by
  rcases eq_or_ne m k with rfl | hne
  · simp only [State.postSemaphore, Function.update_self]
    split_ifs <;> omega
  · simp [State.postSemaphore, hne]

theorem postSemaphore_pos (s : State Tid Obj) (m : Block) :
    0 < (s.postSemaphore m 1).semaphore m := by
  simp only [State.postSemaphore, Function.update_self]
  split_ifs <;> omega

theorem exitReturn_not_waits (o : Obj) (caller : Option WaitVars) (m : Block) :
    ¬ (PC.exitReturn o caller).Waits m := by
  rcases caller with _ | ⟨k, timeout, count, _ | n⟩ <;> exact id

theorem exitStep_keeps {caller : Option WaitVars} {loc : ExitLoc} (hA : s.ownership.Inv)
    (hpc : s.pc t = .exit o caller loc) : Keeps s (s.exitStep t o caller loc) t := by
  have hrole : s.ownership.role t = loc.role o := by rw [State.ownership_role, hpc, PC.role]
  have hok := hA.roles t
  rw [hrole] at hok
  -- before the block is given up, and after the post
  have hquiet : ∀ (s₁ : State Tid Obj) (pc : PC Obj), (∀ m, s.semaphore m ≤ s₁.semaphore m) →
      (∀ m, s.Watched m → s.owningThreadId m = .thread t → s₁.owningThreadId m = .thread t) →
      (∀ m, s.Watched m → ¬ (PC.exit o caller loc).Posts m) → (∀ m, ¬ pc.Waits m) →
      Keeps s (s₁.goto t pc) t := by
    intro s₁ pc hsem hown hposts hwaits
    refine ⟨fun m hm => .inl (hm.trans_le (hsem m)), fun m hw hm => .inl (hown m hw hm), ?_, ?_, ?_⟩
    · rw [hpc]
      exact fun m hw hm => absurd hm (hposts m hw)
    · rw [hpc]
      exact fun _ => False.elim
    · rw [State.goto_pc_self]
      exact fun m hm => absurd hm (hwaits m)
  -- the block is given up
  have hgive : ∀ (m : Block) (loc' : ExitLoc), (∀ k, ¬ (PC.exit o caller loc).Posts k) →
      (PC.exit o caller loc').Posts m → (∀ k, ¬ (PC.exit o caller loc').Waits k) →
      Keeps s ((s.setOwner m .canBeAcquired).goto t (.exit o caller loc')) t := by
    intro m loc' hposts hposts' hwaits
    refine ⟨fun _ => .inl, fun k _ hk => ?_, ?_, ?_, ?_⟩
    · rcases eq_or_ne k m with rfl | hne
      · right
        rwa [State.goto_pc_self]
      · left
        simpa [State.setOwner, State.goto, hne] using hk
    · rw [hpc]
      exact fun k _ hk => absurd hk (hposts k)
    · rw [hpc]
      exact fun _ => False.elim
    · rw [State.goto_pc_self]
      exact fun k hk => absurd hk (hwaits k)
  cases loc with
  | undo m =>
    simp only [State.exitStep]
    split_ifs
    · exact hquiet _ _ (fun _ => le_rfl) (fun _ _ => id) (fun _ _ => id) (exitReturn_not_waits o _)
    · exact hquiet _ _ (fun _ => le_rfl) (fun _ _ => id) (fun _ _ => id) (fun _ => id)
  | checkReady m | checkWaiting m | flushCheck m =>
    simp only [State.exitStep]
    split_ifs <;> exact hquiet _ _ (fun _ => le_rfl) (fun _ _ => id) (fun _ _ => id) (fun _ => id)
  | deflate m | resetFlush m | flushRead m | flushWait m =>
    exact hquiet _ _ (fun _ => le_rfl) (fun _ _ => id) (fun _ _ => id) (fun _ => id)
  | flushPost m n =>
    exact hquiet _ _ (postSemaphore_le s m n) (fun _ _ => id) (fun _ _ => id) (fun _ => id)
  | unacquireReady m => exact hgive m _ (fun _ => id) rfl (fun _ => id)
  | unacquireWaiting m => exact hgive m _ (fun _ => id) rfl (fun _ => id)
  | post m =>
    refine ⟨fun k hk => .inl (hk.trans_le (postSemaphore_le s m 1 k)), fun _ _ => .inl, ?_, ?_, ?_⟩
    · rw [hpc]
      rintro k _ rfl
      exact .inr (postSemaphore_pos s m)
    · rw [hpc]
      exact fun _ => False.elim
    · rw [State.exitStep, State.returnFromExit, State.goto_pc_self]
      exact fun k hk => absurd hk (exitReturn_not_waits o caller k)
  | recheckReady m =>
    simp only [State.exitStep]
    split_ifs with hready
    · refine ⟨fun _ => .inl, fun _ _ => .inl, ?_, ?_, ?_⟩
      · rw [hpc, State.goto_pc_self]
        exact fun k _ hk => .inl hk
      · rw [hpc]
        exact fun _ => False.elim
      · rw [State.goto_pc_self]
        exact fun _ => False.elim
    · refine hquiet _ _ (fun _ => le_rfl) (fun _ _ => id) ?_ (exitReturn_not_waits o caller)
      rintro k hw rfl
      exact hw.ready_ne_zero hA (not_not.1 hready)
  | returnOwner m =>
    refine hquiet _ _ (fun _ => le_rfl) (fun _ => owner_setOwner_self (.inr ?_)) (fun _ _ => id)
      (fun _ => id)
    rintro ⟨hw, -⟩
    cases hrole.symm.trans (hw.deflating hA hok.1 hok.2)
  | release m =>
    exact hquiet _ _ (fun _ => le_rfl) (fun _ _ => id) (fun _ _ => id) (exitReturn_not_waits o _)

/-! ### The run -/

theorem step_keeps (hA : s.ownership.Inv) (hback : s.HandsBack l) (h : s.step l = some s') :
    Keeps s s' l.thread := by
  -- outside `TryEnter` and `Exit`
  have hquiet : ∀ (t : Tid) (s₁ : State Tid Obj) (pc : PC Obj), s₁.semaphore = s.semaphore →
      s₁.owningThreadId = s.owningThreadId → (∀ m, ¬ (s.pc t).Posts m) →
      (∀ m, ¬ (s.pc t).Tries m) → (∀ m, ¬ pc.Waits m) → Keeps s (s₁.goto t pc) t := by
    intro t s₁ pc hsem hown hposts htries hwaits
    refine .quiet hsem ?_ hposts (fun m hm => absurd hm (htries m)) ?_
    · intro m _ hm
      exact (congrFun hown m).trans hm
    · rw [State.goto_pc_self]
      exact fun m hm => absurd hm (hwaits m)
  cases State.runs_of_step h with
  | @call t op last hpc =>
    cases op <;> exact hquiet t _ _ rfl rfl (by rw [hpc]; exact fun _ => id)
      (by rw [hpc]; exact fun _ => id) (fun _ => id)
  | enter hpc h =>
    refine enterStep_keeps hA hpc ?_ h
    rintro m rfl
    simpa only [State.HandsBack, hpc] using hback
  | @get t c o purpose loc hpc =>
    have hpass : ∀ k m, ¬ (Purpose.passPC o k purpose).Waits m := by
      rcases purpose with (_ | v) | all | timeout <;> exact fun _ _ => id
    simp only [State.getStep]
    repeat' split
    all_goals
      refine hquiet t _ _ rfl rfl (by rw [hpc]; exact fun _ => id)
        (by rw [hpc]; exact fun _ => id) ?_
      first
      | exact hpass _
      | exact fun _ => id
  | exit hpc => exact exitStep_keeps hA hpc
  | @pulse t c o all loc hpc =>
    simp only [State.pulseStep]
    repeat' split
    all_goals
      exact hquiet t _ _ rfl rfl (by rw [hpc]; exact fun _ => id)
        (by rw [hpc]; exact fun _ => id) (fun _ => id)
  | @wait t c o loc s' hpc h =>
    cases loc <;> simp only [State.waitStep] at h
    all_goals
      repeat' split at h
      all_goals
        cases h
        try
          exact hquiet t _ _ rfl rfl (by rw [hpc]; exact fun _ => id)
            (by rw [hpc]; exact fun _ => id) (fun _ => id)

theorem woken_inv
    (hs : (lts Tid Obj).ReachWith (fun s l => s.MarkUnread l ∧ s.HandsBack l)
      (State.init Tid Obj) s) : s.ownership.Inv ∧ Woken s := by
  refine hs.invariant (I := fun s => s.ownership.Inv ∧ Woken s) ?_ ?_
  · refine ⟨ownership_init, ?_⟩
    rintro m ⟨t, ht⟩
    exact ht.elim
  · rintro s l s' ⟨hA, hW⟩ ⟨hmark, hback⟩ hst
    have hstep := step_ownership hA hmark hst
    exact ⟨hA.step hstep, hW.of_keeps hA hstep (fun u hu => (step_frame hst hu).1)
      (step_keeps hA hback hst)⟩

/-- **No lost wakeup.**  In a run in which no block that was acquired too late is handed back while
a thread waits for it, a block that a thread waits for has a count, an owner, or a witness; its
owner gives it up only to post next, and a thread that is to post brings a count. -/
theorem waiting_has_witness
    (hs : (lts Tid Obj).ReachWith (fun s l => s.MarkUnread l ∧ s.HandsBack l)
      (State.init Tid Obj) s) (ht : (s.pc t).Waits m) :
    s.Witness m ∧ ∀ l s', s.MarkUnread l → s.HandsBack l → s.step l = some s' →
      (∀ u, s.owningThreadId m = .thread u → s'.owningThreadId m ≠ .thread u →
        l.thread = u ∧ (s'.pc u).Posts m) ∧
      ∀ u, (s.pc u).Posts m → (s'.pc u).Posts m ∨ 0 < s'.semaphore m := by
  obtain ⟨hA, hW⟩ := woken_inv hs
  refine ⟨hW m ⟨t, ht⟩, fun l s' hmark hback h => ?_⟩
  have hkeeps := step_keeps hA hback h
  constructor
  · intro u hu hlost
    have hl : l.thread = u := by
      by_contra hne
      exact hlost (((step_ownership hA hmark h).owner_iff hA (Ne.symm hne) m).2 hu)
    subst hl
    exact ⟨rfl, (hkeeps.owner m ⟨t, ht⟩ hu).resolve_left hlost⟩
  · intro u hu
    rcases eq_or_ne u l.thread with rfl | hne
    · exact hkeeps.posts m ⟨t, ht⟩ hu
    · rw [(step_frame h hne).1]
      exact .inl hu

/-! ### Runs -/

theorem neZero_three : NeZero 3 := ⟨three_ne_zero⟩

/-- Thread 0 is in the object, and thread 1 waits to enter it. -/
def contended : List (Label (Fin 3) ℕ) :=
  haveI := neZero_three
  .call 0 (.tryEnter 0 infinite) :: proceed 0 4 ++ .call 1 (.tryEnter 0 infinite) :: proceed 1 8

/-- Thread 1 waits, and thread 0 gives the block up to post next. -/
theorem waiting_has_witness_contended :
    ∃ s : State (Fin 3) ℕ, (s.pc 1).Waits 0 ∧ s.Witness 0 ∧ ∃ s',
      s.step (.run 0 .proceed) = some s' ∧ (s'.pc 0).Posts 0 := by
  obtain ⟨s, hs, hwaits, howner, hmark, hback, hstep⟩ := LTS.exists_reachWith (f := State.step)
    (G := fun s l => s.MarkUnread l ∧ s.HandsBack l) (i := State.init (Fin 3) ℕ)
    (contended ++ .call 0 (.exit 0) :: proceed 0 4)
    (fun s => s.pc 1 = .enter ⟨0, .client infinite⟩ (.semaphoreBlocked 0) ∧
      s.owningThreadId 0 = .thread 0 ∧ s.MarkUnread (.run 0 .proceed) ∧
      s.HandsBack (.run 0 .proceed) ∧
      (s.step (.run 0 .proceed)).any fun s' => s'.owningThreadId 0 = .canBeAcquired) (by decide)
  have hwaits : (s.pc 1).Waits 0 := by
    rw [hwaits]
    rfl
  obtain ⟨s', hs', hfree⟩ := (Option.any_eq_true _ _).1 hstep
  obtain ⟨hwitness, hsteps⟩ := waiting_has_witness hs hwaits
  refine ⟨s, hwaits, hwitness, s', hs', ((hsteps _ s' hmark hback hs').1 0 howner ?_).2⟩
  rw [of_decide_eq_true hfree]
  exact nofun

/-- Thread 1 is about to acquire the block of object 0 when thread 0 moves it to object 1 and waits
for a pulse there; thread 1 acquires it, sees that it came too late, and before it hands the block
back, thread 2 begins to wait for it. -/
def handedBack : List (Label (Fin 3) ℕ) :=
  haveI := neZero_three
  .call 0 (.tryEnter 0 infinite) :: proceed 0 4 ++
  .call 1 (.tryEnter 0 infinite) :: proceed 1 2 ++
  .call 0 (.exit 0) :: proceed 0 10 ++
  .call 0 (.tryEnter 1 infinite) :: proceed 0 4 ++
  .call 0 (.tryWait 1 infinite) :: proceed 0 13 ++
  proceed 1 2 ++
  .call 2 (.tryEnter 1 infinite) :: proceed 2 8 ++
  proceed 1 1

/-- **A thread is blocked, and the block has neither a count nor an owner**: between `Unacquire` and
`Post` in `Exit`, where this is by design, and after a late hand-back, where nobody will post. -/
theorem blocked_without_owner :
    (∃ s, (lts (Fin 3) ℕ).ReachWith (fun _ l => l.NoAbort) (State.init (Fin 3) ℕ) s ∧
      s.pc 1 = .enter ⟨0, .client infinite⟩ (.semaphoreBlocked 0) ∧ s.semaphore 0 = 0 ∧
      s.owningThreadId 0 = .canBeAcquired ∧ s.pc 0 = .exit 0 none (.post 0)) ∧
    ∃ s, (lts (Fin 3) ℕ).ReachWith (fun _ l => l.NoAbort) (State.init (Fin 3) ℕ) s ∧
      s.pc 2 = .enter ⟨1, .client infinite⟩ (.semaphoreBlocked 0) ∧ s.semaphore 0 = 0 ∧
      s.owningThreadId 0 = .canBeAcquired ∧ ∀ u, ¬ ((s.pc u).Posts 0 ∨ (s.pc u).Tries 0) := by
  constructor
  · exact LTS.exists_reachWith (contended ++ .call 0 (.exit 0) :: proceed 0 5) _ (by decide)
  · exact LTS.exists_reachWith handedBack _ (by decide)

end Monitor

end Il2Cpp
