import Il2Cpp.Monitor.Refinement

/-!
# Recursion counts

The recursion count of a block against the history: the owner of the monitor of an object has
entered it as often as the count says, except at a few places of the code.  This needs three
conditions, under which alone the history and the ownership agree:

* the last `TryAcquire` of a timed `TryEnter`, which unlike the first is not followed by a check,
  takes the block only while it is the monitor of the object;
* no exception leaves the `Enter` by which `TryWait` has the monitor again;
* no thread enters an object more than `2 ^ 31` times, which `Exit` counts in an `int`.

* `State.Orderly` : the conditions, on one step.
* `Counted` : the invariant.
* `Counted.step` : it is preserved by the orderly steps.
-/

set_option linter.unusedSectionVars false

namespace Il2Cpp

namespace Monitor

variable {Tid Obj : Type} [DecidableEq Tid] [DecidableEq Obj]

/-! ### The recursion count at each place -/

/-- The thread has acquired the block, whose count is one, and not yet returned. -/
def EnterLoc.Gains (m : Block) : EnterLoc → Prop
  | .recheck k | .unacquire k | .loopRemove k => k = m
  | _ => False

/-- `Exit` still has the monitor. -/
def ExitLoc.Keeps : ExitLoc → Prop
  | .undo _ | .checkReady _ | .unacquireReady _ | .checkWaiting _ | .unacquireWaiting _
  | .deflate _ => True
  | _ => False

/-- For a thread at this place that holds the block `m` for the object `o`: what is known of the
count `c` of the block and the number `d` of entries of the object. -/
def PC.CountOk (o : Obj) (m : Block) (c d : ℕ) : PC Obj → Prop
  | .idle _ | .crashed | .pulse _ _ _ | .getMonitor _ (.exit none) _
  | .getMonitor _ (.pulse _) _ | .getMonitor _ (.tryWait _) _ => c = d
  | .enter ⟨_, .client _⟩ loc => (loc.Gains m → c = 1 ∧ d = 0) ∧ (¬ loc.Gains m → c = d)
  | .enter ⟨o', .tryWait _⟩ loc =>
    (loc.Gains m → c = 1 ∧ (o' ≠ o → d = 0)) ∧ (¬ loc.Gains m → o' ≠ o ∧ c = d)
  | .getMonitor o' (.exit (some _)) _ => (o' = o → c = 1) ∧ (o' ≠ o → c = d)
  | .exit o' none loc =>
    (o' = o → loc.Keeps ∧ c = d + 1 ∧ ((∃ k, loc = .undo k) ∨ d = 0)) ∧ (o' ≠ o → c = d)
  | .exit o' (some _) loc => (o' = o → loc.Keeps ∧ c = 1) ∧ (o' ≠ o → c = d)
  | .wait _ (.saveCount _ _) | .wait _ (.removeNode _ _ _) | .wait _ (.resetNode _ _ _)
  | .wait _ (.releaseNode _ _ _) | .wait _ (.leave _ _) => c = d
  | .wait o' (.allocateNode _) | .wait o' (.pushNode _ _) | .wait o' (.readMonitor _)
  | .wait o' (.restoreCount _ _) => (o' = o → c = 1) ∧ (o' ≠ o → c = d)
  | .wait o' (.eventWait _ _) | .wait o' (.eventBlocked _ _) => o' ≠ o ∧ c = d

/-- The object that the thread is in `TryWait` on, with the count that it will restore. -/
def PC.saved : PC Obj → Option (Obj × BitVec 32)
  | .enter ⟨o, .tryWait v⟩ _ => some (o, v.oldLockingCount)
  | .getMonitor o (.exit (some v)) _ => some (o, v.oldLockingCount)
  | .exit o (some v) _ => some (o, v.oldLockingCount)
  | .wait o (.allocateNode v) | .wait o (.pushNode v _) | .wait o (.eventWait v _)
  | .wait o (.eventBlocked v _) => some (o, v.oldLockingCount)
  | .wait o (.readMonitor v) | .wait o (.restoreCount _ v) => some (o, v.oldLockingCount)
  | _ => none

/-- A count that `Exit` reads as a positive number or as one. -/
def Bounded (x : BitVec 32) : Prop := 0 < x.toNat ∧ x.toNat ≤ 2 ^ 31

/-- **The recursion counts agree with the history.** -/
structure Counted (s : State Tid Obj) : Prop where
  free : ∀ m, (∀ t o, ¬ s.Holds t o m) → s.recursiveLockingCount m = 1
  bounded : ∀ m, Bounded (s.recursiveLockingCount m)
  counts : ∀ t o m, s.Holds t o m →
    (s.pc t).CountOk o m (s.recursiveLockingCount m).toNat (s.depth t o)
  entered : ∀ t o, 0 < s.depth t o → (s.pc t).Suspended o ∨ ∃ m, s.Holds t o m
  saved : ∀ t o x, (s.pc t).saved = some (o, x) → Bounded x ∧ x.toNat = s.depth t o

/-- What the thread of a step has to show of the state after it. -/
structure Local (s s' : State Tid Obj) (t : Tid) : Prop where
  free : ∀ m, (∃ o, s.Holds t o m) → (∀ o, ¬ s'.Holds t o m) → s'.recursiveLockingCount m = 1
  bounded : ∀ m, Bounded (s'.recursiveLockingCount m)
  counts : ∀ o m, s'.Holds t o m →
    (s'.pc t).CountOk o m (s'.recursiveLockingCount m).toNat (s'.depth t o)
  entered : ∀ o, 0 < s'.depth t o → (s'.pc t).Suspended o ∨ ∃ m, s'.Holds t o m
  saved : ∀ o x, (s'.pc t).saved = some (o, x) → Bounded x ∧ x.toNat = s'.depth t o

variable {s s' : State Tid Obj} {t u : Tid} {l : Label Tid Obj}

theorem holds_iff (hA : s.ownership.Inv) (hstep : s.ownership.Step t s'.ownership) (hu : u ≠ t)
    (o : Obj) (m : Block) : s'.Holds u o m ↔ s.Holds u o m := by
  have howner := hstep.owner_iff hA hu m
  constructor
  · rintro ⟨ho, hm⟩
    have hm' := howner.1 hm
    exact ⟨(hstep.monitor_iff hA hu hm' o).1 ho, hm'⟩
  · rintro ⟨ho, hm⟩
    exact ⟨(hstep.monitor_iff hA hu hm o).2 ho, howner.2 hm⟩

theorem Counted.of_local (hI : Counted s) (hA : s.ownership.Inv)
    (hstep : s.ownership.Step t s'.ownership)
    (hcount : ∀ m, (∀ o, ¬ s.Holds t o m) → s'.recursiveLockingCount m = s.recursiveLockingCount m)
    (hpc : ∀ u ≠ t, s'.pc u = s.pc u) (hdepth : ∀ u ≠ t, s'.depth u = s.depth u)
    (hlocal : Local s s' t) : Counted s' where
  free m hm := by
    by_cases ht : ∃ o, s.Holds t o m
    · exact hlocal.free m ht (hm t)
    · have ht := not_exists.1 ht
      rw [hcount m ht]
      refine hI.free m fun u o ho => ?_
      rcases eq_or_ne u t with rfl | hu
      · exact ht o ho
      · exact hm u o ((holds_iff hA hstep hu o m).2 ho)
  bounded := hlocal.bounded
  counts u o m ho := by
    rcases eq_or_ne u t with rfl | hu
    · exact hlocal.counts o m ho
    · have ho' := (holds_iff hA hstep hu o m).1 ho
      rw [hpc u hu, hdepth u hu, hcount m]
      · exact hI.counts u o m ho'
      · intro o' ht
        have := ho'.2.symm.trans ht.2
        exact hu (by simpa using this)
  entered u o hd := by
    rcases eq_or_ne u t with rfl | hu
    · exact hlocal.entered o hd
    · rw [hpc u hu]
      rw [hdepth u hu] at hd
      refine (hI.entered u o hd).imp id ?_
      rintro ⟨m, hm⟩
      exact ⟨m, (holds_iff hA hstep hu o m).2 hm⟩
  saved u o x hx := by
    rcases eq_or_ne u t with rfl | hu
    · exact hlocal.saved o x hx
    · rw [hpc u hu] at hx
      rw [hdepth u hu]
      exact hI.saved u o x hx

/-! ### Steps that change nothing that is counted -/

theorem Local.quiet (hI : Counted s) (hholds : ∀ o m, s'.Holds t o m ↔ s.Holds t o m)
    (hcount : s'.recursiveLockingCount = s.recursiveLockingCount) (hdepth : s'.depth = s.depth)
    (hok : ∀ o m, s.Holds t o m →
      (s.pc t).CountOk o m (s.recursiveLockingCount m).toNat (s.depth t o) →
      (s'.pc t).CountOk o m (s.recursiveLockingCount m).toNat (s.depth t o))
    (hsuspended : ∀ o, (s.pc t).Suspended o → (s'.pc t).Suspended o ∨ ∃ m, s.Holds t o m)
    (hsaved : ∀ p, (s'.pc t).saved = some p → (s.pc t).saved = some p) : Local s s' t where
  free m := by
    rintro ⟨o, ho⟩ hno
    exact absurd ((hholds o m).2 ho) (hno o)
  bounded := by
    rw [hcount]
    exact hI.bounded
  counts o m ho := by
    rw [hcount, hdepth]
    have ho := (hholds o m).1 ho
    exact hok o m ho (hI.counts t o m ho)
  entered o hd := by
    rw [hdepth] at hd
    simp only [hholds]
    rcases hI.entered t o hd with h | h
    · exact hsuspended o h
    · exact .inr h
  saved o x hx := by
    rw [hdepth]
    exact hI.saved t o x (hsaved _ hx)

theorem Local.enter {f : EnterFrame Obj} {loc loc' : EnterLoc} (hI : Counted s)
    (hpc : s.pc t = .enter f loc) (hpc' : s'.pc t = .enter f loc')
    (hgains : ∀ m, loc'.Gains m ↔ loc.Gains m)
    (hholds : ∀ o m, s'.Holds t o m ↔ s.Holds t o m)
    (hcount : s'.recursiveLockingCount = s.recursiveLockingCount) (hdepth : s'.depth = s.depth) :
    Local s s' t := by
  obtain ⟨o, caller⟩ := f
  refine .quiet hI hholds hcount hdepth ?_ ?_ ?_ <;> rw [hpc, hpc']
  · intro p m _ h
    cases caller <;> simpa only [PC.CountOk, hgains m] using h
  · intro p h
    cases caller <;> exact .inl h
  · intro p h
    cases caller <;> exact h

theorem Local.giveUp {f : EnterFrame Obj} {loc : EnterLoc} {last : Outcome} {timeOut : BitVec 32}
    (hI : Counted s) (hpc : s.pc t = .enter f loc) (hcaller : f.caller = .client timeOut)
    (hpc' : s'.pc t = .idle last) (hgains : ∀ m, ¬ loc.Gains m)
    (hholds : ∀ o m, s'.Holds t o m ↔ s.Holds t o m)
    (hcount : s'.recursiveLockingCount = s.recursiveLockingCount) (hdepth : s'.depth = s.depth) :
    Local s s' t := by
  obtain ⟨o, caller⟩ := f
  subst hcaller
  refine .quiet hI hholds hcount hdepth ?_ ?_ ?_ <;> rw [hpc, hpc']
  · intro p m _ h
    exact h.2 (hgains m)
  · exact fun _ h => h.elim
  · exact fun _ h => nomatch h

/-! ### Steps that acquire a block -/

theorem Counted.of_unowned (hI : Counted s) {m : Block}
    (hm : s.owningThreadId m = .canBeAcquired) :
    s.recursiveLockingCount m = 1 ∧
      ∀ o, s.monitor o = some m → 0 < s.depth t o → (s.pc t).Suspended o := by
  refine ⟨hI.free m fun u o ho => ?_, fun o ho hd => ?_⟩
  · exact absurd (ho.2.symm.trans hm) nofun
  · refine (hI.entered t o hd).resolve_right ?_
    rintro ⟨k, hk⟩
    cases hk.1.symm.trans ho
    exact absurd (hk.2.symm.trans hm) nofun

theorem Local.acquire {f : EnterFrame Obj} {loc loc' : EnterLoc} {m : Block} (hI : Counted s)
    (hpc : s.pc t = .enter f loc) (hpc' : s'.pc t = .enter f loc')
    (hgains : ∀ k, ¬ loc.Gains k) (hgains' : ∀ k, loc'.Gains k ↔ m = k)
    (hm : s.owningThreadId m = .canBeAcquired) (hmonitor : s'.monitor = s.monitor)
    (howner : s'.owningThreadId = Function.update s.owningThreadId m (.thread t))
    (hcount : s'.recursiveLockingCount = s.recursiveLockingCount) (hdepth : s'.depth = s.depth) :
    Local s s' t := by
  obtain ⟨hone, hout⟩ := hI.of_unowned (t := t) hm
  have hholds : ∀ o k, s'.Holds t o k ↔ s.Holds t o k ∨ s.monitor o = some m ∧ k = m := by
    intro o k
    simp only [State.Holds, hmonitor, howner, Function.update_apply]
    by_cases hk : k = m
    · subst hk
      simp [hm]
    · simp [hk]
  have hne : ∀ o k, s.Holds t o k → m ≠ k := by
    rintro o k ho rfl
    exact absurd (ho.2.symm.trans hm) nofun
  obtain ⟨o', caller⟩ := f
  refine ⟨?_, ?_, ?_, ?_, ?_⟩
  · rintro k ⟨o, ho⟩ hno
    exact absurd ((hholds o k).2 (.inl ho)) (hno o)
  · rw [hcount]
    exact hI.bounded
  · intro o k ho
    rw [hcount, hdepth, hpc']
    rcases (hholds o k).1 ho with ho | ⟨ho, rfl⟩
    · have hold := hI.counts t o k ho
      rw [hpc] at hold
      have hk : ¬ loc'.Gains k := fun h => hne o k ho ((hgains' k).1 h)
      cases caller with
      | client timeOut => exact ⟨fun h => absurd h hk, fun _ => hold.2 (hgains k)⟩
      | tryWait v => exact ⟨fun h => absurd h hk, fun _ => hold.2 (hgains k)⟩
    · have hk : loc'.Gains k := (hgains' k).2 rfl
      have hout := hout o ho
      rw [hpc] at hout
      rw [hone]
      cases caller with
      | client timeOut =>
        refine ⟨fun _ => ⟨rfl, ?_⟩, fun h => absurd hk h⟩
        by_contra hd
        exact hout (Nat.pos_of_ne_zero hd)
      | tryWait v =>
        refine ⟨fun _ => ⟨rfl, fun hne => ?_⟩, fun h => absurd hk h⟩
        by_contra hd
        exact hne (hout (Nat.pos_of_ne_zero hd))
  · intro o hd
    rw [hdepth] at hd
    refine (hI.entered t o hd).imp ?_ ?_
    · rw [hpc, hpc']
      cases caller <;> exact id
    · rintro ⟨k, hk⟩
      exact ⟨k, (hholds o k).2 (.inl hk)⟩
  · intro o x hx
    rw [hdepth]
    refine hI.saved t o x ?_
    rw [hpc]
    rw [hpc'] at hx
    cases caller <;> exact hx

theorem Local.gain {f : EnterFrame Obj} {loc : EnterLoc} {m : Block} (hI : Counted s)
    (hpc : s.pc t = .enter f loc) (hpc' : s'.pc t = f.returnPC true)
    (hholds : ∀ o k, s'.Holds t o k ↔ s.Holds t o k ∨ o = f.obj ∧ k = m)
    (hgains : ∀ k, loc.Gains k → k = m) (hone : s.recursiveLockingCount m = 1)
    (hobj : ∀ o k, s.Holds t o k → (o = f.obj ↔ k = m))
    (hclient : ∀ timeOut, f.caller = .client timeOut → s.depth t f.obj = 0)
    (hcount : s'.recursiveLockingCount = s.recursiveLockingCount)
    (hdepth : s'.depth = (s.recordEnter t f true).depth) : Local s s' t := by
  have hheld : ∀ o k, s'.Holds t o k → o ≠ f.obj → s.Holds t o k := fun o k ho hne =>
    ((hholds o k).1 ho).resolve_right fun h => hne h.1
  have hblock : ∀ o k, s'.Holds t o k → o = f.obj → k = m := by
    intro o k ho heq
    rcases (hholds o k).1 ho with h | h
    · exact (hobj o k h).1 heq
    · exact h.2
  have hfree : ∀ k, (∃ o, s.Holds t o k) → (∀ o, ¬ s'.Holds t o k) →
      s'.recursiveLockingCount k = 1 := by
    rintro k ⟨o, ho⟩ hno
    exact absurd ((hholds o k).2 (.inl ho)) (hno o)
  have hbounded : ∀ k, Bounded (s'.recursiveLockingCount k) := by
    rw [hcount]
    exact hI.bounded
  obtain ⟨o', caller⟩ := f
  cases caller with
  | client timeOut =>
    have hzero := hclient timeOut rfl
    have hdepth' : ∀ o, s'.depth t o = if o = o' then 1 else s.depth t o := by
      intro o
      rw [hdepth]
      simp only [State.recordEnter, Function.update_self, Function.update_apply]
      split_ifs with h
      · rw [hzero]
      · rfl
    refine ⟨hfree, hbounded, ?_, ?_, ?_⟩
    · intro o k ho
      rw [hcount, hdepth' o, hpc']
      change _ = _
      split_ifs with h
      · rw [hblock o k ho h, hone]
        rfl
      · have hold := hheld o k ho h
        have := hI.counts t o k hold
        rw [hpc] at this
        refine this.2 fun hg => h ((hobj o k hold).2 (hgains k hg))
    · intro o hd
      right
      rw [hdepth' o] at hd
      split_ifs at hd with h
      · exact ⟨m, (hholds o m).2 (.inr ⟨h, rfl⟩)⟩
      · obtain ⟨k, hk⟩ := (hI.entered t o hd).resolve_left (by rw [hpc]; exact id)
        exact ⟨k, (hholds o k).2 (.inl hk)⟩
    · intro o x hx
      rw [hpc'] at hx
      cases hx
  | tryWait v =>
    have hdepth' : s'.depth = s.depth := by
      rw [hdepth]
      rfl
    refine ⟨hfree, hbounded, ?_, ?_, ?_⟩
    · intro o k ho
      rw [hcount, hdepth', hpc']
      refine ⟨fun h => ?_, fun h => ?_⟩
      · rw [hblock o k ho h.symm, hone]
        rfl
      · have hold := hheld o k ho (Ne.symm h)
        have := hI.counts t o k hold
        rw [hpc] at this
        exact (this.2 fun hg => h ((hobj o k hold).2 (hgains k hg)).symm).2
    · intro o hd
      right
      rw [hdepth'] at hd
      rcases hI.entered t o hd with h | ⟨k, hk⟩
      · rw [hpc] at h
        exact ⟨m, (hholds o m).2 (.inr ⟨h.symm, rfl⟩)⟩
      · exact ⟨k, (hholds o k).2 (.inl hk)⟩
    · intro o x hx
      rw [hdepth']
      refine hI.saved t o x ?_
      rw [hpc]
      rw [hpc'] at hx
      exact hx

/-! ### Steps that give a block up -/

theorem Local.drop {m : Block} (hI : Counted s)
    (hholds : ∀ o k, s'.Holds t o k ↔ s.Holds t o k ∧ k ≠ m)
    (hone : (∃ o, s.Holds t o m) → s.recursiveLockingCount m = 1)
    (hcount : s'.recursiveLockingCount = s.recursiveLockingCount) (hdepth : s'.depth = s.depth)
    (hok : ∀ o k, s.Holds t o k → k ≠ m →
      (s.pc t).CountOk o k (s.recursiveLockingCount k).toNat (s.depth t o) →
      (s'.pc t).CountOk o k (s.recursiveLockingCount k).toNat (s.depth t o))
    (hlost : ∀ o, s.Holds t o m → 0 < s.depth t o → (s'.pc t).Suspended o)
    (hsuspended : ∀ o, (s.pc t).Suspended o → (s'.pc t).Suspended o)
    (hsaved : ∀ p, (s'.pc t).saved = some p → (s.pc t).saved = some p) : Local s s' t where
  free k := by
    rintro ⟨o, ho⟩ hno
    rw [hcount]
    rcases eq_or_ne k m with rfl | hne
    · exact hone ⟨o, ho⟩
    · exact absurd ((hholds o k).2 ⟨ho, hne⟩) (hno o)
  bounded := by
    rw [hcount]
    exact hI.bounded
  counts o k ho := by
    rw [hcount, hdepth]
    obtain ⟨ho, hne⟩ := (hholds o k).1 ho
    exact hok o k ho hne (hI.counts t o k ho)
  entered o hd := by
    rw [hdepth] at hd
    rcases hI.entered t o hd with h | ⟨k, hk⟩
    · exact .inl (hsuspended o h)
    · rcases eq_or_ne k m with rfl | hne
      · exact .inl (hlost o hk hd)
      · exact .inr ⟨k, (hholds o k).2 ⟨hk, hne⟩⟩
  saved o x hx := by
    rw [hdepth]
    exact hI.saved t o x (hsaved _ hx)

/-! ### Steps of the owner that change the count -/

theorem Local.recount {o : Obj} {m : Block} {x : BitVec 32} (hI : Counted s)
    (hA : s.ownership.Inv) (hheld : s.Holds t o m)
    (hholds : ∀ p k, s'.Holds t p k ↔ s.Holds t p k)
    (hcount : s'.recursiveLockingCount = Function.update s.recursiveLockingCount m x)
    (hx : Bounded x) (hdepth : ∀ p ≠ o, s'.depth t p = s.depth t p)
    (hself : (s'.pc t).CountOk o m x.toNat (s'.depth t o))
    (hother : ∀ p k, p ≠ o →
      (s.pc t).CountOk p k (s.recursiveLockingCount k).toNat (s.depth t p) →
      (s'.pc t).CountOk p k (s.recursiveLockingCount k).toNat (s.depth t p))
    (hsuspended : ∀ p ≠ o, (s.pc t).Suspended p → (s'.pc t).Suspended p)
    (hsaved : ∀ p y, (s'.pc t).saved = some (p, y) → Bounded y ∧ y.toNat = s'.depth t p) :
    Local s s' t where
  free k := by
    rintro ⟨p, hp⟩ hno
    exact absurd ((hholds p k).2 hp) (hno p)
  bounded k := by
    rw [hcount, Function.update_apply]
    split_ifs
    · exact hx
    · exact hI.bounded k
  counts p k hp := by
    have hp := (hholds p k).1 hp
    rw [hcount]
    rcases eq_or_ne p o with rfl | hne
    · cases hp.1.symm.trans hheld.1
      rwa [Function.update_self]
    · have hk : k ≠ m := by
        rintro rfl
        exact hne (hA.inj p o k hp.1 hheld.1)
      rw [Function.update_of_ne hk, hdepth p hne]
      exact hother p k hne (hI.counts t p k hp)
  entered p hd := by
    rcases eq_or_ne p o with rfl | hne
    · exact .inr ⟨m, (hholds p m).2 hheld⟩
    · rw [hdepth p hne] at hd
      rcases hI.entered t p hd with h | ⟨k, hk⟩
      · exact .inl (hsuspended p hne h)
      · exact .inr ⟨k, (hholds p k).2 hk⟩
  saved := hsaved

/-! ### `TryEnter` -/

namespace State

variable {f : EnterFrame Obj} {c : Choice} {o : Obj}

@[simp] theorem goto_pc_self (s : State Tid Obj) (t : Tid) (pc : PC Obj) :
    (s.goto t pc).pc t = pc := by
  simp [goto]

theorem holds_setOwner_of_detached {m : Block} (hm : ∀ o, s.monitor o ≠ some m) (x : Owner Tid)
    (o : Obj) (k : Block) : (s.setOwner m x).Holds t o k ↔ s.Holds t o k := by
  refine and_congr_right fun ho => ?_
  have hk : k ≠ m := by
    rintro rfl
    exact hm o ho
  simp [setOwner, hk]

theorem holds_setOwner_canBeAcquired (m : Block) (o : Obj) (k : Block) :
    (s.setOwner m .canBeAcquired).Holds t o k ↔ s.Holds t o k ∧ k ≠ m := by
  simp only [Holds, setOwner, Function.update_apply]
  by_cases hk : k = m <;> simp [hk]

theorem client_of_role {A : Ownership Tid Obj} {r : Role Obj} (h : A.RoleOk t (f.clientRole r)) :
    ∃ timeOut, f.caller = .client timeOut := by
  obtain ⟨o, caller⟩ := f
  cases caller with
  | client timeOut => exact ⟨timeOut, rfl⟩
  | tryWait v => exact False.elim h

theorem recordEnter_false (s : State Tid Obj) (t : Tid) (f : EnterFrame Obj) :
    (s.recordEnter t f false).depth = s.depth := by
  simp only [recordEnter]
  split <;> simp_all

theorem depth_eq_zero {loc : EnterLoc} (hI : Counted s) (hpc : s.pc t = .enter f loc)
    (hno : ∀ m, ¬ s.Holds t f.obj m) (timeOut : BitVec 32) (hf : f.caller = .client timeOut) :
    s.depth t f.obj = 0 := by
  by_contra hd
  rcases hI.entered t f.obj (Nat.pos_of_ne_zero hd) with h | ⟨m, hm⟩
  · rw [hpc] at h
    obtain ⟨o, caller⟩ := f
    subst hf
    exact h
  · exact hno m hm

theorem install_local {m : Block} (hI : Counted s) (hA : s.ownership.Inv)
    (hpc : s.pc t = .enter f (.install m)) (ho : s.monitor f.obj = none) :
    Local s ((s.setMonitor f.obj (some m)).returnFromEnter t f true) t := by
  have hrole : s.ownership.role t = .outside m := by rw [ownership_role, hpc]; rfl
  obtain ⟨hown, hout⟩ : s.ownership.RoleOk t (.outside m) := hrole ▸ hA.roles t
  have hnone : ∀ u o, ¬ s.Holds u o m := fun u o h => hout o h.1
  have hne : ∀ o k, s.Holds t o k → o ≠ f.obj := by
    rintro o k hk rfl
    exact absurd (hk.1.symm.trans ho) nofun
  refine .gain hI hpc (goto_pc_self _ _ _) ?_ (fun _ h => h.elim) (hI.free m hnone) ?_ ?_ rfl rfl
  · intro o k
    change Function.update s.monitor f.obj (some m) o = some k ∧ s.owningThreadId k = .thread t ↔ _
    rw [Function.update_apply]
    split_ifs with h
    · constructor
      · rintro ⟨hk, -⟩
        cases hk
        exact .inr ⟨h, rfl⟩
      · rintro (hk | ⟨-, rfl⟩)
        · exact absurd h (hne o k hk)
        · exact ⟨rfl, hown⟩
    · simp [Holds, h]
  · intro o k hk
    exact iff_of_false (hne o k hk) fun h => hnone t o (h ▸ hk)
  · exact depth_eq_zero hI hpc fun k hk => hne _ k hk rfl

theorem incrementCount_local {m : Block} (hI : Counted s) (hA : s.ownership.Inv)
    (hpc : s.pc t = .enter f (.incrementCount m))
    (hlt : (s.recursiveLockingCount m).toNat < 2 ^ 31) :
    Local s ((s.setCount m (s.recursiveLockingCount m + 1)).returnFromEnter t f true) t := by
  have hrole : s.ownership.role t = .holds f.obj m := by rw [ownership_role, hpc]; rfl
  obtain ⟨hown, ho⟩ : s.ownership.RoleOk t (.holds f.obj m) := hrole ▸ hA.roles t
  have hheld : s.Holds t f.obj m := ⟨ho, hown⟩
  have hold := hI.counts t f.obj m hheld
  rw [hpc] at hold
  have hinc : (s.recursiveLockingCount m + 1).toNat = (s.recursiveLockingCount m).toNat + 1 := by
    rw [BitVec.toNat_add, Nat.mod_eq_of_lt]
    · rfl
    · change _ + 1 < _
      omega
  obtain ⟨o, caller⟩ := f
  cases caller with
  | tryWait v => exact absurd rfl (hold.2 id).1
  | client timeOut =>
    have hd : (s.recursiveLockingCount m).toNat = s.depth t o := hold.2 id
    have hdepth : ∀ p, (s.recordEnter t ⟨o, .client timeOut⟩ true).depth t p =
        if p = o then s.depth t o + 1 else s.depth t p := by
      intro p
      simp [recordEnter, Function.update_apply]
    refine .recount hI hA hheld (fun _ _ => Iff.rfl) rfl ⟨by omega, by omega⟩ ?_ ?_ ?_ ?_ ?_
    · intro p hp
      exact (hdepth p).trans (if_neg hp)
    · rw [returnFromEnter, goto_pc_self]
      change _ = _
      rw [hinc, hd]
      exact ((hdepth o).trans (if_pos rfl)).symm
    · intro p k _ h
      rw [hpc] at h
      rw [returnFromEnter, goto_pc_self]
      exact h.2 id
    · intro p _ h
      rw [hpc] at h
      exact h.elim
    · intro p y h
      rw [returnFromEnter, goto_pc_self] at h
      cases h

theorem returnFalse_local {loc : EnterLoc} (hI : Counted s) (hpc : s.pc t = .enter f loc)
    (hcaller : ∃ timeOut, f.caller = .client timeOut) (hgains : ∀ m, ¬ loc.Gains m)
    (hholds : ∀ o m, s'.Holds t o m ↔ s.Holds t o m)
    (hcount : s'.recursiveLockingCount = s.recursiveLockingCount) (hdepth : s'.depth = s.depth) :
    Local s (s'.returnFromEnter t f false) t := by
  obtain ⟨timeOut, hf⟩ := hcaller
  have hpc' : (s'.returnFromEnter t f false).pc t = .idle (.returned false) := by
    rw [returnFromEnter, goto_pc_self, EnterFrame.returnPC, hf]
  exact .giveUp hI hpc hf hpc' hgains hholds hcount ((recordEnter_false s' t f).trans hdepth)

theorem unacquire_local {m : Block} (hI : Counted s)
    (hpc : s.pc t = .enter f (.unacquire m)) :
    Local s ((s.setOwner m .canBeAcquired).goto t (.enter f .readMonitor)) t := by
  have hcounts : ∀ o, s.Holds t o m → s.recursiveLockingCount m = 1 ∧
      (0 < s.depth t o → (PC.enter f .readMonitor).Suspended o) := by
    intro o ho
    have h := hI.counts t o m ho
    rw [hpc] at h
    obtain ⟨o', caller⟩ := f
    cases caller with
    | client timeOut =>
      obtain ⟨hone, hzero⟩ := h.1 rfl
      exact ⟨BitVec.eq_of_toNat_eq hone, fun hd => by omega⟩
    | tryWait v =>
      obtain ⟨hone, hzero⟩ := h.1 rfl
      refine ⟨BitVec.eq_of_toNat_eq hone, fun hd => ?_⟩
      by_contra hne
      have := hzero hne
      omega
  refine .drop hI (holds_setOwner_canBeAcquired (s := s) m) ?_ rfl rfl ?_ ?_ ?_ ?_
  · rintro ⟨o, ho⟩
    exact (hcounts o ho).1
  · intro o k _ hk h
    rw [hpc] at h
    rw [goto_pc_self]
    have hno : ¬ (EnterLoc.unacquire m).Gains k := Ne.symm hk
    obtain ⟨o', caller⟩ := f
    cases caller <;> exact ⟨fun hg => hg.elim, fun _ => h.2 hno⟩
  · intro o ho hd
    rw [goto_pc_self]
    exact (hcounts o ho).2 hd
  · intro o h
    rw [hpc] at h
    rw [goto_pc_self]
    obtain ⟨o', caller⟩ := f
    cases caller <;> exact h
  · intro p h
    rw [goto_pc_self] at h
    rw [hpc]
    obtain ⟨o', caller⟩ := f
    cases caller <;> exact h

theorem return_local {loc : EnterLoc} {m : Block} (hI : Counted s) (hA : s.ownership.Inv)
    (hpc : s.pc t = .enter f loc) (hgains : ∀ k, loc.Gains k ↔ m = k) (hheld : s.Holds t f.obj m)
    (hholds : ∀ o k, s'.Holds t o k ↔ s.Holds t o k)
    (hcount : s'.recursiveLockingCount = s.recursiveLockingCount) (hdepth : s'.depth = s.depth) :
    Local s (s'.returnFromEnter t f true) t := by
  have hg : loc.Gains m := (hgains m).2 rfl
  have hold := hI.counts t f.obj m hheld
  rw [hpc] at hold
  refine .gain hI hpc (goto_pc_self _ _ _) ?_ (fun k hk => ((hgains k).1 hk).symm) ?_ ?_ ?_ hcount ?_
  · intro o k
    refine (hholds o k).trans ⟨.inl, ?_⟩
    rintro (h | ⟨rfl, rfl⟩)
    · exact h
    · exact hheld
  · obtain ⟨o', caller⟩ := f
    cases caller with
    | client timeOut => exact BitVec.eq_of_toNat_eq (hold.1 hg).1
    | tryWait v => exact BitVec.eq_of_toNat_eq (hold.1 hg).1
  · intro o k hk
    constructor
    · rintro rfl
      exact Option.some.inj (hk.1.symm.trans hheld.1)
    · rintro rfl
      exact hA.inj o f.obj k hk.1 hheld.1
  · intro timeOut hf
    obtain ⟨o', caller⟩ := f
    subst hf
    exact (hold.1 hg).2
  · simp only [returnFromEnter, goto, recordEnter, hdepth]

theorem timeoutAcquire_local {m : Block} (hI : Counted s) (hA : s.ownership.Inv)
    (hpc : s.pc t = .enter f (.timeoutAcquire m)) (hm : s.owningThreadId m = .canBeAcquired)
    (ho : s.monitor f.obj = some m) :
    Local s ((s.setOwner m (.thread t)).returnFromEnter t f true) t := by
  have hnone : ∀ u o, ¬ s.Holds u o m := by
    rintro u o ⟨-, hown⟩
    exact absurd (hown.symm.trans hm) nofun
  refine .gain hI hpc (goto_pc_self _ _ _) ?_ (fun _ h => h.elim) (hI.free m hnone) ?_ ?_ rfl rfl
  · intro o k
    change s.monitor o = some k ∧ Function.update s.owningThreadId m (.thread t) k = _ ↔ _
    rw [Function.update_apply]
    split_ifs with h
    · subst h
      constructor
      · rintro ⟨hk, -⟩
        exact .inr ⟨hA.inj o f.obj k hk ho, rfl⟩
      · rintro (hk | ⟨rfl, -⟩)
        · exact ⟨hk.1, rfl⟩
        · exact ⟨ho, rfl⟩
    · simp [Holds, h]
  · intro o k hk
    constructor
    · rintro rfl
      exact Option.some.inj (hk.1.symm.trans ho)
    · rintro rfl
      exact absurd hk (hnone t o)
  · refine depth_eq_zero hI hpc fun k hk => ?_
    cases hk.1.symm.trans ho
    exact hnone t _ hk

theorem enterStep_local {loc : EnterLoc} (hI : Counted s) (hA : s.ownership.Inv)
    (hpc : s.pc t = .enter f loc)
    (hacquire : ∀ m, loc = .timeoutAcquire m → s.owningThreadId m = .canBeAcquired →
      s.monitor f.obj = some m)
    (hleave : ∀ m, loc = .abortMark m ∨ loc = .unwind m → ∃ timeOut, f.caller = .client timeOut)
    (hlt : ∀ m, loc = .incrementCount m → (s.recursiveLockingCount m).toNat < 2 ^ 31)
    (h : s.enterStep t c f loc = some s') : Local s s' t := by
  have hrole : s.ownership.role t = loc.role f := by rw [ownership_role, hpc, PC.role]
  have hok := hA.roles t
  rw [hrole] at hok
  cases loc with
  | readMonitor =>
    simp only [enterStep] at h
    split at h <;> cases h
    · exact .enter hI hpc (goto_pc_self _ _ _) (fun _ => Iff.rfl) (fun _ _ => Iff.rfl) rfl rfl
    · exact .enter hI hpc (goto_pc_self _ _ _) (fun _ => Iff.rfl) (fun _ _ => Iff.rfl) rfl rfl
  | allocate | release m | addReady m | vacate m | acknowledge m =>
    cases h
    exact .enter hI hpc (goto_pc_self _ _ _) (fun _ => Iff.rfl) (fun _ _ => Iff.rfl) rfl rfl
  | exchangeOwner m =>
    cases h
    have hout : ∀ o, s.monitor o ≠ some m := fun o ho => hA.attached o m ho hok.1
    exact .enter hI hpc (goto_pc_self _ _ _) (fun _ => Iff.rfl)
      (holds_setOwner_of_detached (s := s) hout _) rfl rfl
  | returnOwner m =>
    cases h
    exact .enter hI hpc (goto_pc_self _ _ _) (fun _ => Iff.rfl)
      (holds_setOwner_of_detached (s := s) hok.2 _) rfl rfl
  | install m =>
    simp only [enterStep] at h
    split_ifs at h with ho <;> cases h
    · exact install_local hI hA hpc ho
    · exact .enter hI hpc (goto_pc_self _ _ _) (fun _ => Iff.rfl) (fun _ _ => Iff.rfl) rfl rfl
  | incrementCount m =>
    cases h
    exact incrementCount_local hI hA hpc (hlt m rfl)
  | tryAcquire m =>
    simp only [enterStep] at h
    split_ifs at h with hm htimeOut <;> cases h
    · exact .acquire hI hpc (goto_pc_self _ _ _) (fun _ => id) (fun _ => Iff.rfl) hm rfl rfl rfl rfl
    · refine returnFalse_local hI hpc ?_ (fun _ => id) (fun _ _ => Iff.rfl) rfl rfl
      cases hcaller : f.caller with
      | client timeOut => exact ⟨timeOut, rfl⟩
      | tryWait v =>
        rw [hcaller] at htimeOut
        exact absurd (show infinite = 0 from htimeOut) (by decide)
    · exact .enter hI hpc (goto_pc_self _ _ _) (fun _ => Iff.rfl) (fun _ _ => Iff.rfl) rfl rfl
  | recheck m =>
    simp only [enterStep] at h
    split_ifs at h with hm <;> cases h
    · exact return_local hI hA hpc (fun _ => Iff.rfl) ⟨hm, hok.1⟩ (fun _ _ => Iff.rfl) rfl rfl
    · exact .enter hI hpc (goto_pc_self _ _ _) (fun _ => Iff.rfl) (fun _ _ => Iff.rfl) rfl rfl
  | unacquire m =>
    cases h
    exact unacquire_local hI hpc
  | loopAcquire m =>
    simp only [enterStep] at h
    split_ifs at h with hm <;> cases h
    · exact .acquire hI hpc (goto_pc_self _ _ _) (fun _ => id) (fun _ => Iff.rfl) hm rfl rfl rfl rfl
    · exact .enter hI hpc (goto_pc_self _ _ _) (fun _ => Iff.rfl) (fun _ _ => Iff.rfl) rfl rfl
  | loopRemove m =>
    cases h
    exact return_local hI hA hpc (fun _ => Iff.rfl) hok.symm (fun _ _ => Iff.rfl) rfl rfl
  | checkOwner m | recheckReady m | loopCheck m | timeoutRemove m | timeoutCheck m =>
    simp only [enterStep] at h
    split_ifs at h <;> cases h
    · exact .enter hI hpc (goto_pc_self _ _ _) (fun _ => Iff.rfl) (fun _ _ => Iff.rfl) rfl rfl
    · exact .enter hI hpc (goto_pc_self _ _ _) (fun _ => Iff.rfl) (fun _ _ => Iff.rfl) rfl rfl
  | semaphoreWait m | semaphoreBlocked m =>
    simp only [enterStep] at h
    repeat' split at h
    all_goals
      cases h
      try exact .enter hI hpc (goto_pc_self _ _ _) (fun _ => Iff.rfl) (fun _ _ => Iff.rfl) rfl rfl
  | timeoutAcquire m =>
    simp only [enterStep] at h
    split_ifs at h with hm <;> cases h
    · exact timeoutAcquire_local hI hA hpc hm (hacquire m rfl hm)
    · exact .enter hI hpc (goto_pc_self _ _ _) (fun _ => Iff.rfl) (fun _ _ => Iff.rfl) rfl rfl
  | timeoutRecheck m =>
    simp only [enterStep] at h
    split_ifs at h <;> cases h
    · exact returnFalse_local hI hpc (client_of_role hok) (fun _ => id) (fun _ _ => Iff.rfl) rfl rfl
    · exact .enter hI hpc (goto_pc_self _ _ _) (fun _ => Iff.rfl) (fun _ _ => Iff.rfl) rfl rfl
  | timeoutAcknowledge m =>
    cases h
    exact returnFalse_local hI hpc (client_of_role hok) (fun _ => id) (fun _ _ => Iff.rfl) rfl rfl
  | abortMark m =>
    cases h
    obtain ⟨timeOut, hf⟩ := hleave m (.inl rfl)
    exact .giveUp hI hpc hf (goto_pc_self _ _ _) (fun _ => id) (fun _ _ => Iff.rfl) rfl rfl
  | unwind m =>
    cases h
    obtain ⟨timeOut, hf⟩ := hleave m (.inr rfl)
    exact .giveUp hI hpc hf (goto_pc_self _ _ _) (fun _ => id) (fun _ _ => Iff.rfl) rfl rfl

/-! ### The other functions -/

theorem getStep_local {purpose : Purpose} {loc : GetLoc} (hI : Counted s) (hA : s.ownership.Inv)
    (hpc : s.pc t = .getMonitor o purpose loc)
    (hmark : ∀ m, loc = .loadAborted m → s.threadAborted m = false) :
    Local s (s.getStep t o purpose loc) t := by
  have hrole : s.ownership.role t = loc.role o purpose := by rw [ownership_role, hpc, PC.role]
  have hok := hA.roles t
  rw [hrole] at hok
  have hcounts := hI.counts t
  -- the thread goes on with the check, or throws
  have hquiet : ∀ pc' : PC Obj, (∃ loc', pc' = .getMonitor o purpose loc') ∨
      (∀ caller, purpose ≠ .exit (some caller)) ∧ (∃ last, pc' = .idle last) →
      Local s (s.goto t pc') t := by
    intro pc' h
    refine .quiet hI (fun _ _ => Iff.rfl) rfl rfl ?_ ?_ ?_ <;> rw [hpc, goto_pc_self]
    · intro p m _ hold
      rcases h with ⟨loc', rfl⟩ | ⟨hne, last, rfl⟩ <;> rcases purpose with (_ | v) | all | timeout
      all_goals first | exact hold | exact absurd rfl (hne v)
    · intro p hold
      rcases h with ⟨loc', rfl⟩ | ⟨hne, last, rfl⟩ <;> rcases purpose with (_ | v) | all | timeout
      all_goals first | exact .inl hold | exact hold.elim | exact absurd rfl (hne v)
    · intro p hnew
      rcases h with ⟨loc', rfl⟩ | ⟨hne, last, rfl⟩ <;> rcases purpose with (_ | v) | all | timeout
      all_goals first | exact hnew | cases hnew
  cases loc with
  | readMonitor =>
    simp only [getStep]
    cases hm : s.monitor o with
    | none =>
      refine hquiet _ (.inr ⟨?_, _, rfl⟩)
      rintro v rfl
      cases hm.symm.trans hok.2
    | some m => exact hquiet _ (.inl ⟨_, rfl⟩)
  | loadAborted m =>
    simp only [getStep, hmark m rfl, Bool.false_eq_true, if_false]
    refine hquiet _ (.inr ⟨?_, _, rfl⟩)
    rintro v rfl
    exact hok
  | loadOwner m =>
    simp only [getStep]
    split_ifs with hown
    swap
    · exact hquiet _ (.inl ⟨_, rfl⟩)
    rcases purpose with (_ | v) | all | timeout
    · -- a client's `Exit` ends an entry
      have hheld : s.Holds t o m := ⟨hok hown, hown⟩
      have hc : (s.recursiveLockingCount m).toNat = s.depth t o := by
        have := hI.counts t o m hheld
        rwa [hpc] at this
      have hdepth : ∀ p, (s.recordExit t o (.exit none)).depth t p =
          if p = o then s.depth t o - 1 else s.depth t p := by
        intro p
        simp [recordExit, Function.update_apply]
      have hpos := (hI.bounded m).1
      refine .recount (x := s.recursiveLockingCount m) hI hA hheld (fun _ _ => Iff.rfl)
        (Function.update_eq_self m _).symm (hI.bounded m) ?_ ?_ ?_ ?_ ?_
      · intro p hp
        exact (hdepth p).trans (if_neg hp)
      · have hd : (s.passCheck t o m (.exit none)).depth t o = s.depth t o - 1 :=
          (hdepth o).trans (if_pos rfl)
        rw [hd, passCheck, goto_pc_self]
        exact ⟨fun _ => ⟨trivial, by omega, .inl ⟨m, rfl⟩⟩, fun h => absurd rfl h⟩
      · intro p k hp hold
        rw [hpc] at hold
        rw [passCheck, goto_pc_self]
        exact ⟨fun h => absurd h.symm hp, fun _ => hold⟩
      · intro p _ h
        rw [hpc] at h
        exact h.elim
      · intro p y h
        rw [passCheck, goto_pc_self] at h
        cases h
    all_goals
      refine .quiet hI (fun _ _ => Iff.rfl) rfl rfl ?_ ?_ ?_ <;> rw [hpc, passCheck, goto_pc_self]
    · exact fun p _ _ hold => ⟨fun h => ⟨trivial, hold.1 h⟩, hold.2⟩
    · exact fun _ => .inl
    · exact fun _ => id
    · exact fun _ _ _ => id
    · exact fun _ h => h.elim
    · rintro _ ⟨⟩
    · exact fun _ _ _ => id
    · exact fun _ h => h.elim
    · rintro _ ⟨⟩

theorem exit_counts {caller : Option WaitVars} {loc : ExitLoc} {m : Block} (hI : Counted s)
    (hpc : s.pc t = .exit o caller loc) (hheld : s.Holds t o m) (hundo : ∀ k, loc ≠ .undo k) :
    s.recursiveLockingCount m = 1 ∧ (0 < s.depth t o → ∃ v, caller = some v) := by
  have hold := hI.counts t o m hheld
  rw [hpc] at hold
  rcases caller with _ | v
  · obtain ⟨-, hc, hd⟩ := hold.1 rfl
    rcases hd with ⟨k, hk⟩ | hd
    · exact absurd hk (hundo k)
    · exact ⟨BitVec.eq_of_toNat_eq (by rw [hc, hd]; rfl), fun h => by omega⟩
  · exact ⟨BitVec.eq_of_toNat_eq (hold.1 rfl).2, fun _ => ⟨v, rfl⟩⟩

theorem giveUp_local {caller : Option WaitVars} {loc loc' : ExitLoc} {m : Block} (hI : Counted s)
    (hA : s.ownership.Inv) (hpc : s.pc t = .exit o caller loc) (hheld : s.Holds t o m)
    (hundo : ∀ k, loc ≠ .undo k) (hpc' : s'.pc t = .exit o caller loc')
    (hholds : ∀ p k, s'.Holds t p k ↔ s.Holds t p k ∧ k ≠ m)
    (hcount : s'.recursiveLockingCount = s.recursiveLockingCount) (hdepth : s'.depth = s.depth) :
    Local s s' t := by
  obtain ⟨hone, hentered⟩ := exit_counts hI hpc hheld hundo
  refine .drop hI hholds (fun _ => hone) hcount hdepth ?_ ?_ ?_ ?_ <;> rw [hpc']
  · intro p k hk hne hold
    have hp : o ≠ p := by
      rintro rfl
      exact hne (Option.some.inj (hk.1.symm.trans hheld.1))
    rw [hpc] at hold
    cases caller <;> exact ⟨fun h => absurd h hp, hold.2⟩
  · intro p hp hd
    cases hA.inj p o m hp.1 hheld.1
    obtain ⟨v, rfl⟩ := hentered hd
    rfl
  · intro p h
    rw [hpc] at h
    cases caller <;> exact h
  · intro p h
    rw [hpc]
    cases caller <;> exact h

theorem exit_local {caller : Option WaitVars} {loc loc' : ExitLoc} (hI : Counted s)
    (hpc : s.pc t = .exit o caller loc) (hpc' : s'.pc t = .exit o caller loc')
    (hkeeps : loc.Keeps → loc'.Keeps ∧ ∀ k, loc ≠ .undo k)
    (hholds : ∀ p k, s'.Holds t p k ↔ s.Holds t p k)
    (hcount : s'.recursiveLockingCount = s.recursiveLockingCount) (hdepth : s'.depth = s.depth) :
    Local s s' t := by
  refine .quiet hI hholds hcount hdepth ?_ ?_ ?_ <;> rw [hpc, hpc']
  · intro p m _ h
    cases caller with
    | none =>
      refine ⟨fun hp => ?_, h.2⟩
      obtain ⟨hk, hc, hd⟩ := h.1 hp
      obtain ⟨hk', hundo⟩ := hkeeps hk
      refine ⟨hk', hc, .inr (hd.resolve_left ?_)⟩
      rintro ⟨k, rfl⟩
      exact hundo k rfl
    | some v => exact ⟨fun hp => ⟨(hkeeps (h.1 hp).1).1, (h.1 hp).2⟩, h.2⟩
  · intro p h
    cases caller <;> exact .inl h
  · intro p h
    cases caller <;> exact h

theorem returnFromExit_local {caller : Option WaitVars} {loc : ExitLoc} (hI : Counted s)
    (hpc : s.pc t = .exit o caller loc) (hkeeps : ¬ loc.Keeps)
    (hholds : ∀ p k, s'.Holds t p k ↔ s.Holds t p k)
    (hcount : s'.recursiveLockingCount = s.recursiveLockingCount) (hdepth : s'.depth = s.depth) :
    Local s (s'.returnFromExit t o caller) t := by
  refine .quiet hI hholds hcount hdepth ?_ ?_ ?_ <;> rw [hpc, returnFromExit, goto_pc_self]
  · intro p m _ h
    have hp : o ≠ p := by
      rintro rfl
      cases caller <;> exact hkeeps (h.1 rfl).1
    rcases caller with _ | ⟨m, timeout, count, _ | n⟩
    · exact h.2 hp
    · exact ⟨fun hg => hg.elim, fun _ => ⟨hp, h.2 hp⟩⟩
    · exact ⟨hp, h.2 hp⟩
  · intro p h
    rcases caller with _ | ⟨m, timeout, count, _ | n⟩ <;> exact .inl h
  · intro p h
    rcases caller with _ | ⟨m, timeout, count, _ | n⟩ <;> exact h

theorem undo_local {caller : Option WaitVars} {m : Block} (hI : Counted s) (hA : s.ownership.Inv)
    (hpc : s.pc t = .exit o caller (.undo m)) :
    Local s (s.exitStep t o caller (.undo m)) t := by
  have hrole : s.ownership.role t = .holds o m := by rw [ownership_role, hpc]; rfl
  obtain ⟨hown, ho⟩ : s.ownership.RoleOk t (.holds o m) := hrole ▸ hA.roles t
  have hheld : s.Holds t o m := ⟨ho, hown⟩
  have hold := hI.counts t o m hheld
  obtain ⟨hpos, hle⟩ := hI.bounded m
  have hnew : (s.recursiveLockingCount m - 1).toNat = (s.recursiveLockingCount m).toNat - 1 :=
    BitVec.toNat_sub_of_le (BitVec.le_def.2 hpos)
  have hint : (s.recursiveLockingCount m - 1).toInt = (s.recursiveLockingCount m - 1).toNat :=
    BitVec.toInt_eq_toNat_of_lt (by omega)
  rw [hpc] at hold
  simp only [exitStep]
  split_ifs with hgt
  · rw [hint, hnew] at hgt
    rcases caller with _ | v
    · obtain ⟨-, hc, -⟩ := hold.1 rfl
      refine .recount hI hA hheld (fun _ _ => Iff.rfl) rfl ⟨by omega, by omega⟩
        (fun _ _ => rfl) ?_ ?_ ?_ ?_
      · rw [returnFromExit, goto_pc_self]
        change _ = s.depth t o
        omega
      · intro p k hp h
        rw [hpc] at h
        rw [returnFromExit, goto_pc_self]
        exact h.2 (Ne.symm hp)
      · intro p _ h
        rw [hpc] at h
        exact h.elim
      · intro p y h
        rw [returnFromExit, goto_pc_self] at h
        cases h
    · -- `TryWait` calls `Exit` with the count at one
      have hc := (hold.1 rfl).2
      omega
  · rw [hint, hnew] at hgt
    have hc : (s.recursiveLockingCount m).toNat = 1 := by omega
    refine .quiet hI (fun _ _ => Iff.rfl) rfl rfl ?_ ?_ ?_ <;> rw [hpc, goto_pc_self]
    · intro p k hk h
      cases caller with
      | none =>
        refine ⟨?_, h.2⟩
        rintro rfl
        cases hk.1.symm.trans ho
        have hd := (hold.1 rfl).2.1
        exact ⟨trivial, hd, .inr (by omega)⟩
      | some v => exact ⟨fun hp => ⟨trivial, (h.1 hp).2⟩, h.2⟩
    · intro p h
      cases caller <;> exact .inl h
    · intro p h
      cases caller <;> exact h

theorem exitStep_local {caller : Option WaitVars} {loc : ExitLoc} (hI : Counted s)
    (hA : s.ownership.Inv) (hpc : s.pc t = .exit o caller loc) :
    Local s (s.exitStep t o caller loc) t := by
  have hrole : s.ownership.role t = loc.role o := by rw [ownership_role, hpc, PC.role]
  have hok := hA.roles t
  rw [hrole] at hok
  cases loc with
  | undo m => exact undo_local hI hA hpc
  | checkReady m | checkWaiting m =>
    simp only [exitStep]
    split_ifs
    · exact exit_local hI hpc (goto_pc_self _ _ _) (fun _ => ⟨trivial, by rintro _ ⟨⟩⟩)
        (fun _ _ => Iff.rfl) rfl rfl
    · exact exit_local hI hpc (goto_pc_self _ _ _) (fun _ => ⟨trivial, by rintro _ ⟨⟩⟩)
        (fun _ _ => Iff.rfl) rfl rfl
  | unacquireReady m | unacquireWaiting m =>
    exact giveUp_local hI hA hpc hok.symm (by rintro _ ⟨⟩) (goto_pc_self _ _ _)
      (holds_setOwner_canBeAcquired (s := s) m) rfl rfl
  | deflate m =>
    refine giveUp_local hI hA hpc hok.symm (by rintro _ ⟨⟩) (goto_pc_self _ _ _) ?_ rfl rfl
    intro p k
    change Function.update s.monitor o none p = some k ∧ s.owningThreadId k = .thread t ↔ _
    rw [Function.update_apply]
    split_ifs with hp
    · subst hp
      refine iff_of_false (by rintro ⟨⟨⟩, _⟩) ?_
      rintro ⟨hk, hne⟩
      exact hne (Option.some.inj (hk.1.symm.trans hok.2))
    · refine ⟨fun h => ⟨h, ?_⟩, fun h => h.1⟩
      rintro rfl
      exact hp (hA.inj p o k h.1 hok.2)
  | post m | release m =>
    exact returnFromExit_local hI hpc id (fun _ _ => Iff.rfl) rfl rfl
  | recheckReady m =>
    simp only [exitStep]
    split_ifs
    · exact exit_local hI hpc (goto_pc_self _ _ _) (fun h => h.elim) (fun _ _ => Iff.rfl) rfl rfl
    · exact returnFromExit_local hI hpc id (fun _ _ => Iff.rfl) rfl rfl
  | flushCheck m =>
    simp only [exitStep]
    split_ifs
    · exact exit_local hI hpc (goto_pc_self _ _ _) (fun h => h.elim) (fun _ _ => Iff.rfl) rfl rfl
    · exact exit_local hI hpc (goto_pc_self _ _ _) (fun h => h.elim) (fun _ _ => Iff.rfl) rfl rfl
  | resetFlush m | flushRead m | flushPost m n | flushWait m =>
    exact exit_local hI hpc (goto_pc_self _ _ _) (fun h => h.elim) (fun _ _ => Iff.rfl) rfl rfl
  | returnOwner m =>
    exact exit_local hI hpc (goto_pc_self _ _ _) (fun h => h.elim)
      (holds_setOwner_of_detached (s := s) hok.2 _) rfl rfl

theorem pulseStep_local {all : Bool} {loc : PulseLoc} (hI : Counted s)
    (hpc : s.pc t = .pulse o all loc) : Local s (s.pulseStep t o all loc) t := by
  have hquiet : ∀ (s' : State Tid Obj) (pc' : PC Obj), (∀ o m, s'.Holds t o m ↔ s.Holds t o m) →
      s'.recursiveLockingCount = s.recursiveLockingCount → s'.depth = s.depth →
      ((∃ loc', pc' = .pulse o all loc') ∨ ∃ last, pc' = .idle last) →
      Local s (s'.goto t pc') t := by
    intro s' pc' hholds hcount hdepth h
    refine .quiet hI hholds hcount hdepth ?_ ?_ ?_ <;> rw [hpc, goto_pc_self]
    · intro p m _ hold
      rcases h with ⟨loc', rfl⟩ | ⟨last, rfl⟩ <;> exact hold
    · exact fun _ h => h.elim
    · intro p hnew
      rcases h with ⟨loc', rfl⟩ | ⟨last, rfl⟩ <;> cases hnew
  cases loc with
  | pop m isFirst =>
    simp only [pulseStep]
    cases s.threadsWaitingForPulse m with
    | nil => exact hquiet _ _ (fun _ _ => Iff.rfl) rfl rfl (.inr ⟨_, rfl⟩)
    | cons n nodes => exact hquiet _ _ (fun _ _ => Iff.rfl) rfl rfl (.inl ⟨_, rfl⟩)
  | signal m isFirst n =>
    simp only [pulseStep]
    split_ifs
    · exact hquiet _ _ (fun _ _ => Iff.rfl) rfl rfl (.inr ⟨_, rfl⟩)
    · exact hquiet _ _ (fun _ _ => Iff.rfl) rfl rfl (.inl ⟨_, rfl⟩)

theorem saveCount_local {m : Block} {timeout : BitVec 32} {pc' : PC Obj} (hI : Counted s)
    (hA : s.ownership.Inv) (hpc : s.pc t = .wait o (.saveCount m timeout))
    (hpc' : pc' = .getMonitor o (.exit (some ⟨m, timeout, s.recursiveLockingCount m, none⟩))
        .readMonitor ∨
      pc' = .wait o (.allocateNode ⟨m, timeout, s.recursiveLockingCount m, none⟩)) :
    Local s ((s.setCount m 1).goto t pc') t := by
  have hrole : s.ownership.role t = .holds o m := by rw [ownership_role, hpc]; rfl
  obtain ⟨hown, ho⟩ : s.ownership.RoleOk t (.holds o m) := hrole ▸ hA.roles t
  have hheld : s.Holds t o m := ⟨ho, hown⟩
  have hold := hI.counts t o m hheld
  rw [hpc] at hold
  refine .recount hI hA hheld (fun _ _ => Iff.rfl) rfl ⟨by decide, by decide⟩ (fun _ _ => rfl)
    ?_ ?_ ?_ ?_ <;> rw [goto_pc_self]
  · rcases hpc' with rfl | rfl <;> exact ⟨fun _ => rfl, fun h => absurd rfl h⟩
  · intro p k hp h
    rw [hpc] at h
    rcases hpc' with rfl | rfl <;> exact ⟨fun heq => absurd heq.symm hp, fun _ => h⟩
  · intro p _ h
    rw [hpc] at h
    exact h.elim
  · intro p y h
    have hy : (o, s.recursiveLockingCount m) = (p, y) := by
      rcases hpc' with rfl | rfl <;> exact Option.some.inj h
    cases hy
    exact ⟨hI.bounded m, hold⟩

theorem restoreCount_local {m : Block} {v : ReentryVars} {pc' : PC Obj} (hI : Counted s)
    (hA : s.ownership.Inv) (hpc : s.pc t = .wait o (.restoreCount m v))
    (hpc' : (∃ n, pc' = .wait o (.removeNode m v n)) ∨ pc' = .wait o (.leave m v)) :
    Local s ((s.setCount m v.oldLockingCount).goto t pc') t := by
  have hrole : s.ownership.role t = .holds o m := by rw [ownership_role, hpc]; rfl
  obtain ⟨hown, ho⟩ : s.ownership.RoleOk t (.holds o m) := hrole ▸ hA.roles t
  have hheld : s.Holds t o m := ⟨ho, hown⟩
  obtain ⟨hbound, hd⟩ := hI.saved t o v.oldLockingCount (by rw [hpc]; rfl)
  refine .recount hI hA hheld (fun _ _ => Iff.rfl) rfl hbound (fun _ _ => rfl)
    ?_ ?_ ?_ ?_ <;> rw [goto_pc_self]
  · rcases hpc' with ⟨n, rfl⟩ | rfl <;> exact hd
  · intro p k hp h
    rw [hpc] at h
    rcases hpc' with ⟨n, rfl⟩ | rfl <;> exact h.2 (Ne.symm hp)
  · intro p _ h
    rw [hpc] at h
    exact h.elim
  · intro p y h
    rcases hpc' with ⟨n, rfl⟩ | rfl <;> cases h

theorem waitStep_local {loc : WaitLoc} {c : Choice} (hI : Counted s) (hA : s.ownership.Inv)
    (hpc : s.pc t = .wait o loc) (h : s.waitStep t c o loc = some s') : Local s s' t := by
  have hrole : s.ownership.role t = loc.role o := by rw [ownership_role, hpc, PC.role]
  have hok := hA.roles t
  rw [hrole] at hok
  -- the event is only waited for while the object is given up
  have hreenter : ∀ (s₁ : State Tid Obj) (v : WaitVars) (r : ReentryVars),
      (∃ n, loc = .eventWait v n ∨ loc = .eventBlocked v n) →
      r.oldLockingCount = v.oldLockingCount → (∀ o m, s₁.Holds t o m ↔ s.Holds t o m) →
      s₁.recursiveLockingCount = s.recursiveLockingCount → s₁.depth = s.depth →
      Local s (s₁.goto t (.reenter o r)) t := by
    rintro s₁ v ⟨count, waitNode, status, e⟩ ⟨n, hloc⟩ rfl hholds hcount hdepth
    refine .quiet hI hholds hcount hdepth ?_ ?_ ?_ <;> rw [hpc, goto_pc_self]
    · intro p m _ hold
      rcases hloc with rfl | rfl <;> exact ⟨fun hg => hg.elim, fun _ => hold⟩
    · intro p hold
      rcases hloc with rfl | rfl <;> exact .inl hold
    · intro p hnew
      rcases hloc with rfl | rfl <;> exact hnew
  -- the owner cleans up
  have hclean : ∀ (s₁ : State Tid Obj) (pc' : PC Obj),
      (∀ p m c d, (PC.wait o loc).CountOk p m c d → pc'.CountOk p m c d) →
      (∀ p, ¬ (PC.wait o loc).Suspended p) →
      (∀ p, pc'.saved = some p → (PC.wait o loc).saved = some p) →
      (∀ o m, s₁.Holds t o m ↔ s.Holds t o m) →
      s₁.recursiveLockingCount = s.recursiveLockingCount → s₁.depth = s.depth →
      Local s (s₁.goto t pc') t := by
    intro s₁ pc' hcounts hsuspended hsaved hholds hcount hdepth
    refine .quiet hI hholds hcount hdepth ?_ ?_ ?_ <;> rw [hpc, goto_pc_self]
    · exact fun p m _ => hcounts p m _ _
    · exact fun p h => absurd h (hsuspended p)
    · exact hsaved
  cases loc with
  | saveCount m timeout =>
    simp only [waitStep] at h
    split_ifs at h <;> cases h
    · exact saveCount_local hI hA hpc (.inl rfl)
    · exact saveCount_local hI hA hpc (.inr rfl)
  | allocateNode v | pushNode v n | removeNode m v n | resetNode m v n | releaseNode m v n
  | leave m v =>
    cases h
    exact hclean _ _ (fun _ _ _ _ => id) (fun _ => id) (by rintro p ⟨⟩; try rfl)
      (fun _ _ => Iff.rfl) rfl rfl
  | eventWait v n =>
    simp only [waitStep] at h
    repeat' split at h
    all_goals
      cases h
      first
      | exact hreenter _ v _ ⟨n, .inl rfl⟩ rfl (fun _ _ => Iff.rfl) rfl rfl
      | skip
    -- the thread blocks
    all_goals
      refine .quiet hI (fun _ _ => Iff.rfl) rfl rfl ?_ ?_ ?_ <;> rw [hpc, goto_pc_self]
    all_goals first
      | exact fun _ _ _ => id
      | exact fun _ => .inl
      | exact fun _ => id
  | eventBlocked v n =>
    simp only [waitStep] at h
    repeat' split at h
    all_goals
      cases h
      try exact hreenter _ v _ ⟨n, .inr rfl⟩ rfl (fun _ _ => Iff.rfl) rfl rfl
  | readMonitor v =>
    simp only [waitStep] at h
    cases hm : s.monitor o with
    | none =>
      obtain ⟨k, -, ho⟩ := hok
      cases hm.symm.trans ho
    | some m =>
      rw [hm] at h
      cases h
      exact hclean _ _ (fun _ _ _ _ => id) (fun _ => id) (fun _ => id) (fun _ _ => Iff.rfl) rfl rfl
  | restoreCount m v =>
    simp only [waitStep] at h
    split at h <;> cases h
    · exact restoreCount_local hI hA hpc (.inl ⟨_, rfl⟩)
    · exact restoreCount_local hI hA hpc (.inr rfl)

theorem call_local {op : Op Obj} {last : Outcome} (hI : Counted s) (hpc : s.pc t = .idle last) :
    Local s (s.call t op) t := by
  cases op <;> refine .quiet hI (fun _ _ => Iff.rfl) rfl rfl ?_ ?_ ?_ <;>
    rw [hpc, call, goto_pc_self]
  all_goals first
    | exact fun _ _ _ h => ⟨fun hg => hg.elim, fun _ => h⟩
    | exact fun _ _ _ h => h
    | exact fun _ h => h.elim
    | rintro _ ⟨⟩

end State

/-! ### Orderly steps -/

/-- The call is one of a client. -/
def EnterCaller.isClient : EnterCaller → Bool
  | client _ => true
  | tryWait _ => false

/-- **The condition on a step**: a timed `TryEnter` takes a block at the last moment only while it
is the monitor of the object, no exception leaves the `Enter` of `TryWait`, and the count stays in
the range of an `int`. -/
def State.Orderly (s : State Tid Obj) : Label Tid Obj → Prop
  | .call _ _ => True
  | .run t _ =>
    match s.pc t with
    | .enter f (.timeoutAcquire m) =>
      s.owningThreadId m = .canBeAcquired → s.monitor f.obj = some m
    | .enter f (.abortMark _) | .enter f (.unwind _) => f.caller.isClient
    | .enter _ (.incrementCount m) => (s.recursiveLockingCount m).toNat < 2 ^ 31
    | _ => True

instance (s : State Tid Obj) (l : Label Tid Obj) : Decidable (s.Orderly l) := by
  unfold State.Orderly
  split
  · infer_instance
  · split <;> infer_instance

theorem Counted.step (hI : Counted s) (hA : s.ownership.Inv) (hmark : s.MarkUnread l)
    (horderly : s.Orderly l) (h : s.step l = some s') : Counted s' := by
  have hlocal : Local s s' l.thread := by
    cases State.runs_of_step h with
    | call hpc => exact State.call_local hI hpc
    | @enter t c f loc s' hpc h =>
      simp only [State.Orderly] at horderly
      rw [hpc] at horderly
      refine State.enterStep_local hI hA hpc ?_ ?_ ?_ h
      · rintro m rfl
        exact horderly
      · rintro m hloc
        obtain ⟨o, caller⟩ := f
        cases caller with
        | client timeOut => exact ⟨timeOut, rfl⟩
        | tryWait v => rcases hloc with rfl | rfl <;> cases horderly
      · rintro m rfl
        exact horderly
    | get hpc =>
      refine State.getStep_local hI hA hpc ?_
      rintro m rfl
      exact hmark m (by rw [State.markRead, hpc]; rfl)
    | exit hpc => exact State.exitStep_local hI hA hpc
    | pulse hpc => exact State.pulseStep_local hI hpc
    | wait hpc h => exact State.waitStep_local hI hA hpc h
  exact hI.of_local hA (step_ownership hA hmark h) (fun m hm => count_frame hA h hm)
    (fun u hu => (step_frame h hu).1) (fun u hu => (step_frame h hu).2) hlocal

theorem counted_init : Counted (State.init Tid Obj) where
  free _ _ := rfl
  bounded _ := ⟨Nat.one_pos, Nat.one_le_two_pow⟩
  counts _ _ _ h := nomatch h.1
  entered _ _ h := nomatch h
  saved _ _ _ h := nomatch h

end Monitor

end Il2Cpp
