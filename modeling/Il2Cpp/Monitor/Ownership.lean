import Il2Cpp.Monitor.State

/-!
# Who may use a monitor block

An abstract model of the life of the `MonitorData` blocks: which object a block is attached to, who
owns it, how many threads are on its ready list, and which blocks are free.  Of a thread only its
`Role` is left, what it knows of the one block it is dealing with.

* `Ownership.Step` : the ways a thread changes this state.  Only the owner of a block attaches it
  to an object or detaches it; a thread on the ready list keeps a detached block from being reused.
* `Ownership.Inv` : the invariant; `Ownership.Inv.step` : every step preserves it.
-/

namespace Il2Cpp

namespace Monitor

/-- What a thread knows of a block. -/
inductive Role (Obj : Type)
  | none
  /-- taken off the free list, and marked as returned to it -/
  | kept (m : Block)
  /-- owned, and not attached to an object -/
  | outside (m : Block)
  /-- seen attached to the object; still attached if the thread owns it -/
  | saw (o : Obj) (m : Block)
  /-- owned, and attached to the object -/
  | holds (o : Obj) (m : Block)
  /-- the block attached to the object is owned -/
  | entered (o : Obj)
  /-- owned, and attached to some object -/
  | acquired (m : Block)
  /-- on the ready list -/
  | ready (m : Block)
  /-- on the ready list, and attached to the object or about to be recycled by a thread that
  waits for the ready list to be empty -/
  | pinned (o : Obj) (m : Block)
  /-- on the ready list, owned, and attached to the object -/
  | pinnedOwner (o : Obj) (m : Block)
  /-- owned and detached, while threads may be on the ready list -/
  | deflating (m : Block)
  /-- owned and detached, with nobody pinned to it -/
  | deflated (m : Block)
  /-- at a place that is never reached -/
  | unreachable

namespace Role

variable {Obj : Type}

/-- The block that the thread keeps off the free list. -/
def keptBlock : Role Obj → Option Block
  | kept m => some m
  | _ => Option.none

/-- The block that the thread owns without an object. -/
def outsideBlock : Role Obj → Option Block
  | outside m | deflating m | deflated m => some m
  | _ => Option.none

/-- The block on whose ready list the thread is. -/
def readyBlock : Role Obj → Option Block
  | ready m | pinned _ m | pinnedOwner _ m => some m
  | _ => Option.none

end Role

/-- The blocks and the roles of the threads. -/
structure Ownership (Tid Obj : Type) where
  monitor : Obj → Option Block
  owner : Block → Owner Tid
  ready : Block → ℕ
  free : List Block
  fresh : Block
  role : Tid → Role Obj

namespace Ownership

variable {Tid Obj : Type} [DecidableEq Tid] [DecidableEq Obj]

@[simps]
def setRole (A : Ownership Tid Obj) (t : Tid) (r : Role Obj) : Ownership Tid Obj :=
  { A with role := Function.update A.role t r }

@[simps]
def setOwner (A : Ownership Tid Obj) (m : Block) (x : Owner Tid) : Ownership Tid Obj :=
  { A with owner := Function.update A.owner m x }

@[simps]
def setMonitor (A : Ownership Tid Obj) (o : Obj) (x : Option Block) : Ownership Tid Obj :=
  { A with monitor := Function.update A.monitor o x }

@[simps]
def setReady (A : Ownership Tid Obj) (m : Block) (n : ℕ) : Ownership Tid Obj :=
  { A with ready := Function.update A.ready m n }

/-- What the role of a thread says about the blocks. -/
def RoleOk (A : Ownership Tid Obj) (t : Tid) : Role Obj → Prop
  | .none | .ready _ => True
  | .unreachable => False
  | .kept m => A.owner m = .returnedToFreeList ∧ m ∉ A.free ∧ m < A.fresh
  | .outside m | .deflating m | .deflated m => A.owner m = .thread t ∧ ∀ o, A.monitor o ≠ some m
  | .saw o m => A.owner m = .thread t → A.monitor o = some m
  | .holds o m | .pinnedOwner o m => A.owner m = .thread t ∧ A.monitor o = some m
  | .entered o => ∃ m, A.owner m = .thread t ∧ A.monitor o = some m
  | .acquired m => A.owner m = .thread t ∧ ∃ o, A.monitor o = some m
  | .pinned o m => A.monitor o = some m ∨ ∃ u, A.role u = .deflating m

/-- One step of the thread `t`. -/
inductive Step (A : Ownership Tid Obj) (t : Tid) : Ownership Tid Obj → Prop
  /-- the thread learns something or forgets it -/
  | observe (r : Role Obj) (hr : A.RoleOk t r) (hkept : r.keptBlock = (A.role t).keptBlock)
      (houtside : r.outsideBlock = (A.role t).outsideBlock)
      (hdeflating : ∀ m, A.role t = .deflating m → r = .deflating m ∨ A.ready m = 0)
      (hready : r.readyBlock = (A.role t).readyBlock ∨ r.readyBlock = none) :
      Step A t (A.setRole t r)
  /-- a block that is up for grabs is acquired -/
  | acquire (m : Block) (r : Role Obj) (hm : A.owner m = .canBeAcquired)
      (hr : (A.setOwner m (.thread t)).RoleOk t r) (hkept : (A.role t).keptBlock = none)
      (houtside : (A.role t).outsideBlock = none) (hkept' : r.keptBlock = none)
      (houtside' : r.outsideBlock = none) (hready : r.readyBlock = (A.role t).readyBlock) :
      Step A t ((A.setOwner m (.thread t)).setRole t r)
  /-- the owner of an attached block puts it up for grabs -/
  | release (m : Block) (hm : (∃ o, A.role t = .holds o m) ∨ A.role t = .acquired m) :
      Step A t ((A.setOwner m .canBeAcquired).setRole t .none)
  | take (m : Block) (hm : A.role t = .kept m) :
      Step A t ((A.setOwner m (.thread t)).setRole t (.outside m))
  | giveBack (m : Block) (hm : A.role t = .outside m ∨ A.role t = .deflated m) :
      Step A t ((A.setOwner m .returnedToFreeList).setRole t (.kept m))
  /-- the object is inflated -/
  | install (o : Obj) (m : Block) (r : Role Obj) (hm : A.role t = .outside m)
      (ho : A.monitor o = none) (hr : r = .none ∨ r = .entered o) :
      Step A t ((A.setMonitor o (some m)).setRole t r)
  /-- the object is deflated -/
  | deflate (o : Obj) (m : Block) (hm : A.role t = .holds o m) :
      Step A t ((A.setMonitor o none).setRole t (.deflating m))
  | pop (m : Block) (rest : List Block) (hfree : A.free = m :: rest) (hrole : A.role t = .none) :
      Step A t ({ A with free := rest }.setRole t (.kept m))
  | new (hrole : A.role t = .none) :
      Step A t ({ A with fresh := A.fresh + 1 }.setRole t (.kept A.fresh))
  | push (m : Block) (hm : A.role t = .kept m) :
      Step A t ({ A with free := A.free ++ [m] }.setRole t .none)
  /-- the thread joins the ready list -/
  | join (m : Block) (hrole : A.role t = .none) :
      Step A t ((A.setReady m (A.ready m + 1)).setRole t (.ready m))
  /-- the thread leaves the ready list -/
  | leave (m : Block) (r : Role Obj) (hm : (A.role t).readyBlock = some m) (hr : A.RoleOk t r)
      (hplain : r = .none ∨ ∃ o, r = .entered o) :
      Step A t ((A.setReady m (A.ready m - 1)).setRole t r)

/-- **The invariant of the blocks.** -/
structure Inv (A : Ownership Tid Obj) : Prop where
  inj : ∀ o o' m, A.monitor o = some m → A.monitor o' = some m → o = o'
  attached : ∀ o m, A.monitor o = some m → A.owner m ≠ .returnedToFreeList
  unowned : ∀ m, A.owner m = .canBeAcquired → ∃ o, A.monitor o = some m
  owned : ∀ t m, A.owner m = .thread t →
    (∃ o, A.monitor o = some m) ∨ (A.role t).outsideBlock = some m
  free : ∀ m ∈ A.free, A.owner m = .returnedToFreeList ∧ m < A.fresh
  nodup : A.free.Nodup
  fresh : ∀ m, A.fresh ≤ m → A.owner m = .returnedToFreeList
  kept_inj : ∀ t u m, (A.role t).keptBlock = some m → (A.role u).keptBlock = some m → t = u
  roles : ∀ t, A.RoleOk t (A.role t)
  finite : ∀ m, {t | (A.role t).readyBlock = some m}.Finite
  counted : ∀ m, {t | (A.role t).readyBlock = some m}.ncard ≤ A.ready m

variable {A A' : Ownership Tid Obj} {t u : Tid}

/-! ### What a step leaves as it was -/

theorem Step.role_of_ne (h : A.Step t A') (hu : u ≠ t) : A'.role u = A.role u := by
  cases h <;> simp [hu]

/-- **No other thread gains or loses a block.** -/
theorem Step.owner_iff (hA : A.Inv) (h : A.Step t A') (hu : u ≠ t) (m : Block) :
    A'.owner m = .thread u ↔ A.owner m = .thread u := by
  have hroles := hA.roles t
  have hset : ∀ (k : Block) (x : Owner Tid), x ≠ .thread u → A.owner k ≠ .thread u →
      (Function.update A.owner k x m = .thread u ↔ A.owner m = .thread u) := by
    intro k x hx hk
    rcases eq_or_ne m k with rfl | hne
    · simp [hx, hk]
    · simp [hne]
  cases h with
  | observe | pop | new | push | join | leave | install | deflate => rfl
  | acquire k r hk =>
    refine hset k _ (by simpa using hu.symm) ?_
    rw [hk]
    exact nofun
  | release k hk =>
    refine hset k _ nofun ?_
    have hown : A.owner k = .thread t := by
      rcases hk with ⟨o, hk⟩ | hk
      · rw [hk] at hroles
        exact hroles.1
      · rw [hk] at hroles
        exact hroles.1
    simpa [hown] using hu.symm
  | take k hk =>
    refine hset k _ (by simpa using hu.symm) ?_
    rw [hk] at hroles
    rw [hroles.1]
    exact nofun
  | giveBack k hk =>
    refine hset k _ nofun ?_
    have hown : A.owner k = .thread t := by
      rcases hk with hk | hk
      · rw [hk] at hroles
        exact hroles.1
      · rw [hk] at hroles
        exact hroles.1
    simpa [hown] using hu.symm

/-- **A block owned by another thread stays where it is.** -/
theorem Step.monitor_iff (hA : A.Inv) (h : A.Step t A') (hu : u ≠ t) {m : Block}
    (hm : A.owner m = .thread u) (o : Obj) : A'.monitor o = some m ↔ A.monitor o = some m := by
  have hroles := hA.roles t
  cases h with
  | observe | pop | new | push | join | leave | acquire | release | take | giveBack => rfl
  | install o' k r hk ho =>
    rw [hk] at hroles
    have hne : m ≠ k := by
      rintro rfl
      exact hu (by simpa [hm] using hroles.1)
    rcases eq_or_ne o o' with rfl | hne'
    · simp [ho, hne.symm]
    · simp [hne']
  | deflate o' k hk =>
    rw [hk] at hroles
    have hne : m ≠ k := by
      rintro rfl
      exact hu (by simpa [hm] using hroles.1)
    rcases eq_or_ne o o' with rfl | hne'
    · simp [hroles.2, hne.symm]
    · simp [hne']

omit [DecidableEq Tid] [DecidableEq Obj] in
theorem RoleOk.frame {r : Role Obj} (h : A.RoleOk u r)
    (howner : ∀ m, A'.owner m = .thread u ↔ A.owner m = .thread u)
    (hmonitor : ∀ m, A.owner m = .thread u → ∀ o, A'.monitor o = some m ↔ A.monitor o = some m)
    (hkept : ∀ m, r = .kept m → A'.RoleOk u (.kept m))
    (hpinned : ∀ o m, r = .pinned o m → A'.RoleOk u (.pinned o m)) : A'.RoleOk u r := by
  cases r with
  | none | ready m => trivial
  | unreachable => exact h
  | kept m => exact hkept m rfl
  | pinned o m => exact hpinned o m rfl
  | outside m | deflating m | deflated m =>
    exact ⟨(howner m).2 h.1, fun o ho => h.2 o ((hmonitor m h.1 o).1 ho)⟩
  | saw o m => exact fun hm => (hmonitor m ((howner m).1 hm) o).2 (h ((howner m).1 hm))
  | holds o m | pinnedOwner o m => exact ⟨(howner m).2 h.1, (hmonitor m h.1 o).2 h.2⟩
  | entered o =>
    obtain ⟨m, hm, ho⟩ := h
    exact ⟨m, (howner m).2 hm, (hmonitor m hm o).2 ho⟩
  | acquired m =>
    obtain ⟨hm, o, ho⟩ := h
    exact ⟨(howner m).2 hm, o, (hmonitor m hm o).2 ho⟩

/-! ### The ready lists -/

/-- The threads on the ready list of a block. -/
def readySet (A : Ownership Tid Obj) (m : Block) : Set Tid := {t | (A.role t).readyBlock = some m}

omit [DecidableEq Obj] in
theorem readySet_setRole_of_eq {r : Role Obj} (h : r.readyBlock = (A.role t).readyBlock)
    (m : Block) : (A.setRole t r).readySet m = A.readySet m := by
  ext u
  rcases eq_or_ne u t with rfl | hne <;> simp [readySet, *]

omit [DecidableEq Obj] in
theorem readySet_setRole_of_none {r : Role Obj} (h : r.readyBlock = none) (m : Block) :
    (A.setRole t r).readySet m = A.readySet m \ {t} := by
  ext u
  rcases eq_or_ne u t with rfl | hne <;> simp [readySet, *]

omit [DecidableEq Obj] in
theorem readySet_setRole_self {r : Role Obj} {m : Block} (h : r.readyBlock = some m) :
    (A.setRole t r).readySet m = insert t (A.readySet m) := by
  ext u
  rcases eq_or_ne u t with rfl | hne <;> simp [readySet, *]

omit [DecidableEq Obj] in
theorem readySet_setRole_of_ne {r : Role Obj} {m k : Block} (h : r.readyBlock = some k)
    (hold : (A.role t).readyBlock = none) (hne : m ≠ k) :
    (A.setRole t r).readySet m = A.readySet m := by
  ext u
  rcases eq_or_ne u t with rfl | hu <;> simp [readySet, hne.symm, *]

omit [DecidableEq Tid] [DecidableEq Obj] in
theorem Inv.ready_pos (hA : A.Inv) {m : Block} (h : (A.role t).readyBlock = some m) :
    0 < A.ready m :=
  ((Set.ncard_pos (hA.finite m)).2 ⟨t, h⟩).trans_le (hA.counted m)

theorem Step.counted (hA : A.Inv) (h : A.Step t A') (m : Block) :
    (A'.readySet m).Finite ∧ (A'.readySet m).ncard ≤ A'.ready m := by
  have hfin : (A.readySet m).Finite := hA.finite m
  have hcount : (A.readySet m).ncard ≤ A.ready m := hA.counted m
  -- the thread is on no ready list before and after, or on the same
  have hsame : ∀ {B : Ownership Tid Obj} {r : Role Obj}, B.role = A.role → B.ready = A.ready →
      r.readyBlock = (A.role t).readyBlock →
      ((B.setRole t r).readySet m).Finite ∧
        ((B.setRole t r).readySet m).ncard ≤ (B.setRole t r).ready m := by
    intro B r hrole hready hr
    have heq : B.readySet m = A.readySet m := by simp [readySet, hrole]
    rw [readySet_setRole_of_eq (by rw [hrole, hr]), heq, setRole_ready, hready]
    exact ⟨hfin, hcount⟩
  cases h with
  | observe r _ _ _ _ hready =>
    rcases hready with hready | hready
    · exact hsame rfl rfl hready
    · rw [readySet_setRole_of_none hready]
      exact ⟨hfin.sdiff, (Set.ncard_le_ncard Set.sdiff_subset hfin).trans hcount⟩
  | acquire k r _ _ _ _ _ _ hready => exact hsame rfl rfl hready
  | release k hk => exact hsame rfl rfl (by rcases hk with ⟨o, hk⟩ | hk <;> rw [hk] <;> rfl)
  | take k hk => exact hsame rfl rfl (by rw [hk]; rfl)
  | giveBack k hk => exact hsame rfl rfl (by rcases hk with hk | hk <;> rw [hk] <;> rfl)
  | install o k r hk _ hr =>
    exact hsame rfl rfl (by rcases hr with rfl | rfl <;> rw [hk] <;> rfl)
  | deflate o k hk => exact hsame rfl rfl (by rw [hk]; rfl)
  | pop k rest _ hk => exact hsame rfl rfl (by rw [hk]; rfl)
  | new hk => exact hsame rfl rfl (by rw [hk]; rfl)
  | push k hk => exact hsame rfl rfl (by rw [hk]; rfl)
  | join k hk =>
    have hnone : (A.role t).readyBlock = none := by rw [hk]; rfl
    rcases eq_or_ne m k with rfl | hne
    · have hnotMem : t ∉ A.readySet m := by simp [readySet, hnone]
      have heq : ((A.setReady m (A.ready m + 1)).setRole t (.ready m)).readySet m =
          insert t (A.readySet m) := readySet_setRole_self rfl
      rw [heq, Set.ncard_insert_of_notMem hnotMem hfin]
      exact ⟨hfin.insert t, by simpa using hcount⟩
    · have heq : ((A.setReady k (A.ready k + 1)).setRole t (.ready k)).readySet m =
          A.readySet m := readySet_setRole_of_ne rfl hnone hne
      rw [heq]
      exact ⟨hfin, by simpa [hne] using hcount⟩
  | leave k r hk _ hr =>
    have hnone : r.readyBlock = none := by rcases hr with rfl | ⟨o, rfl⟩ <;> rfl
    have heq : ((A.setReady k (A.ready k - 1)).setRole t r).readySet m = A.readySet m \ {t} :=
      readySet_setRole_of_none hnone m
    rw [heq]
    refine ⟨hfin.sdiff, ?_⟩
    rcases eq_or_ne m k with rfl | hne
    · have hmem : t ∈ A.readySet m := hk
      rw [Set.ncard_sdiff_singleton_of_mem hmem]
      simpa using Nat.sub_le_sub_right hcount 1
    · simpa [hne] using (Set.ncard_le_ncard Set.sdiff_subset hfin).trans hcount

/-! ### The blocks -/

theorem Step.inj (hA : A.Inv) (h : A.Step t A') {o o' : Obj} {m : Block}
    (ho : A'.monitor o = some m) (ho' : A'.monitor o' = some m) : o = o' := by
  have hroles := hA.roles t
  cases h with
  | observe | pop | new | push | join | leave | acquire | release | take | giveBack =>
    exact hA.inj o o' m ho ho'
  | install p k r hk =>
    rw [hk] at hroles
    simp only [setRole_monitor, setMonitor_monitor, Function.update_apply] at ho ho'
    split_ifs at ho ho' with h1 h2 h2
    · rw [h1, h2]
    · cases ho
      exact absurd ho' (hroles.2 o')
    · cases ho'
      exact absurd ho (hroles.2 o)
    · exact hA.inj o o' m ho ho'
  | deflate p k hk =>
    simp only [setRole_monitor, setMonitor_monitor, Function.update_apply] at ho ho'
    split_ifs at ho ho'
    exact hA.inj o o' m ho ho'

theorem Step.attached (hA : A.Inv) (h : A.Step t A') {o : Obj} {m : Block}
    (ho : A'.monitor o = some m) : A'.owner m ≠ .returnedToFreeList := by
  have hroles := hA.roles t
  -- the new owner of a block is a thread, or the block stays attached
  have hset : ∀ (k : Block) (x : Owner Tid), x ≠ .returnedToFreeList →
      A.monitor o = some m → Function.update A.owner k x m ≠ .returnedToFreeList := by
    intro k x hx ho
    rcases eq_or_ne m k with rfl | hne
    · simpa using hx
    · simpa [hne] using hA.attached o m ho
  cases h with
  | observe | pop | new | push | join | leave => exact hA.attached o m ho
  | acquire k => exact hset k _ nofun ho
  | release k => exact hset k _ nofun ho
  | take k => exact hset k _ nofun ho
  | giveBack k hk =>
    have hne : m ≠ k := by
      rintro rfl
      rcases hk with hk | hk <;> rw [hk] at hroles <;> exact hroles.2 o ho
    simpa [hne] using hA.attached o m ho
  | install p k r hk =>
    rw [hk] at hroles
    simp only [setRole_monitor, setMonitor_monitor, Function.update_apply] at ho
    split_ifs at ho
    · cases ho
      simp [hroles.1]
    · exact hA.attached o m ho
  | deflate p k hk =>
    simp only [setRole_monitor, setMonitor_monitor, Function.update_apply] at ho
    split_ifs at ho
    exact hA.attached o m ho

theorem Step.unowned (hA : A.Inv) (h : A.Step t A') {m : Block}
    (hm : A'.owner m = .canBeAcquired) : ∃ o, A'.monitor o = some m := by
  have hroles := hA.roles t
  have hset : ∀ (k : Block) (x : Owner Tid), x ≠ .canBeAcquired →
      Function.update A.owner k x m = .canBeAcquired → ∃ o, A.monitor o = some m := by
    intro k x hx h
    rcases eq_or_ne m k with rfl | hne
    · simp [hx] at h
    · exact hA.unowned m (by simpa [hne] using h)
  cases h with
  | observe | pop | new | push | join | leave => exact hA.unowned m hm
  | acquire k => exact hset k (.thread t) nofun hm
  | take k => exact hset k (.thread t) nofun hm
  | giveBack k => exact hset k .returnedToFreeList nofun hm
  | release k hk =>
    rcases eq_or_ne m k with rfl | hne
    · rcases hk with ⟨o, hk⟩ | hk <;> rw [hk] at hroles
      · exact ⟨o, hroles.2⟩
      · exact hroles.2
    · exact hA.unowned m (by simpa [hne] using hm)
  | install p k r _ hp =>
    obtain ⟨o, ho⟩ := hA.unowned m hm
    have hne : o ≠ p := by
      rintro rfl
      simp [hp] at ho
    exact ⟨o, by simpa [hne] using ho⟩
  | deflate p k hk =>
    rw [hk] at hroles
    obtain ⟨o, ho⟩ := hA.unowned m hm
    have hne : o ≠ p := by
      rintro rfl
      cases ho.symm.trans hroles.2
      cases hm.symm.trans hroles.1
    exact ⟨o, by simpa [hne] using ho⟩

theorem Step.owned_self (hA : A.Inv) (h : A.Step t A') {m : Block}
    (hm : A'.owner m = .thread t) :
    (∃ o, A'.monitor o = some m) ∨ (A'.role t).outsideBlock = some m := by
  have hroles := hA.roles t
  -- a step that keeps the objects, from a place where the thread owns no detached block
  have hattached : (A.role t).outsideBlock = none → A.owner m = .thread t →
      ∃ o, A.monitor o = some m := by
    intro hnone hm
    simpa [hnone] using hA.owned t m hm
  cases h with
  | observe r _ _ houtside =>
    rw [setRole_role, Function.update_self, houtside]
    exact hA.owned t m hm
  | acquire k r hk _ _ houtside =>
    left
    rcases eq_or_ne m k with rfl | hne
    · exact hA.unowned m hk
    · exact hattached houtside (by simpa [hne] using hm)
  | release k hk =>
    left
    have hne : m ≠ k := by
      rintro rfl
      simp at hm
    refine hattached ?_ (by simpa [hne] using hm)
    rcases hk with ⟨o, hk⟩ | hk <;> rw [hk] <;> rfl
  | take k hk =>
    rcases eq_or_ne m k with rfl | hne
    · right
      simp [Role.outsideBlock]
    · left
      exact hattached (by rw [hk]; rfl) (by simpa [hne] using hm)
  | giveBack k hk =>
    left
    have hne : m ≠ k := by
      rintro rfl
      simp at hm
    have hout : (A.role t).outsideBlock = some k := by
      rcases hk with hk | hk <;> rw [hk] <;> rfl
    have := hA.owned t m (by simpa [hne] using hm)
    simpa [hout, hne.symm] using this
  | install p k r hk hp hr =>
    left
    rcases eq_or_ne m k with rfl | hne
    · exact ⟨p, by simp⟩
    · have hown := hA.owned t m hm
      rw [hk] at hown
      obtain ⟨o, ho⟩ : ∃ o, A.monitor o = some m := by
        simpa [Role.outsideBlock, hne.symm] using hown
      have hop : o ≠ p := by
        rintro rfl
        simp [hp] at ho
      exact ⟨o, by simpa [hop] using ho⟩
  | deflate p k hk =>
    rcases eq_or_ne m k with rfl | hne
    · right
      simp [Role.outsideBlock]
    · left
      obtain ⟨o, ho⟩ := hattached (by rw [hk]; rfl) hm
      rw [hk] at hroles
      have hop : o ≠ p := by
        rintro rfl
        exact hne (Option.some.inj (ho.symm.trans hroles.2))
      exact ⟨o, by simpa [hop] using ho⟩
  | pop | new | push | join =>
    left
    exact hattached (by rw [‹A.role t = _›]; rfl) hm
  | leave k r hk =>
    left
    refine hattached ?_ hm
    cases hrole : A.role t <;> simp_all [Role.readyBlock, Role.outsideBlock]

theorem Step.owned (hA : A.Inv) (h : A.Step t A') {u : Tid} {m : Block}
    (hm : A'.owner m = .thread u) :
    (∃ o, A'.monitor o = some m) ∨ (A'.role u).outsideBlock = some m := by
  rcases eq_or_ne u t with rfl | hu
  · exact h.owned_self hA hm
  · have hm' := (h.owner_iff hA hu m).1 hm
    rw [h.role_of_ne hu]
    refine (hA.owned u m hm').imp ?_ id
    rintro ⟨o, ho⟩
    exact ⟨o, (h.monitor_iff hA hu hm' o).2 ho⟩

/-! ### The free list -/

omit [DecidableEq Tid] [DecidableEq Obj] in
theorem owner_setOwner_of_returned {k : Block} {x : Owner Tid} {m : Block}
    (hk : A.owner k = .returnedToFreeList → k ≠ m) (hm : A.owner m = .returnedToFreeList) :
    (A.setOwner k x).owner m = .returnedToFreeList := by
  have hne : m ≠ k := by
    rintro rfl
    exact hk hm rfl
  simpa [hne] using hm

theorem Step.free (hA : A.Inv) (h : A.Step t A') :
    A'.free.Nodup ∧ ∀ m ∈ A'.free, A'.owner m = .returnedToFreeList ∧ m < A'.fresh := by
  have hroles := hA.roles t
  have hset : ∀ (k : Block) (x : Owner Tid), k ∉ A.free →
      ∀ m ∈ A.free, (A.setOwner k x).owner m = .returnedToFreeList ∧ m < A.fresh := by
    intro k x hk m hm
    refine ⟨owner_setOwner_of_returned (fun _ => ?_) (hA.free m hm).1, (hA.free m hm).2⟩
    rintro rfl
    exact hk hm
  have hnot : ∀ k, A.owner k ≠ .returnedToFreeList → k ∉ A.free :=
    fun k hk hmem => hk (hA.free k hmem).1
  cases h with
  | observe | join | leave | install | deflate => exact ⟨hA.nodup, hA.free⟩
  | acquire k r hk => exact ⟨hA.nodup, hset k _ (hnot k (by simp [hk]))⟩
  | release k hk =>
    refine ⟨hA.nodup, hset k _ (hnot k ?_)⟩
    rcases hk with ⟨o, hk⟩ | hk <;> rw [hk] at hroles <;> simp [hroles.1]
  | take k hk =>
    rw [hk] at hroles
    exact ⟨hA.nodup, hset k _ hroles.2.1⟩
  | giveBack k hk =>
    refine ⟨hA.nodup, hset k _ (hnot k ?_)⟩
    rcases hk with hk | hk <;> rw [hk] at hroles <;> simp [hroles.1]
  | pop k rest hfree =>
    have hnodup := hA.nodup
    rw [hfree] at hnodup
    refine ⟨hnodup.of_cons, fun m hm => hA.free m ?_⟩
    rw [hfree]
    exact List.mem_cons_of_mem k hm
  | new =>
    refine ⟨hA.nodup, fun m hm => ?_⟩
    obtain ⟨hret, hlt⟩ := hA.free m hm
    exact ⟨hret, Nat.lt_succ_of_lt hlt⟩
  | push k hk =>
    rw [hk] at hroles
    refine ⟨?_, fun m hm => ?_⟩
    · have hdisj : List.Disjoint A.free [k] := by simpa using hroles.2.1
      exact hA.nodup.append (List.nodup_singleton k) hdisj
    · rcases List.mem_append.1 hm with hm | hm
      · exact hA.free m hm
      · rw [List.mem_singleton.1 hm]
        exact ⟨hroles.1, hroles.2.2⟩

theorem Step.fresh (hA : A.Inv) (h : A.Step t A') {m : Block} (hm : A'.fresh ≤ m) :
    A'.owner m = .returnedToFreeList := by
  have hroles := hA.roles t
  have hset : ∀ (k : Block) (x : Owner Tid), (A.owner k = .returnedToFreeList → k < A.fresh) →
      A.fresh ≤ m → (A.setOwner k x).owner m = .returnedToFreeList := by
    intro k x hk hm
    refine owner_setOwner_of_returned (fun hret => ?_) (hA.fresh m hm)
    rintro rfl
    exact absurd (hk hret) (not_lt.2 hm)
  cases h with
  | observe | join | leave | install | deflate | pop | push => exact hA.fresh m hm
  | new => exact hA.fresh m (Nat.le_of_succ_le hm)
  | acquire k r hk => exact hset k _ (by simp [hk]) hm
  | release k hk =>
    refine hset k _ ?_ hm
    rcases hk with ⟨o, hk⟩ | hk <;> rw [hk] at hroles <;> simp [hroles.1]
  | take k hk =>
    rw [hk] at hroles
    exact hset k _ (fun _ => hroles.2.2) hm
  | giveBack k hk =>
    refine hset k _ ?_ hm
    rcases hk with hk | hk <;> rw [hk] at hroles <;> simp [hroles.1]

/-! ### The roles -/

theorem Step.kept (hA : A.Inv) (h : A.Step t A') (hu : u ≠ t) {m : Block}
    (hm : (A.role u).keptBlock = some m) :
    A'.RoleOk u (.kept m) ∧ (A'.role t).keptBlock ≠ some m := by
  have hroles := hA.roles t
  obtain ⟨hret, hfree, hlt⟩ : A.RoleOk u (.kept m) := by
    have := hA.roles u
    cases hrole : A.role u <;> simp_all [Role.keptBlock]
  have hne : (A.role t).keptBlock ≠ some m := fun ht => hu (hA.kept_inj u t m hm ht)
  have hset : ∀ (k : Block) (x : Owner Tid), k ≠ m →
      (A.setOwner k x).owner m = .returnedToFreeList :=
    fun k x hk => owner_setOwner_of_returned (fun _ => hk) hret
  cases h with
  | observe r _ hkept => exact ⟨⟨hret, hfree, hlt⟩, by simpa [hkept] using hne⟩
  | acquire k r hk _ _ _ hkept =>
    refine ⟨⟨hset k _ ?_, hfree, hlt⟩, by simp [hkept]⟩
    rintro rfl
    exact absurd (hk.symm.trans hret) nofun
  | release k hk =>
    refine ⟨⟨hset k _ ?_, hfree, hlt⟩, by simp [Role.keptBlock]⟩
    rintro rfl
    rcases hk with ⟨o, hk⟩ | hk <;> rw [hk] at hroles <;> exact absurd (hroles.1.symm.trans hret) nofun
  | take k hk =>
    refine ⟨⟨hset k _ ?_, hfree, hlt⟩, by simp [Role.keptBlock]⟩
    rintro rfl
    exact hne (by rw [hk]; rfl)
  | giveBack k hk =>
    have hkm : k ≠ m := by
      rintro rfl
      rcases hk with hk | hk <;> rw [hk] at hroles <;> exact absurd (hroles.1.symm.trans hret) nofun
    exact ⟨⟨hset k _ hkm, hfree, hlt⟩, by simpa [Role.keptBlock] using hkm⟩
  | install o k r _ _ hr =>
    exact ⟨⟨hret, hfree, hlt⟩, by rcases hr with rfl | rfl <;> simp [Role.keptBlock]⟩
  | deflate => exact ⟨⟨hret, hfree, hlt⟩, by simp [Role.keptBlock]⟩
  | pop k rest hk =>
    rw [hk] at hfree
    rw [List.mem_cons, not_or] at hfree
    exact ⟨⟨hret, hfree.2, hlt⟩, by simpa [Role.keptBlock] using Ne.symm hfree.1⟩
  | new => exact ⟨⟨hret, hfree, Nat.lt_succ_of_lt hlt⟩, by simpa [Role.keptBlock] using hlt.ne'⟩
  | push k hk =>
    have hkm : k ≠ m := by
      rintro rfl
      exact hne (by rw [hk]; rfl)
    refine ⟨⟨hret, ?_, hlt⟩, by simp [Role.keptBlock]⟩
    simpa [hkm.symm] using hfree
  | join => exact ⟨⟨hret, hfree, hlt⟩, by simp [Role.keptBlock]⟩
  | leave k r _ _ hr =>
    exact ⟨⟨hret, hfree, hlt⟩, by rcases hr with rfl | ⟨o, rfl⟩ <;> simp [Role.keptBlock]⟩

theorem Step.pinned (hA : A.Inv) (h : A.Step t A') (hu : u ≠ t) {o : Obj} {m : Block}
    (hrole : A.role u = .pinned o m) : A'.RoleOk u (.pinned o m) := by
  have hroles := hA.roles t
  have hok : A.RoleOk u (.pinned o m) := hrole ▸ hA.roles u
  -- the thread that recycles the block stays, if it is not the one of the step
  have hstay : A.role t ≠ .deflating m → (∃ v, A.role v = .deflating m) →
      ∃ v, A'.role v = .deflating m := by
    rintro ht ⟨v, hv⟩
    have hvt : v ≠ t := by
      rintro rfl
      exact ht hv
    exact ⟨v, (h.role_of_ne hvt).trans hv⟩
  rcases hok with ho | hdef
  · cases h with
    | observe | pop | new | push | join | leave | acquire | release | take | giveBack =>
      exact .inl ho
    | install p k r _ hp =>
      have hne : o ≠ p := by
        rintro rfl
        simp [hp] at ho
      exact .inl (by simpa [hne] using ho)
    | deflate p k hk =>
      rw [hk] at hroles
      rcases eq_or_ne o p with rfl | hne
      · cases ho.symm.trans hroles.2
        exact .inr ⟨t, by simp⟩
      · exact .inl (by simpa [hne] using ho)
  · right
    cases h with
    | observe r _ _ _ hdeflating =>
      obtain ⟨v, hv⟩ := hdef
      rcases eq_or_ne v t with rfl | hvt
      · rcases hdeflating m hv with rfl | hzero
        · exact ⟨v, by simp⟩
        · have hpos := hA.ready_pos (t := u) (m := m) (by rw [hrole]; rfl)
          omega
      · exact ⟨v, by simpa [hvt] using hv⟩
    | acquire k r _ _ _ houtside =>
      refine hstay (fun ht => ?_) hdef
      simp [ht, Role.outsideBlock] at houtside
    | release k hk =>
      exact hstay (by rcases hk with ⟨p, hk⟩ | hk <;> simp [hk]) hdef
    | giveBack k hk => exact hstay (by rcases hk with hk | hk <;> simp [hk]) hdef
    | leave k r hk =>
      refine hstay (fun ht => ?_) hdef
      simp [ht, Role.readyBlock] at hk
    | take | install | deflate | pop | new | push | join =>
      exact hstay (by rw [‹A.role t = _›]; exact nofun) hdef

omit [DecidableEq Obj] in
theorem roleOk_setRole {r : Role Obj} (hr : A.RoleOk t r)
    (hpinned : ∀ o m, r = .pinned o m → A.role t ≠ .deflating m) :
    (A.setRole t r).RoleOk t r := by
  cases r with
  | none | ready => trivial
  | kept | outside | saw | holds | entered | acquired | pinnedOwner | deflating | deflated
  | unreachable => exact hr
  | pinned o m =>
    refine hr.imp id ?_
    rintro ⟨u, hu⟩
    have hne : u ≠ t := by
      rintro rfl
      exact hpinned o m rfl hu
    exact ⟨u, by simpa [hne] using hu⟩

theorem Step.roleOk_self (hA : A.Inv) (h : A.Step t A') : A'.RoleOk t (A'.role t) := by
  have hroles := hA.roles t
  have hlt : ∀ k, A.owner k = .thread t → k ∉ A.free ∧ k < A.fresh := by
    intro k hk
    refine ⟨fun hmem => ?_, ?_⟩
    · exact absurd (hk.symm.trans (hA.free k hmem).1) nofun
    · by_contra hle
      exact absurd (hk.symm.trans (hA.fresh k (not_lt.1 hle))) nofun
  have hself : ∀ (B : Ownership Tid Obj) (r : Role Obj),
      (B.setRole t r).RoleOk t r → (B.setRole t r).RoleOk t ((B.setRole t r).role t) := by
    intro B r hr
    rwa [setRole_role, Function.update_self]
  cases h with
  | observe r hr _ houtside =>
    refine hself _ _ (roleOk_setRole hr ?_)
    rintro o m rfl ht
    simp [ht, Role.outsideBlock] at houtside
  | acquire k r _ hr _ houtside =>
    refine hself _ _ (roleOk_setRole hr ?_)
    intro o m _ ht
    rw [setOwner_role] at ht
    simp [ht, Role.outsideBlock] at houtside
  | release | push | join => exact hself _ _ trivial
  | take k hk =>
    rw [hk] at hroles
    refine hself _ _ ⟨by simp, fun o ho => ?_⟩
    exact hA.attached o k ho hroles.1
  | giveBack k hk =>
    have hown : A.owner k = .thread t := by
      rcases hk with hk | hk <;> rw [hk] at hroles <;> exact hroles.1
    exact hself _ _ ⟨by simp, hlt k hown⟩
  | install o k r hk _ hr =>
    rw [hk] at hroles
    rcases hr with rfl | rfl
    · exact hself _ _ trivial
    · exact hself _ _ ⟨k, hroles.1, by simp⟩
  | deflate o k hk =>
    rw [hk] at hroles
    refine hself _ _ ⟨hroles.1, fun o' ho' => ?_⟩
    rcases eq_or_ne o' o with rfl | hne
    · simp at ho'
    · exact hne (hA.inj o' o k (by simpa [hne] using ho') hroles.2)
  | pop k rest hfree =>
    have hnodup := hA.nodup
    obtain ⟨hret, hlt⟩ := hA.free k (by simp [hfree])
    rw [hfree] at hnodup
    exact hself _ _ ⟨hret, hnodup.notMem, hlt⟩
  | new =>
    refine hself _ _ ⟨hA.fresh _ le_rfl, fun hmem => ?_, Nat.lt_succ_self _⟩
    exact absurd (hA.free _ hmem).2 (lt_irrefl _)
  | leave k r _ hr hplain =>
    rcases hplain with rfl | ⟨o, rfl⟩
    · exact hself _ _ trivial
    · exact hself _ _ hr

theorem Step.kept_inj (hA : A.Inv) (h : A.Step t A') {u v : Tid} {m : Block}
    (hu : (A'.role u).keptBlock = some m) (hv : (A'.role v).keptBlock = some m) : u = v := by
  rcases eq_or_ne u t with rfl | hut <;> rcases eq_or_ne v u with rfl | hvu
  · rfl
  · rw [h.role_of_ne hvu] at hv
    exact absurd hu (h.kept hA hvu hv).2
  · rfl
  · rw [h.role_of_ne hut] at hu
    rcases eq_or_ne v t with rfl | hvt
    · exact absurd hv (h.kept hA hut hu).2
    · rw [h.role_of_ne hvt] at hv
      exact hA.kept_inj u v m hu hv

/-- **Every step preserves the invariant.** -/
theorem Inv.step (hA : A.Inv) (h : A.Step t A') : A'.Inv where
  inj _ _ _ ho ho' := h.inj hA ho ho'
  attached _ _ ho := h.attached hA ho
  unowned _ hm := h.unowned hA hm
  owned _ _ hm := h.owned hA hm
  free := (h.free hA).2
  nodup := (h.free hA).1
  fresh _ hm := h.fresh hA hm
  kept_inj _ _ _ hu hv := h.kept_inj hA hu hv
  roles u := by
    rcases eq_or_ne u t with rfl | hu
    · exact h.roleOk_self hA
    · rw [h.role_of_ne hu]
      refine (hA.roles u).frame (h.owner_iff hA hu) (fun _ hm => h.monitor_iff hA hu hm) ?_ ?_
      · intro m hrole
        exact (h.kept hA hu (by rw [hrole]; rfl)).1
      · intro o m hrole
        exact h.pinned hA hu hrole
  finite m := (h.counted hA m).1
  counted m := (h.counted hA m).2

end Ownership

end Monitor

end Il2Cpp
