import Il2Cpp.Monitor.State

/-!
# The threads that wait for a pulse

An abstract model of the waiting lists: which object a block is attached to, which nodes are on the
list of a block, and of each thread only the node it waits with (`Waiter`) or the node it has popped
and not yet signaled.

* `WaitSet.Step` : the ways a thread changes this state.  The parameter `P` is a switch: if it
  holds, a pulse pops no node whose thread has stopped waiting, and a thread stops waiting without
  the signal only while its node is on a list.
* `WaitSet.Inv` : every node on a list belongs to one thread, which waits for the object.
* `WaitSet.PulseInv` : under `P`, a pulse reaches a thread that waits and is reported by it.
-/

set_option linter.unusedSectionVars false

namespace Il2Cpp

namespace Monitor

/-- How far a thread is with its node; `reported` tells whether `TryWait` will return `true`. -/
inductive Phase
  /-- not yet on the list -/
  | allocated
  | waiting
  /-- the wait is over -/
  | ended (reported : Bool)
  /-- the node has been taken off the list -/
  | removed (reported : Bool)
  /-- the event of the node has been reset -/
  | cleared (reported : Bool)
  deriving DecidableEq

/-- The node may be on the list. -/
def Phase.OnList : Phase → Prop
  | waiting | ended _ => True
  | allocated | removed _ | cleared _ => False

/-- A thread in `TryWait`. -/
structure Waiter (Obj : Type) where
  obj : Obj
  node : Node
  phase : Phase
  deriving DecidableEq

/-- The waiting lists and the threads. -/
structure WaitSet (Tid Obj : Type) where
  monitor : Obj → Option Block
  list : Block → List Node
  free : List Node
  fresh : Node
  event : Node → Bool
  pulsed : Node → Bool
  waiter : Tid → Option (Waiter Obj)
  /-- the node that a thread in `PulseMonitor` has popped -/
  popped : Tid → Option (Obj × Node)

namespace WaitSet

variable {Tid Obj : Type} [DecidableEq Tid] [DecidableEq Obj]

@[simps]
def setThread (A : WaitSet Tid Obj) (t : Tid) (w : Option (Waiter Obj))
    (p : Option (Obj × Node)) : WaitSet Tid Obj :=
  { A with waiter := Function.update A.waiter t w, popped := Function.update A.popped t p }

@[simps]
def setMonitor (A : WaitSet Tid Obj) (o : Obj) (x : Option Block) : WaitSet Tid Obj :=
  { A with monitor := Function.update A.monitor o x }

@[simps]
def setList (A : WaitSet Tid Obj) (m : Block) (nodes : List Node) : WaitSet Tid Obj :=
  { A with list := Function.update A.list m nodes }

@[simps]
def setEvent (A : WaitSet Tid Obj) (n : Node) (b : Bool) : WaitSet Tid Obj :=
  { A with event := Function.update A.event n b }

@[simps]
def setPulsed (A : WaitSet Tid Obj) (n : Node) (b : Bool) : WaitSet Tid Obj :=
  { A with pulsed := Function.update A.pulsed n b }

section apply

variable (A : WaitSet Tid Obj) (t u : Tid) (o p : Obj) (m k : Block) (n i : Node)

@[grind =] theorem setThread_waiter_apply (w : Option (Waiter Obj)) (x : Option (Obj × Node)) :
    (A.setThread t w x).waiter u = if u = t then w else A.waiter u :=
  Function.update_apply _ _ _ _

@[grind =] theorem setThread_popped_apply (w : Option (Waiter Obj)) (x : Option (Obj × Node)) :
    (A.setThread t w x).popped u = if u = t then x else A.popped u :=
  Function.update_apply _ _ _ _

@[grind =] theorem setMonitor_monitor_apply (x : Option Block) :
    (A.setMonitor o x).monitor p = if p = o then x else A.monitor p :=
  Function.update_apply _ _ _ _

@[grind =] theorem setList_list_apply (nodes : List Node) :
    (A.setList m nodes).list k = if k = m then nodes else A.list k :=
  Function.update_apply _ _ _ _

@[grind =] theorem setEvent_event_apply (b : Bool) :
    (A.setEvent n b).event i = if i = n then b else A.event i :=
  Function.update_apply _ _ _ _

@[grind =] theorem setPulsed_pulsed_apply (b : Bool) :
    (A.setPulsed n b).pulsed i = if i = n then b else A.pulsed i :=
  Function.update_apply _ _ _ _

end apply

attribute [grind =] setThread_monitor setThread_list setThread_free setThread_fresh setThread_event
  setThread_pulsed setMonitor_list setMonitor_free setMonitor_fresh setMonitor_event
  setMonitor_pulsed setMonitor_waiter setMonitor_popped setList_monitor setList_free setList_fresh
  setList_event setList_pulsed setList_waiter setList_popped setEvent_monitor setEvent_list
  setEvent_free setEvent_fresh setEvent_pulsed setEvent_waiter setEvent_popped setPulsed_monitor
  setPulsed_list setPulsed_free setPulsed_fresh setPulsed_event setPulsed_waiter setPulsed_popped

/-- One step of the thread `t`. -/
inductive Step (P : Prop) (A : WaitSet Tid Obj) (t : Tid) : WaitSet Tid Obj → Prop
  | stay : Step P A t A
  /-- the object is inflated -/
  | attach (o : Obj) (m : Block) (ho : A.monitor o = none) (hm : ∀ o, A.monitor o ≠ some m) :
      Step P A t (A.setMonitor o (some m))
  /-- the object is deflated, when no node is on the list of the block -/
  | detach (o : Obj) (m : Block) (ho : A.monitor o = some m) (hm : A.list m = []) :
      Step P A t (A.setMonitor o none)
  | reuse (o : Obj) (n : Node) (rest : List Node) (hfree : A.free = n :: rest)
      (hw : A.waiter t = none) :
      Step P A t (({ A with free := rest }.setPulsed n false).setThread t
        (some ⟨o, n, .allocated⟩) (A.popped t))
  | new (o : Obj) (hw : A.waiter t = none) :
      Step P A t (({ A with fresh := A.fresh + 1 }.setPulsed A.fresh false).setThread t
        (some ⟨o, A.fresh, .allocated⟩) (A.popped t))
  | push (o : Obj) (m : Block) (n : Node) (hw : A.waiter t = some ⟨o, n, .allocated⟩)
      (ho : A.monitor o = some m) :
      Step P A t ((A.setList m (n :: A.list m)).setThread t (some ⟨o, n, .waiting⟩) (A.popped t))
  | pop (o : Obj) (m : Block) (n : Node) (rest : List Node) (hp : A.popped t = none)
      (ho : A.monitor o = some m) (hlist : A.list m = n :: rest)
      (htimely : P → ∀ u w, A.waiter u = some w → w.node = n → w.phase = .waiting) :
      Step P A t ((A.setList m rest).setThread t (A.waiter t) (some (o, n)))
  | signal (o : Obj) (n : Node) (hp : A.popped t = some (o, n)) :
      Step P A t (((A.setEvent n true).setPulsed n true).setThread t (A.waiter t) none)
  /-- the wait finds the event set -/
  | finish (o : Obj) (n : Node) (hw : A.waiter t = some ⟨o, n, .waiting⟩)
      (he : A.event n = true) :
      Step P A t ((A.setEvent n false).setThread t (some ⟨o, n, .ended true⟩) (A.popped t))
  /-- the wait ends by a time-out or an exception -/
  | giveUp (o : Obj) (n : Node) (hw : A.waiter t = some ⟨o, n, .waiting⟩)
      (htimely : P → ∃ m, n ∈ A.list m) :
      Step P A t (A.setThread t (some ⟨o, n, .ended false⟩) (A.popped t))
  | remove (o : Obj) (m : Block) (n : Node) (b : Bool) (hw : A.waiter t = some ⟨o, n, .ended b⟩)
      (ho : A.monitor o = some m) :
      Step P A t ((A.setList m ((A.list m).erase n)).setThread t (some ⟨o, n, .removed b⟩)
        (A.popped t))
  | clear (o : Obj) (n : Node) (b : Bool) (hw : A.waiter t = some ⟨o, n, .removed b⟩) :
      Step P A t ((A.setEvent n false).setThread t (some ⟨o, n, .cleared b⟩) (A.popped t))
  | release (o : Obj) (n : Node) (b : Bool) (hw : A.waiter t = some ⟨o, n, .cleared b⟩) :
      Step P A t ({ A with free := A.free ++ [n] }.setThread t none (A.popped t))

/-- **The invariant of the waiting lists.** -/
structure Inv (A : WaitSet Tid Obj) : Prop where
  inj : ∀ o o' m, A.monitor o = some m → A.monitor o' = some m → o = o'
  nodup_free : A.free.Nodup
  free : ∀ n ∈ A.free, n < A.fresh ∧ ∀ t w, A.waiter t = some w → w.node ≠ n
  lt : ∀ t w, A.waiter t = some w → w.node < A.fresh
  node_inj : ∀ t u w w', A.waiter t = some w → A.waiter u = some w' → w.node = w'.node → t = u
  listed : ∀ m, ∀ n ∈ A.list m, ∃ t w, A.waiter t = some w ∧ w.node = n ∧ w.phase.OnList ∧
    A.monitor w.obj = some m
  nodup : ∀ m, (A.list m).Nodup

variable {A A' : WaitSet Tid Obj} {t u : Tid} {P : Prop}

theorem Step.inj (hA : A.Inv) (h : A.Step P t A') {o o' : Obj} {m : Block}
    (ho : A'.monitor o = some m) (ho' : A'.monitor o' = some m) : o = o' := by
  have hinj := hA.inj
  cases h <;> grind

theorem Step.free (hA : A.Inv) (h : A.Step P t A') : A'.free.Nodup ∧
    ∀ n ∈ A'.free, n < A'.fresh ∧ ∀ t w, A'.waiter t = some w → w.node ≠ n := by
  have hfree := hA.free
  have hnodup := hA.nodup_free
  have hlt := hA.lt
  have hinj := hA.node_inj
  cases h <;> grind

theorem Step.lt (hA : A.Inv) (h : A.Step P t A') {u : Tid} {w : Waiter Obj}
    (hw : A'.waiter u = some w) : w.node < A'.fresh := by
  have hfree := hA.free
  have hlt := hA.lt
  cases h <;> grind

theorem Step.node_inj (hA : A.Inv) (h : A.Step P t A') {u v : Tid} {w w' : Waiter Obj}
    (hw : A'.waiter u = some w) (hw' : A'.waiter v = some w') (heq : w.node = w'.node) : u = v := by
  have hfree := hA.free
  have hlt := hA.lt
  have hinj := hA.node_inj
  cases h <;> grind

theorem Inv.listed_setThread (hA : A.Inv) {B : WaitSet Tid Obj} {m : Block} {n : Node}
    {x : Option (Waiter Obj)} {p : Option (Obj × Node)} (hn : n ∈ A.list m)
    (hmonitor : B.monitor = A.monitor) (hwaiter : B.waiter = A.waiter)
    (hx : ∀ o ph, A.waiter t = some ⟨o, n, ph⟩ → ph.OnList →
      ∃ ph' : Phase, x = some ⟨o, n, ph'⟩ ∧ ph'.OnList) :
    ∃ u w, (B.setThread t x p).waiter u = some w ∧ w.node = n ∧ w.phase.OnList ∧
      (B.setThread t x p).monitor w.obj = some m := by
  obtain ⟨u, ⟨o, _, ph⟩, hu, rfl, hph, ho⟩ := hA.listed m n hn
  rw [← hmonitor] at ho
  rcases eq_or_ne u t with rfl | hne
  · obtain ⟨ph', rfl, hph'⟩ := hx o ph hu hph
    exact ⟨u, ⟨o, _, ph'⟩, by simp, rfl, hph', ho⟩
  · refine ⟨u, ⟨o, _, ph⟩, ?_, rfl, hph, ho⟩
    simpa [hne, hwaiter] using hu

/-- **The node on a list belongs to a thread that waits for the object of the block.** -/
theorem Step.listed (hA : A.Inv) (h : A.Step P t A') {m : Block} {n : Node}
    (hn : n ∈ A'.list m) : ∃ t w, A'.waiter t = some w ∧ w.node = n ∧ w.phase.OnList ∧
      A'.monitor w.obj = some m := by
  cases h with
  | stay => exact hA.listed m n hn
  | attach p k hp =>
    obtain ⟨u, w, hu, hnode, hph, ho⟩ := hA.listed m n hn
    have hne : w.obj ≠ p := by
      rintro rfl
      exact absurd (ho.symm.trans hp) nofun
    exact ⟨u, w, hu, hnode, hph, by simpa [hne] using ho⟩
  | detach p k hp hk =>
    obtain ⟨u, w, hu, hnode, hph, ho⟩ := hA.listed m n hn
    have hne : w.obj ≠ p := by
      rintro rfl
      cases ho.symm.trans hp
      simp [hk] at hn
    exact ⟨u, w, hu, hnode, hph, by simpa [hne] using ho⟩
  | reuse o k rest _ hw => exact hA.listed_setThread hn rfl rfl (by simp [hw])
  | new o hw => exact hA.listed_setThread hn rfl rfl (by simp [hw])
  | push o k i hw ho =>
    rw [setThread_list, setList_list_apply] at hn
    by_cases hi : n = i
    · -- the node of the thread itself
      subst hi
      refine ⟨t, ⟨o, n, .waiting⟩, by simp, rfl, trivial, ?_⟩
      split_ifs at hn with hm
      · exact hm ▸ ho
      · obtain ⟨u, w, hu, hnode, hph, -⟩ := hA.listed m n hn
        cases hA.node_inj u t w _ hu hw hnode
        cases hu.symm.trans hw
        exact hph.elim
    · have hold : n ∈ A.list m := by
        split_ifs at hn with hm
        · exact hm ▸ (List.mem_cons.1 hn).resolve_left hi
        · exact hn
      refine hA.listed_setThread hold rfl rfl ?_
      intro p ph hp
      cases hp.symm.trans hw
      exact absurd rfl hi
  | pop o k i rest _ _ hlist =>
    have hold : n ∈ A.list m := by
      rw [setThread_list, setList_list_apply] at hn
      split_ifs at hn with hm
      · rw [hm, hlist]
        exact List.mem_cons_of_mem i hn
      · exact hn
    exact hA.listed_setThread hold rfl rfl fun o ph hw hph => ⟨ph, hw, hph⟩
  | signal o i => exact hA.listed_setThread hn rfl rfl fun o ph hw hph => ⟨ph, hw, hph⟩
  | finish o i hw =>
    refine hA.listed_setThread hn rfl rfl fun p ph hp _ => ?_
    cases hp.symm.trans hw
    exact ⟨_, rfl, trivial⟩
  | giveUp o i hw =>
    refine hA.listed_setThread hn rfl rfl fun p ph hp _ => ?_
    cases hp.symm.trans hw
    exact ⟨_, rfl, trivial⟩
  | remove o k i b hw ho =>
    have hold : n ∈ A.list m ∧ n ≠ i := by
      rw [setThread_list, setList_list_apply] at hn
      split_ifs at hn with hm
      · rw [(hA.nodup k).mem_erase_iff] at hn
        exact ⟨hm ▸ hn.2, hn.1⟩
      · refine ⟨hn, ?_⟩
        -- the node is on one list only
        rintro rfl
        obtain ⟨u, w, hu, hnode, -, hm'⟩ := hA.listed m n hn
        cases hA.node_inj u t w _ hu hw hnode
        cases hu.symm.trans hw
        exact hm (Option.some.inj (hm'.symm.trans ho))
    refine hA.listed_setThread hold.1 rfl rfl fun p ph hp _ => ?_
    cases hp.symm.trans hw
    exact absurd rfl hold.2
  | clear o i b hw =>
    refine hA.listed_setThread hn rfl rfl fun p ph hp hph => ?_
    cases hp.symm.trans hw
    exact hph.elim
  | release o i b hw =>
    refine hA.listed_setThread hn rfl rfl fun p ph hp hph => ?_
    cases hp.symm.trans hw
    exact hph.elim

theorem Step.nodup (hA : A.Inv) (h : A.Step P t A') (m : Block) : (A'.list m).Nodup := by
  have hlisted := hA.listed
  have hinj := hA.node_inj
  have hnodup := hA.nodup
  cases h <;> grind [Phase.OnList]

/-- **Every step preserves the invariant.** -/
theorem Inv.step (hA : A.Inv) (h : A.Step P t A') : A'.Inv where
  inj _ _ _ ho ho' := h.inj hA ho ho'
  nodup_free := (h.free hA).1
  free := (h.free hA).2
  lt _ _ hw := h.lt hA hw
  node_inj _ _ _ _ hw hw' heq := h.node_inj hA hw hw' heq
  listed _ _ hn := h.listed hA hn
  nodup m := h.nodup hA m

/-! ### Pulses -/

/-- **The invariant of the pulses**, in runs in which `P` holds. -/
structure PulseInv (A : WaitSet Tid Obj) : Prop where
  free : ∀ n, n ∈ A.free ∨ A.fresh ≤ n → A.event n = false
  allocated : ∀ t o n, A.waiter t = some ⟨o, n, .allocated⟩ →
    A.event n = false ∧ A.pulsed n = false
  /-- the signal stays until the thread finds it -/
  waiting : ∀ t o n, A.waiter t = some ⟨o, n, .waiting⟩ → A.event n = A.pulsed n
  listed : ∀ m, ∀ n ∈ A.list m, A.pulsed n = false
  popped : ∀ u o n, A.popped u = some (o, n) → (∃ t, A.waiter t = some ⟨o, n, .waiting⟩) ∧
    (∀ m, n ∉ A.list m) ∧ A.pulsed n = false
  popped_inj : ∀ u v o o' n, A.popped u = some (o, n) → A.popped v = some (o', n) → u = v
  /-- a thread that was pulsed says so -/
  reported : ∀ t o n b, A.waiter t = some ⟨o, n, .ended b⟩ ∨ A.waiter t = some ⟨o, n, .removed b⟩ ∨
    A.waiter t = some ⟨o, n, .cleared b⟩ → A.pulsed n = true → b = true
  cleared : ∀ t o n b, A.waiter t = some ⟨o, n, .cleared b⟩ → A.event n = false

variable (hA : A.Inv) (hP : A.PulseInv) (h : A.Step True t A')

include hA hP h

theorem Step.event_free {n : Node} (hn : n ∈ A'.free ∨ A'.fresh ≤ n) : A'.event n = false := by
  have hfree := hP.free
  have hpopped := hP.popped
  have hlt := hA.lt
  have hheld := hA.free
  have hcleared := hP.cleared
  cases h <;> grind

theorem Step.allocated {u : Tid} {o : Obj} {n : Node}
    (hu : A'.waiter u = some ⟨o, n, .allocated⟩) : A'.event n = false ∧ A'.pulsed n = false := by
  have hfree := hP.free
  have hallocated := hP.allocated
  have hpopped := hP.popped
  have hinj := hA.node_inj
  have hlt := hA.lt
  cases h <;> grind

theorem Step.waiting {u : Tid} {o : Obj} {n : Node}
    (hu : A'.waiter u = some ⟨o, n, .waiting⟩) : A'.event n = A'.pulsed n := by
  have hallocated := hP.allocated
  have hwaiting := hP.waiting
  have hpopped := hP.popped
  have hinj := hA.node_inj
  have hlt := hA.lt
  have hheld := hA.free
  cases h <;> grind

theorem Step.unpulsed {m : Block} {n : Node} (hn : n ∈ A'.list m) : A'.pulsed n = false := by
  have hallocated := hP.allocated
  have hlisted := hP.listed
  have hpopped := hP.popped
  cases h <;> grind

theorem Step.popped_inj {u v : Tid} {o o' : Obj} {n : Node} (hu : A'.popped u = some (o, n))
    (hv : A'.popped v = some (o', n)) : u = v := by
  have hpopped := hP.popped
  have hinj := hP.popped_inj
  cases h <;> grind

theorem Step.reported {u : Tid} {o : Obj} {n : Node} {b : Bool}
    (hu : A'.waiter u = some ⟨o, n, .ended b⟩ ∨ A'.waiter u = some ⟨o, n, .removed b⟩ ∨
      A'.waiter u = some ⟨o, n, .cleared b⟩) (hn : A'.pulsed n = true) : b = true := by
  have hreported := hP.reported
  have hpopped := hP.popped
  have hinj := hA.node_inj
  have hlisted := hP.listed
  have hheld := hA.free
  have hlt := hA.lt
  cases h <;> grind

theorem Step.event_cleared {u : Tid} {o : Obj} {n : Node} {b : Bool}
    (hu : A'.waiter u = some ⟨o, n, .cleared b⟩) : A'.event n = false := by
  have hcleared := hP.cleared
  have hpopped := hP.popped
  have hinj := hA.node_inj
  cases h <;> grind

/-- **A node that has been popped belongs to a thread that still waits for the signal.** -/
theorem Step.popped {u : Tid} {o : Obj} {n : Node} (hu : A'.popped u = some (o, n)) :
    (∃ t, A'.waiter t = some ⟨o, n, .waiting⟩) ∧ (∀ m, n ∉ A'.list m) ∧ A'.pulsed n = false := by
  have hinj := hA.node_inj
  -- a node popped before the step, if its thread does not stop waiting
  have hkeep : ∀ {B : WaitSet Tid Obj} {x : Option (Waiter Obj)} {y : Option (Obj × Node)},
      A.popped u = some (o, n) → B.waiter = A.waiter →
      (A.waiter t = some ⟨o, n, .waiting⟩ → x = some ⟨o, n, .waiting⟩) →
      ∃ v, (B.setThread t x y).waiter v = some ⟨o, n, .waiting⟩ := by
    intro B x y hold hwaiter hx
    obtain ⟨v, hv⟩ := (hP.popped u o n hold).1
    rcases eq_or_ne v t with rfl | hne
    · exact ⟨v, by simp [hx hv]⟩
    · exact ⟨v, by simpa [hne, hwaiter] using hv⟩
  have hother : ∀ {x : Option (Obj × Node)}, x = A.popped t →
      Function.update A.popped t x u = some (o, n) → A.popped u = some (o, n) := by
    rintro x rfl hx
    simpa using hx
  cases h with
  | stay | attach | detach => exact hP.popped u o n hu
  | reuse p k rest hfree hw =>
    have hold := hother rfl hu
    obtain ⟨⟨v, hv⟩, hlist, hpulsed⟩ := hP.popped u o n hold
    have hne : n ≠ k := fun h => (hA.free k (by simp [hfree])).2 v _ hv h
    exact ⟨hkeep hold rfl (by simp [hw]), hlist, by simpa [hne] using hpulsed⟩
  | new p hw =>
    have hold := hother rfl hu
    obtain ⟨⟨v, hv⟩, hlist, hpulsed⟩ := hP.popped u o n hold
    have hne : n ≠ A.fresh := Nat.ne_of_lt (hA.lt v _ hv)
    exact ⟨hkeep hold rfl (by simp [hw]), hlist, by simpa [hne] using hpulsed⟩
  | push p m i hw ho =>
    have hold := hother rfl hu
    obtain ⟨⟨v, hv⟩, hlist, hpulsed⟩ := hP.popped u o n hold
    have hne : n ≠ i := by
      rintro rfl
      cases hinj v t _ _ hv hw rfl
      cases hv.symm.trans hw
    refine ⟨hkeep hold rfl (fun h => ?_), fun k => ?_, hpulsed⟩
    · cases h.symm.trans hw
    · rw [setThread_list, setList_list_apply]
      split_ifs with hk
      · simpa [hne] using hlist m
      · exact hlist k
  | pop p m i rest hp ho hlist htimely =>
    by_cases hut : u = t
    · -- the node popped now
      subst hut
      rw [setThread_popped_apply, if_pos rfl] at hu
      cases hu
      have hmem : n ∈ A.list m := by simp [hlist]
      obtain ⟨v, ⟨q, _, ph⟩, hv, rfl, -, hq⟩ := hA.listed m n hmem
      obtain rfl : q = o := hA.inj _ _ m hq ho
      cases htimely trivial v _ hv rfl
      have hnodup := hA.nodup m
      rw [hlist] at hnodup
      refine ⟨⟨v, ?_⟩, fun k => ?_, hP.listed m _ hmem⟩
      · by_cases hvu : v = u
        · simp [hvu] at hv ⊢
          exact hv
        · simpa [hvu] using hv
      · rw [setThread_list, setList_list_apply]
        split_ifs with hk
        · exact hnodup.notMem
        · intro hmem'
          obtain ⟨v', w', hv', hnode, -, hq'⟩ := hA.listed k _ hmem'
          cases hinj v v' _ _ hv hv' hnode.symm
          cases hv.symm.trans hv'
          exact hk (Option.some.inj (hq'.symm.trans hq))
    · have hold : A.popped u = some (o, n) := by simpa [hut] using hu
      obtain ⟨-, hnone, hpulsed⟩ := hP.popped u o n hold
      refine ⟨hkeep hold rfl id, fun k => ?_, hpulsed⟩
      rw [setThread_list, setList_list_apply]
      split_ifs with hk
      · intro hmem
        exact hnone m (by simp [hlist, hmem])
      · exact hnone k
  | signal p i hp =>
    by_cases hut : u = t
    · simp [hut] at hu
    · have hold : A.popped u = some (o, n) := by simpa [hut] using hu
      obtain ⟨-, hnone, hpulsed⟩ := hP.popped u o n hold
      have hne : n ≠ i := by
        rintro rfl
        exact hut (hP.popped_inj u t o p n hold hp)
      exact ⟨hkeep hold rfl id, hnone, by simpa [hne] using hpulsed⟩
  | finish p i hw he =>
    have hold := hother rfl hu
    obtain ⟨-, hnone, hpulsed⟩ := hP.popped u o n hold
    refine ⟨hkeep hold rfl (fun h => ?_), hnone, hpulsed⟩
    -- the event is not set before the signal
    cases h.symm.trans hw
    have := hP.waiting t o n hw
    rw [he, hpulsed] at this
    cases this
  | giveUp p i hw htimely =>
    have hold := hother rfl hu
    obtain ⟨-, hnone, hpulsed⟩ := hP.popped u o n hold
    refine ⟨hkeep hold rfl (fun h => ?_), hnone, hpulsed⟩
    cases h.symm.trans hw
    obtain ⟨m, hm⟩ := htimely trivial
    exact absurd hm (hnone m)
  | remove p m i b hw ho =>
    have hold := hother rfl hu
    obtain ⟨-, hnone, hpulsed⟩ := hP.popped u o n hold
    refine ⟨hkeep hold rfl (fun h => ?_), fun k => ?_, hpulsed⟩
    · cases h.symm.trans hw
    · rw [setThread_list, setList_list_apply]
      split_ifs with hk
      · exact fun hmem => hnone m (List.mem_of_mem_erase hmem)
      · exact hnone k
  | clear p i b hw =>
    have hold := hother rfl hu
    obtain ⟨-, hnone, hpulsed⟩ := hP.popped u o n hold
    refine ⟨hkeep hold rfl (fun h => ?_), hnone, hpulsed⟩
    cases h.symm.trans hw
  | release p i b hw =>
    have hold := hother rfl hu
    obtain ⟨-, hnone, hpulsed⟩ := hP.popped u o n hold
    refine ⟨hkeep hold rfl (fun h => ?_), hnone, hpulsed⟩
    cases h.symm.trans hw

theorem PulseInv.step : A'.PulseInv where
  free _ hn := h.event_free hA hP hn
  allocated _ _ _ hu := h.allocated hA hP hu
  waiting _ _ _ hu := h.waiting hA hP hu
  listed _ _ hn := h.unpulsed hA hP hn
  popped _ _ _ hu := h.popped hA hP hu
  popped_inj _ _ _ _ _ hu hv := h.popped_inj hA hP hu hv
  reported _ _ _ _ hu hn := h.reported hA hP hu hn
  cleared _ _ _ _ hu := h.event_cleared hA hP hu

end WaitSet

end Monitor

end Il2Cpp
