import Il2Cpp.LTS.Basic

/-!
# The cache of generic methods

`GenericMethod::GetMethod` looks up the `MethodInfo` of a generic method without a lock, and creates
it under the metadata lock.  Creating one can request others, and the same one again: so a method is
in a map of pending methods from its allocation until it is in the map that all threads read.

Threads are stacks of calls: a request is made by a thread that is doing nothing, is in another
section of the metadata lock, or is initializing a method.  `GenericClass::GetClass` and
`InflateParameters`, which come before the allocation, request no methods.

* `step` : the transition system.
* `State.Inv` : the invariant over the two maps and the stacks.
* `getMethod_canonical` : the cache is canonical in every run.
-/

namespace Il2Cpp

namespace GenericMethods

/-- The address of a `MethodInfo`. -/
abbrev Ptr := ℕ

/-- Where a call of `GetMethod` is. -/
inductive PC
  /-- before the lookup without the lock -/
  | tryGet
  /-- before `CreateMethodLocked` takes the lock -/
  | lock
  /-- before the second lookup in `s_GenericMethodMap` -/
  | recheck
  /-- before the lookup in `s_PendingGenericMethodMap` -/
  | tryGetPending
  /-- before `GenericClass::GetClass` -/
  | getClass
  /-- before the allocation and `s_PendingGenericMethodMap.Add` -/
  | addPending
  /-- the fields of the method are being set, before `s_GenericMethodMap.Add` -/
  | setFields (newMethod : Ptr)
  /-- before `s_PendingGenericMethodMap.Remove` -/
  | removePending (newMethod : Ptr)
  /-- before the lock is released and the call returns -/
  | unlock (result : Option Ptr)
  deriving DecidableEq

variable {GMethod : Type*}

/-- What a thread is doing. -/
inductive Frame (GMethod : Type*)
  /-- another section of the metadata lock -/
  | locked
  /-- a call of `GetMethod` -/
  | call (gmethod : GMethod) (pc : PC)

/-- What a call of `GetMethod` has returned. -/
structure Return (GMethod : Type*) where
  gmethod : GMethod
  result : Option Ptr
  /-- The caller is inside the metadata lock. -/
  inside : Bool
  /-- The creation of the result is complete. -/
  complete : Bool

/-- The maps, the methods and the threads.  Generic methods are equal here when
`Il2CppGenericMethodCompare` says so. -/
structure State (GMethod : Type*) where
  /-- The calls of each thread, the innermost one first. -/
  threads : ℕ → List (Frame GMethod)
  /-- The thread that has the metadata lock, which is reentrant. -/
  owner : Option ℕ
  /-- `s_GenericMethodMap`. -/
  genericMethodMap : GMethod → Option Ptr
  /-- `s_PendingGenericMethodMap`. -/
  pendingMap : GMethod → Option Ptr
  /-- The methods that were allocated: of which generic method they are, and whether they are
  complete. -/
  methods : List (GMethod × Bool)
  returned : List (Return GMethod)

def init : State GMethod := ⟨fun _ => [], none, fun _ => none, fun _ => none, [], []⟩

/-- The thread has the lock while it is here. -/
def Frame.holds : Frame GMethod → Bool
  | .locked => true
  | .call _ .tryGet | .call _ .lock => false
  | .call _ _ => true

/-- The thread can make a request here. -/
def Frame.requests : Frame GMethod → Bool
  | .locked | .call _ (.setFields _) => true
  | .call _ _ => false

variable [DecidableEq GMethod]

namespace State

variable (s : State GMethod)

/-- Whether a method is complete. -/
def complete (p : Ptr) : Bool := s.methods[p]?.any Prod.snd

/-- The innermost call of a thread goes on. -/
def goto (i : ℕ) (gmethod : GMethod) (pc : PC) (rest : List (Frame GMethod)) : State GMethod :=
  { s with threads := Function.update s.threads i (.call gmethod pc :: rest) }

/-- The innermost call of a thread returns; the lock is released when no other section is left. -/
def ret (i : ℕ) (gmethod : GMethod) (result : Option Ptr) (rest : List (Frame GMethod)) :
    State GMethod :=
  let inside := rest.any Frame.holds
  { s with
    threads := Function.update s.threads i rest
    owner := if inside then some i else if s.owner = some i then none else s.owner
    returned := ⟨gmethod, result, inside, result.all s.complete⟩ :: s.returned }

/-- A step of a call on thread `i`, made inside the calls `rest`.  `inflatable` says whether
`GenericClass::GetClass` finds the declaring class. -/
def runPC (inflatable : GMethod → Bool) (i : ℕ) (gmethod : GMethod) (rest : List (Frame GMethod)) :
    PC → Option (State GMethod)
  | .tryGet =>
    match s.genericMethodMap gmethod with
    | some existingMethod => some (s.ret i gmethod existingMethod rest)
    | none => some (s.goto i gmethod .lock rest)
  | .lock =>
    if s.owner = none ∨ s.owner = some i then
      some ({ s with owner := some i }.goto i gmethod .recheck rest)
    else none
  | .recheck =>
    match s.genericMethodMap gmethod with
    | some existingMethod => some (s.goto i gmethod (.unlock existingMethod) rest)
    | none => some (s.goto i gmethod .tryGetPending rest)
  | .tryGetPending =>
    match s.pendingMap gmethod with
    | some existingMethod => some (s.goto i gmethod (.unlock existingMethod) rest)
    | none => some (s.goto i gmethod .getClass rest)
  | .getClass =>
    if inflatable gmethod then some (s.goto i gmethod .addPending rest)
    else some (s.goto i gmethod (.unlock none) rest)
  | .addPending =>
    let newMethod := s.methods.length
    some ({ s with
      methods := s.methods ++ [(gmethod, false)]
      pendingMap := Function.update s.pendingMap gmethod (some newMethod) }.goto i gmethod
        (.setFields newMethod) rest)
  | .setFields newMethod =>
    some ({ s with
      methods := s.methods.set newMethod (gmethod, true)
      genericMethodMap := Function.update s.genericMethodMap gmethod
        (some ((s.genericMethodMap gmethod).getD newMethod)) }.goto i gmethod
        (.removePending newMethod) rest)
  | .removePending newMethod =>
    some ({ s with pendingMap := Function.update s.pendingMap gmethod none }.goto i gmethod
      (.unlock newMethod) rest)
  | .unlock result => some (s.ret i gmethod result rest)

end State

/-- What happens, on a thread. -/
inductive Label (GMethod : Type*)
  | request (i : ℕ) (gmethod : GMethod)
  /-- another function takes the metadata lock -/
  | enter (i : ℕ)
  | leave (i : ℕ)
  | run (i : ℕ)

/-- A step. -/
def step (inflatable : GMethod → Bool) (s : State GMethod) : Label GMethod → Option (State GMethod)
  | .request i gmethod =>
    if (s.threads i).head?.all Frame.requests then some (s.goto i gmethod .tryGet (s.threads i))
    else none
  | .enter i =>
    if (s.threads i).head?.all Frame.requests ∧ (s.owner = none ∨ s.owner = some i) then
      some { s with
        threads := Function.update s.threads i (.locked :: s.threads i)
        owner := some i }
    else none
  | .leave i =>
    match s.threads i with
    | .locked :: rest => some { s with
        threads := Function.update s.threads i rest
        owner := if rest.any Frame.holds then some i else none }
    | _ => none
  | .run i =>
    match s.threads i with
    | .call gmethod pc :: rest => s.runPC inflatable i gmethod rest pc
    | _ => none

/-- The transition system of the cache. -/
def lts (inflatable : GMethod → Bool) : LTS (State GMethod) (Label GMethod) :=
  .ofFun (step inflatable)

/-! ### The invariant -/

/-- The call is creating the generic method: it is pending. -/
def Frame.creates (gmethod : GMethod) : Frame GMethod → Bool
  | .call g (.setFields _) | .call g (.removePending _) => g = gmethod
  | _ => false

theorem Frame.holds_of_creates {gmethod : GMethod} {f : Frame GMethod}
    (h : f.creates gmethod = true) : f.holds = true := by
  cases f with
  | locked => rfl
  | call g pc => cases pc <;> first | rfl | cases h

theorem countP_creates_eq_zero {stack : List (Frame GMethod)} (h : stack.any Frame.holds = false)
    (gmethod : GMethod) : stack.countP (Frame.creates gmethod) = 0 := by
  refine List.countP_eq_zero.2 fun f hf hc => ?_
  have := List.any_eq_false.1 h f hf
  exact this (Frame.holds_of_creates hc)

namespace State

variable (inflatable : GMethod → Bool) (s : State GMethod)

/-- The method that the maps have for a generic method. -/
def method (gmethod : GMethod) : Option Ptr :=
  (s.genericMethodMap gmethod).or (s.pendingMap gmethod)

/-- What is known where a thread is. -/
def FrameOk : Frame GMethod → Prop
  | .locked => True
  | .call _ .tryGet | .call _ .lock | .call _ .recheck => True
  | .call k .tryGetPending => s.genericMethodMap k = none
  | .call k .getClass => s.genericMethodMap k = none ∧ s.pendingMap k = none
  | .call k .addPending =>
    s.genericMethodMap k = none ∧ s.pendingMap k = none ∧ inflatable k = true
  | .call k (.setFields p) =>
    s.genericMethodMap k = none ∧ s.pendingMap k = some p ∧ s.methods[p]? = some (k, false)
  | .call k (.removePending p) => s.genericMethodMap k = some p ∧ s.pendingMap k = some p
  | .call k (.unlock none) => inflatable k = false
  | .call k (.unlock (some p)) => s.method k = some p

/-- What is known of a result. -/
structure ReturnOk (r : Return GMethod) : Prop where
  method_eq : ∀ p, r.result = some p → s.method r.gmethod = some p
  null : r.result = none → inflatable r.gmethod = false
  complete : r.inside = false → r.complete = true

/-- **The invariant** of the two maps and the stacks. -/
structure Inv : Prop where
  owner : ∀ i, s.owner = some i ↔ (s.threads i).any Frame.holds = true
  requests : ∀ i, ∀ f ∈ (s.threads i).tail, f.requests = true
  frame : ∀ i, ∀ f ∈ s.threads i, s.FrameOk inflatable f
  /-- A generic method is pending when one call, of the thread that has the lock, is creating it. -/
  creating : ∀ i, s.owner = some i → ∀ k,
    (s.threads i).countP (Frame.creates k) = (s.pendingMap k).isSome.toNat
  idle : s.owner = none → ∀ k, s.pendingMap k = none
  complete : ∀ k p, s.genericMethodMap k = some p → s.methods[p]? = some (k, true)
  agree : ∀ k p q, s.genericMethodMap k = some p → s.pendingMap k = some q → p = q
  inflated : ∀ k p, s.method k = some p → inflatable k = true
  returned : ∀ r ∈ s.returned, s.ReturnOk inflatable r

variable {inflatable s} {t : State GMethod} {i : ℕ} {k : GMethod} {pc : PC}
  {rest : List (Frame GMethod)}

theorem Inv.of_thread (hs : s.Inv inflatable) (stack : List (Frame GMethod)) (owner : Option ℕ)
    (returned : List (Return GMethod))
    (howner : owner = some i ↔ stack.any Frame.holds = true)
    (hother : ∀ j, j ≠ i → (owner = some j ↔ s.owner = some j))
    (hrequests : ∀ f ∈ stack.tail, f.requests = true)
    (hframe : ∀ f ∈ stack, s.FrameOk inflatable f)
    (hcreating : owner = some i → ∀ k,
      stack.countP (Frame.creates k) = (s.pendingMap k).isSome.toNat)
    (hidle : owner = none → ∀ k, s.pendingMap k = none)
    (hreturned : ∀ r ∈ returned, s.ReturnOk inflatable r) :
    ({ s with
      threads := Function.update s.threads i stack
      owner := owner
      returned := returned } : State GMethod).Inv inflatable := by
  refine ⟨fun j => ?_, fun j => ?_, fun j f hf => ?_, fun j hj k => ?_, hidle, hs.complete,
    hs.agree, hs.inflated, fun r hr => ?_⟩
  · by_cases h : j = i
    · subst h
      simpa only [Function.update_self] using howner
    · simp only [Function.update_of_ne h]
      exact (hother j h).trans (hs.owner j)
  · by_cases h : j = i
    · subst h
      simpa only [Function.update_self] using hrequests
    · simpa only [Function.update_of_ne h] using hs.requests j
  · by_cases h : j = i
    · subst h
      simp only [Function.update_self] at hf
      exact hframe f hf
    · simp only [Function.update_of_ne h] at hf
      exact hs.frame j f hf
  · by_cases h : j = i
    · subst h
      simp only [Function.update_self]
      exact hcreating hj k
    · simp only [Function.update_of_ne h]
      exact hs.creating j ((hother j h).1 hj) k
  · obtain ⟨hm, hn, hc⟩ := hreturned r hr
    exact ⟨hm, hn, hc⟩

theorem Inv.pendingMap_eq_none (hs : s.Inv inflatable) {f : Frame GMethod}
    (hi : s.threads i = f :: rest) (hf : ∀ k, f.creates k = false)
    (hrest : rest.any Frame.holds = false) (ho : s.owner = some i ∨ s.owner = none) (k : GMethod) :
    s.pendingMap k = none := by
  rcases ho with ho | ho
  · have hc := hs.creating i ho k
    rw [hi, List.countP_cons_of_neg (by simp [hf k]), countP_creates_eq_zero hrest] at hc
    cases hp : s.pendingMap k with
    | none => rfl
    | some => simp [hp] at hc
  · exact hs.idle ho k

theorem Inv.owner_of_holds (hs : s.Inv inflatable) {f : Frame GMethod}
    (hi : s.threads i = f :: rest) (hf : f.holds = true) : s.owner = some i :=
  (hs.owner i).2 (by simp [hi, hf])

theorem Inv.goto (hs : s.Inv inflatable) {pc' : PC} (hi : s.threads i = .call k pc :: rest)
    (hholds : (Frame.call k pc').holds = (Frame.call k pc).holds)
    (hc : ∀ k', (Frame.call k pc).creates k' = false)
    (hc' : ∀ k', (Frame.call k pc').creates k' = false)
    (hok : s.FrameOk inflatable (.call k pc')) : (s.goto i k pc' rest).Inv inflatable := by
  refine hs.of_thread _ s.owner s.returned ?_ (fun _ _ => Iff.rfl)
    (fun f hf => hs.requests i f (by rw [hi]; exact hf)) (fun f hf => ?_) (fun ho k' => ?_) hs.idle
    hs.returned
  · rw [hs.owner i, hi, List.any_cons, List.any_cons, hholds]
  · rcases List.mem_cons.1 hf with rfl | hf
    · exact hok
    · exact hs.frame i f (by rw [hi]; exact List.mem_cons_of_mem _ hf)
  · have := hs.creating i ho k'
    rw [hi, List.countP_cons_of_neg (by simp [hc])] at this
    rwa [List.countP_cons_of_neg (by simp [hc'])]

theorem Inv.acquire (hs : s.Inv inflatable) {stack : List (Frame GMethod)} {f : Frame GMethod}
    (ho : s.owner = none ∨ s.owner = some i) (hf : f.holds = true)
    (hc : ∀ k, f.creates k = false) (hok : s.FrameOk inflatable f)
    (hstack : ∀ g ∈ stack, g ∈ s.threads i ∧ g.requests = true)
    (hcount : ∀ k, (s.threads i).countP (Frame.creates k) = stack.countP (Frame.creates k)) :
    ({ s with
      threads := Function.update s.threads i (f :: stack)
      owner := some i } : State GMethod).Inv inflatable := by
  refine hs.of_thread _ (some i) s.returned (by simp [hf]) (fun j hj => ?_)
    (fun g hg => (hstack g hg).2) (fun g hg => ?_) (fun _ k => ?_) nofun hs.returned
  · have hji : ¬ some i = some j := fun h => hj (Option.some_inj.1 h).symm
    rcases ho with ho | ho <;> simp [ho, hji]
  · rcases List.mem_cons.1 hg with rfl | hg
    · exact hok
    · exact hs.frame i g (hstack g hg).1
  · rw [List.countP_cons_of_neg (by simp [hc]), ← hcount]
    rcases ho with ho | ho
    · have hany : (s.threads i).any Frame.holds = false := by
        cases h : (s.threads i).any Frame.holds with
        | false => rfl
        | true =>
          rw [(hs.owner i).2 h] at ho
          cases ho
      rw [countP_creates_eq_zero hany, hs.idle ho]
      rfl
    · exact hs.creating i ho k

theorem Inv.pop (hs : s.Inv inflatable) {f : Frame GMethod} (hi : s.threads i = f :: rest)
    (hc : ∀ k, f.creates k = false) (owner : Option ℕ) (returned : List (Return GMethod))
    (howner : owner = some i ↔ rest.any Frame.holds = true)
    (hother : ∀ j, j ≠ i → (owner = some j ↔ s.owner = some j))
    (hidle : owner = none → ∀ k, s.pendingMap k = none)
    (hreturned : ∀ r ∈ returned, s.ReturnOk inflatable r) :
    ({ s with
      threads := Function.update s.threads i rest
      owner := owner
      returned := returned } : State GMethod).Inv inflatable := by
  refine hs.of_thread rest owner returned howner hother (fun g hg => ?_) (fun g hg => ?_)
    (fun ho k => ?_) hidle hreturned
  · exact hs.requests i g (by rw [hi]; exact List.mem_of_mem_tail hg)
  · exact hs.frame i g (by rw [hi]; exact List.mem_cons_of_mem _ hg)
  · have ho' : s.owner = some i := by
      rw [hs.owner i, hi, List.any_cons, howner.1 ho, Bool.or_true]
    have := hs.creating i ho' k
    rwa [hi, List.countP_cons_of_neg (by simp [hc])] at this

theorem Inv.ret (hs : s.Inv inflatable) (hi : s.threads i = .call k pc :: rest)
    (hc : ∀ k', (Frame.call k pc).creates k' = false) {result : Option Ptr}
    (hsome : ∀ p, result = some p → s.method k = some p)
    (hnone : result = none → inflatable k = false)
    (hcomplete : rest.any Frame.holds = false → result.all s.complete = true) :
    (s.ret i k result rest).Inv inflatable := by
  have hown : s.owner = some i ↔ (Frame.call k pc).holds = true ∨ rest.any Frame.holds = true := by
    rw [hs.owner i, hi, List.any_cons, Bool.or_eq_true]
  refine hs.pop hi hc _ _ ?_ (fun j hj => ?_) (fun ho k' => ?_) fun r hr => ?_
  · cases hr : rest.any Frame.holds with
    | true => simp
    | false => by_cases ho : s.owner = some i <;> simp [ho]
  · have hji : i ≠ j := fun h => hj h.symm
    cases hr : rest.any Frame.holds with
    | true => simp [hown.2 (.inr hr), hji]
    | false => by_cases ho : s.owner = some i <;> simp [ho, hji]
  · cases hr : rest.any Frame.holds with
    | true => simp [hr] at ho
    | false =>
      refine hs.pendingMap_eq_none hi hc hr ?_ k'
      by_cases h : s.owner = some i
      · exact .inl h
      · simp only [hr, Bool.false_eq_true, if_false, h] at ho
        exact .inr ho
  · rcases List.mem_cons.1 hr with rfl | hr
    · exact ⟨hsome, hnone, hcomplete⟩
    · exact hs.returned r hr

omit [DecidableEq GMethod] in
theorem frameOk_of_not_holds {f : Frame GMethod} (h : f.holds = false) :
    s.FrameOk inflatable f := by
  cases f with
  | locked => trivial
  | call g pc =>
    cases pc with
    | tryGet | lock => trivial
    | recheck | tryGetPending | getClass | addPending | setFields | removePending | unlock =>
      cases h

theorem Inv.set_method (hs : s.Inv inflatable) (pc' : PC) (method pending : Option Ptr)
    (methods : List (GMethod × Bool)) (hi : s.threads i = .call k pc :: rest)
    (hholds : (Frame.call k pc).holds = true) (hholds' : (Frame.call k pc').holds = true)
    (hrest : ∀ f ∈ rest, f.creates k = false)
    (hcreates : ∀ k', ((Frame.call k pc').creates k').toNat + (s.pendingMap k').isSome.toNat =
      ((Frame.call k pc).creates k').toNat +
        (Function.update s.pendingMap k pending k').isSome.toNat)
    (hmethods : ∀ (g : GMethod) (p : Ptr) (b : Bool), g ≠ k → s.methods[p]? = some (g, b) →
      methods[p]? = some (g, b))
    (hk : method.or pending = s.method k ∨ s.method k = none)
    (hcomplete : ∀ p, method = some p → methods[p]? = some (k, true))
    (hagree : ∀ p q, method = some p → pending = some q → p = q)
    (hinflated : ∀ p, method.or pending = some p → inflatable k = true)
    (hok : ({ s with
      genericMethodMap := Function.update s.genericMethodMap k method
      pendingMap := Function.update s.pendingMap k pending
      methods := methods } : State GMethod).FrameOk inflatable (.call k pc')) :
    (({ s with
      genericMethodMap := Function.update s.genericMethodMap k method
      pendingMap := Function.update s.pendingMap k pending
      methods := methods } : State GMethod).goto i k pc' rest).Inv inflatable := by
  set u : State GMethod := { s with
    genericMethodMap := Function.update s.genericMethodMap k method
    pendingMap := Function.update s.pendingMap k pending
    methods := methods } with hu
  have ho : s.owner = some i := hs.owner_of_holds hi hholds
  have hmap {g : GMethod} (hg : g ≠ k) : u.genericMethodMap g = s.genericMethodMap g :=
    Function.update_of_ne hg _ _
  have hpending {g : GMethod} (hg : g ≠ k) : u.pendingMap g = s.pendingMap g :=
    Function.update_of_ne hg _ _
  have hmethod {g : GMethod} (hg : g ≠ k) : u.method g = s.method g := by
    rw [State.method, State.method, hmap hg, hpending hg]
  have hmap_k : u.genericMethodMap k = method := Function.update_self ..
  have hpending_k : u.pendingMap k = pending := Function.update_self ..
  have hmethod_k : u.method k = method.or pending := by
    rw [State.method, hmap_k, hpending_k]
  refine ⟨fun j => ?_, fun j => ?_, fun j f hf => ?_, fun j hj k' => ?_, fun hnone => ?_,
    fun g p hg => ?_, fun g p q hp hq => ?_, fun g p hg => ?_, fun r hr => ?_⟩
  · by_cases h : j = i
    · subst h
      simp [State.goto, hu, ho, hholds']
    · simp only [State.goto, Function.update_of_ne h]
      exact hs.owner j
  · by_cases h : j = i
    · subst h
      simp only [State.goto, Function.update_self, List.tail_cons]
      intro f hf
      exact hs.requests j f (by rw [hi]; exact hf)
    · simp only [State.goto, Function.update_of_ne h]
      exact hs.requests j
  · by_cases h : j = i
    · subst h
      simp only [State.goto, Function.update_self] at hf
      rcases List.mem_cons.1 hf with rfl | hf
      · exact hok
      · -- the other calls of the thread are sections, or create other methods
        have hfs := hs.frame j f (by rw [hi]; exact List.mem_cons_of_mem _ hf)
        have hreq := hs.requests j f (by rw [hi]; exact hf)
        cases f with
        | locked => trivial
        | call g pc'' =>
          cases pc'' with
          | setFields p =>
            have hg : g ≠ k := of_decide_eq_false (hrest _ hf)
            obtain ⟨h1, h2, h3⟩ := hfs
            exact ⟨(hmap hg).trans h1, (hpending hg).trans h2, hmethods g p _ hg h3⟩
          | tryGet | lock | recheck | tryGetPending | getClass | addPending | removePending
          | unlock => cases hreq
    · simp only [State.goto, Function.update_of_ne h] at hf
      refine frameOk_of_not_holds ?_
      cases hh : f.holds with
      | false => rfl
      | true =>
        have := (hs.owner j).2 (List.any_eq_true.2 ⟨f, hf, hh⟩)
        rw [ho] at this
        exact absurd (Option.some_inj.1 this).symm h
  · have hji : i = j := Option.some_inj.1 (ho.symm.trans hj)
    subst hji
    simp only [State.goto, Function.update_self]
    have hold := hs.creating i ho k'
    rw [hi, List.countP_cons] at hold
    rw [List.countP_cons]
    have hboth := hcreates k'
    change _ = (Function.update s.pendingMap k pending k').isSome.toNat
    cases h1 : (Frame.call k pc).creates k' <;> cases h2 : (Frame.call k pc').creates k' <;>
      simp only [h1, h2, Bool.toNat_true, Bool.toNat_false, Bool.false_eq_true, if_true,
        if_false] at hold hboth ⊢ <;> omega
  · rw [State.goto, hu] at hnone
    simp only at hnone
    rw [ho] at hnone
    cases hnone
  · by_cases h : g = k
    · subst h
      exact hcomplete p (hmap_k.symm.trans hg)
    · exact hmethods g p _ h (hs.complete g p ((hmap h).symm.trans hg))
  · by_cases h : g = k
    · subst h
      exact hagree p q (hmap_k.symm.trans hp) (hpending_k.symm.trans hq)
    · exact hs.agree g p q ((hmap h).symm.trans hp) ((hpending h).symm.trans hq)
  · by_cases h : g = k
    · subst h
      exact hinflated p (hmethod_k.symm.trans hg)
    · exact hs.inflated g p ((hmethod h).symm.trans hg)
  · obtain ⟨hm, hn, hc⟩ := hs.returned r hr
    refine ⟨fun p hp => ?_, hn, hc⟩
    have hold := hm p hp
    change u.method r.gmethod = some p
    by_cases h : r.gmethod = k
    · rw [h] at hold ⊢
      rw [hmethod_k]
      rcases hk with hk | hk
      · rw [hk, hold]
      · rw [hk] at hold
        cases hold
    · rw [hmethod h, hold]

theorem Inv.rest_not_creates (hs : s.Inv inflatable) (hi : s.threads i = .call k pc :: rest)
    (hholds : (Frame.call k pc).holds = true)
    (hk : (Frame.call k pc).creates k = true ∨ s.pendingMap k = none) :
    ∀ f ∈ rest, f.creates k = false := by
  have hcount := hs.creating i (hs.owner_of_holds hi hholds) k
  rw [hi, List.countP_cons] at hcount
  have hzero : rest.countP (Frame.creates k) = 0 := by
    rcases hk with hk | hk
    · have hle : (s.pendingMap k).isSome.toNat ≤ 1 := Bool.toNat_le _
      rw [if_pos hk] at hcount
      omega
    · rw [hk, Option.isSome_none, Bool.toNat_false] at hcount
      omega
  intro f hf
  exact Bool.eq_false_iff.2 (List.countP_eq_zero.1 hzero f hf)

theorem Inv.addPending (hs : s.Inv inflatable) (hi : s.threads i = .call k .addPending :: rest) :
    ({ s with
      methods := s.methods ++ [(k, false)]
      pendingMap := Function.update s.pendingMap k (some s.methods.length) } : State GMethod).goto
        i k (.setFields s.methods.length) rest |>.Inv inflatable := by
  obtain ⟨hmap, hpending, hk⟩ := hs.frame i _ (by rw [hi]; exact List.mem_cons_self)
  have hnone : s.method k = none := by rw [State.method, hmap, hpending, Option.or_none]
  have h := hs.set_method (.setFields s.methods.length) (s.genericMethodMap k)
    (some s.methods.length) (s.methods ++ [(k, false)]) hi rfl rfl
    (hs.rest_not_creates hi rfl (.inr hpending)) (fun k' => ?_) (fun g p b _ hg => ?_) (.inr hnone)
    (fun p hp => ?_) (fun p q hp => ?_) (fun _ _ => hk) ⟨?_, Function.update_self .., ?_⟩
  · simpa only [Function.update_eq_self] using h
  · by_cases hk' : k' = k
    · subst hk'
      simp [Frame.creates, hpending]
    · simp [Frame.creates, Function.update_of_ne hk', Ne.symm hk']
  · exact (List.getElem?_append_left (List.getElem?_eq_some_iff.1 hg).1).trans hg
  · rw [hmap] at hp
    cases hp
  · rw [hmap] at hp
    cases hp
  · simpa only [Function.update_self] using hmap
  · simp

theorem Inv.setFields (hs : s.Inv inflatable) {p : Ptr}
    (hi : s.threads i = .call k (.setFields p) :: rest) :
    ({ s with
      methods := s.methods.set p (k, true)
      genericMethodMap := Function.update s.genericMethodMap k
        (some ((s.genericMethodMap k).getD p)) } : State GMethod).goto
        i k (.removePending p) rest |>.Inv inflatable := by
  obtain ⟨hmap, hpending, hp⟩ := hs.frame i _ (by rw [hi]; exact List.mem_cons_self)
  have hlt : p < s.methods.length := (List.getElem?_eq_some_iff.1 hp).1
  have hmethod : s.method k = some p := by rw [State.method, hmap, hpending, Option.none_or]
  have h := hs.set_method (.removePending p) (some p) (s.pendingMap k)
    (s.methods.set p (k, true)) hi rfl rfl
    (hs.rest_not_creates hi rfl (.inl (by simp [Frame.creates]))) (fun k' => ?_)
    (fun g q b hg hq => ?_) (.inl hmethod.symm) (fun q hq => ?_) (fun q q' hq hq' => ?_)
    (fun _ _ => hs.inflated k p hmethod) ⟨Function.update_self .., ?_⟩
  · simpa only [Function.update_eq_self, hmap, Option.getD_none] using h
  · rw [Function.update_eq_self]
    rfl
  · refine (List.getElem?_set_ne ?_).trans hq
    rintro rfl
    rw [hp] at hq
    exact hg (congrArg Prod.fst (Option.some_inj.1 hq)).symm
  · cases hq
    exact List.getElem?_set_self hlt
  · exact Option.some_inj.1 (hq.symm.trans (hpending.symm.trans hq'))
  · simpa only [Function.update_eq_self] using hpending

theorem Inv.removePending (hs : s.Inv inflatable) {p : Ptr}
    (hi : s.threads i = .call k (.removePending p) :: rest) :
    ({ s with pendingMap := Function.update s.pendingMap k none } : State GMethod).goto
        i k (.unlock p) rest |>.Inv inflatable := by
  obtain ⟨hmap, hpending⟩ := hs.frame i _ (by rw [hi]; exact List.mem_cons_self)
  have hmethod : s.method k = some p := by rw [State.method, hmap, Option.some_or]
  have h := hs.set_method (.unlock p) (s.genericMethodMap k) none s.methods hi rfl rfl
    (hs.rest_not_creates hi rfl (.inl (by simp [Frame.creates]))) (fun k' => ?_)
    (fun _ _ _ _ hq => hq) (.inl ?_) (fun q hq => hs.complete k q hq) (fun _ _ _ => nofun)
    (fun _ _ => hs.inflated k p hmethod) ?_
  · simpa only [Function.update_eq_self] using h
  · by_cases hk' : k' = k
    · subst hk'
      simp [Frame.creates, hpending]
    · simp [Frame.creates, Function.update_of_ne hk', Ne.symm hk']
  · rw [hmethod, hmap, Option.some_or]
  · change (Function.update s.genericMethodMap k _ k).or _ = some p
    rw [Function.update_self, hmap, Option.some_or]

theorem Inv.runPC (hs : s.Inv inflatable) (hi : s.threads i = .call k pc :: rest)
    (h : s.runPC inflatable i k rest pc = some t) : t.Inv inflatable := by
  have hmem : Frame.call k pc ∈ s.threads i := by rw [hi]; exact List.mem_cons_self
  have hok := hs.frame i _ hmem
  cases pc with
  | tryGet =>
    rw [State.runPC] at h
    cases hm : s.genericMethodMap k with
    | some p =>
      simp only [hm] at h
      cases h
      refine hs.ret hi (fun _ => rfl) (fun q hq => ?_) nofun fun _ => ?_
      · rw [State.method, hm, Option.some_or, hq]
      · simp [State.complete, hs.complete k p hm]
    | none =>
      simp only [hm] at h
      cases h
      exact hs.goto hi rfl (fun _ => rfl) (fun _ => rfl) trivial
  | lock =>
    obtain ⟨ho, h⟩ := Option.ite_none_right_eq_some.1 h
    cases h
    refine hs.acquire ho rfl (fun _ => rfl) trivial (fun g hg => ⟨?_, ?_⟩) fun k' => ?_
    · rw [hi]
      exact List.mem_cons_of_mem _ hg
    · exact hs.requests i g (by rw [hi]; exact hg)
    · rw [hi, List.countP_cons_of_neg (by simp [Frame.creates])]
  | recheck =>
    rw [State.runPC] at h
    cases hm : s.genericMethodMap k with
    | some p =>
      simp only [hm] at h
      cases h
      refine hs.goto hi rfl (fun _ => rfl) (fun _ => rfl) ?_
      change s.method k = some p
      rw [State.method, hm, Option.some_or]
    | none =>
      simp only [hm] at h
      cases h
      exact hs.goto hi rfl (fun _ => rfl) (fun _ => rfl) hm
  | tryGetPending =>
    rw [State.runPC] at h
    cases hp : s.pendingMap k with
    | some p =>
      simp only [hp] at h
      cases h
      refine hs.goto hi rfl (fun _ => rfl) (fun _ => rfl) ?_
      change s.method k = some p
      rw [State.method, show s.genericMethodMap k = none from hok, Option.none_or, hp]
    | none =>
      simp only [hp] at h
      cases h
      exact hs.goto hi rfl (fun _ => rfl) (fun _ => rfl) ⟨hok, hp⟩
  | getClass =>
    rw [State.runPC] at h
    cases hk : inflatable k with
    | true =>
      rw [if_pos hk] at h
      cases h
      exact hs.goto hi rfl (fun _ => rfl) (fun _ => rfl) ⟨hok.1, hok.2, hk⟩
    | false =>
      rw [if_neg (by simp [hk])] at h
      cases h
      exact hs.goto hi rfl (fun _ => rfl) (fun _ => rfl) hk
  | addPending =>
    cases h
    exact hs.addPending hi
  | setFields p =>
    cases h
    exact hs.setFields hi
  | removePending p =>
    cases h
    exact hs.removePending hi
  | unlock result =>
    cases h
    refine hs.ret hi (fun _ => rfl) (fun p hp => ?_) (fun hr => ?_) fun hrest => ?_
    · rw [hp] at hok
      exact hok
    · rw [hr] at hok
      exact hok
    · cases result with
      | none => rfl
      | some p =>
        -- the thread leaves the lock, so the method is in the public map
        have hp : s.pendingMap k = none := hs.pendingMap_eq_none hi (fun _ => rfl) hrest
          (.inl (hs.owner_of_holds hi rfl)) k
        have hm : s.genericMethodMap k = some p := by
          have : s.method k = some p := hok
          rwa [State.method, hp, Option.or_none] at this
        simp [State.complete, hs.complete k p hm]

theorem Inv.step (hs : s.Inv inflatable) {l : Label GMethod}
    (h : GenericMethods.step inflatable s l = some t) : t.Inv inflatable := by
  have hstack {i : ℕ} (hr : (s.threads i).head?.all Frame.requests = true) :
      ∀ f ∈ s.threads i, f ∈ s.threads i ∧ f.requests = true := by
    intro f hf
    refine ⟨hf, ?_⟩
    cases hi : s.threads i with
    | nil =>
      rw [hi] at hf
      cases hf
    | cons g rest =>
      rw [hi] at hf hr
      rcases List.mem_cons.1 hf with rfl | hf
      · simpa using hr
      · exact hs.requests i f (by rw [hi]; exact hf)
  cases l with
  | request i k =>
    obtain ⟨hr, h⟩ := Option.ite_none_right_eq_some.1 h
    cases h
    refine hs.of_thread _ s.owner s.returned ?_ (fun _ _ => Iff.rfl)
      (fun f hf => (hstack hr f hf).2) (fun f hf => ?_) (fun ho k' => ?_) hs.idle hs.returned
    · rw [hs.owner i, List.any_cons]
      rfl
    · rcases List.mem_cons.1 hf with rfl | hf
      · trivial
      · exact hs.frame i f hf
    · rw [List.countP_cons_of_neg (by simp [Frame.creates])]
      exact hs.creating i ho k'
  | enter i =>
    obtain ⟨⟨hr, ho⟩, h⟩ := Option.ite_none_right_eq_some.1 h
    cases h
    exact hs.acquire ho rfl (fun _ => rfl) trivial (hstack hr) fun _ => rfl
  | leave i =>
    simp only [GenericMethods.step] at h
    cases hi : s.threads i with
    | nil =>
      rw [hi] at h
      cases h
    | cons f rest =>
      rw [hi] at h
      cases f with
      | call => cases h
      | locked =>
        cases h
        have ho : s.owner = some i := hs.owner_of_holds hi rfl
        refine hs.pop hi (fun _ => rfl) _ s.returned ?_ (fun j hj => ?_)
          (fun hnone k => ?_) hs.returned
        · cases rest.any Frame.holds <;> simp
        · have hij : i ≠ j := fun h => hj h.symm
          cases rest.any Frame.holds <;> simp [ho, hij]
        · refine hs.pendingMap_eq_none hi (fun _ => rfl) ?_ (.inl ho) k
          cases hr : rest.any Frame.holds with
          | false => rfl
          | true => simp [hr] at hnone
  | run i =>
    simp only [GenericMethods.step] at h
    cases hi : s.threads i with
    | nil =>
      rw [hi] at h
      cases h
    | cons f rest =>
      rw [hi] at h
      cases f with
      | locked => cases h
      | call k pc => exact hs.runPC hi h

/-- What the cache guarantees. -/
structure Canonical (inflatable : GMethod → Bool) (s : State GMethod) : Prop where
  /-- Calls for equal generic methods return the same. -/
  same : ∀ r₁ ∈ s.returned, ∀ r₂ ∈ s.returned, r₁.gmethod = r₂.gmethod → r₁.result = r₂.result
  null : ∀ r ∈ s.returned, r.result = none ↔ inflatable r.gmethod = false
  complete : ∀ r ∈ s.returned, r.inside = false → r.complete = true
  idle : s.owner = none → ∀ k, s.pendingMap k = none

theorem Inv.canonical (hs : s.Inv inflatable) : s.Canonical inflatable := by
  have hnull : ∀ r ∈ s.returned, r.result = none ↔ inflatable r.gmethod = false := by
    intro r hr
    refine ⟨(hs.returned r hr).null, fun hk => ?_⟩
    cases hp : r.result with
    | none => rfl
    | some p =>
      rw [hs.inflated _ p ((hs.returned r hr).method_eq p hp)] at hk
      cases hk
  refine ⟨fun r₁ h₁ r₂ h₂ hk => ?_, hnull, fun r hr => (hs.returned r hr).complete, hs.idle⟩
  cases hp₁ : r₁.result with
  | none =>
    rw [hnull r₁ h₁, hk] at hp₁
    exact ((hnull r₂ h₂).2 hp₁).symm
  | some p₁ =>
    cases hp₂ : r₂.result with
    | none =>
      rw [hnull r₂ h₂, ← hk, hs.inflated _ p₁ ((hs.returned r₁ h₁).method_eq p₁ hp₁)] at hp₂
      cases hp₂
    | some p₂ =>
      have hm₁ := (hs.returned r₁ h₁).method_eq p₁ hp₁
      rw [hk, (hs.returned r₂ h₂).method_eq p₂ hp₂] at hm₁
      exact hm₁.symm

end State

theorem inv_init (inflatable : GMethod → Bool) : (init : State GMethod).Inv inflatable where
  owner _ := by simp [init]
  requests _ _ := nofun
  frame _ _ := nofun
  creating _ := nofun
  idle _ _ := rfl
  complete _ _ := nofun
  agree _ _ _ := nofun
  inflated _ _ := nofun
  returned _ := nofun

/-- **The cache is canonical**: in every run calls for equal generic methods return the same, a
thread outside the lock only receives complete methods, and nothing is pending when the lock is
free. -/
theorem getMethod_canonical {inflatable : GMethod → Bool} {s : State GMethod}
    (h : (lts inflatable).Reachable init s) : s.Canonical inflatable :=
  (h.invariant (inv_init inflatable) fun _ _ _ hs _ ht => State.Inv.step hs ht).canonical

/-- Setting the fields of the first method requests it again, while a second thread waits. -/
def requestedAgain : List (Label Bool) :=
  [.request 0 true, .request 1 true] ++ List.replicate 6 (.run 0) ++ [.run 1, .request 0 true] ++
    List.replicate 5 (.run 0) ++ List.replicate 3 (.run 0) ++ List.replicate 3 (.run 1) ++
    [.request 1 false] ++ List.replicate 6 (.run 1)

theorem getMethod_canonical_requestedAgain : ∃ s : State Bool,
    (lts id).Reachable init s ∧
      (s.returned.map fun r => (r.gmethod, r.result, r.inside, r.complete)) =
        [(false, none, false, true), (true, some 0, false, true), (true, some 0, false, true),
          (true, some 0, true, false)] ∧ s.Canonical id := by
  obtain ⟨s, hs, hr⟩ := LTS.exists_reachWith (f := step id) (G := fun _ _ => True)
    (i := init) requestedAgain
    (fun s => (s.returned.map fun r => (r.gmethod, r.result, r.inside, r.complete)) =
        [(false, none, false, true), (true, some 0, false, true), (true, some 0, false, true),
          (true, some 0, true, false)]) (by decide)
  exact ⟨s, hs, hr, getMethod_canonical hs⟩

end GenericMethods

end Il2Cpp
