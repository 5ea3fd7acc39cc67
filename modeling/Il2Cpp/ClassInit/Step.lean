import Il2Cpp.LTS.Basic

/-!
# Class initialization

`Runtime::ClassInit` runs the static constructor of a class when the class is first used.  Any
number of threads call it, and a constructor may call it again, for its own class too
(`Runtime::Invoke` does so before every constructor).

* `InitState` : the fields of an `Il2CppClass` that it works with.
* `PC` : where a call is.  Every read and every write of a field is a place of its own: the first
  read and most of what follows the check of `cctor_started` is outside of the lock.
* `State` : the classes, the lock and, for each thread, its calls that have not returned, the
  innermost first.  The calls below it are inside of their constructors.
* `step` : the steps of the calls, and what constructors do: call, return and throw.
-/

namespace Il2Cpp

namespace ClassInit

variable {K T E : Type*}

/-- An exception object. -/
inductive Exc (K E : Type*)
  | thrown (e : E)
  /-- `Exception::GetTypeInitializationException` : the message names the class. -/
  | typeInitialization (klass : K) (inner : Exc K E)
  deriving DecidableEq

/-- The fields of `Il2CppClass`. -/
structure InitState (K T E : Type*) where
  cctorFinishedOrNoCctor : Bool
  cctorStarted : Bool
  /-- The thread id, if it is not 0. -/
  cctorThread : Option T
  /-- The target of `initializationExceptionGCHandle`, if that is not 0. -/
  initializationException : Option (Exc K E)
  deriving DecidableEq

/-- Where a call of `ClassInit` is. -/
inductive PC (K E : Type*)
  | entry
  | acquire
  /-- in the lock, before the second look at `cctor_finished_or_no_cctor` -/
  | checkFinished
  | releaseFinished
  | checkStarted
  | releaseStarted
  /-- May have been us and we got here through recursion. -/
  | checkThread
  /-- Wait for other thread to finish executing the constructor. -/
  | pollFinished
  | pollException
  | sleep
  /-- Let others know we have started executing the constructor. -/
  | setThread
  | setStarted
  | releaseStarting
  | getCCtor
  /-- before `Runtime::Invoke` -/
  | invoke
  /-- the constructor runs -/
  | running
  /-- the constructor has ended, with an exception or without -/
  | clearThread (exception : Option (Exc K E))
  | dealWithExceptions (exception : Option (Exc K E))
  /-- before the last read of `initializationExceptionGCHandle` -/
  | checkException
  /-- before `return`, or before `Exception::Raise` -/
  | leaving (exception : Option (Exc K E))
  deriving DecidableEq

/-- A call that has not returned. -/
structure Frame (K E : Type*) where
  klass : K
  pc : PC K E
  deriving DecidableEq

/-- A state of the runtime. -/
structure State (K T E : Type*) where
  klass : K → InitState K T E
  /-- The owner of `s_TypeInitializationLock`. -/
  lock : Option T
  stack : T → List (Frame K E)

/-- What happens. -/
inductive Label (K T E : Type*)
  /-- the code of a thread, perhaps inside of a constructor, calls `ClassInit` -/
  | call (t : T) (k : K)
  /-- the innermost call of a thread takes a step -/
  | next (t : T)
  /-- a constructor is started -/
  | start (t : T) (k : K)
  /-- a constructor ends -/
  | finish (t : T) (k : K) (exception : Option (Exc K E))
  /-- a call returns, or raises an exception -/
  | leave (t : T) (k : K) (exception : Option (Exc K E))
  deriving DecidableEq

/-- The thread that acts. -/
def Label.thread : Label K T E → T
  | call t _ | next t | start t _ | finish t _ _ | leave t _ _ => t

variable [DecidableEq K] [DecidableEq T] [DecidableEq E]

namespace State

variable (s : State K T E)

/-- The fields of a class are written. -/
def setKlass (k : K) (c : InitState K T E) : State K T E :=
  { s with klass := Function.update s.klass k c }

/-- The calls of a thread change. -/
def setStack (t : T) (fs : List (Frame K E)) : State K T E :=
  { s with stack := Function.update s.stack t fs }

end State

/-- The classes before the first call: a class without a static constructor is initialized. -/
def initial (hasCctor : K → Bool) : State K T E where
  klass k := ⟨!hasCctor k, false, none, none⟩
  lock := none
  stack _ := []

/-- A step of `ClassInit(klass)` by the thread `t`, up to the start of the constructor and from its
end on: the new state of the shared data, and where the call is then. -/
def runPC (hasCctor : K → Bool) (s : State K T E) (t : T) (k : K) :
    PC K E → Option (State K T E × PC K E)
  | .entry => some (s, if (s.klass k).cctorFinishedOrNoCctor then .leaving none else .acquire)
  | .acquire => if s.lock = none then some ({ s with lock := some t }, .checkFinished) else none
  | .checkFinished =>
    some (s, if (s.klass k).cctorFinishedOrNoCctor then .releaseFinished else .checkStarted)
  | .releaseFinished => some ({ s with lock := none }, .leaving none)
  | .checkStarted => some (s, if (s.klass k).cctorStarted then .releaseStarted else .setThread)
  | .releaseStarted => some ({ s with lock := none }, .checkThread)
  | .checkThread =>
    some (s, if (s.klass k).cctorThread = some t then .leaving none else .pollFinished)
  | .pollFinished =>
    some (s, if (s.klass k).cctorFinishedOrNoCctor then .checkException else .pollException)
  | .pollException =>
    some (s, if (s.klass k).initializationException = none then .sleep else .checkException)
  | .sleep => some (s, .pollFinished)
  | .setThread => some (s.setKlass k { s.klass k with cctorThread := some t }, .setStarted)
  | .setStarted => some (s.setKlass k { s.klass k with cctorStarted := true }, .releaseStarting)
  | .releaseStarting => some ({ s with lock := none }, .getCCtor)
  | .getCCtor => some (s, if hasCctor k then .invoke else .clearThread none)
  | .clearThread exc =>
    some (s.setKlass k { s.klass k with cctorThread := none }, .dealWithExceptions exc)
  | .dealWithExceptions none =>
    some (s.setKlass k { s.klass k with cctorFinishedOrNoCctor := true }, .checkException)
  | .dealWithExceptions (some exc) =>
    -- `Class::SetClassInitializationError`
    some (s.setKlass k
      { s.klass k with initializationException := some (.typeInitialization k exc) },
      .checkException)
  | .checkException => some (s, .leaving (s.klass k).initializationException)
  | .invoke | .running | .leaving _ => none

/-- A step of the runtime. -/
def step (hasCctor : K → Bool) (s : State K T E) : Label K T E → Option (State K T E)
  | .call t k =>
    match s.stack t with
    | [] | ⟨_, .running⟩ :: _ => some (s.setStack t (⟨k, .entry⟩ :: s.stack t))
    | _ => none
  | .next t =>
    match s.stack t with
    | [] => none
    | ⟨k, pc⟩ :: fs =>
      (runPC hasCctor s t k pc).map fun r => r.1.setStack t (⟨k, r.2⟩ :: fs)
  | .start t k =>
    match s.stack t with
    | f :: fs => if f = ⟨k, .invoke⟩ then some (s.setStack t (⟨k, .running⟩ :: fs)) else none
    | [] => none
  | .finish t k exc =>
    match s.stack t with
    | f :: fs =>
      if f = ⟨k, .running⟩ then some (s.setStack t (⟨k, .clearThread exc⟩ :: fs)) else none
    | [] => none
  | .leave t k exc =>
    match s.stack t with
    | f :: fs => if f = ⟨k, .leaving exc⟩ then some (s.setStack t fs) else none
    | [] => none

/-- The transition system. -/
def lts (hasCctor : K → Bool) : LTS (State K T E) (Label K T E) := .ofFun (step hasCctor)

/-! ### The calls of the threads -/

section

variable {hasCctor : K → Bool} {s s' : State K T E} {l : Label K T E} {t : T}

omit [DecidableEq E] in
theorem stack_of_runPC {k : K} {pc : PC K E} {r : State K T E × PC K E}
    (h : runPC hasCctor s t k pc = some r) : r.1.stack = s.stack := by
  cases pc with
  | acquire =>
    obtain ⟨-, ⟨⟩⟩ := Option.ite_none_right_eq_some.1 h
    rfl
  | dealWithExceptions exc => cases exc <;> cases h <;> rfl
  | _ => cases h <;> rfl

/-- A step adds a call inside of a constructor, takes the innermost call to another place or ends
it. -/
theorem stack_of_step (hst : step hasCctor s l = some s') :
    (∃ k, l = .call l.thread k ∧ (∀ f fs, s.stack l.thread = f :: fs → f.pc = .running) ∧
      s'.stack = Function.update s.stack l.thread (⟨k, .entry⟩ :: s.stack l.thread)) ∨
    ∃ f fs gs, s.stack l.thread = f :: fs ∧ s'.stack = Function.update s.stack l.thread gs ∧
      (gs = fs ∨ ∃ pc, gs = ⟨f.klass, pc⟩ :: fs) := by
  cases l with
  | call t k =>
    simp only [step] at hst
    refine .inl ⟨k, rfl, ?_⟩
    split at hst
    · rename_i htop
      cases hst
      exact ⟨fun f fs h => (nomatch htop.symm.trans h), rfl⟩
    · rename_i htop
      cases hst
      refine ⟨fun f fs h => ?_, rfl⟩
      cases htop.symm.trans h
      rfl
    · cases hst
  | next t =>
    simp only [step] at hst
    split at hst
    · cases hst
    · rename_i k pc fs htop
      obtain ⟨r, hr, rfl⟩ := Option.map_eq_some_iff.1 hst
      refine .inr ⟨_, fs, _, htop, ?_, .inr ⟨r.2, rfl⟩⟩
      rw [State.setStack, stack_of_runPC hr]
      rfl
  | start t k | finish t k exc =>
    simp only [step] at hst
    split at hst
    · rename_i f fs htop
      obtain ⟨rfl, ⟨⟩⟩ := Option.ite_none_right_eq_some.1 hst
      exact .inr ⟨_, fs, _, htop, rfl, .inr ⟨_, rfl⟩⟩
    · cases hst
  | leave t k exc =>
    simp only [step] at hst
    split at hst
    · rename_i f fs htop
      obtain ⟨rfl, ⟨⟩⟩ := Option.ite_none_right_eq_some.1 hst
      exact .inr ⟨_, fs, _, htop, rfl, .inl rfl⟩
    · cases hst

theorem stack_of_thread_ne (hst : step hasCctor s l = some s') (hl : l.thread ≠ t) :
    s'.stack t = s.stack t := by
  rcases stack_of_step hst with ⟨k, -, -, h⟩ | ⟨f, fs, gs, -, h, -⟩
  · rw [h, Function.update_of_ne hl.symm]
  · rw [h, Function.update_of_ne hl.symm]

end

end ClassInit

end Il2Cpp
