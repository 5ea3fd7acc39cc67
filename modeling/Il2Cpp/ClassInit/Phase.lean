import Il2Cpp.ClassInit.Step

/-!
# The phases of the initialization of a class

* `Phase` : how far the initialization of a class is, and in which thread.
* `Inv` : the fields of a class are those of its phase; a call inside of the initialization is where
  the phase says, and only one is; a call that leaves has seen a phase that allows it.
* `Inv.move` : the innermost call of a thread takes a step and moves its class to the next phase.
* `Inv.call`, `Inv.runPC`, `Inv.start`, `Inv.finish`, `Inv.leave` : what the steps do to the phases.
-/

namespace Il2Cpp

namespace ClassInit

variable {K T E : Type*}

/-! ### Phases -/

/-- How far the initialization of a class is. -/
inductive Phase (K T E : Type*)
  | untouched
  /-- `cctor_thread` is set -/
  | claimed (t : T)
  /-- `cctor_started` is set -/
  | starting (t : T)
  | running (t : T)
  | ended (t : T) (exception : Option (Exc K E))
  /-- `cctor_thread` is 0 again -/
  | cleared (t : T) (exception : Option (Exc K E))
  | done (exception : Option (Exc K E))

/-- The thread that initializes the class. -/
def Phase.owner : Phase K T E → Option T
  | untouched | done _ => none
  | claimed t | starting t | running t | ended t _ | cleared t _ => some t

/-- `cctor_started` is set in the phase. -/
def Phase.started : Phase K T E → Bool
  | untouched | claimed _ => false
  | starting _ | running _ | ended _ _ | cleared _ _ | done _ => true

/-- What the callers can tell of the initialization of a class. -/
inductive Status (K T E : Type*)
  | idle
  | running (t : T)
  | finished (exception : Option (Exc K E))

/-- The status in a phase. -/
def Phase.status : Phase K T E → Status K T E
  | untouched | claimed _ | starting _ => .idle
  | running t => .running t
  | ended _ exc | cleared _ exc | done exc => .finished exc

/-- The fields of a class in a phase.  A class without a static constructor is in the last one,
but it was never started. -/
def Phase.fields (hasCctor : K → Bool) (k : K) : Phase K T E → InitState K T E
  | untouched => ⟨false, false, none, none⟩
  | claimed t => ⟨false, false, some t, none⟩
  | starting t | running t | ended t _ => ⟨false, true, some t, none⟩
  | cleared _ _ => ⟨false, true, none, none⟩
  | done none => ⟨true, hasCctor k, none, none⟩
  | done (some exc) => ⟨false, true, none, some (.typeInitialization k exc)⟩

/-- The phase that a call inside of the initialization is in. -/
def PC.phase? (t : T) : PC K E → Option (Phase K T E)
  | .setStarted => some (.claimed t)
  | .releaseStarting | .getCCtor | .invoke => some (.starting t)
  | .running => some (.running t)
  | .clearThread exc => some (.ended t exc)
  | .dealWithExceptions exc => some (.cleared t exc)
  | _ => none

/-- The places in the lock. -/
def PC.Locked : PC K E → Prop
  | .checkFinished | .releaseFinished | .checkStarted | .releaseStarted | .setThread | .setStarted
  | .releaseStarting => True
  | _ => False

/-- The next phase, by a step of the thread `t`. -/
inductive Phase.Step (t : T) : Phase K T E → Phase K T E → Prop
  | claim : Step t .untouched (.claimed t)
  | begin : Step t (.claimed t) (.starting t)
  | start : Step t (.starting t) (.running t)
  | finish (exc : Option (Exc K E)) : Step t (.running t) (.ended t exc)
  | clear (exc : Option (Exc K E)) : Step t (.ended t exc) (.cleared t exc)
  | publish (exc : Option (Exc K E)) : Step t (.cleared t exc) (.done exc)

/-! ### The invariant -/

/-- What a call of the thread `t` knows about the phase of its class. -/
def FrameOk (hasCctor : K → Bool) (t : T) (k : K) (p : Phase K T E) : PC K E → Prop
  | .entry | .acquire | .checkFinished => True
  | .releaseFinished => p = .done none
  | .checkStarted => hasCctor k = true
  | .releaseStarted | .checkThread | .pollFinished | .pollException | .sleep =>
    hasCctor k = true ∧ p.started = true
  | .setThread => hasCctor k = true ∧ p = .untouched
  | .setStarted => hasCctor k = true ∧ p = .claimed t
  | .releaseStarting | .getCCtor | .invoke => hasCctor k = true ∧ p = .starting t
  | .running => hasCctor k = true ∧ p = .running t
  | .clearThread exc => hasCctor k = true ∧ p = .ended t exc
  | .dealWithExceptions exc => hasCctor k = true ∧ p = .cleared t exc
  | .checkException => hasCctor k = true ∧ ∃ exc, p = .done exc
  | .leaving none => p = .done none ∨ hasCctor k = true ∧ p = .running t
  | .leaving (some e) =>
    hasCctor k = true ∧ ∃ exc, p = .done (some exc) ∧ e = .typeInitialization k exc

/-- **The invariant**, for the phases `φ` of the classes. -/
structure Inv (hasCctor : K → Bool) (s : State K T E) (φ : K → Phase K T E) : Prop where
  fields : ∀ k, s.klass k = (φ k).fields hasCctor k
  noCctor : ∀ k, hasCctor k = false → φ k = .done none
  frame : ∀ t, ∀ f ∈ s.stack t, FrameOk hasCctor t f.klass (φ f.klass) f.pc
  lock : ∀ t, s.lock = some t ↔ ∃ f ∈ s.stack t, f.pc.Locked
  /-- The thread that initializes a class has a call there. -/
  owner : ∀ k t, (φ k).owner = some t → ∃ f ∈ s.stack t, f.klass = k ∧ f.pc.phase? t = some (φ k)
  /-- Only the innermost call is not inside of its constructor. -/
  below : ∀ t, ∀ f ∈ (s.stack t).tail, f.pc = .running
  /-- A thread has one call inside of the initialization of a class. -/
  unique : ∀ t, (s.stack t).Pairwise fun f g =>
    (f.pc.phase? t).isSome → (g.pc.phase? t).isSome → f.klass ≠ g.klass

theorem FrameOk.phase_eq {hasCctor : K → Bool} {t : T} {k : K} {p q : Phase K T E} {pc : PC K E}
    (h : FrameOk hasCctor t k p pc) (hpc : pc.phase? t = some q) : p = q := by
  cases pc with
  | leaving e => cases hpc
  | setStarted | releaseStarting | getCCtor | invoke | running | clearThread | dealWithExceptions =>
    exact h.2.trans (Option.some.inj hpc)
  | _ => cases hpc

theorem Phase.Step.owner {t : T} {p q : Phase K T E} (h : Phase.Step t p q) :
    p = .untouched ∨ p.owner = some t := by
  cases h with
  | claim => exact .inl rfl
  | _ => exact .inr rfl

theorem Phase.Step.owner_eq {t t' : T} {p q : Phase K T E} (h : Phase.Step t p q)
    (hq : q.owner = some t') : t' = t := by
  cases h with
  | publish => cases hq
  | _ => exact (Option.some.inj hq).symm

theorem Phase.Step.started {t : T} {p q : Phase K T E} (h : Phase.Step t p q)
    (hp : p.started = true) : q.started = true := by
  cases h with
  | claim => exact Bool.noConfusion hp
  | _ => rfl

/-- What a call of another thread knows stays true in the next phase, unless it is going to claim
the class itself. -/
theorem FrameOk.step {hasCctor : K → Bool} {t t' : T} {k : K} {p q : Phase K T E} {pc : PC K E}
    (h : FrameOk hasCctor t' k p pc) (hne : t' ≠ t) (hst : Phase.Step t p q)
    (hclaim : pc ≠ .setThread) : FrameOk hasCctor t' k q pc := by
  have howner : ∀ r, p = r → r.owner = some t' → False := by
    rintro r rfl hr
    rcases hst.owner with rfl | hp
    · cases hr
    · exact hne (Option.some.inj (hr.symm.trans hp))
  have hdone : ∀ exc, p = .done exc → False := by
    rintro exc rfl
    cases hst
  cases pc with
  | entry | acquire | checkFinished => trivial
  | checkStarted => exact h
  | releaseFinished => exact (hdone _ h).elim
  | releaseStarted | checkThread | pollFinished | pollException | sleep =>
    exact ⟨h.1, hst.started h.2⟩
  | setThread => exact absurd rfl hclaim
  | setStarted | releaseStarting | getCCtor | invoke | running | clearThread | dealWithExceptions =>
    exact (howner _ h.2 rfl).elim
  | checkException => exact (hdone _ h.2.choose_spec).elim
  | leaving exc =>
    cases exc with
    | none =>
      rcases h with h | h
      · exact (hdone _ h).elim
      · exact (howner _ h.2 rfl).elim
    | some e => exact (hdone _ h.2.choose_spec.1).elim

section

variable {hasCctor : K → Bool} {s s' : State K T E} {φ : K → Phase K T E} {t : T} {k : K}
  {pc pc' : PC K E} {fs : List (Frame K E)} {p : Phase K T E}

theorem PC.owner_of_phase? {q : Phase K T E} (h : pc.phase? t = some q) : q.owner = some t := by
  cases pc with
  | setStarted | releaseStarting | getCCtor | invoke | running | clearThread | dealWithExceptions =>
    cases h
    rfl
  | _ => cases h

theorem Inv.lock_iff (hi : Inv hasCctor s φ) (htop : s.stack t = ⟨k, pc⟩ :: fs) :
    s.lock = some t ↔ pc.Locked := by
  rw [hi.lock, htop]
  refine ⟨?_, fun h => ⟨_, List.mem_cons_self, h⟩⟩
  rintro ⟨f, hf, h⟩
  rcases List.mem_cons.1 hf with rfl | hf
  · exact h
  · have hrun := hi.below t f
    rw [htop] at hrun
    rw [hrun hf] at h
    exact h.elim

theorem PC.locked_of_claimed {t' : T} (h : pc.phase? t = some (Phase.claimed t')) : pc.Locked := by
  cases pc with
  | setStarted => trivial
  | _ => cases h

theorem Inv.top_ok (hi : Inv hasCctor s φ) (htop : s.stack t = ⟨k, pc⟩ :: fs) :
    FrameOk hasCctor t k (φ k) pc := by
  have hok := hi.frame t ⟨k, pc⟩
  rw [htop] at hok
  exact hok List.mem_cons_self

/-- A class that the thread initializes, if the innermost call is not the one that does: then it is
below, inside of the constructor. -/
theorem Inv.running_of_owner (hi : Inv hasCctor s φ) (htop : s.stack t = ⟨k, pc⟩ :: fs)
    (hpc : (pc.phase? t : Option (Phase K T E)) = none) (ho : (φ k).owner = some t) :
    φ k = .running t := by
  obtain ⟨f, hf, -, hphase⟩ := hi.owner k t ho
  have hrun := hi.below t f
  rw [htop] at hf hrun
  rcases List.mem_cons.1 hf with rfl | hf
  · rw [hpc] at hphase
    cases hphase
  · rw [hrun hf] at hphase
    exact (Option.some.inj hphase).symm

/-- A thread that initializes a class, and not in the constructor, has its innermost call there. -/
theorem Inv.exists_top (hi : Inv hasCctor s φ) (ho : (φ k).owner = some t)
    (hp : φ k ≠ .running t) :
    ∃ pc fs, s.stack t = ⟨k, pc⟩ :: fs ∧ pc.phase? t = some (φ k) := by
  obtain ⟨f, hf, rfl, hphase⟩ := hi.owner k t ho
  have hbelow := hi.below t f
  obtain ⟨g, gs, hg⟩ := List.exists_cons_of_ne_nil (List.ne_nil_of_mem hf)
  rw [hg] at hf hbelow
  rcases List.mem_cons.1 hf with rfl | hf
  · exact ⟨f.pc, gs, hg, hphase⟩
  · rw [hbelow hf] at hphase
    exact absurd (Option.some.inj hphase).symm hp

/-! ### What the fields say of the phase -/

theorem Phase.finished_iff :
    (p.fields hasCctor k).cctorFinishedOrNoCctor = true ↔ p = .done none := by
  rcases p with _ | _ | _ | _ | _ | _ | (_ | _) <;> simp [fields]

theorem Phase.started_eq (hk : hasCctor k = true) :
    (p.fields hasCctor k).cctorStarted = p.started := by
  rcases p with _ | _ | _ | _ | _ | _ | (_ | _) <;> simp [fields, started, hk]

theorem Phase.owner_of_thread (h : (p.fields hasCctor k).cctorThread = some t) :
    p.owner = some t := by
  rcases p with _ | _ | _ | _ | _ | _ | (_ | _) <;> simp_all [fields, owner]

theorem Phase.exception_eq {e : Exc K E}
    (h : (p.fields hasCctor k).initializationException = some e) :
    ∃ exc, p = .done (some exc) ∧ e = .typeInitialization k exc := by
  rcases p with _ | _ | _ | _ | _ | _ | (_ | exc)
  case done.some => exact ⟨exc, rfl, (Option.some.inj h).symm⟩
  all_goals cases h

theorem Inv.hasCctor_of_not_finished (hi : Inv hasCctor s φ)
    (h : ¬ (s.klass k).cctorFinishedOrNoCctor = true) : hasCctor k = true := by
  rw [hi.fields, Phase.finished_iff] at h
  by_contra hk
  exact h (hi.noCctor k (Bool.eq_false_iff.2 hk))

end

variable [DecidableEq K] [DecidableEq T]

section

variable {hasCctor : K → Bool} {s s' : State K T E} {φ : K → Phase K T E} {t : T} {k : K}
  {pc pc' : PC K E} {fs : List (Frame K E)} {p : Phase K T E}

/-- **A step of the innermost call** of the thread `t`, which moves its class to the phase `p`. -/
theorem Inv.move (hi : Inv hasCctor s φ) (htop : s.stack t = ⟨k, pc⟩ :: fs)
    (hklass : s'.klass = Function.update s.klass k (p.fields hasCctor k))
    (hstack : s'.stack = Function.update s.stack t (⟨k, pc'⟩ :: fs))
    (hlock : s'.lock = s.lock ∨ s.lock = none ∧ s'.lock = some t ∨ s.lock = some t ∧ s'.lock = none)
    (hlocked : s'.lock = some t ↔ pc'.Locked)
    (hp : p = φ k ∨ Phase.Step t (φ k) p) (hclaim : φ k = .untouched → p ≠ φ k → s.lock = some t)
    (hframe : FrameOk hasCctor t k p pc')
    (howner : p.owner = some t → pc'.phase? t = some p ∨ p = φ k ∧ pc.phase? t = none)
    (hinside : (pc.phase? t).isSome ∨ φ k = .untouched ∨ p = φ k ∧ pc'.phase? t = none) :
    Inv hasCctor s' (Function.update φ k p) := by
  have hmem : ∀ f ∈ fs, f ∈ s.stack t := by
    intro f hf
    rw [htop]
    exact List.mem_cons_of_mem _ hf
  have hbelow : ∀ f ∈ fs, f.pc = .running := by
    intro f hf
    refine hi.below t f ?_
    rw [htop]
    exact hf
  have hpair := hi.unique t
  rw [htop, List.pairwise_cons] at hpair
  -- a call below that runs the constructor of the same class: then nothing moves
  have hsame : ∀ f ∈ fs, f.klass = k → p = φ k ∧ pc'.phase? t = none := by
    rintro f hf rfl
    have hrun := hi.frame t f (hmem f hf)
    rw [hbelow f hf] at hrun
    rcases hinside with h | h | h
    · exact absurd rfl (hpair.1 f hf h (by rw [hbelow f hf]; rfl))
    · rw [h] at hrun
      cases hrun.2
    · exact h
  refine ⟨fun k' => ?_, fun k' hk' => ?_, fun t' f hf => ?_, fun t' => ?_,
    fun k' t' hk' => ?_, fun t' f hf => ?_, fun t' => ?_⟩
  · rw [hklass]
    rcases eq_or_ne k' k with rfl | hk
    · simp
    · simpa [hk] using hi.fields k'
  · rcases eq_or_ne k' k with rfl | hk
    · have hdone := hi.noCctor k' hk'
      rw [Function.update_self]
      rcases hp with hp | hp
      · rw [hp, hdone]
      · rw [hdone] at hp
        cases hp
    · rw [Function.update_of_ne hk]
      exact hi.noCctor k' hk'
  · rw [hstack] at hf
    rcases eq_or_ne t' t with rfl | ht
    · rw [Function.update_self] at hf
      rcases List.mem_cons.1 hf with rfl | hf
      · simpa using hframe
      · rw [Function.update_apply]
        split_ifs with hk
        · rw [(hsame f hf hk).1, ← hk]
          exact hi.frame t' f (hmem f hf)
        · exact hi.frame t' f (hmem f hf)
    · rw [Function.update_of_ne ht] at hf
      have hok := hi.frame t' f hf
      rw [Function.update_apply]
      split_ifs with hk
      · rw [hk] at hok ⊢
        rcases hp with rfl | hp
        · exact hok
        · refine hok.step ht hp fun hpc => ?_
          -- both threads would be in the lock
          have hl := (hi.lock t').2 ⟨f, hf, by rw [hpc]; trivial⟩
          rw [hpc] at hok
          rw [hclaim hok.2 (by rintro rfl; rw [hok.2] at hp; cases hp)] at hl
          exact ht (Option.some.inj hl).symm
      · exact hok
  · rw [hstack]
    rcases eq_or_ne t' t with rfl | ht
    · rw [Function.update_self, hlocked]
      refine ⟨fun h => ⟨_, List.mem_cons_self, h⟩, ?_⟩
      rintro ⟨f, hf, h⟩
      rcases List.mem_cons.1 hf with rfl | hf
      · exact h
      · rw [hbelow f hf] at h
        exact h.elim
    · rw [Function.update_of_ne ht, ← hi.lock t']
      rcases hlock with h | ⟨h, h'⟩ | ⟨h, h'⟩
      · rw [h]
      · simp [h, h', Ne.symm ht]
      · simp [h, h', Ne.symm ht]
  · rw [Function.update_apply] at hk' ⊢
    rw [hstack]
    -- a call that was inside and is not the one that moves
    have hold : (φ k').owner = some t' → (t' = t → k' = k → pc.phase? t = none) →
        ∃ f ∈ Function.update s.stack t (⟨k, pc'⟩ :: fs) t', f.klass = k' ∧
          f.pc.phase? t' = some (φ k') := by
      intro ho hpc
      obtain ⟨f, hf, rfl, hphase⟩ := hi.owner k' t' ho
      refine ⟨f, ?_, rfl, hphase⟩
      rcases eq_or_ne t' t with rfl | ht
      · rw [Function.update_self]
        rw [htop] at hf
        rcases List.mem_cons.1 hf with rfl | hf
        · rw [hpc rfl rfl] at hphase
          cases hphase
        · exact List.mem_cons_of_mem _ hf
      · rwa [Function.update_of_ne ht]
    split_ifs at hk' ⊢ with hk
    · subst hk
      by_cases hpk : t' = t ∧ pc'.phase? t = some p
      · obtain ⟨rfl, hpc'⟩ := hpk
        exact ⟨⟨k', pc'⟩, by rw [Function.update_self]; exact List.mem_cons_self, rfl, hpc'⟩
      · have hsame : p = φ k' ∧ (t' = t → pc.phase? t = none) := by
          rcases hp with hp | hp
          · refine ⟨hp, ?_⟩
            rintro rfl
            rcases howner hk' with h | h
            · exact absurd ⟨rfl, h⟩ hpk
            · exact h.2
          · obtain rfl := hp.owner_eq hk'
            rcases howner hk' with h | h
            · exact absurd ⟨rfl, h⟩ hpk
            · exact ⟨h.1, fun _ => h.2⟩
        rw [hsame.1] at hk' ⊢
        exact hold hk' fun ht _ => hsame.2 ht
    · exact hold hk' fun _ h => absurd h hk
  · rw [hstack] at hf
    rcases eq_or_ne t' t with rfl | ht
    · rw [Function.update_self] at hf
      exact hbelow f hf
    · rw [Function.update_of_ne ht] at hf
      exact hi.below t' f hf
  · rw [hstack]
    rcases eq_or_ne t' t with rfl | ht
    · rw [Function.update_self, List.pairwise_cons]
      refine ⟨fun f hf h _ hk => ?_, hpair.2⟩
      rw [(hsame f hf hk.symm).2] at h
      exact Bool.noConfusion h
    · rw [Function.update_of_ne ht]
      exact hi.unique t'

theorem Inv.stay (hi : Inv hasCctor s φ) (htop : s.stack t = ⟨k, pc⟩ :: fs)
    (hklass : s'.klass = s.klass) (hstack : s'.stack = Function.update s.stack t (⟨k, pc'⟩ :: fs))
    (hlock : s'.lock = s.lock ∨ s.lock = none ∧ s'.lock = some t ∨ s.lock = some t ∧ s'.lock = none)
    (hlocked : s'.lock = some t ↔ pc'.Locked) (hframe : FrameOk hasCctor t k (φ k) pc')
    (hphase : pc'.phase? t = (pc.phase? t : Option (Phase K T E))) : Inv hasCctor s' φ := by
  have hok := hi.top_ok htop
  have hsame : s'.klass = Function.update s.klass k ((φ k).fields hasCctor k) := by
    rw [hklass, ← hi.fields k, Function.update_eq_self]
  have hmove := hi.move htop hsame hstack hlock hlocked (.inl rfl) (fun _ h => absurd rfl h) hframe
    ?_ ?_
  · rwa [Function.update_eq_self] at hmove
  · intro _
    cases hpc : (pc.phase? t : Option (Phase K T E)) with
    | none => exact .inr ⟨rfl, rfl⟩
    | some q => exact .inl (hphase.trans (hpc.trans (congrArg some (hok.phase_eq hpc).symm)))
  · cases hpc : (pc.phase? t : Option (Phase K T E)) with
    | none => exact .inr (.inr ⟨rfl, hphase.trans hpc⟩)
    | some q => exact .inl rfl

theorem Inv.advance (hi : Inv hasCctor s φ) (htop : s.stack t = ⟨k, pc⟩ :: fs)
    (hklass : s'.klass = Function.update s.klass k (p.fields hasCctor k))
    (hstack : s'.stack = Function.update s.stack t (⟨k, pc'⟩ :: fs)) (hlock : s'.lock = s.lock)
    (hlocked : pc'.Locked ↔ pc.Locked) (hp : Phase.Step t (φ k) p)
    (hframe : FrameOk hasCctor t k p pc')
    (hinside : (pc.phase? t : Option (Phase K T E)).isSome ∨ pc = .setThread)
    (howner : p.owner = some t → pc'.phase? t = some p) :
    Inv hasCctor s' (Function.update φ k p) := by
  have hok := hi.top_ok htop
  refine hi.move htop hklass hstack (.inl hlock) ?_ (.inr hp) (fun hu _ => ?_) hframe
    (fun h => .inl (howner h)) ?_
  · rw [hlock, hlocked, hi.lock_iff htop]
  · rcases hinside with h | rfl
    · obtain ⟨q, hq⟩ := Option.isSome_iff_exists.1 h
      have ho := PC.owner_of_phase? hq
      rw [← hok.phase_eq hq, hu] at ho
      cases ho
    · exact (hi.lock_iff htop).2 trivial
  · rcases hinside with h | rfl
    · exact .inl h
    · exact .inr (.inl hok.2)

/-! ### Steps -/

/-- **A step of a call** up to the start of the constructor, or from its end on. -/
theorem Inv.runPC (hi : Inv hasCctor s φ) (htop : s.stack t = ⟨k, pc⟩ :: fs)
    {r : State K T E × PC K E} (hr : runPC hasCctor s t k pc = some r)
    (hs' : s' = r.1.setStack t (⟨k, r.2⟩ :: fs)) :
    ∃ p, Inv hasCctor s' (Function.update φ k p) ∧ p.status = (φ k).status ∧
      ∀ exc, φ k = .done exc → p = .done exc := by
  have hok := hi.top_ok htop
  have hlock := hi.lock_iff htop
  have hstay : Inv hasCctor s' φ → ∃ p, Inv hasCctor s' (Function.update φ k p) ∧
      p.status = (φ k).status ∧ ∀ exc, φ k = .done exc → p = .done exc := fun h =>
    ⟨φ k, by rwa [Function.update_eq_self], rfl, fun _ h => h⟩
  have hnext : ∀ p, Phase.Step t (φ k) p → p.status = (φ k).status →
      Inv hasCctor s' (Function.update φ k p) → ∃ p, Inv hasCctor s' (Function.update φ k p) ∧
      p.status = (φ k).status ∧ ∀ exc, φ k = .done exc → p = .done exc := by
    refine fun p hp hstatus h => ⟨p, h, hstatus, fun exc hdone => ?_⟩
    rw [hdone] at hp
    cases hp
  subst hs'
  cases pc with
  | entry =>
    cases hr
    refine hstay ?_
    by_cases hfin : (s.klass k).cctorFinishedOrNoCctor = true
    · simp only [hfin, if_true]
      rw [hi.fields, Phase.finished_iff] at hfin
      exact hi.stay htop rfl rfl (.inl rfl) hlock (.inl hfin) rfl
    · simp only [hfin]
      exact hi.stay htop rfl rfl (.inl rfl) hlock trivial rfl
  | acquire =>
    obtain ⟨hfree, hr⟩ := Option.ite_none_right_eq_some.1 hr
    cases hr
    exact hstay (hi.stay htop rfl rfl (.inr (.inl ⟨hfree, rfl⟩)) (iff_of_true rfl trivial) trivial
      rfl)
  | checkFinished =>
    cases hr
    refine hstay ?_
    by_cases hfin : (s.klass k).cctorFinishedOrNoCctor = true
    · simp only [hfin, if_true]
      rw [hi.fields, Phase.finished_iff] at hfin
      exact hi.stay htop rfl rfl (.inl rfl) hlock hfin rfl
    · simp only [hfin]
      exact hi.stay htop rfl rfl (.inl rfl) hlock (hi.hasCctor_of_not_finished hfin) rfl
  | releaseFinished =>
    cases hr
    exact hstay (hi.stay htop rfl rfl (.inr (.inr ⟨hlock.2 trivial, rfl⟩))
      (iff_of_false (by simp [State.setStack]) id) (.inl hok) rfl)
  | checkStarted =>
    cases hr
    refine hstay ?_
    by_cases hstarted : (s.klass k).cctorStarted = true
    · simp only [hstarted, if_true]
      rw [hi.fields, Phase.started_eq hok] at hstarted
      exact hi.stay htop rfl rfl (.inl rfl) hlock ⟨hok, hstarted⟩ rfl
    · simp only [hstarted]
      rw [hi.fields, Phase.started_eq hok] at hstarted
      refine hi.stay htop rfl rfl (.inl rfl) hlock ⟨hok, ?_⟩ rfl
      cases hp : φ k with
      | untouched => rfl
      | claimed t' =>
        -- another call between its two writes would have the lock
        obtain ⟨f, hf, -, hphase⟩ := hi.owner k t' (by rw [hp]; rfl)
        rw [hp] at hphase
        obtain rfl : t = t' := Option.some.inj ((hlock.2 trivial).symm.trans
          ((hi.lock t').2 ⟨f, hf, PC.locked_of_claimed hphase⟩))
        have hrun := hi.running_of_owner htop rfl (by rw [hp]; rfl)
        rw [hp] at hrun
        cases hrun
      | _ => simp [hp, Phase.started] at hstarted
  | releaseStarted =>
    cases hr
    exact hstay (hi.stay htop rfl rfl (.inr (.inr ⟨hlock.2 trivial, rfl⟩))
      (iff_of_false (by simp [State.setStack]) id) hok rfl)
  | checkThread =>
    cases hr
    refine hstay ?_
    by_cases hthread : (s.klass k).cctorThread = some t
    · simp only [hthread, if_true]
      rw [hi.fields] at hthread
      exact hi.stay htop rfl rfl (.inl rfl) hlock
        (.inr ⟨hok.1, hi.running_of_owner htop rfl (Phase.owner_of_thread hthread)⟩) rfl
    · simp only [hthread, if_false]
      exact hi.stay htop rfl rfl (.inl rfl) hlock hok rfl
  | pollFinished =>
    cases hr
    refine hstay ?_
    by_cases hfin : (s.klass k).cctorFinishedOrNoCctor = true
    · simp only [hfin, if_true]
      rw [hi.fields, Phase.finished_iff] at hfin
      exact hi.stay htop rfl rfl (.inl rfl) hlock ⟨hok.1, none, hfin⟩ rfl
    · simp only [hfin]
      exact hi.stay htop rfl rfl (.inl rfl) hlock hok rfl
  | pollException =>
    cases hr
    refine hstay ?_
    by_cases hexc : (s.klass k).initializationException = none
    · simp only [hexc, if_true]
      exact hi.stay htop rfl rfl (.inl rfl) hlock hok rfl
    · simp only [hexc, if_false]
      obtain ⟨e, he⟩ := Option.ne_none_iff_exists'.1 hexc
      rw [hi.fields] at he
      obtain ⟨exc, hp, -⟩ := Phase.exception_eq he
      exact hi.stay htop rfl rfl (.inl rfl) hlock ⟨hok.1, some exc, hp⟩ rfl
  | sleep =>
    cases hr
    exact hstay (hi.stay htop rfl rfl (.inl rfl) hlock hok rfl)
  | setThread =>
    cases hr
    refine hnext (.claimed t) ?_ ?_ (hi.advance htop ?_ rfl rfl (iff_of_true trivial trivial) ?_
      ⟨hok.1, rfl⟩ (.inr rfl) fun _ => rfl)
    · rw [hok.2]
      exact .claim
    · rw [hok.2]
      rfl
    · rw [State.setStack, State.setKlass, hi.fields, hok.2]
      rfl
    · rw [hok.2]
      exact .claim
  | setStarted =>
    cases hr
    refine hnext (.starting t) ?_ ?_ (hi.advance htop ?_ rfl rfl (iff_of_true trivial trivial) ?_
      ⟨hok.1, rfl⟩ (.inl rfl) fun _ => rfl)
    · rw [hok.2]
      exact .begin
    · rw [hok.2]
      rfl
    · rw [State.setStack, State.setKlass, hi.fields, hok.2]
      rfl
    · rw [hok.2]
      exact .begin
  | releaseStarting =>
    cases hr
    exact hstay (hi.stay htop rfl rfl (.inr (.inr ⟨hlock.2 trivial, rfl⟩))
      (iff_of_false (by simp [State.setStack]) id) hok rfl)
  | getCCtor =>
    cases hr
    refine hstay ?_
    simp only [hok.1, if_true]
    exact hi.stay htop rfl rfl (.inl rfl) hlock hok rfl
  | clearThread exc =>
    cases hr
    refine hnext (.cleared t exc) ?_ ?_ (hi.advance htop ?_ rfl rfl (iff_of_false id id) ?_
      ⟨hok.1, rfl⟩ (.inl rfl) fun _ => rfl)
    · rw [hok.2]
      exact .clear exc
    · rw [hok.2]
      rfl
    · rw [State.setStack, State.setKlass, hi.fields, hok.2]
      rfl
    · rw [hok.2]
      exact .clear exc
  | dealWithExceptions exc =>
    have hstep : Phase.Step t (φ k) (.done exc) := by
      rw [hok.2]
      exact .publish exc
    have hstatus : (Phase.done exc : Phase K T E).status = (φ k).status := by
      rw [hok.2]
      rfl
    cases exc with
    | none =>
      cases hr
      refine hnext _ hstep hstatus (hi.advance htop ?_ rfl rfl (iff_of_false id id) hstep
        ⟨hok.1, _, rfl⟩ (.inl rfl) (by rintro ⟨⟩))
      rw [State.setStack, State.setKlass, hi.fields, hok.2]
      simp only [Phase.fields, hok.1]
    | some e =>
      cases hr
      refine hnext _ hstep hstatus (hi.advance htop ?_ rfl rfl (iff_of_false id id) hstep
        ⟨hok.1, _, rfl⟩ (.inl rfl) (by rintro ⟨⟩))
      rw [State.setStack, State.setKlass, hi.fields, hok.2]
      rfl
  | checkException =>
    cases hr
    obtain ⟨hk, exc, hp⟩ := hok
    have hframe : FrameOk hasCctor t k (φ k) (.leaving (s.klass k).initializationException) := by
      rw [hi.fields, hp]
      cases exc with
      | none => exact .inl rfl
      | some e => exact ⟨hk, e, rfl, rfl⟩
    exact hstay (hi.stay htop rfl rfl (.inl rfl) hlock hframe rfl)
  | invoke => cases hr
  | running => cases hr
  | leaving _ => cases hr

omit [DecidableEq K] in
theorem Inv.call (hi : Inv hasCctor s φ) (hrun : ∀ f ∈ s.stack t, f.pc = .running) (k : K) :
    Inv hasCctor (s.setStack t (⟨k, .entry⟩ :: s.stack t)) φ := by
  have hother : ∀ t', t' ≠ t → (s.setStack t (⟨k, .entry⟩ :: s.stack t)).stack t' = s.stack t' :=
    fun t' h => Function.update_of_ne h _ _
  have hself : (s.setStack t (⟨k, .entry⟩ :: s.stack t)).stack t = ⟨k, .entry⟩ :: s.stack t :=
    Function.update_self ..
  refine ⟨hi.fields, hi.noCctor, fun t' f hf => ?_, fun t' => ?_, fun k' t' ho => ?_,
    fun t' f hf => ?_, fun t' => ?_⟩
  all_goals rcases eq_or_ne t' t with rfl | ht
  · rw [hself] at hf
    rcases List.mem_cons.1 hf with rfl | hf
    · trivial
    · exact hi.frame t' f hf
  · rw [hother t' ht] at hf
    exact hi.frame t' f hf
  · rw [hself]
    refine (hi.lock t').trans ⟨fun ⟨f, hf, h⟩ => ⟨f, List.mem_cons_of_mem _ hf, h⟩, ?_⟩
    rintro ⟨f, hf, h⟩
    rcases List.mem_cons.1 hf with rfl | hf
    · exact h.elim
    · exact ⟨f, hf, h⟩
  · rw [hother t' ht]
    exact hi.lock t'
  · obtain ⟨f, hf, h⟩ := hi.owner k' t' ho
    rw [hself]
    exact ⟨f, List.mem_cons_of_mem _ hf, h⟩
  · rw [hother t' ht]
    exact hi.owner k' t' ho
  · rw [hself] at hf
    exact hrun f hf
  · rw [hother t' ht] at hf
    exact hi.below t' f hf
  · rw [hself, List.pairwise_cons]
    exact ⟨fun _ _ h => Bool.noConfusion h, hi.unique t'⟩
  · rw [hother t' ht]
    exact hi.unique t'

omit [DecidableEq K] in
theorem Inv.leave (hi : Inv hasCctor s φ) {exc : Option (Exc K E)}
    (htop : s.stack t = ⟨k, .leaving exc⟩ :: fs) : Inv hasCctor (s.setStack t fs) φ := by
  have hother : ∀ t', t' ≠ t → (s.setStack t fs).stack t' = s.stack t' :=
    fun t' h => Function.update_of_ne h _ _
  have hself : (s.setStack t fs).stack t = fs := Function.update_self ..
  have hmem : ∀ f ∈ fs, f ∈ s.stack t := by
    intro f hf
    rw [htop]
    exact List.mem_cons_of_mem _ hf
  refine ⟨hi.fields, hi.noCctor, fun t' f hf => ?_, fun t' => ?_, fun k' t' ho => ?_,
    fun t' f hf => ?_, fun t' => ?_⟩
  all_goals rcases eq_or_ne t' t with rfl | ht
  · rw [hself] at hf
    exact hi.frame t' f (hmem f hf)
  · rw [hother t' ht] at hf
    exact hi.frame t' f hf
  · rw [hself]
    refine (hi.lock t').trans ⟨?_, fun ⟨f, hf, h⟩ => ⟨f, hmem f hf, h⟩⟩
    rintro ⟨f, hf, h⟩
    rw [htop] at hf
    rcases List.mem_cons.1 hf with rfl | hf
    · exact h.elim
    · exact ⟨f, hf, h⟩
  · rw [hother t' ht]
    exact hi.lock t'
  · obtain ⟨f, hf, hk, h⟩ := hi.owner k' t' ho
    rw [hself]
    rw [htop] at hf
    rcases List.mem_cons.1 hf with rfl | hf
    · cases h
    · exact ⟨f, hf, hk, h⟩
  · rw [hother t' ht]
    exact hi.owner k' t' ho
  · rw [hself] at hf
    refine hi.below t' f ?_
    rw [htop]
    exact List.mem_of_mem_tail hf
  · rw [hother t' ht] at hf
    exact hi.below t' f hf
  · have hunique := hi.unique t'
    rw [htop] at hunique
    rw [hself]
    exact hunique.of_cons
  · rw [hother t' ht]
    exact hi.unique t'

theorem Inv.start (hi : Inv hasCctor s φ) (htop : s.stack t = ⟨k, .invoke⟩ :: fs) :
    φ k = .starting t ∧
      Inv hasCctor (s.setStack t (⟨k, .running⟩ :: fs)) (Function.update φ k (.running t)) := by
  obtain ⟨hk, hp⟩ := hi.top_ok htop
  have hstep : Phase.Step t (φ k) (.running t) := by
    rw [hp]
    exact .start
  refine ⟨hp, hi.advance htop ?_ rfl rfl (iff_of_false id id) hstep ⟨hk, rfl⟩ (.inl rfl)
    fun _ => rfl⟩
  have hfields : s.klass k = (Phase.running t).fields hasCctor k := by
    rw [hi.fields, hp]
    rfl
  rw [← hfields, Function.update_eq_self]
  rfl

theorem Inv.finish (hi : Inv hasCctor s φ) (htop : s.stack t = ⟨k, .running⟩ :: fs)
    (exc : Option (Exc K E)) : φ k = .running t ∧ Inv hasCctor
      (s.setStack t (⟨k, .clearThread exc⟩ :: fs)) (Function.update φ k (.ended t exc)) := by
  obtain ⟨hk, hp⟩ := hi.top_ok htop
  have hstep : Phase.Step t (φ k) (.ended t exc) := by
    rw [hp]
    exact .finish exc
  refine ⟨hp, hi.advance htop ?_ rfl rfl (iff_of_false id id) hstep ⟨hk, rfl⟩ (.inl rfl)
    fun _ => rfl⟩
  have hfields : s.klass k = (Phase.ended t exc).fields hasCctor k := by
    rw [hi.fields, hp]
    rfl
  rw [← hfields, Function.update_eq_self]
  rfl

end

end ClassInit

end Il2Cpp
