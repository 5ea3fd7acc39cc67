import Il2Cpp.ClassInit.Phase

/-!
# A static constructor runs once

To its callers the initialization of a class is a cell that goes from `idle` through `running` to
`finished`, once: `spec` is the system of these cells, and `simulates` says that the runtime
refines it.

* `exists_cells` : what the cells mean for the events of a run: the starts and ends of constructors.
* `classInit_once` : a constructor is started at most once; a call returns only when the constructor
  has ended without an exception, or inside of it; and after it has thrown, every call raises the
  exception that was stored.
-/

namespace Il2Cpp

namespace ClassInit

variable {K T E : Type*}

/-! ### The cells -/

/-- The cells before the first call. -/
def idle (hasCctor : K → Bool) : K → Status K T E :=
  fun k => if hasCctor k then .idle else .finished none

variable [DecidableEq K] [DecidableEq T] [DecidableEq E]

/-- The cells as a transition system. -/
def spec : LTS (K → Status K T E) (Label K T E) where
  step σ l σ' :=
    match l with
    | .call _ _ | .next _ => σ' = σ
    | .start t k => σ k = .idle ∧ σ' = Function.update σ k (.running t)
    | .finish t k exc => σ k = .running t ∧ σ' = Function.update σ k (.finished exc)
    | .leave t k none => (σ k = .finished none ∨ σ k = .running t) ∧ σ' = σ
    | .leave _ k (some e) =>
      (∃ exc, σ k = .finished (some exc) ∧ e = .typeInitialization k exc) ∧ σ' = σ

section

variable {hasCctor : K → Bool} {s s' : State K T E} {φ : K → Phase K T E} {l : Label K T E}

omit [DecidableEq T] [DecidableEq E] in
theorem status_update (φ : K → Phase K T E) (k : K) (p : Phase K T E) :
    (fun k' => (Function.update φ k p k').status) =
      Function.update (fun k' => (φ k').status) k p.status := by
  funext k'
  rcases eq_or_ne k' k with rfl | hk
  · simp
  · simp [hk]

/-- **One step** of the runtime is a step of the cells, and a class that is done stays so. -/
theorem Inv.step (hi : Inv hasCctor s φ) (hst : step hasCctor s l = some s') :
    ∃ φ', Inv hasCctor s' φ' ∧ spec.step (fun k => (φ k).status) l (fun k => (φ' k).status) ∧
      ∀ k exc, φ k = .done exc → φ' k = .done exc := by
  -- the phase of one class changes
  have hdone : ∀ {k : K} {p : Phase K T E}, (∀ exc, φ k = .done exc → p = .done exc) →
      ∀ k' exc, φ k' = .done exc → Function.update φ k p k' = .done exc := by
    intro k p hp k' exc hk'
    rcases eq_or_ne k' k with rfl | hk
    · rw [Function.update_self]
      exact hp exc hk'
    · rwa [Function.update_of_ne hk]
  cases l with
  | call t k =>
    simp only [ClassInit.step] at hst
    have hrun : (∀ f ∈ s.stack t, f.pc = .running) ∧
        s' = s.setStack t (⟨k, .entry⟩ :: s.stack t) := by
      split at hst
      · rename_i htop
        exact ⟨by simp [htop], (Option.some.inj hst).symm⟩
      · rename_i k' fs htop
        refine ⟨fun f hf => ?_, (Option.some.inj hst).symm⟩
        have hbelow := hi.below t f
        rw [htop] at hf hbelow
        rcases List.mem_cons.1 hf with rfl | hf
        · rfl
        · exact hbelow hf
      · cases hst
    obtain ⟨hrun, rfl⟩ := hrun
    exact ⟨φ, hi.call hrun k, rfl, fun _ _ h => h⟩
  | next t =>
    simp only [ClassInit.step] at hst
    split at hst
    · cases hst
    · rename_i k pc fs htop
      obtain ⟨r, hr, hs'⟩ := Option.map_eq_some_iff.1 hst
      obtain ⟨p, hinv, hstatus, hp⟩ := hi.runPC htop hr hs'.symm
      refine ⟨_, hinv, ?_, hdone hp⟩
      rw [status_update, hstatus]
      exact Function.update_eq_self ..
  | start t k =>
    simp only [ClassInit.step] at hst
    split at hst
    · rename_i f fs htop
      obtain ⟨rfl, ⟨⟩⟩ := Option.ite_none_right_eq_some.1 hst
      obtain ⟨hp, hinv⟩ := hi.start htop
      refine ⟨_, hinv, ⟨congrArg Phase.status hp, status_update ..⟩, hdone fun exc h => ?_⟩
      rw [hp] at h
      cases h
    · cases hst
  | finish t k exc =>
    simp only [ClassInit.step] at hst
    split at hst
    · rename_i f fs htop
      obtain ⟨rfl, ⟨⟩⟩ := Option.ite_none_right_eq_some.1 hst
      obtain ⟨hp, hinv⟩ := hi.finish htop exc
      refine ⟨_, hinv, ⟨congrArg Phase.status hp, status_update ..⟩, hdone fun exc h => ?_⟩
      rw [hp] at h
      cases h
    · cases hst
  | leave t k exc =>
    simp only [ClassInit.step] at hst
    split at hst
    · rename_i f fs htop
      obtain ⟨rfl, ⟨⟩⟩ := Option.ite_none_right_eq_some.1 hst
      have hok := hi.top_ok htop
      refine ⟨φ, hi.leave htop, ?_, fun _ _ h => h⟩
      cases exc with
      | none =>
        exact ⟨hok.imp (congrArg Phase.status) fun h => congrArg Phase.status h.2, rfl⟩
      | some e =>
        obtain ⟨-, exc, hp, rfl⟩ := hok
        exact ⟨⟨exc, congrArg Phase.status hp, rfl⟩, rfl⟩
    · cases hst

omit [DecidableEq K] [DecidableEq T] [DecidableEq E] in
theorem inv_initial (hasCctor : K → Bool) : Inv hasCctor (initial hasCctor : State K T E)
    fun k => if hasCctor k then .untouched else .done none := by
  refine ⟨fun k => ?_, fun k hk => by simp [hk], by rintro _ _ ⟨⟩, fun _ => ?_,
    fun k t ho => ?_, by rintro _ _ ⟨⟩, fun _ => .nil⟩
  · cases hk : hasCctor k <;> simp [initial, hk, Phase.fields]
  · exact ⟨by rintro ⟨⟩, by rintro ⟨_, ⟨⟩, _⟩⟩
  · cases hk : hasCctor k <;> simp [hk, Phase.owner] at ho

/-- The runtime represents the cells. -/
def Represents (hasCctor : K → Bool) (s : State K T E) (σ : K → Status K T E) : Prop :=
  ∃ φ, Inv hasCctor s φ ∧ σ = fun k => (φ k).status

/-- **The runtime refines the cells.** -/
theorem simulates (hasCctor : K → Bool) :
    (lts hasCctor).Simulates spec (fun _ _ => True) (Represents (T := T) (E := E) hasCctor) := by
  rintro s _ l s' ⟨φ, hi, rfl⟩ - hst
  obtain ⟨φ', hi', hspec, -⟩ := hi.step hst
  exact ⟨_, hspec, φ', hi', rfl⟩

end

/-! ### The events of a run -/

/-- The event starts the constructor of `k`. -/
def Label.starts (k : K) : Label K T E → Bool
  | start _ k' => k' = k
  | _ => false

/-- What a cell says about the events so far. -/
def CellOk (hasCctor : K → Bool) (tr : List (Label K T E)) (k : K) : Status K T E → Prop
  | .idle => tr.countP (Label.starts k) = 0 ∧ ∀ t exc, .finish t k exc ∉ tr
  | .running t =>
    tr.countP (Label.starts k) = 1 ∧ .start t k ∈ tr ∧ ∀ t exc, .finish t k exc ∉ tr
  | .finished exc =>
    tr.countP (Label.starts k) ≤ 1 ∧ (∀ t exc', .finish t k exc' ∈ tr → exc' = exc) ∧
      (hasCctor k = true → ∃ t, .finish t k exc ∈ tr)

section

variable {hasCctor : K → Bool} {tr : List (Label K T E)} {k : K} {st : Status K T E}
  {l : Label K T E}

omit [DecidableEq T] [DecidableEq E] in
theorem CellOk.cons (h : CellOk hasCctor tr k st) (hstart : l.starts k = false)
    (hfinish : ∀ t exc, l ≠ .finish t k exc) : CellOk hasCctor (l :: tr) k st := by
  have hcount : (l :: tr).countP (Label.starts k) = tr.countP (Label.starts k) :=
    List.countP_cons_of_neg (by simp [hstart])
  have hmem : ∀ t exc, .finish t k exc ∈ l :: tr ↔ .finish t k exc ∈ tr := by
    intro t exc
    rw [List.mem_cons, or_iff_right (hfinish t exc).symm]
  cases st with
  | idle => exact ⟨hcount.trans h.1, fun t exc => mt (hmem t exc).1 (h.2 t exc)⟩
  | running t =>
    exact ⟨hcount.trans h.1, List.mem_cons_of_mem _ h.2.1,
      fun t exc => mt (hmem t exc).1 (h.2.2 t exc)⟩
  | finished exc =>
    refine ⟨Nat.le_trans (Nat.le_of_eq hcount) h.1, fun t exc' h' => h.2.1 t exc' ((hmem t exc').1 h'), fun hk => ?_⟩
    obtain ⟨t, ht⟩ := h.2.2 hk
    exact ⟨t, (hmem t exc).2 ht⟩

omit [DecidableEq T] [DecidableEq E] in
/-- **The cells and the events.** -/
theorem CellOk.step {σ σ' : K → Status K T E} (h : ∀ k, CellOk hasCctor tr k (σ k))
    (hst : spec.step σ l σ') (k : K) : CellOk hasCctor (l :: tr) k (σ' k) := by
  cases l with
  | call t k' =>
    obtain rfl : σ' = σ := hst
    exact (h k).cons rfl (fun _ _ => nofun)
  | next t =>
    obtain rfl : σ' = σ := hst
    exact (h k).cons rfl (fun _ _ => nofun)
  | start t k' =>
    obtain ⟨hidle, rfl⟩ := hst
    rcases eq_or_ne k k' with rfl | hk
    · have hcell := h k
      rw [hidle] at hcell
      rw [Function.update_self]
      refine ⟨?_, List.mem_cons_self, fun t exc hmem => ?_⟩
      · rw [List.countP_cons_of_pos (by simp [Label.starts]), hcell.1]
      · rcases List.mem_cons.1 hmem with hmem | hmem
        · cases hmem
        · exact hcell.2 t exc hmem
    · rw [Function.update_of_ne hk]
      exact (h k).cons (by simp [Label.starts, Ne.symm hk]) (fun _ _ => nofun)
  | finish t k' exc =>
    obtain ⟨hrun, rfl⟩ := hst
    rcases eq_or_ne k k' with rfl | hk
    · have hcell := h k
      rw [hrun] at hcell
      rw [Function.update_self]
      refine ⟨?_, fun t exc' hmem => ?_, fun _ => ⟨t, List.mem_cons_self⟩⟩
      · exact Nat.le_of_eq ((List.countP_cons_of_neg (by simp [Label.starts])).trans hcell.1)
      · rcases List.mem_cons.1 hmem with hmem | hmem
        · cases hmem
          rfl
        · exact absurd hmem (hcell.2.2 t exc')
    · rw [Function.update_of_ne hk]
      refine (h k).cons rfl fun _ _ => ?_
      rintro ⟨⟩
      exact hk rfl
  | leave t k' exc =>
    obtain rfl : σ' = σ := by
      cases exc with
      | none => exact hst.2
      | some e => exact hst.2
    exact (h k).cons rfl (fun _ _ => nofun)

/-- **The cells of a run** of the runtime, and its events. -/
theorem exists_cells {s : State K T E}
    (h : (lts hasCctor).withTrace.Reachable (initial hasCctor, []) (s, tr)) :
    ∃ φ, Inv hasCctor s φ ∧ ∀ k, CellOk hasCctor tr k (φ k).status := by
  refine h.invariant (I := fun x : State K T E × List (Label K T E) => ∃ φ, Inv hasCctor x.1 φ ∧
    ∀ k, CellOk hasCctor x.2 k (φ k).status) ⟨_, inv_initial hasCctor, fun k => ?_⟩ ?_
  · cases hk : hasCctor k with
    | true => exact ⟨rfl, fun _ _ => nofun⟩
    | false => exact ⟨Nat.zero_le _, fun _ _ => nofun, fun h => Bool.noConfusion (hk.symm.trans h)⟩
  · rintro ⟨s, tr⟩ l ⟨s', tr'⟩ ⟨φ, hi, hcell⟩ - ⟨hst, rfl⟩
    obtain ⟨φ', hi', hspec, -⟩ := hi.step hst
    exact ⟨φ', hi', CellOk.step hcell hspec⟩

end

/-! ### Calls after the exception -/

/-- The steps that a call still takes at most, once the exception is stored. -/
def PC.left : PC K E → ℕ
  | .entry => 10
  | .acquire => 9
  | .checkFinished => 8
  | .checkStarted => 7
  | .releaseStarted => 6
  | .checkThread | .sleep => 5
  | .pollFinished => 4
  | .pollException => 3
  | .checkException => 2
  | _ => 1

omit [DecidableEq K] [DecidableEq E] in
theorem PC.left_le (pc : PC K E) : pc.left ≤ 10 := by
  cases pc <;> simp [left]

section

variable {hasCctor : K → Bool} {s s' : State K T E} {φ : K → Phase K T E} {l : Label K T E} {t : T}
  {k : K} {pc : PC K E} {fs : List (Frame K E)} {e : Exc K E}

/-- **A step of a call** on a class whose exception is stored: it comes nearer to the end, or it
raises the exception. -/
theorem Inv.left_lt (hi : Inv hasCctor s φ) (hp : φ k = .done (some e))
    (htop : s.stack t = ⟨k, pc⟩ :: fs) (hst : ClassInit.step hasCctor s l = some s')
    (hl : l.thread = t) : l = .leave t k (some (.typeInitialization k e)) ∨
      ∃ pc', s'.stack t = ⟨k, pc'⟩ :: fs ∧ pc'.left < pc.left := by
  have hok := hi.top_ok htop
  have hfields := hi.fields k
  rw [hp] at hok hfields
  cases l with
  | call t' k' =>
    obtain rfl : t' = t := hl
    simp only [ClassInit.step, htop] at hst
    split at hst
    · rename_i h
      cases h
    · rename_i h
      cases h
      cases hok.2
    · cases hst
  | start t' k' =>
    obtain rfl : t' = t := hl
    simp only [ClassInit.step, htop] at hst
    obtain ⟨⟨⟩, -⟩ := Option.ite_none_right_eq_some.1 hst
    cases hok.2
  | finish t' k' exc =>
    obtain rfl : t' = t := hl
    simp only [ClassInit.step, htop] at hst
    obtain ⟨⟨⟩, -⟩ := Option.ite_none_right_eq_some.1 hst
    cases hok.2
  | leave t' k' exc =>
    obtain rfl : t' = t := hl
    simp only [ClassInit.step, htop] at hst
    obtain ⟨⟨⟩, -⟩ := Option.ite_none_right_eq_some.1 hst
    cases exc with
    | none => rcases hok with h | ⟨-, h⟩ <;> cases h
    | some e' =>
      obtain ⟨-, exc, ⟨⟩, rfl⟩ := hok
      exact .inl rfl
  | next t' =>
    obtain rfl : t' = t := hl
    simp only [ClassInit.step, htop] at hst
    obtain ⟨r, hr, rfl⟩ := Option.map_eq_some_iff.1 hst
    refine .inr ⟨r.2, Function.update_self .., ?_⟩
    simp only [Phase.fields] at hfields
    cases pc with
    | acquire =>
      obtain ⟨-, ⟨⟩⟩ := Option.ite_none_right_eq_some.1 hr
      exact Nat.lt_succ_self _
    | entry | checkFinished | checkStarted | checkThread | pollFinished | pollException =>
      cases hr
      simp [hfields, PC.left]
    | releaseStarted | sleep | checkException =>
      cases hr
      simp [PC.left]
    | releaseFinished => cases hok
    | setThread | setStarted | releaseStarting | getCCtor | clearThread | dealWithExceptions =>
      cases hok.2
    | invoke | running | leaving => cases hr

/-- **A pending call** on a class whose exception is stored raises it, by its tenth step. -/
theorem Inv.raises (hi : Inv hasCctor s φ) (hp : φ k = .done (some e))
    (htop : s.stack t = ⟨k, pc⟩ :: fs) {ls : List (Label K T E)}
    (hsteps : (lts hasCctor).Steps s ls s')
    (hcount : pc.left ≤ ls.countP fun l => decide (l.thread = t)) :
    .leave t k (some (.typeInitialization k e)) ∈ ls := by
  have hpos : ∀ pc : PC K E, 0 < pc.left := fun pc => by cases pc <;> exact Nat.succ_pos _
  induction hsteps generalizing φ pc with
  | nil => exact absurd hcount (Nat.not_le.2 (hpos pc))
  | cons hst hsteps ih =>
    rename_i s s₁ s' l ls
    obtain ⟨φ₁, hi₁, -, hdone⟩ := hi.step hst
    by_cases hl : l.thread = t
    · rw [List.countP_cons_of_pos (by simpa using hl)] at hcount
      rcases hi.left_lt hp htop hst hl with rfl | ⟨pc', htop', hlt⟩
      · exact List.mem_cons_self
      · exact List.mem_cons_of_mem _ (ih hi₁ (hdone k _ hp) htop' (by omega))
    · rw [List.countP_cons_of_neg (by simpa using hl)] at hcount
      have htop' := (stack_of_thread_ne hst hl).trans htop
      exact List.mem_cons_of_mem _ (ih hi₁ (hdone k _ hp) htop' hcount)

/-- The thread can take a step. -/
def CanStep (hasCctor : K → Bool) (s : State K T E) (t : T) : Prop :=
  ∃ l : Label K T E, l.thread = t ∧ (ClassInit.step hasCctor s l).isSome

theorem canStep_of_runPC (htop : s.stack t = ⟨k, pc⟩ :: fs)
    (h : (runPC hasCctor s t k pc).isSome) : CanStep hasCctor s t := by
  refine ⟨.next t, rfl, ?_⟩
  simp only [step, htop, Option.isSome_map]
  exact h

/-- **Nothing but the lock** stops a call: a thread that has one can take a step, unless the call is
before the lock and another thread is in it, which can. -/
theorem Inv.canStep (hi : Inv hasCctor s φ) (htop : s.stack t = ⟨k, pc⟩ :: fs) :
    CanStep hasCctor s t ∨
      ∃ t', t' ≠ t ∧ s.lock = some t' ∧ pc = .acquire ∧ CanStep hasCctor s t' := by
  cases pc with
  | acquire =>
    cases hlock : s.lock with
    | none => exact .inl (canStep_of_runPC htop (by simp [ClassInit.runPC, hlock]))
    | some t' =>
      obtain ⟨f, hf, hlocked⟩ := (hi.lock t').1 hlock
      refine .inr ⟨t', ?_, rfl, rfl, ?_⟩
      · rintro rfl
        exact (hi.lock_iff htop).1 hlock
      · have hbelow := hi.below t' f
        obtain ⟨g, gs, hg⟩ := List.exists_cons_of_ne_nil (List.ne_nil_of_mem hf)
        rw [hg] at hf hbelow
        rcases List.mem_cons.1 hf with rfl | hf
        · obtain ⟨k', pc'⟩ := f
          refine canStep_of_runPC hg ?_
          cases pc' <;> first | exact hlocked.elim | rfl
        · rw [hbelow hf] at hlocked
          exact hlocked.elim
  | invoke =>
    exact .inl ⟨.start t k, rfl, by simp [ClassInit.step, htop]⟩
  | running => exact .inl ⟨.finish t k none, rfl, by simp [ClassInit.step, htop]⟩
  | leaving exc => exact .inl ⟨.leave t k exc, rfl, by simp [ClassInit.step, htop]⟩
  | dealWithExceptions exc => exact .inl (canStep_of_runPC htop (by cases exc <;> rfl))
  | _ => exact .inl (canStep_of_runPC htop rfl)

end

/-- **A static constructor runs once**, in every run of any number of threads on any classes, with
`tr` the events of the run so far:

* the constructor of a class is started at most once;
* a call returns only when the constructor has ended without an exception, or when the thread has
  started it and it has not ended;
* when the constructor has ended with an exception, a call that ends raises the
  `TypeInitializationException` for it.  The exception is stored or going to be, and a call that is
  pending then raises it by its tenth step at the latest;
* a call is never stopped but by the lock, by a thread that can take a step. -/
theorem classInit_once {hasCctor : K → Bool} {s : State K T E} {tr : List (Label K T E)}
    (h : (lts hasCctor).withTrace.Reachable (initial hasCctor, []) (s, tr)) :
    (∀ k, tr.countP (Label.starts k) ≤ 1) ∧
    (∀ t k s', step hasCctor s (.leave t k none) = some s' → hasCctor k = true →
      (∃ t', .finish t' k none ∈ tr) ∨ .start t k ∈ tr ∧ ∀ t' exc, .finish t' k exc ∉ tr) ∧
    (∀ t k e, .finish t k (some e) ∈ tr →
      (∀ t' r s', step hasCctor s (.leave t' k r) = some s' →
        r = some (.typeInitialization k e)) ∧
      ((s.klass k).initializationException = some (.typeInitialization k e) ∨
        ∃ t' fs, s.stack t' = ⟨k, .clearThread (some e)⟩ :: fs ∨
          s.stack t' = ⟨k, .dealWithExceptions (some e)⟩ :: fs) ∧
      ((s.klass k).initializationException = some (.typeInitialization k e) →
        ∀ t' pc fs, s.stack t' = ⟨k, pc⟩ :: fs → ∀ ls s', (lts hasCctor).Steps s ls s' →
          10 ≤ ls.countP (fun l => decide (l.thread = t')) →
          .leave t' k (some (.typeInitialization k e)) ∈ ls)) ∧
    (∀ t k pc fs, s.stack t = ⟨k, pc⟩ :: fs → CanStep hasCctor s t ∨
      ∃ t', t' ≠ t ∧ s.lock = some t' ∧ pc = .acquire ∧ CanStep hasCctor s t') := by
  obtain ⟨φ, hi, hcell⟩ := exists_cells h
  -- a constructor that has ended, seen from the events
  have hfinished : ∀ t k exc, .finish t k exc ∈ tr → (φ k).status = .finished exc := by
    intro t k exc hmem
    have hk := hcell k
    cases hst : (φ k).status with
    | idle =>
      rw [hst] at hk
      exact absurd hmem (hk.2 t exc)
    | running t' =>
      rw [hst] at hk
      exact absurd hmem (hk.2.2 t exc)
    | finished exc' =>
      rw [hst] at hk
      rw [hk.2.1 t exc hmem]
  refine ⟨fun k => ?_, fun t k s' hst hk => ?_, fun t k e hmem => ⟨fun t' r s' hst => ?_, ?_, ?_⟩,
    fun t k pc fs htop => hi.canStep htop⟩
  · have hk := hcell k
    cases hst : (φ k).status with
    | idle =>
      rw [hst] at hk
      exact Nat.le_trans (Nat.le_of_eq hk.1) (Nat.zero_le _)
    | running t' =>
      rw [hst] at hk
      exact Nat.le_of_eq hk.1
    | finished exc' =>
      rw [hst] at hk
      exact hk.1
  · obtain ⟨_, -, hspec, -⟩ := hi.step hst
    have hst : (φ k).status = .finished none ∨ (φ k).status = .running t := hspec.1
    have hcell' := hcell k
    rcases hst with hst | hst
    · rw [hst] at hcell'
      exact .inl (hcell'.2.2 hk)
    · rw [hst] at hcell'
      exact .inr hcell'.2
  · obtain ⟨_, -, hspec, -⟩ := hi.step hst
    have hst' := hfinished t k _ hmem
    cases r with
    | none =>
      rcases hspec.1 with h | h
      · cases hst'.symm.trans h
      · cases hst'.symm.trans h
    | some e' =>
      obtain ⟨⟨exc, h, rfl⟩, -⟩ := hspec
      cases hst'.symm.trans h
      rfl
  · have hst' := hfinished t k _ hmem
    cases hp : φ k with
    | untouched | claimed t' | starting t' | running t' =>
      rw [hp] at hst'
      cases hst'
    | ended t' exc =>
      rw [hp] at hst'
      cases hst'
      obtain ⟨pc, fs, htop, hphase⟩ := hi.exists_top (t := t') (by rw [hp]; rfl) (by simp [hp])
      rw [hp] at hphase
      cases pc <;> cases hphase
      exact .inr ⟨t', fs, .inl htop⟩
    | cleared t' exc =>
      rw [hp] at hst'
      cases hst'
      obtain ⟨pc, fs, htop, hphase⟩ := hi.exists_top (t := t') (by rw [hp]; rfl) (by simp [hp])
      rw [hp] at hphase
      cases pc <;> cases hphase
      exact .inr ⟨t', fs, .inr htop⟩
    | done exc =>
      rw [hp] at hst'
      cases hst'
      exact .inl (by rw [hi.fields, hp]; rfl)
  · intro hexc t' pc fs htop ls s' hsteps hcount
    rw [hi.fields] at hexc
    obtain ⟨exc, hp, he⟩ := Phase.exception_eq hexc
    cases he
    exact hi.raises hp htop hsteps (Nat.le_trans pc.left_le hcount)

/-- The only class has a constructor, which throws; then the first call raises, and another thread
makes a call. -/
def throwingRun : List (Label Unit Bool Unit) :=
  .call false () :: List.replicate 8 (.next false) ++
    [.start false (), .finish false () (some (.thrown ()))] ++ List.replicate 3 (.next false) ++
    [.leave false () (some (.typeInitialization () (.thrown ()))), .call true ()] ++
    List.replicate 9 (.next true)

/-- The call of the other thread is about to end, and can only raise the exception. -/
theorem classInit_once_throwingRun : ∃ s : State Unit Bool Unit,
    LTS.execWith (step fun _ => true) (fun _ _ => True) (initial fun _ => true) throwingRun =
      some s ∧
    (step (fun _ => true) s
      (.leave true () (some (.typeInitialization () (.thrown ()))))).isSome = true ∧
    ∀ r s', step (fun _ => true) s (.leave true () r) = some s' →
      r = some (.typeInitialization () (.thrown ())) := by
  obtain ⟨s, hs⟩ : ∃ s, LTS.execWith (step fun _ => true) (fun _ _ => True)
      (initial fun _ => true) throwingRun = some s := ⟨_, rfl⟩
  have hreach := LTS.reachable_withTrace
    (.init : (lts fun _ => true).withTrace.Reachable (initial fun _ => true, []) (_, [])) hs
  obtain ⟨-, -, hthrown, -⟩ := classInit_once hreach
  refine ⟨s, hs, ?_, (hthrown false () (.thrown ()) (by decide)).1 true⟩
  cases hs
  rfl

end ClassInit

end Il2Cpp
