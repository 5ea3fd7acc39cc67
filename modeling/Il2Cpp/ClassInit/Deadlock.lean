import Il2Cpp.ClassInit.Once

/-!
# Deadlocks of class initialization

A call waits while another thread runs the constructor.  The check of `cctor_thread` lets a thread
pass that waits for itself, and nothing looks for a longer cycle.

* `Deadlocked` : a set of threads each of which waits for another one of the set.
* `mutual_deadlock` : two classes whose constructors use each other, and a thread for each.
* `deadlock_cyclic` : a deadlock always comes from constructors that use each other.
-/

namespace Il2Cpp

namespace ClassInit

variable {K T E : Type*}

theorem exists_iterate_eq {α : Type*} [Finite α] (f : α → α) (a : α) :
    ∃ x m, f^[m + 1] x = x := by
  have hlt : ∀ i j, i < j → f^[i] a = f^[j] a → ∃ x m, f^[m + 1] x = x := by
    intro i j hij heq
    refine ⟨f^[i] a, j - i - 1, ?_⟩
    rw [← Function.iterate_add_apply, heq]
    exact congrArg (f^[·] a) (by omega)
  obtain ⟨i, j, hij, heq⟩ := Finite.exists_ne_map_eq_of_infinite fun i : ℕ => f^[i] a
  rcases Nat.lt_or_gt_of_ne hij with h | h
  · exact hlt i j h heq
  · exact hlt j i h heq.symm

/-- In the loop that waits for another thread to finish the constructor. -/
def PC.Polling : PC K E → Prop
  | .pollFinished | .pollException | .sleep => True
  | _ => False

/-- The thread waits in `ClassInit` for a constructor that the other thread is running. -/
def State.WaitsFor (s : State K T E) (t t' : T) : Prop :=
  ∃ k pc fs, s.stack t = ⟨k, pc⟩ :: fs ∧ pc.Polling ∧ ⟨k, .running⟩ ∈ s.stack t'

/-- Each thread of the set waits for another one of the set. -/
def State.Deadlocked (s : State K T E) (D : Set T) : Prop :=
  D.Nonempty ∧ ∀ t ∈ D, ∃ t' ∈ D, t' ≠ t ∧ s.WaitsFor t t'

/-- A constructor calls `ClassInit` only for the classes it depends on. -/
def Respects (dep : K → K → Prop) (s : State K T E) : Label K T E → Prop
  | .call t k' =>
    match s.stack t with
    | f :: _ => dep f.klass k'
    | [] => True
  | _ => True

instance (dep : K → K → Prop) [DecidableRel dep] (s : State K T E) (l : Label K T E) :
    Decidable (Respects dep s l) :=
  match l with
  | .call t k' =>
    match h : s.stack t with
    | f :: _ => decidable_of_iff (dep f.klass k') (by simp [Respects, h])
    | [] => .isTrue (by simp [Respects, h])
  | .next _ | .start _ _ | .finish _ _ _ | .leave _ _ _ => .isTrue trivial

variable [DecidableEq K] [DecidableEq T] [DecidableEq E]

/-- What the calls of a thread, and their number, have to do with the dependencies. -/
structure CallsOk (dep : K → K → Prop) (s : State K T E) : Prop where
  /-- A call is made by the constructor of the call below it. -/
  dep : ∀ t, (s.stack t).Pairwise fun f g => Relation.TransGen dep g.klass f.klass
  finite : {t | s.stack t ≠ []}.Finite

section

variable {hasCctor : K → Bool} {s s' : State K T E} {l : Label K T E} {dep : K → K → Prop}

omit [DecidableEq K] [DecidableEq E] in
theorem CallsOk.update (h : CallsOk dep s) {t : T} {gs : List (Frame K E)}
    (hs' : s'.stack = Function.update s.stack t gs)
    (hgs : gs.Pairwise fun f g => Relation.TransGen dep g.klass f.klass) : CallsOk dep s' := by
  constructor
  · intro t'
    rw [hs']
    rcases eq_or_ne t' t with rfl | ht
    · rwa [Function.update_self]
    · rw [Function.update_of_ne ht]
      exact h.dep t'
  · refine (h.finite.insert t).subset fun t' ht' => ?_
    rw [Set.mem_insert_iff, or_iff_not_imp_left]
    intro ht
    rwa [Set.mem_ofPred_eq, hs', Function.update_of_ne ht] at ht'

theorem CallsOk.step (h : CallsOk dep s) (hl : Respects dep s l)
    (hst : step hasCctor s l = some s') : CallsOk dep s' := by
  rcases stack_of_step hst with ⟨k, hcall, -, hs'⟩ | ⟨f, fs, gs, htop, hs', hgs⟩
  · refine h.update hs' (List.pairwise_cons.2 ⟨fun g hg => ?_, h.dep _⟩)
    rw [hcall, Respects] at hl
    have hdep := h.dep l.thread
    cases htop : s.stack l.thread with
    | nil => simp [htop] at hg
    | cons f fs =>
      rw [htop] at hl hg hdep
      rcases List.mem_cons.1 hg with rfl | hg
      · exact .single hl
      · exact (List.rel_of_pairwise_cons hdep hg).tail hl
  · have hdep := h.dep l.thread
    rw [htop, List.pairwise_cons] at hdep
    refine h.update hs' ?_
    rcases hgs with rfl | ⟨pc, rfl⟩
    · exact hdep.2
    · exact List.pairwise_cons.2 hdep

omit [DecidableEq K] [DecidableEq T] [DecidableEq E] in
theorem callsOk_initial : CallsOk dep (initial hasCctor : State K T E) := by
  refine ⟨fun _ => .nil, ?_⟩
  simp [initial]

omit [DecidableEq K] [DecidableEq T] [DecidableEq E] in
theorem CallsOk.dep_of_waitsFor (h : CallsOk dep s) {t : T} {k k' : K} {pc : PC K E}
    {fs : List (Frame K E)} (hrun : ⟨k, .running⟩ ∈ s.stack t) (htop : s.stack t = ⟨k', pc⟩ :: fs)
    (hpc : pc.Polling) : Relation.TransGen dep k k' := by
  have hdep := h.dep t
  rw [htop] at hrun hdep
  rcases List.mem_cons.1 hrun with heq | hmem
  · cases heq
    exact hpc.elim
  · exact List.rel_of_pairwise_cons hdep hmem

omit [DecidableEq K] [DecidableEq T] [DecidableEq E] in
theorem Inv.running_unique {φ : K → Phase K T E} (hi : Inv hasCctor s φ) {t t' : T} {k : K}
    (h : ⟨k, .running⟩ ∈ s.stack t) (h' : ⟨k, .running⟩ ∈ s.stack t') : t = t' := by
  have hp : φ k = .running t := (hi.frame t _ h).2
  exact Phase.running.inj (hp.symm.trans (hi.frame t' _ h').2)

/-- **A deadlock is a cycle of constructors.**  Whatever the constructors depend on, in every run in
which they respect it: among the threads of a deadlock two different ones run the constructors of two
different classes that depend on each other. -/
theorem deadlock_cyclic (h : (lts hasCctor).ReachWith (Respects dep) (initial hasCctor) s)
    {D : Set T} (hD : s.Deadlocked D) :
    ∃ t ∈ D, ∃ t' ∈ D, t ≠ t' ∧ ∃ k k', k ≠ k' ∧ ⟨k, .running⟩ ∈ s.stack t ∧
      ⟨k', .running⟩ ∈ s.stack t' ∧ Relation.TransGen dep k k' ∧ Relation.TransGen dep k' k := by
  obtain ⟨_, -, φ, hi, -⟩ := (simulates hasCctor).reachable
    ⟨_, inv_initial hasCctor, rfl⟩ (h.mono fun _ _ _ => trivial)
  have hcalls : CallsOk dep s := h.invariant callsOk_initial fun _ _ _ hi hl hst => hi.step hl hst
  obtain ⟨⟨t₀, ht₀⟩, hwait⟩ := hD
  -- the thread that each one waits for, and the class
  choose next hnext hne w pc fs htop hpc hrun using hwait
  have hfin : Finite D := (hcalls.finite.subset fun t ht => by
    rw [Set.mem_ofPred_eq, htop t ht]
    exact List.cons_ne_nil _ _).to_subtype
  let n : D → D := fun t => ⟨next t t.2, hnext t t.2⟩
  let W : D → K := fun t => w t t.2
  have hdep : ∀ t, Relation.TransGen dep (W t) (W (n t)) := fun t =>
    hcalls.dep_of_waitsFor (hrun t t.2) (htop (n t) (n t).2) (hpc (n t) (n t).2)
  have hiter : ∀ m t, Relation.ReflTransGen dep (W t) (W (n^[m] t)) := by
    intro m t
    induction m with
    | zero => exact .refl
    | succ m ih =>
      rw [Function.iterate_succ_apply']
      exact ih.trans (hdep _).to_reflTransGen
  -- the sequence of the threads comes back
  obtain ⟨t, m, hm⟩ := exists_iterate_eq n ⟨t₀, ht₀⟩
  have hne' : n t ≠ n (n t) := fun heq => hne (n t) (n t).2 (congrArg Subtype.val heq).symm
  have hW : W t ≠ W (n t) := by
    intro hW
    refine hne' (Subtype.ext (hi.running_unique (hrun t t.2) ?_))
    have hrun' : (⟨W (n t), .running⟩ : Frame K E) ∈ s.stack (n (n t)) := hrun (n t) (n t).2
    rwa [← hW] at hrun'
  refine ⟨n t, (n t).2, n (n t), (n (n t)).2, fun h => hne' (Subtype.ext h), W t, W (n t), hW,
    hrun t t.2, hrun (n t) (n t).2, hdep t, ?_⟩
  rcases (Relation.reflTransGen_iff_eq_or_transGen.1 (hiter m (n t))) with heq | hcycle
  · rw [← Function.iterate_succ_apply, hm] at heq
    exact absurd heq hW
  · rwa [← Function.iterate_succ_apply, hm] at hcycle

end

/-! ### Two constructors that use each other -/

/-- Each thread starts the constructor of its class, and each constructor uses the other class. -/
def mutualRun : List (Label Bool Bool Unit) :=
  .call false false :: List.replicate 8 (.next false) ++ .start false false ::
    .call true true :: List.replicate 8 (.next true) ++ .start true true ::
    .call false true :: List.replicate 6 (.next false) ++
    .call true false :: List.replicate 6 (.next true)

/-- Each thread is in the loop of its call for the class that the other one initializes. -/
def MutualWait (s : State Bool Bool Unit) : Prop :=
  ∀ t, s.stack t = [⟨!t, .pollFinished⟩, ⟨t, .running⟩]

instance : DecidablePred MutualWait := fun s =>
  inferInstanceAs (Decidable (∀ t, s.stack t = [⟨!t, .pollFinished⟩, ⟨t, .running⟩]))

theorem MutualWait.deadlocked {s : State Bool Bool Unit} (h : MutualWait s) :
    s.Deadlocked Set.univ := by
  refine ⟨⟨true, trivial⟩, fun t _ => ⟨!t, trivial, by cases t <;> decide, !t, _, _, h t, trivial, ?_⟩⟩
  rw [h]
  exact List.mem_cons_of_mem _ List.mem_cons_self

/-- **A deadlock** of two threads. -/
theorem mutual_deadlock : ∃ s : State Bool Bool Unit,
    (lts fun _ => true).Reachable (initial fun _ => true) s ∧ s.Deadlocked Set.univ := by
  obtain ⟨s, hs, hwait⟩ := LTS.exists_reachWith (f := step fun _ => true)
    (G := fun _ _ => True) (i := initial fun _ => true) mutualRun MutualWait (by decide)
  exact ⟨s, hs, hwait.deadlocked⟩

/-- The dependencies that its cycle consists of. -/
theorem deadlock_cyclic_mutualRun : ∃ s : State Bool Bool Unit, MutualWait s ∧
    ∃ k k', k ≠ k' ∧ Relation.TransGen (fun k k' : Bool => k' = !k) k k' ∧
      Relation.TransGen (fun k k' : Bool => k' = !k) k' k := by
  obtain ⟨s, hs, hwait⟩ := LTS.exists_reachWith (f := step fun _ => true)
    (G := Respects fun k k' => k' = !k) (i := initial fun _ => true) mutualRun MutualWait
    (by decide)
  obtain ⟨t, -, t', -, -, k, k', hk, -, -, h, h'⟩ := deadlock_cyclic hs hwait.deadlocked
  exact ⟨s, hwait, k, k', hk, h, h'⟩

end ClassInit

end Il2Cpp
