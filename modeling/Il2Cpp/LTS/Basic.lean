import Mathlib

/-!
# Labelled transition systems and guarded runs

The stateful components of the runtime (handle tables, monitors) are given a semantics as a
labelled transition system.  A claim about a component speaks about *every run*, or about every
run whose steps all meet some condition; both are instances of reachability under a *guard*, a
condition on the state before a step and on its label.

## Main definitions

* `LTS S L` : a transition relation `S → L → S → Prop`; `LTS.ofFun` makes one from an executable
  partial step function.
* `LTS.ReachWith G s₀ s` : `s` is reached from `s₀` by steps that all satisfy the guard `G`.
* `LTS.Reachable s₀ s` : `s` is reached from `s₀`, without a guard.
* `LTS.execWith` : the executable guarded runs of a step function.
* `LTS.Simulates G R` : every guarded step of one system is matched by the other, along `R`.
* `LTS.Steps` : the runs from a state, with their labels.
* `LTS.withHistory`, `LTS.withTrace` : a system together with a history of its run.
-/

namespace Il2Cpp

/-- A labelled transition system with states `S` and labels `L`. -/
structure LTS (S : Type*) (L : Type*) where
  /-- `step s l s'` : the system can move from `s` to `s'` performing `l`. -/
  step : S → L → S → Prop

namespace LTS

variable {S T L : Type*}

/-- The transition system of an executable step function. -/
def ofFun (f : S → L → Option S) : LTS S L where
  step s l s' := f s l = some s'

@[simp] theorem ofFun_step {f : S → L → Option S} {s s' : S} {l : L} :
    (ofFun f).step s l s' ↔ f s l = some s' := Iff.rfl

/-- `s` is reached from `s₀` by steps that all satisfy `G`, a condition on the state before the
step and its label. -/
inductive ReachWith (A : LTS S L) (G : S → L → Prop) (s₀ : S) : S → Prop
  | init : ReachWith A G s₀ s₀
  | step {s s' : S} {l : L} :
      ReachWith A G s₀ s → G s l → A.step s l s' → ReachWith A G s₀ s'

/-- `s` is reached from `s₀`. -/
def Reachable (A : LTS S L) (s₀ s : S) : Prop := A.ReachWith (fun _ _ => True) s₀ s

variable {A : LTS S L} {G H : S → L → Prop} {s₀ s : S}

namespace ReachWith

/-- **Inductive invariants**: what holds initially and is preserved by the guarded steps holds in
every state of every guarded run. -/
theorem invariant {I : S → Prop} (h : A.ReachWith G s₀ s) (h₀ : I s₀)
    (hstep : ∀ s l s', I s → G s l → A.step s l s' → I s') : I s := by
  induction h with
  | init => exact h₀
  | step _ hg hst ih => exact hstep _ _ _ ih hg hst

theorem mono (hGH : ∀ s l, G s l → H s l) (h : A.ReachWith G s₀ s) : A.ReachWith H s₀ s := by
  induction h with
  | init => exact .init
  | step _ hg hst ih => exact .step ih (hGH _ _ hg) hst

theorem reachable (h : A.ReachWith G s₀ s) : A.Reachable s₀ s := h.mono fun _ _ _ => trivial

end ReachWith

/-- When the steps that meet the guard keep a property, and the others lose it for good, the runs
that meet the guard are those that end with the property. -/
theorem reachWith_iff {P : S → Prop} (h₀ : P s₀)
    (hstep : ∀ s l s', A.Reachable s₀ s → A.step s l s' → (P s' ↔ P s ∧ G s l)) :
    A.ReachWith G s₀ s ↔ A.Reachable s₀ s ∧ P s := by
  constructor
  · intro h
    induction h with
    | init => exact ⟨.init, h₀⟩
    | step _ hg hst ih => exact ⟨.step ih.1 trivial hst, (hstep _ _ _ ih.1 hst).2 ⟨ih.2, hg⟩⟩
  · rintro ⟨h, hP⟩
    induction h with
    | init => exact .init
    | step hr _ hst ih =>
      obtain ⟨hP', hg⟩ := (hstep _ _ _ hr hst).1 hP
      exact .step (ih hP') hg hst

/-! ### Labelled runs -/

/-- The system moves from a state to another with the labels `ls`. -/
inductive Steps (A : LTS S L) : S → List L → S → Prop
  | nil {s : S} : Steps A s [] s
  | cons {s s' s'' : S} {l : L} {ls : List L} :
      A.step s l s' → Steps A s' ls s'' → Steps A s (l :: ls) s''

/-! ### Executable runs -/

/-- The state after the labels `ls`, if every step is possible and meets the guard. -/
def execWith (f : S → L → Option S) (G : S → L → Prop) [∀ s l, Decidable (G s l)] :
    S → List L → Option S
  | s, [] => some s
  | s, l :: ls => if G s l then (f s l).bind fun s' => execWith f G s' ls else none

theorem reachWith_of_execWith {f : S → L → Option S} [∀ s l, Decidable (G s l)] {ls : List L}
    {t : S} (hs : (ofFun f).ReachWith G s₀ s) (h : execWith f G s ls = some t) :
    (ofFun f).ReachWith G s₀ t := by
  induction ls generalizing s with
  | nil => cases h; exact hs
  | cons l ls ih =>
    rw [execWith] at h
    split at h
    · rename_i hg
      obtain ⟨s', hs', h⟩ := Option.bind_eq_some_iff.1 h
      exact ih (.step hs hg hs') h
    · cases h

/-- A run that ends in a state with a property, found by executing it. -/
theorem exists_reachWith {f : S → L → Option S} [∀ s l, Decidable (G s l)] {i : S} (ls : List L)
    (p : S → Prop) [DecidablePred p] (h : (execWith f G i ls).any (fun s => decide (p s)) = true) :
    ∃ s, (ofFun f).ReachWith G i s ∧ p s := by
  obtain ⟨s, hs, hp⟩ := (Option.any_eq_true _ _).1 h
  exact ⟨s, reachWith_of_execWith .init hs, of_decide_eq_true hp⟩

/-! ### Simulation -/

/-- Every step of `A` that meets the guard is matched, from related states, by a step of `B` with
the same label. -/
def Simulates (A : LTS S L) (B : LTS T L) (G : S → L → Prop) (R : S → T → Prop) : Prop :=
  ∀ s t l s', R s t → G s l → A.step s l s' → ∃ t', B.step t l t' ∧ R s' t'

/-- Along a simulation every guarded run of `A` is a run of `B`, through related states. -/
theorem Simulates.reachable {B : LTS T L} {R : S → T → Prop} (hsim : A.Simulates B G R) {t₀ : T}
    (h₀ : R s₀ t₀) (h : A.ReachWith G s₀ s) : ∃ t, B.Reachable t₀ t ∧ R s t := by
  induction h with
  | init => exact ⟨t₀, .init, h₀⟩
  | step _ hg hst ih =>
    obtain ⟨t, ht, hR⟩ := ih
    obtain ⟨t', hst', hR'⟩ := hsim _ _ _ _ hR hg hst
    exact ⟨t', .step ht trivial hst', hR'⟩

/-! ### History -/

/-- The system together with a history of its run, which `record` extends at each step and which
the steps do not depend on. -/
def withHistory (A : LTS S L) (record : T → L → T) : LTS (S × T) L where
  step s l s' := A.step s.1 l s'.1 ∧ s'.2 = record s.2 l

/-- The system together with the labels of its run, the last one first. -/
def withTrace (A : LTS S L) : LTS (S × List L) L := A.withHistory fun tr l => l :: tr

/-- The trace of an executed run. -/
theorem reachable_withTrace {f : S → L → Option S} {ls : List L} {t : S} {tr : List L}
    {x₀ : S × List L} (hs : (ofFun f).withTrace.Reachable x₀ (s, tr))
    (h : execWith f (fun _ _ => True) s ls = some t) :
    (ofFun f).withTrace.Reachable x₀ (t, ls.reverse ++ tr) := by
  induction ls generalizing s tr with
  | nil => cases h; exact hs
  | cons l ls ih =>
    rw [execWith, if_pos trivial] at h
    obtain ⟨s', hs', h⟩ := Option.bind_eq_some_iff.1 h
    rw [List.reverse_cons, List.append_assoc]
    exact ih (.step hs trivial ⟨hs', rfl⟩) h

/-- Along a simulation by a system whose steps are those of the history, the state and the history
of a guarded run stay related. -/
theorem Simulates.history {B : LTS T L} {R : S → T → Prop} {record : T → L → T}
    (hsim : A.Simulates B G R) (hB : ∀ t l t', B.step t l t' → t' = record t l) {x₀ x : S × T}
    (h₀ : R x₀.1 x₀.2) (h : (A.withHistory record).ReachWith (fun x l => G x.1 l) x₀ x) :
    R x.1 x.2 := by
  refine h.invariant (I := fun x => R x.1 x.2) h₀ ?_
  rintro ⟨s, t⟩ l ⟨s', t'⟩ hR hg ⟨hst, rfl⟩
  obtain ⟨t', hst', hR'⟩ := hsim _ _ _ _ hR hg hst
  cases hB _ _ _ hst'
  exact hR'

end LTS

end Il2Cpp
