import Il2Cpp.LTS.Basic

/-!
# What a lock is for

The state of the specification is the thread that has the lock.  An implementation refines it when
each of its steps takes the lock for the thread of the step, gives it back, or leaves it alone.

* `Lock.spec` : the specification.
* `Lock.HeldBy` : how its state is related to the threads of an implementation.
-/

namespace Il2Cpp

namespace Lock

variable {ι L : Type*} {holds holds' : ι → Prop} {h : Option ι} {i : ι}

/-- A lock: only the thread that has it gives it back, and it is free when it is taken. -/
def spec (thread : L → ι) : LTS (Option ι) L where
  step h l h' := h' = h ∨ h = none ∧ h' = some (thread l) ∨ h = some (thread l) ∧ h' = none

/-- Thread `h` is the one that holds, or there is none. -/
def HeldBy (holds : ι → Prop) (h : Option ι) : Prop := ∀ i, holds i ↔ h = some i

namespace HeldBy

theorem congr (hh : HeldBy holds h) (heq : ∀ i, holds' i ↔ holds i) : HeldBy holds' h :=
  fun i => (heq i).trans (hh i)

theorem take (hh : HeldBy holds none) (hi : holds' i) (hne : ∀ j, j ≠ i → (holds' j ↔ holds j)) :
    HeldBy holds' (some i) := by
  intro j
  by_cases hj : j = i
  · subst hj
    exact iff_of_true hi rfl
  · rw [hne j hj, hh j]
    exact iff_of_false nofun fun he => hj (Option.some.inj he).symm

theorem release (hh : HeldBy holds (some i)) (hi : ¬ holds' i)
    (hne : ∀ j, j ≠ i → (holds' j ↔ holds j)) : HeldBy holds' none := by
  intro j
  refine iff_of_false (fun hj => ?_) nofun
  by_cases hji : j = i
  · exact hi (hji ▸ hj)
  · exact hji (Option.some.inj ((hh j).1 ((hne j hji).1 hj))).symm

end HeldBy

end Lock

end Il2Cpp
