import Mathlib

/-!
# Marking with a work list

A marking algorithm has marked nodes `M`, a work list `P` of nodes whose successors it has not
looked at, and nodes `Q` that it is about to look at.  It marks a node when it first looks at it,
and puts the nodes that can have successors on the work list.

* `Closure` : the nodes that are marked in the end.
* `Closure.pop`, `Closure.known`, `Closure.push`, `Closure.leaf` : the steps of the algorithm leave
  the closure as it is, in whatever order they are taken.
* `closure_done` : in the end these are the marked nodes.
* `closure_iff` : when the marked nodes are closed at the start, these are the marked nodes and
  those that are reachable from the others.
-/

namespace Il2Cpp

namespace Marking

variable {α : Type*} {out : α → α → Prop} {inner : α → Prop} {M P Q : Set α} {p q x : α}

/-- The nodes that are marked in the end.  Of the nodes that get marked only those with `inner` go
on the work list. -/
inductive Closure (out : α → α → Prop) (inner : α → Prop) (M P Q : Set α) : α → Prop
  | marked {x : α} : x ∈ M → Closure out inner M P Q x
  | offered {x : α} : x ∈ Q → Closure out inner M P Q x
  | pending {p x : α} : p ∈ P → out p x → Closure out inner M P Q x
  | step {y x : α} : Closure out inner M P Q y → y ∉ M → inner y → out y x →
      Closure out inner M P Q x

/-- A node is taken from the work list. -/
theorem Closure.pop : Closure out inner M (insert p P) Q x ↔
    Closure out inner M P ({x | out p x} ∪ Q) x := by
  constructor
  · intro h
    induction h with
    | marked h => exact .marked h
    | offered h => exact .offered (.inr h)
    | pending hp ho =>
      rcases hp with rfl | hp
      · exact .offered (.inl ho)
      · exact .pending hp ho
    | step _ hM hi ho ih => exact .step ih hM hi ho
  · intro h
    induction h with
    | marked h => exact .marked h
    | offered h =>
      rcases h with ho | h
      · exact .pending (.inl rfl) ho
      · exact .offered h
    | pending hp ho => exact .pending (.inr hp) ho
    | step _ hM hi ho ih => exact .step ih hM hi ho

/-- A node is marked already. -/
theorem Closure.known (hq : q ∈ M) : Closure out inner M P (insert q Q) x ↔
    Closure out inner M P Q x := by
  constructor
  · intro h
    induction h with
    | marked h => exact .marked h
    | offered h =>
      rcases h with rfl | h
      · exact .marked hq
      · exact .offered h
    | pending hp ho => exact .pending hp ho
    | step _ hM hi ho ih => exact .step ih hM hi ho
  · intro h
    induction h with
    | marked h => exact .marked h
    | offered h => exact .offered (.inr h)
    | pending hp ho => exact .pending hp ho
    | step _ hM hi ho ih => exact .step ih hM hi ho

/-- A node is marked and put on the work list. -/
theorem Closure.push (hq : q ∉ M) (hi : inner q) : Closure out inner M P (insert q Q) x ↔
    Closure out inner (insert q M) (insert q P) Q x := by
  constructor
  · intro h
    induction h with
    | marked h => exact .marked (.inr h)
    | offered h =>
      rcases h with rfl | h
      · exact .marked (.inl rfl)
      · exact .offered h
    | pending hp ho => exact .pending (.inr hp) ho
    | @step y x _ hM hi ho ih =>
      by_cases hy : y = q
      · exact .pending (.inl hy) ho
      · exact .step ih (fun hm => hm.elim hy hM) hi ho
  · intro h
    induction h with
    | marked h =>
      rcases h with rfl | h
      · exact .offered (.inl rfl)
      · exact .marked h
    | offered h => exact .offered (.inr h)
    | pending hp ho =>
      rcases hp with rfl | hp
      · exact .step (.offered (.inl rfl)) hq hi ho
      · exact .pending hp ho
    | step _ hM hi ho ih => exact .step ih (fun hm => hM (.inr hm)) hi ho

/-- A node is marked that cannot have successors. -/
theorem Closure.leaf (hi : ¬ inner q) : Closure out inner M P (insert q Q) x ↔
    Closure out inner (insert q M) P Q x := by
  constructor
  · intro h
    induction h with
    | marked h => exact .marked (.inr h)
    | offered h =>
      rcases h with rfl | h
      · exact .marked (.inl rfl)
      · exact .offered h
    | pending hp ho => exact .pending hp ho
    | @step y x _ hM hy ho ih =>
      refine .step ih (fun hm => ?_) hy ho
      rcases hm with rfl | hm
      · exact hi hy
      · exact hM hm
  · intro h
    induction h with
    | marked h =>
      rcases h with rfl | h
      · exact .offered (.inl rfl)
      · exact .marked h
    | offered h => exact .offered (.inr h)
    | pending hp ho => exact .pending hp ho
    | step _ hM hi ho ih => exact .step ih (fun hm => hM (.inr hm)) hi ho

/-- The algorithm is done. -/
theorem closure_done : Closure out inner M ∅ ∅ x ↔ x ∈ M := by
  refine ⟨fun h => ?_, .marked⟩
  induction h with
  | marked h => exact h
  | offered h => cases h
  | pending h => cases h
  | step _ hM _ _ ih => exact absurd ih hM

/-- **Reachability.** -/
theorem closure_iff (hM : ∀ y ∈ M, ∀ x, inner y → out y x → x ∈ M) :
    Closure out inner M P Q x ↔ x ∈ M ∨
      ∃ q, (q ∈ Q ∨ ∃ p ∈ P, out p q) ∧
        Relation.ReflTransGen (fun y x => inner y ∧ out y x) q x := by
  constructor
  · intro h
    induction h with
    | marked h => exact .inl h
    | offered h => exact .inr ⟨_, .inl h, .refl⟩
    | pending hp ho => exact .inr ⟨_, .inr ⟨_, hp, ho⟩, .refl⟩
    | step _ hy hi ho ih =>
      rcases ih with h | ⟨q, hq, h⟩
      · exact absurd h hy
      · exact .inr ⟨q, hq, h.tail ⟨hi, ho⟩⟩
  · rintro (h | ⟨q, hq, h⟩)
    · exact .marked h
    · induction h with
      | refl =>
        rcases hq with hq | ⟨p, hp, ho⟩
        · exact .offered hq
        · exact .pending hp ho
      | @tail y x _ hyx ih =>
        by_cases hy : y ∈ M
        · exact .marked (hM y hy x hyx.1 hyx.2)
        · exact .step ih hy hyx.1 hyx.2

end Marking

end Il2Cpp
