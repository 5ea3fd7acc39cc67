import Mathlib

/-!
# Binary search for a partition point

`lowerBound` halves a range of an array until it has found the first element that is not below the
bound.  `lowerBound_spec` : on an array whose elements below the bound all stand in front, it
splits the array into these and the others.

`StrictWeakOrder` collects the laws of a comparison that a search by key relies on, for a
`less` and an `equals` that are given separately.
-/

namespace Il2Cpp

section

variable {α : Type} (xs : Array α) (below : α → Bool)

/-- The loop of `lowerBound` on the `len` elements from index `first` on. -/
def lowerBoundLoop (first len : ℕ) (h : first + len ≤ xs.size) : ℕ :=
  if hlen : len = 0 then first
  else
    if below (xs[first + len / 2]) then
      lowerBoundLoop (first + len / 2 + 1) (len - len / 2 - 1) (by omega)
    else lowerBoundLoop first (len / 2) (by omega)
termination_by len

/-- The index of the first element that is not `below`, the size of the array if all are. -/
def lowerBound : ℕ := lowerBoundLoop xs below 0 xs.size (by omega)

/-- The elements `below` all stand before the others. -/
def Partitioned : Prop :=
  ∀ i j (hi : i < xs.size) (hj : j < xs.size), i ≤ j → below xs[j] = true → below xs[i] = true

variable {xs below}

/-- What the loop keeps: everything before its range is below, everything behind it is not. -/
theorem lowerBoundLoop_spec (hp : Partitioned xs below) (first len : ℕ)
    (h : first + len ≤ xs.size)
    (hlo : ∀ i (_ : i < xs.size), i < first → below xs[i] = true)
    (hhi : ∀ i (_ : i < xs.size), first + len ≤ i → below xs[i] = false) :
    lowerBoundLoop xs below first len h ≤ xs.size ∧
      ∀ i (_ : i < xs.size), below xs[i] = true ↔ i < lowerBoundLoop xs below first len h := by
  fun_induction lowerBoundLoop xs below first len h with
  | case1 first h =>
    refine ⟨by omega, fun i hi => ⟨fun hb => ?_, hlo i hi⟩⟩
    by_contra hge
    simp [hhi i hi (by omega)] at hb
  | case2 first len h hlen hb ih =>
    refine ih (fun i hi hlt => ?_) (fun i hi hge => hhi i hi (by omega))
    exact hp i _ hi _ (by omega) hb
  | case3 first len h hlen hb ih =>
    refine ih hlo fun i hi hge => ?_
    by_contra hbi
    exact hb (hp _ i _ hi (by omega) (by simpa using hbi))

theorem lowerBound_le (hp : Partitioned xs below) : lowerBound xs below ≤ xs.size :=
  (lowerBoundLoop_spec hp _ _ _ (by omega) (by omega)).1

/-- `lowerBound` splits a partitioned array. -/
theorem lowerBound_spec (hp : Partitioned xs below) {i : ℕ} (hi : i < xs.size) :
    below xs[i] = true ↔ i < lowerBound xs below :=
  (lowerBoundLoop_spec hp _ _ _ (by omega) (by omega)).2 i hi

end

/-- The laws of a strict weak order whose incomparable elements are the ones that `equals`
accepts. -/
structure StrictWeakOrder {K : Type} (less equals : K → K → Bool) : Prop where
  irrefl : ∀ a, less a a = false
  trans : ∀ a b c, less a b = true → less b c = true → less a c = true
  incomparable_iff : ∀ a b, less a b = false ∧ less b a = false ↔ equals a b = true
  equals_trans : ∀ a b c, equals a b = true → equals b c = true → equals a c = true

namespace StrictWeakOrder

variable {K : Type} {less equals : K → K → Bool}

theorem equals_symm (h : StrictWeakOrder less equals) {a b : K} (hab : equals a b = true) :
    equals b a = true :=
  (h.incomparable_iff b a).1 ((h.incomparable_iff a b).2 hab).symm

/-- What is not above `b` is below everything that `b` is below. -/
theorem less_of_le_of_less (h : StrictWeakOrder less equals) {a b c : K} (hab : less b a = false)
    (hbc : less b c = true) : less a c = true := by
  cases hab' : less a b with
  | true => exact h.trans a b c hab' hbc
  | false =>
    have heq : equals a b = true := (h.incomparable_iff a b).1 ⟨hab', hab⟩
    by_contra hac
    cases hca : less c a with
    | true => exact absurd (h.trans b c a hbc hca) (by simp [hab])
    | false =>
      have hca' := (h.incomparable_iff c a).1 ⟨hca, by simpa using hac⟩
      have hcb := (h.incomparable_iff c b).2 (h.equals_trans c a b hca' heq)
      simp [hcb.2] at hbc

/-- What is below `b` is below everything that is not below `b`. -/
theorem less_of_less_of_le (h : StrictWeakOrder less equals) {a b c : K} (hab : less a b = true)
    (hbc : less c b = false) : less a c = true := by
  by_contra hac
  cases hca : less c a with
  | true => exact absurd (h.trans c a b hca hab) (by simp [hbc])
  | false =>
    -- `a` and `c` are incomparable, so `c` is below `b` like `a`
    have hle := (h.incomparable_iff c a).1 ⟨hca, by simpa using hac⟩
    have hac' := ((h.incomparable_iff c a).2 hle).2
    exact absurd (h.less_of_le_of_less hac' hab) (by simp [hbc])

/-- Nothing between two equal elements is above either. -/
theorem not_less_of_equals (h : StrictWeakOrder less equals) {a b c : K}
    (hab : equals a b = true) (hbc : less b c = false) : less a c = false := by
  cases hac : less a c with
  | false => rfl
  | true =>
    have hba := ((h.incomparable_iff a b).2 hab).1
    exact absurd (h.less_of_le_of_less hba hac) (by simp [hbc])

end StrictWeakOrder

end Il2Cpp
