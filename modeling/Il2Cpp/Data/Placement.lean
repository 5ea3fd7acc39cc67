import Mathlib

/-!
# Blocks placed one after the other

A table is often laid out by giving each of a list of blocks the first free position:

* `place` : the blocks with their positions, from a first position on.  The blocks take up disjoint
  ranges (`place_pairwise`) between the first position and the total size (`place_bounds`).
* `storeAll` : a sequence of stores into a list.  A cell holds the value of one of the stores that
  went to it, or what it held before (`storeAll_getElem?`).
-/

namespace Il2Cpp

variable {α β : Type*}

/-! ### Placing -/

/-- The blocks with their positions, each at the end of the one before it. -/
def place (size : α → ℕ) : ℕ → List α → List (α × ℕ)
  | _, [] => []
  | start, a :: as => (a, start) :: place size (start + size a) as

variable {size : α → ℕ} {start : ℕ} {as : List α}

@[simp] theorem place_map_fst (size : α → ℕ) (start : ℕ) (as : List α) :
    (place size start as).map Prod.fst = as := by
  induction as generalizing start with
  | nil => rfl
  | cons a as ih => simp [place, ih]

@[simp] theorem place_length (size : α → ℕ) (start : ℕ) (as : List α) :
    (place size start as).length = as.length := by
  rw [← List.length_map (f := Prod.fst), place_map_fst]

theorem place_bounds {p : α × ℕ} (hp : p ∈ place size start as) :
    start ≤ p.2 ∧ p.2 + size p.1 ≤ start + (as.map size).sum := by
  induction as generalizing start with
  | nil => cases hp
  | cons a as ih =>
    simp only [List.map_cons, List.sum_cons]
    rcases List.mem_cons.1 hp with rfl | hp
    · exact ⟨Nat.le_refl _, by dsimp only; omega⟩
    · have := ih hp
      omega

/-- A block ends before each later one begins. -/
theorem place_pairwise (size : α → ℕ) (start : ℕ) (as : List α) :
    (place size start as).Pairwise fun p q => p.2 + size p.1 ≤ q.2 := by
  induction as generalizing start with
  | nil => exact .nil
  | cons a as ih => exact .cons (fun q hq => (place_bounds hq).1) (ih _)

/-! ### Storing -/

/-- Stores values at positions, in turn. -/
def storeAll (cells : List β) (stores : List (ℕ × β)) : List β :=
  stores.foldl (fun cells s => cells.set s.1 s.2) cells

@[simp] theorem storeAll_nil (cells : List β) : storeAll cells [] = cells := rfl

@[simp] theorem storeAll_cons (cells : List β) (s : ℕ × β) (stores : List (ℕ × β)) :
    storeAll cells (s :: stores) = storeAll (cells.set s.1 s.2) stores := rfl

@[simp] theorem storeAll_length (cells : List β) (stores : List (ℕ × β)) :
    (storeAll cells stores).length = cells.length := by
  induction stores generalizing cells with
  | nil => rfl
  | cons s stores ih => rw [storeAll_cons, ih, List.length_set]

/-- No store goes to a cell, or the cell holds the value of one that does. -/
theorem storeAll_getElem? {cells : List β} {i : ℕ} (hi : i < cells.length)
    (stores : List (ℕ × β)) :
    ((∀ s ∈ stores, s.1 ≠ i) ∧ (storeAll cells stores)[i]? = cells[i]?) ∨
      ∃ s ∈ stores, s.1 = i ∧ (storeAll cells stores)[i]? = some s.2 := by
  induction stores generalizing cells with
  | nil => exact .inl ⟨nofun, rfl⟩
  | cons s stores ih =>
    rw [storeAll_cons]
    have hi' : i < (cells.set s.1 s.2).length := by rwa [List.length_set]
    rcases ih hi' with ⟨hne, heq⟩ | ⟨s', hs', hs'', heq⟩
    · by_cases hs : s.1 = i
      · refine .inr ⟨s, List.mem_cons_self, hs, ?_⟩
        rw [heq, ← hs, List.getElem?_set_self (by omega)]
      · refine .inl ⟨fun s' hs' => ?_, ?_⟩
        · rcases List.mem_cons.1 hs' with rfl | hs'
          · exact hs
          · exact hne s' hs'
        · rw [heq, List.getElem?_set_ne hs]
    · exact .inr ⟨s', List.mem_cons_of_mem _ hs', hs'', heq⟩

/-- Stores to the free cells behind a list, one after the other. -/
theorem storeAll_consecutive (front values : List β) (cell : β) :
    storeAll (front ++ List.replicate values.length cell)
      (values.mapIdx fun j v => (front.length + j, v)) = front ++ values := by
  induction values generalizing front with
  | nil => rw [List.mapIdx_nil, storeAll_nil, List.length_nil, List.replicate_zero]
  | cons v values ih =>
    have hset : (front ++ List.replicate (v :: values).length cell).set front.length v =
        (front ++ [v]) ++ List.replicate values.length cell := by
      rw [List.length_cons, List.replicate_succ, List.set_append_right _ _ (Nat.le_refl _),
        Nat.sub_self, List.set_cons_zero, List.append_assoc, List.singleton_append]
    have hshift : (fun j (v : β) => (front.length + (j + 1), v)) =
        fun j v => ((front ++ [v]).length + j, v) := by
      funext j w
      rw [List.length_append, List.length_singleton, Nat.add_assoc, Nat.add_comm 1 j]
    have hih := ih (front ++ [v])
    rw [List.mapIdx_cons, storeAll_cons, Nat.add_zero, hset, hshift]
    simpa [List.append_assoc] using hih

end Il2Cpp
