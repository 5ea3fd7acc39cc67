import Mathlib

/-!
# Cells written over memory

Memory is a function from positions to cells, and whatever is not known of it is arbitrary.

* `overlay` : memory after a list of cells has been written from a position on.
* `cellsAt` : the cells of a range.
* `cellsAt_overlay`, `overlay_of_outside` : what was written is read back, and the rest is as it was.
-/

namespace Il2Cpp

variable {α : Type*} {mem : ℕ → α} {start start' n i : ℕ} {cells front back : List α}

/-- Memory after cells have been written from a position on. -/
def overlay (start : ℕ) (cells : List α) (mem : ℕ → α) (i : ℕ) : α :=
  if start ≤ i then cells[i - start]?.getD (mem i) else mem i

/-- The cells of a range. -/
def cellsAt (mem : ℕ → α) (start n : ℕ) : List α := (List.range n).map fun i => mem (start + i)

@[simp] theorem length_cellsAt : (cellsAt mem start n).length = n := by
  rw [cellsAt, List.length_map, List.length_range]

theorem overlay_of_lt (h : i < start) : overlay start cells mem i = mem i :=
  if_neg (Nat.not_le_of_lt h)

theorem overlay_of_ge (h : start + cells.length ≤ i) : overlay start cells mem i = mem i := by
  rw [overlay]
  split_ifs
  · rw [List.getElem?_eq_none (by omega), Option.getD_none]
  · rfl

theorem overlay_of_outside (h : i < start ∨ start + cells.length ≤ i) :
    overlay start cells mem i = mem i :=
  h.elim overlay_of_lt overlay_of_ge

theorem overlay_add (h : i < cells.length) : overlay start cells mem (start + i) = cells[i] := by
  rw [overlay, if_pos (Nat.le_add_right start i), Nat.add_sub_cancel_left,
    List.getElem?_eq_getElem h, Option.getD_some]

theorem cellsAt_congr {mem' : ℕ → α} (h : ∀ i < n, mem (start + i) = mem' (start' + i)) :
    cellsAt mem start n = cellsAt mem' start' n :=
  List.map_congr_left fun i hi => h i (List.mem_range.1 hi)

theorem cellsAt_eq (hlength : cells.length = n)
    (h : ∀ (i : ℕ) (hi : i < cells.length), mem (start + i) = cells[i]) :
    cellsAt mem start n = cells := by
  refine List.ext_getElem (by rw [length_cellsAt, hlength]) fun i hi hi' => ?_
  simp only [cellsAt, List.getElem_map, List.getElem_range]
  exact h i hi'

theorem cellsAt_add (m : ℕ) :
    cellsAt mem start (n + m) = cellsAt mem start n ++ cellsAt mem (start + n) m := by
  rw [cellsAt, List.range_add, List.map_append, List.map_map]
  exact congrArg _ (List.map_congr_left fun i _ => congrArg mem (Nat.add_assoc start n i).symm)

/-- A range that is copied. -/
theorem overlay_cellsAt {mem' : ℕ → α} (h : i < n) :
    overlay 0 (cellsAt mem start n) mem' i = mem (start + i) := by
  have hlt : i < (cellsAt mem start n).length := by rwa [length_cellsAt]
  rw [← Nat.zero_add i, overlay_add hlt, Nat.zero_add]
  simp only [cellsAt, List.getElem_map, List.getElem_range]

/-- What was written is read back. -/
theorem cellsAt_overlay (h : cells.length = n) :
    cellsAt (overlay start cells mem) start n = cells :=
  cellsAt_eq h fun _ hi => overlay_add hi

/-- A part of what was written is read back. -/
theorem cellsAt_overlay_append (hstart : start + front.length = start') (hn : cells.length = n) :
    cellsAt (overlay start (front ++ cells ++ back) mem) start' n = cells := by
  refine cellsAt_eq hn fun i hi => ?_
  have hlt : front.length + i < (front ++ cells ++ back).length := by
    simp only [List.length_append]
    omega
  rw [← hstart, Nat.add_assoc, overlay_add hlt, List.getElem_append_left (by
    rw [List.length_append]
    omega), List.getElem_append_right (Nat.le_add_right _ _)]
  simp only [Nat.add_sub_cancel_left]

theorem cellsAt_overlay_left (hn : cells.length = n) :
    cellsAt (overlay start (cells ++ back) mem) start n = cells := by
  rw [← List.nil_append cells]
  exact cellsAt_overlay_append (Nat.add_zero start) hn

theorem cellsAt_overlay_right (hstart : start + front.length = start') (hn : cells.length = n) :
    cellsAt (overlay start (front ++ cells) mem) start' n = cells := by
  rw [← List.append_nil (front ++ cells)]
  exact cellsAt_overlay_append hstart hn

/-- A range that was not written is as it was. -/
theorem cellsAt_overlay_of_outside (h : start + n ≤ start' ∨ start' + cells.length ≤ start) :
    cellsAt (overlay start' cells mem) start n = cellsAt mem start n :=
  cellsAt_congr fun i hi => overlay_of_outside (by omega)

end Il2Cpp
