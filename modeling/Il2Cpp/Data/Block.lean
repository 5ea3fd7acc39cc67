import Mathlib

/-!
# Blocks of memory

A block is a list of cells.  Reading and writing a range of cells fails when the range is not inside
of the block.

`readBlock_writeBlock`, `readBlock_writeBlock_of_disjoint` : a written range is read as it was
written, and the other ranges as they were.
-/

namespace Il2Cpp

variable {α : Type*} {block block' cells : List α} {start start' n : ℕ}

/-- The cells of a range. -/
def readBlock (block : List α) (start n : ℕ) : Option (List α) :=
  if start + n ≤ block.length then some ((block.drop start).take n) else none

/-- The block after the cells of a range have been written. -/
def writeBlock (block : List α) (start : ℕ) (cells : List α) : Option (List α) :=
  if start + cells.length ≤ block.length then
    some (block.take start ++ cells ++ block.drop (start + cells.length))
  else none

theorem readBlock_of_le (h : start + n ≤ block.length) :
    readBlock block start n = some ((block.drop start).take n) :=
  if_pos h

theorem writeBlock_of_le (h : start + cells.length ≤ block.length) :
    writeBlock block start cells =
      some (block.take start ++ cells ++ block.drop (start + cells.length)) :=
  if_pos h

theorem readBlock_eq_some (h : readBlock block start n = some cells) :
    start + n ≤ block.length ∧ cells = (block.drop start).take n := by
  rw [readBlock] at h
  split_ifs at h with hle
  exact ⟨hle, (Option.some.inj h).symm⟩

theorem writeBlock_eq_some (h : writeBlock block start cells = some block') :
    start + cells.length ≤ block.length ∧
      block' = block.take start ++ cells ++ block.drop (start + cells.length) := by
  rw [writeBlock] at h
  split_ifs at h with hle
  exact ⟨hle, (Option.some.inj h).symm⟩

theorem length_readBlock (h : readBlock block start n = some cells) : cells.length = n := by
  obtain ⟨hle, rfl⟩ := readBlock_eq_some h
  rw [List.length_take, List.length_drop]
  omega

theorem length_writeBlock (h : writeBlock block start cells = some block') :
    block'.length = block.length := by
  obtain ⟨hle, rfl⟩ := writeBlock_eq_some h
  rw [List.length_append, List.length_append, List.length_take, List.length_drop]
  omega

theorem readBlock_writeBlock (h : writeBlock block start cells = some block') :
    readBlock block' start cells.length = some cells := by
  obtain ⟨hle, heq⟩ := writeBlock_eq_some h
  have hstart : (block.take start).length = start := by
    rw [List.length_take]
    omega
  rw [readBlock_of_le (by rwa [length_writeBlock h]), heq, List.append_assoc,
    List.drop_left' hstart, List.take_left' rfl]

theorem readBlock_all (block : List α) : readBlock block 0 block.length = some block := by
  rw [readBlock_of_le (Nat.le_of_eq (Nat.zero_add _)), List.drop_zero, List.take_length]

theorem writeBlock_all (h : cells.length = block.length) :
    writeBlock block 0 cells = some cells := by
  rw [writeBlock_of_le (by omega), List.take_zero, List.nil_append, Nat.zero_add, h,
    List.drop_length, List.append_nil]

/-- A write leaves the block as it is where the cells are in it already. -/
theorem writeBlock_eq_self_iff :
    writeBlock block start cells = some block ↔
      readBlock block start cells.length = some cells := by
  constructor
  · exact readBlock_writeBlock
  · intro h
    obtain ⟨hle, heq⟩ := readBlock_eq_some h
    have hrest : cells ++ block.drop (start + cells.length) = block.drop start := by
      rw [← List.drop_drop]
      exact (congrArg (· ++ _) heq).trans (List.take_append_drop _ _)
    rw [writeBlock_of_le hle, List.append_assoc, hrest, List.take_append_drop]

theorem getElem?_writeBlock_of_outside (h : writeBlock block start cells = some block') {i : ℕ}
    (hi : i < start ∨ start + cells.length ≤ i) : block'[i]? = block[i]? := by
  obtain ⟨hle, rfl⟩ := writeBlock_eq_some h
  have hstart : (block.take start).length = start := by
    rw [List.length_take]
    omega
  rcases hi with hi | hi
  · rw [List.append_assoc, List.getElem?_append_left (by omega), List.getElem?_take_of_lt hi]
  · rw [List.getElem?_append_right (by rw [List.length_append]; omega), List.length_append, hstart,
      List.getElem?_drop]
    congr 1
    omega

theorem getElem?_writeBlock_of_inside (h : writeBlock block start cells = some block') {i : ℕ}
    (hi : i < cells.length) : block'[start + i]? = cells[i]? := by
  obtain ⟨hle, rfl⟩ := writeBlock_eq_some h
  have hstart : (block.take start).length = start := by
    rw [List.length_take]
    omega
  rw [List.append_assoc, List.getElem?_append_right (by omega), hstart, Nat.add_sub_cancel_left,
    List.getElem?_append_left hi]

/-- Cells are written at once or in two parts. -/
theorem writeBlock_append (block cells cells' : List α) (start : ℕ) :
    writeBlock block start (cells ++ cells') =
      (writeBlock block start cells).bind (writeBlock · (start + cells.length) cells') := by
  by_cases hle : start + cells.length ≤ block.length
  · have hprefix : (block.take start ++ cells).length = start + cells.length := by
      rw [List.length_append, List.length_take]
      omega
    have hdrop : (block.take start ++ cells ++ block.drop (start + cells.length)).drop
        (start + cells.length + cells'.length) =
          block.drop (start + cells.length + cells'.length) := by
      rw [← List.drop_drop, List.drop_left' hprefix, List.drop_drop]
    rw [writeBlock_of_le hle, Option.bind_some, writeBlock, writeBlock,
      length_writeBlock (writeBlock_of_le hle), List.take_left' hprefix, hdrop,
      List.length_append, ← Nat.add_assoc, List.append_assoc (block.take start) cells cells']
  · rw [writeBlock, writeBlock, if_neg hle, if_neg (by rw [List.length_append]; omega),
      Option.bind_none]

theorem readBlock_writeBlock_of_disjoint (h : writeBlock block start cells = some block')
    (hdisjoint : start' + n ≤ start ∨ start + cells.length ≤ start') :
    readBlock block' start' n = readBlock block start' n := by
  rw [readBlock, readBlock, length_writeBlock h]
  congr 2
  refine List.ext_getElem? fun i => ?_
  rw [List.getElem?_take, List.getElem?_take]
  split_ifs with hi
  · rw [List.getElem?_drop, List.getElem?_drop, getElem?_writeBlock_of_outside h (by omega)]
  · rfl

end Il2Cpp
