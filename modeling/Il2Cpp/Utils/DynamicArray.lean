import Il2Cpp.Data.MachineInt
import Il2Cpp.LTS.Basic

/-!
# Dynamic arrays

`dynamic_array.h`, for elements of `elementSize` bytes.  A cell of memory holds an element, or
nothing that was stored there.  The array owns its storage, or borrows it (`assign_external`); the
highest bit of `m_capacity` tells which.  `NULL` is a block of the heap without cells, which
`realloc` and `free` take alike.  Borrowed memory is not used by others while it is borrowed.

* `DynamicArray`, `Operation.run` : an array, and the operations on it with what goes wrong.
* `Operation.onList` : the operations on a list, where an element may be unspecified.
* `State`, `step` : arrays, with the lists that they should be.
* `Harmless` : the step neither grows borrowed storage with the size already increased, nor
  reallocates or frees memory that was borrowed when the array was cleared, nor refers to an
  element of the array across growth, nor asks for more memory than there can be.
* `Represents` : an array and its list.
* `refines_list` : the runs in which all steps are harmless are those in which nothing goes wrong,
  and there every array represents its list.
-/

namespace Il2Cpp

namespace DynamicArray

open Computed

/-- What can go wrong. -/
inductive Fault
  /-- memory is read or written outside the storage -/
  | outside
  /-- memory that the array does not own is reallocated or freed -/
  | foreign
  /-- more memory is asked for than there can be -/
  | tooLarge
  deriving DecidableEq

variable {T : Type}

/-- The memory that `m_data` points to. -/
inductive Storage (T : Type)
  | heap (cells : List (Option T))
  | external (cells : List (Option T))

def Storage.cells : Storage T → List (Option T)
  | heap cells | external cells => cells

def Storage.withCells : Storage T → List (Option T) → Storage T
  | heap _, cells => heap cells
  | external _, cells => external cells

/-- `n` cells in which nothing was stored. -/
def blank (n : ℕ) : List (Option T) := List.replicate n none

/-- The first `n` of the cells, or more. -/
def fitted (cells : List (Option T)) (n : ℕ) : List (Option T) :=
  cells.take n ++ blank (n - cells.length)

section Memory

variable (elementSize : ℕ)

/-- `allocate`. -/
def allocate (n : ℕ) : Computed Fault (Storage T) := do
  assert .tooLarge (n * elementSize < 2 ^ 63)
  pure (.heap (blank n))

/-- `reallocate`. -/
def reallocate (data : Storage T) (n : ℕ) : Computed Fault (Storage T) := do
  assert .tooLarge (n * elementSize < 2 ^ 63)
  match data with
  | .heap cells => pure (.heap (fitted cells n))
  | .external cells => do
    assert .foreign False
    pure (.heap (fitted cells n))

end Memory

/-- `deallocate`. -/
def deallocate : Storage T → Computed Fault (Storage T)
  | .heap _ => pure (.heap [])
  | .external _ => do
    assert .foreign False
    pure (.heap [])

/-- The first `n` cells, as `memcpy` reads them. -/
def readCells (data : Storage T) (n : ℕ) : Computed Fault (List (Option T)) := do
  assert .outside (n ≤ data.cells.length)
  pure (fitted data.cells n)

/-- Cells are stored from a position on. -/
def writeCells (data : Storage T) (i : ℕ) (values : List (Option T)) :
    Computed Fault (Storage T) := do
  assert .outside (i + values.length ≤ data.cells.length)
  pure (data.withCells (data.cells.take i ++ values ++ data.cells.drop (i + values.length)))

end DynamicArray

/-- `dynamic_array`. -/
structure DynamicArray (T : Type) where
  data : DynamicArray.Storage T
  size : ℕ
  rawCapacity : ℕ

namespace DynamicArray

open Computed

variable {T : Type}

def kReferenceBit : ℕ := 2 ^ 63

/-- `m_capacity & ~k_reference_bit`. -/
def capacity (a : DynamicArray T) : ℕ := a.rawCapacity % kReferenceBit

/-- `(m_capacity & k_reference_bit) == 0`. -/
def OwnsData (a : DynamicArray T) : Prop := a.rawCapacity < kReferenceBit

instance (a : DynamicArray T) : Decidable a.OwnsData :=
  inferInstanceAs (Decidable (a.rawCapacity < kReferenceBit))

/-- The default constructor. -/
def empty : DynamicArray T := ⟨.heap [], 0, 0⟩

/-- The elements, from `begin()` to `end()`. -/
def contents (a : DynamicArray T) : List (Option T) := a.data.cells.take a.size

/-- An argument of type `T const &`: an object elsewhere, or an element of the array. -/
inductive Argument (T : Type)
  | object (value : T)
  | element (index : ℕ)

/-- The value of an argument in a list. -/
def Argument.valueIn (l : List (Option T)) : Argument T → Option T
  | object value => some value
  | element index => l[index]?.join

section Operations

variable (elementSize : ℕ)

def reserve (a : DynamicArray T) (inCapacity : ℕ) : Computed Fault (DynamicArray T) :=
  if a.capacity ≥ inCapacity then pure a
  else if a.OwnsData then do
    let data ← reallocate elementSize a.data inCapacity
    pure { a with data := data, rawCapacity := inCapacity }
  else do
    let newData ← allocate elementSize inCapacity
    let cells ← readCells a.data a.size
    let data ← writeCells newData 0 cells
    pure { a with data := data, rawCapacity := inCapacity }

/-- `push_back()`. -/
def pushBack (a : DynamicArray T) : Computed Fault (DynamicArray T) :=
  let bumped := { a with size := a.size + 1 }
  if bumped.size > bumped.capacity then reserve elementSize bumped (max (bumped.capacity * 2) 1)
  else pure bumped

/-- The value of an argument, after the array has become `grown`. -/
def readArgument (a grown : DynamicArray T) : Argument T → Computed Fault (Option T)
  | .object value => pure (some value)
  | .element index => do
    -- the reference is to the storage before
    assert .outside (grown.rawCapacity = a.rawCapacity)
    pure (Argument.valueIn a.data.cells (.element index))

/-- `push_back(t)`. -/
def pushBackValue (a : DynamicArray T) (t : Argument T) : Computed Fault (DynamicArray T) := do
  let grown ← pushBack elementSize a
  let value ← readArgument a grown t
  let data ← writeCells grown.data (grown.size - 1) [value]
  pure { grown with data := data }

/-- The capacity that is reserved for a size. -/
def requestedSize (a : DynamicArray T) (size : ℕ) (doubleOnResize : Bool) : ℕ :=
  if doubleOnResize ∧ size < a.capacity * 2 then a.capacity * 2 else size

def resizeUninitialized (a : DynamicArray T) (size : ℕ) (doubleOnResize : Bool) :
    Computed Fault (DynamicArray T) :=
  let resized := { a with size := size }
  if resized.size ≤ resized.capacity then pure resized
  else reserve elementSize resized (requestedSize resized size doubleOnResize)

/-- The array with storage for a size. -/
def ensureCapacity (a : DynamicArray T) (size : ℕ) (doubleOnResize : Bool) :
    Computed Fault (DynamicArray T) :=
  if size > a.capacity then reserve elementSize a (requestedSize a size doubleOnResize) else pure a

/-- The storage after `std::uninitialized_fill` of the elements that are new, where the array `a`
has become `grown`. -/
def fillNew (a grown : DynamicArray T) (size : ℕ) (t : Argument T) :
    Computed Fault (Storage T) :=
  if size > grown.size then do
    let value ← readArgument a grown t
    writeCells grown.data grown.size (List.replicate (size - grown.size) value)
  else pure grown.data

def resizeInitialized (a : DynamicArray T) (size : ℕ) (t : Argument T) (doubleOnResize : Bool) :
    Computed Fault (DynamicArray T) := do
  let grown ← ensureCapacity elementSize a size doubleOnResize
  let data ← fillNew a grown size t
  pure { grown with data := data, size := size }

/-- `assign`, from a range that is not in the storage of the array. -/
def assign (a : DynamicArray T) (range : List (Option T)) : Computed Fault (DynamicArray T) := do
  let resized ← resizeUninitialized elementSize a range.length false
  let data ← writeCells resized.data 0 range
  pure { resized with data := data }

end Operations

/-- The storage is freed if it is owned. -/
def release (a : DynamicArray T) : Computed Fault (Storage T) :=
  if a.OwnsData then deallocate a.data else pure a.data

def assignExternal (a : DynamicArray T) (range : List (Option T)) :
    Computed Fault (DynamicArray T) := do
  let _ ← release a
  pure ⟨.external range, range.length, range.length + kReferenceBit⟩

def popBack (a : DynamicArray T) : DynamicArray T := { a with size := a.size - 1 }

/-- `erase` from a position to another. -/
def erase (a : DynamicArray T) (first last : ℕ) : Computed Fault (DynamicArray T) := do
  let cells ← readCells a.data a.size
  let data ← writeCells a.data first (cells.drop last)
  pure { a with data := data, size := a.size - (last - first) }

def clear (a : DynamicArray T) : Computed Fault (DynamicArray T) := do
  let data ← release a
  pure ⟨data, 0, 0⟩

/-! ### Operations -/

/-- The operations on one array. -/
inductive Operation (T : Type)
  | pushBack
  | pushBackValue (t : Argument T)
  | resizeUninitialized (size : ℕ) (doubleOnResize : Bool)
  | resizeInitialized (size : ℕ) (t : Argument T) (doubleOnResize : Bool)
  | reserve (inCapacity : ℕ)
  | assign (range : List (Option T))
  | assignExternal (range : List (Option T))
  | popBack
  | erase (first last : ℕ)
  | clear

namespace Operation

/-- The argument is an object elsewhere, or an element of the array. -/
def ArgumentIn (a : DynamicArray T) : Argument T → Prop
  | .object _ => True
  | .element index => index < a.size

/-- What the assertions ask for, and that a range which is given does fit into memory. -/
def Possible (elementSize : ℕ) (a : DynamicArray T) : Operation T → Prop
  | pushBackValue t | resizeInitialized _ t _ => ArgumentIn a t
  | assignExternal range | assign range => range.length * elementSize < 2 ^ 63
  | popBack => 1 ≤ a.size
  | erase first last => first ≤ last ∧ last ≤ a.size
  | _ => True

/-- The operation on an array. -/
def run (elementSize : ℕ) (a : DynamicArray T) : Operation T → Computed Fault (DynamicArray T)
  | pushBack => a.pushBack elementSize
  | pushBackValue t => a.pushBackValue elementSize t
  | resizeUninitialized size doubleOnResize =>
    a.resizeUninitialized elementSize size doubleOnResize
  | resizeInitialized size t doubleOnResize =>
    a.resizeInitialized elementSize size t doubleOnResize
  | reserve inCapacity => a.reserve elementSize inCapacity
  | assign range => a.assign elementSize range
  | assignExternal range => a.assignExternal range
  | popBack => pure a.popBack
  | erase first last => a.erase first last
  | clear => a.clear

/-- The operation on a list; `none` is an element that is not specified. -/
def onList (l : List (Option T)) : Operation T → List (Option T)
  | pushBack => l ++ [none]
  | pushBackValue t => l ++ [t.valueIn l]
  | resizeUninitialized size _ => fitted l size
  | resizeInitialized size t _ => l.take size ++ List.replicate (size - l.length) (t.valueIn l)
  | reserve _ => l
  | assign range | assignExternal range => range
  | popBack => l.dropLast
  | erase first last => l.take first ++ l.drop last
  | clear => []

end Operation

/-! ### What goes wrong -/

/-- The storage is memory of the heap. -/
def InHeap (a : DynamicArray T) : Prop :=
  match a.data with
  | .heap _ => True
  | .external _ => False

/-- The array was cleared while it borrowed its storage. -/
def Foreign (a : DynamicArray T) : Prop := a.OwnsData ∧ ¬ a.InHeap

/-- The argument is an object elsewhere. -/
def Argument.IsObject : Argument T → Prop
  | object _ => True
  | element _ => False

/-- The step does what it does on a list.  Where the size is increased before the storage grows, the
storage must not be borrowed. -/
def Operation.Harmless (elementSize : ℕ) (a : DynamicArray T) : Operation T → Prop
  | pushBack => a.size < a.capacity ∨ a.InHeap ∧ max (a.capacity * 2) 1 * elementSize < 2 ^ 63
  | pushBackValue t =>
    a.size < a.capacity ∨
      a.InHeap ∧ max (a.capacity * 2) 1 * elementSize < 2 ^ 63 ∧ t.IsObject
  | resizeUninitialized size doubleOnResize =>
    size ≤ a.capacity ∨ a.InHeap ∧ a.requestedSize size doubleOnResize * elementSize < 2 ^ 63
  | resizeInitialized size t doubleOnResize =>
    size ≤ a.capacity ∨
      ¬ a.Foreign ∧ a.requestedSize size doubleOnResize * elementSize < 2 ^ 63 ∧ t.IsObject
  | reserve inCapacity =>
    inCapacity ≤ a.capacity ∨ ¬ a.Foreign ∧ inCapacity * elementSize < 2 ^ 63
  | assign range => range.length ≤ a.capacity ∨ a.InHeap
  | assignExternal _ | clear => ¬ a.Foreign
  | popBack | erase _ _ => True

/-! ### Elements at positions -/

/-- The element `t` is stored at position `i`. -/
def Has (l : List (Option T)) (i : ℕ) (t : T) : Prop := l[i]? = some (some t)

variable {l m : List (Option T)} {i n : ℕ} {t : T}

theorem Has.lt (h : Has l i t) : i < l.length := (List.getElem?_eq_some_iff.1 h).1

theorem has_append : Has (l ++ m) i t ↔ Has l i t ∨ l.length ≤ i ∧ Has m (i - l.length) t := by
  unfold Has
  by_cases hi : i < l.length
  · rw [List.getElem?_append_left hi]
    exact (or_iff_left fun h => absurd h.1 (by omega)).symm
  · rw [List.getElem?_append_right (by omega)]
    constructor
    · exact fun h => .inr ⟨by omega, h⟩
    · rintro (h | h)
      · exact absurd (Has.lt h) hi
      · exact h.2

theorem has_take : Has (l.take n) i t ↔ i < n ∧ Has l i t := by
  unfold Has
  rw [List.getElem?_take]
  split_ifs with h <;> simp [h]

theorem has_drop : Has (l.drop n) i t ↔ Has l (n + i) t := by
  unfold Has
  rw [List.getElem?_drop]

theorem has_replicate {x : Option T} : Has (List.replicate n x) i t ↔ i < n ∧ x = some t := by
  unfold Has
  rw [List.getElem?_replicate]
  split_ifs with h <;> simp [h]

@[simp] theorem not_has_blank : ¬ Has (blank n : List (Option T)) i t := by
  simp [blank, has_replicate]

theorem has_singleton {x : Option T} : Has [x] i t ↔ i = 0 ∧ x = some t := by
  rw [← List.replicate_one, has_replicate, Nat.lt_one_iff]

@[simp] theorem length_blank : (blank n : List (Option T)).length = n := by
  simp [blank]

@[simp] theorem length_fitted : (fitted l n).length = n := by
  simp [fitted]
  omega

theorem has_fitted : Has (fitted l n) i t ↔ i < n ∧ Has l i t := by
  simp [fitted, has_append, has_take]

theorem valueIn_element : Argument.valueIn l (.element i) = some t ↔ Has l i t := by
  exact Option.join_eq_some_iff

/-! ### The invariant -/

/-- The array owns its storage, or borrows it, or was cleared while it borrowed it. -/
inductive Ok (elementSize : ℕ) : DynamicArray T → Prop
  | owned {cells : List (Option T)} {size n : ℕ} (hn : n = cells.length) (hsize : size ≤ n)
      (hfits : n * elementSize < 2 ^ 63) : Ok elementSize ⟨.heap cells, size, n⟩
  | borrowed {cells : List (Option T)} {size n : ℕ} (hn : n = cells.length) (hsize : size ≤ n)
      (hfits : n * elementSize < 2 ^ 63) : Ok elementSize ⟨.external cells, size, n + kReferenceBit⟩
  | cleared {cells : List (Option T)} : Ok elementSize ⟨.external cells, 0, 0⟩

/-- The list is that of the elements, as far as they are specified. -/
structure Represents (a : DynamicArray T) (l : List (Option T)) : Prop where
  length_eq : l.length = a.size
  has : ∀ i t, Has l i t → Has a.data.cells i t

variable {elementSize : ℕ}

theorem lt_of_fits (hpos : 0 < elementSize) (h : n * elementSize < 2 ^ 63) : n < kReferenceBit :=
  lt_of_le_of_lt (Nat.le_mul_of_pos_right n hpos) h

theorem capacity_withSize (a : DynamicArray T) (size : ℕ) :
    ({ a with size := size } : DynamicArray T).capacity = a.capacity := by
  rw [capacity, capacity]

theorem requestedSize_withSize (a : DynamicArray T) (newSize size : ℕ) (doubleOnResize : Bool) :
    ({ a with size := newSize } : DynamicArray T).requestedSize size doubleOnResize =
      a.requestedSize size doubleOnResize := by
  rw [requestedSize, requestedSize, capacity_withSize]

theorem le_requestedSize (a : DynamicArray T) (size : ℕ) (doubleOnResize : Bool) :
    size ≤ a.requestedSize size doubleOnResize := by
  unfold requestedSize
  split_ifs <;> omega

theorem capacity_owned {data : Storage T} {size : ℕ} (h : n < kReferenceBit) :
    (⟨data, size, n⟩ : DynamicArray T).capacity = n := Nat.mod_eq_of_lt h

theorem capacity_borrowed {data : Storage T} {size : ℕ} (h : n < kReferenceBit) :
    (⟨data, size, n + kReferenceBit⟩ : DynamicArray T).capacity = n := by
  rw [capacity, Nat.add_mod_right, Nat.mod_eq_of_lt h]

theorem not_ownsData_borrowed {data : Storage T} {size : ℕ} :
    ¬ (⟨data, size, n + kReferenceBit⟩ : DynamicArray T).OwnsData := by
  simp [OwnsData]

/-! ### Memory -/

variable {a : DynamicArray T} {cells values : List (Option T)} {size : ℕ} {data : Storage T}

theorem ownsData_owned (h : n < kReferenceBit) : (⟨data, size, n⟩ : DynamicArray T).OwnsData := h

theorem reallocate_heap (h : n * elementSize < 2 ^ 63) :
    reallocate elementSize (.heap cells) n = pure (.heap (fitted cells n)) := by
  rw [reallocate, assert_of h]
  rfl

theorem readCells_eq (h : n ≤ data.cells.length) :
    readCells data n = pure (fitted data.cells n) := by
  rw [readCells, assert_of h]
  rfl

theorem writeCells_eq (h : i + values.length ≤ data.cells.length) :
    writeCells data i values = pure (data.withCells
      (data.cells.take i ++ values ++ data.cells.drop (i + values.length))) := by
  rw [writeCells, assert_of h]
  rfl

@[simp] theorem cells_withCells : (data.withCells cells).cells = cells := by
  cases data <;> rfl

/-! ### Growth -/

theorem reserve_owned {m : ℕ} (hlt : m < kReferenceBit) (hn : m < n)
    (hfits : n * elementSize < 2 ^ 63) :
    reserve elementSize ⟨.heap cells, size, m⟩ n = pure ⟨.heap (fitted cells n), size, n⟩ := by
  have hcapacity : (⟨.heap cells, size, m⟩ : DynamicArray T).capacity = m := capacity_owned hlt
  rw [reserve, if_neg (by omega), if_pos (ownsData_owned hlt), reallocate_heap hfits]
  rfl

theorem reserve_borrowed {m : ℕ} (hm : m = cells.length) (hlt : m < kReferenceBit)
    (hsize : size ≤ m) (hn : m < n) (hfits : n * elementSize < 2 ^ 63) :
    reserve elementSize ⟨.external cells, size, m + kReferenceBit⟩ n =
      pure ⟨.heap (fitted (cells.take size) n), size, n⟩ := by
  have hcapacity : (⟨.external cells, size, m + kReferenceBit⟩ : DynamicArray T).capacity = m :=
    capacity_borrowed hlt
  have hread : readCells (.external cells) size = pure (fitted cells size) :=
    readCells_eq (hm ▸ hsize)
  -- the cells are copied into the new memory, which is blank behind them
  have hwrite : writeCells (.heap (blank n)) 0 (fitted cells size) =
      pure (.heap (fitted (cells.take size) n)) := by
    rw [writeCells_eq (by simp [Storage.cells]; omega)]
    have h₁ : (cells.take size).take n = cells.take size := List.take_of_length_le (by simp; omega)
    have h₂ : size - cells.length = 0 := by omega
    have h₃ : min size cells.length = size := by omega
    simp [Storage.cells, Storage.withCells, fitted, blank, h₁, h₂, h₃]
  rw [reserve, if_neg (by omega), if_neg not_ownsData_borrowed, allocate, assert_of hfits]
  simp only [pure_bind', hread, hwrite]

theorem reserve_faults (hn : a.capacity < n)
    (h : ¬ (n * elementSize < 2 ^ 63 ∧ ¬ a.Foreign ∧
      (¬ a.OwnsData → a.size ≤ a.data.cells.length))) :
    (reserve elementSize a n).faults ≠ [] := by
  rw [reserve, if_neg (by omega)]
  by_cases hfits : n * elementSize < 2 ^ 63
  · by_cases howns : a.OwnsData
    · -- a cleared array has the flag of its own memory, but not such memory
      have hforeign : a.Foreign := by tauto
      obtain ⟨_ | cells, size, raw⟩ := a
      · exact absurd trivial hforeign.2
      · simp [if_pos howns, reallocate, assert]
    · have hsize : ¬ a.size ≤ a.data.cells.length := fun hle =>
        h ⟨hfits, fun hf => howns hf.1, fun _ => hle⟩
      simp [if_neg howns, readCells, assert, hsize]
  · have hfits' : ¬ n * elementSize < 9223372036854775808 := hfits
    split_ifs <;> simp [reallocate, allocate, assert, hfits']

/-! ### The storage after an operation -/

/-- The cells after `values` are stored at `i`. -/
def written (cells : List (Option T)) (i : ℕ) (values : List (Option T)) : List (Option T) :=
  cells.take i ++ values ++ cells.drop (i + values.length)

theorem length_written (h : i + values.length ≤ cells.length) :
    (written cells i values).length = cells.length := by
  simp [written]
  omega

theorem has_written (h : i + values.length ≤ cells.length) {j : ℕ} :
    Has (written cells i values) j t ↔
      (j < i ∨ i + values.length ≤ j) ∧ Has cells j t ∨ i ≤ j ∧ Has values (j - i) t := by
  have hi : min i cells.length = i := by omega
  simp only [written, has_append, has_take, has_drop, List.length_append, List.length_take, hi]
  constructor
  · rintro ((⟨hj, hc⟩ | hv) | ⟨hj, hc⟩)
    · exact .inl ⟨.inl hj, hc⟩
    · exact .inr hv
    · rw [Nat.add_sub_cancel' hj] at hc
      exact .inl ⟨.inr hj, hc⟩
  · rintro (⟨hj | hj, hc⟩ | hv)
    · exact .inl (.inl ⟨hj, hc⟩)
    · refine .inr ⟨hj, ?_⟩
      rwa [Nat.add_sub_cancel' hj]
    · exact .inl (.inr hv)

theorem writeCells_written (h : i + values.length ≤ data.cells.length) :
    writeCells data i values = pure (data.withCells (written data.cells i values)) :=
  writeCells_eq h

theorem Ok.size_le (h : Ok elementSize a) : a.size ≤ a.data.cells.length := by
  cases h with
  | owned hn hsize hfits => exact hn ▸ hsize
  | borrowed hn hsize hfits => exact hn ▸ hsize
  | cleared => exact Nat.zero_le _

/-- The size may be any that fits into the storage, unless the array was cleared. -/
theorem Ok.withSize (h : Ok elementSize a) (hn : n ≤ a.capacity) (hpos : 0 < elementSize) :
    Ok elementSize { a with size := n } := by
  cases h with
  | owned hm hsize hfits =>
    rw [capacity_owned (lt_of_fits hpos hfits)] at hn
    exact .owned hm hn hfits
  | borrowed hm hsize hfits =>
    rw [capacity_borrowed (lt_of_fits hpos hfits)] at hn
    exact .borrowed hm hn hfits
  | cleared =>
    obtain rfl : n = 0 := Nat.le_zero.1 hn
    exact .cleared

theorem Ok.withCells (h : Ok elementSize a) (hlen : cells.length = a.data.cells.length) :
    Ok elementSize { a with data := a.data.withCells cells } := by
  cases h with
  | owned hn hsize hfits => exact .owned (hn.trans hlen.symm) hsize hfits
  | borrowed hn hsize hfits => exact .borrowed (hn.trans hlen.symm) hsize hfits
  | cleared => exact .cleared

theorem Ok.capacity_le (h : Ok elementSize a) (hpos : 0 < elementSize) :
    a.capacity ≤ a.data.cells.length := by
  cases h with
  | owned hn hsize hfits =>
    rw [capacity_owned (lt_of_fits hpos hfits)]
    exact hn.le
  | borrowed hn hsize hfits =>
    rw [capacity_borrowed (lt_of_fits hpos hfits)]
    exact hn.le
  | cleared => exact Nat.zero_le _

theorem Ok.size_le_capacity (h : Ok elementSize a) (hpos : 0 < elementSize) :
    a.size ≤ a.capacity := by
  cases h with
  | owned hn hsize hfits => exact hsize.trans (capacity_owned (lt_of_fits hpos hfits)).ge
  | borrowed hn hsize hfits => exact hsize.trans (capacity_borrowed (lt_of_fits hpos hfits)).ge
  | cleared => exact Nat.zero_le _

/-- The array `b` has the size `size`, and the elements of `a` where both have some. -/
structure Resized (elementSize : ℕ) (a : DynamicArray T) (size : ℕ) (b : DynamicArray T) : Prop where
  ok : Ok elementSize b
  size_eq : b.size = size
  has : ∀ i t, i < a.size → Has a.data.cells i t → i < size → Has b.data.cells i t

theorem Ok.resized (h : Ok elementSize a) (hn : n ≤ a.capacity) (hpos : 0 < elementSize) :
    Resized elementSize a n { a with size := n } :=
  ⟨h.withSize hn hpos, rfl, fun _ _ _ hit _ => hit⟩

theorem reserve_resized (ha : Ok elementSize a) (hheap : a.InHeap) (hpos : 0 < elementSize)
    (hn : a.capacity < n) (hsize : size ≤ n) (hfits : n * elementSize < 2 ^ 63) :
    ∃ b, reserve elementSize { a with size := size } n = pure b ∧ Resized elementSize a size b := by
  cases ha with
  | @owned cells size₀ m hm hsize₀ hfits₀ =>
    have hlt := lt_of_fits hpos hfits₀
    rw [capacity_owned hlt] at hn
    refine ⟨_, reserve_owned hlt hn hfits, .owned (by simp) hsize hfits, rfl, ?_⟩
    intro i t _ hit hi
    exact has_fitted.2 ⟨by omega, hit⟩
  | borrowed => exact hheap.elim
  | cleared => exact hheap.elim

theorem reserve_same_size (ha : Ok elementSize a) (hforeign : ¬ a.Foreign) (hpos : 0 < elementSize)
    (hn : a.capacity < n) (hfits : n * elementSize < 2 ^ 63) :
    ∃ b, reserve elementSize a n = pure b ∧ Resized elementSize a a.size b ∧
      n ≤ b.capacity := by
  have hle := ha.size_le_capacity hpos
  cases ha with
  | @owned cells size m hm hsize hfits₀ =>
    have hlt := lt_of_fits hpos hfits₀
    rw [capacity_owned hlt] at hn hle
    refine ⟨_, reserve_owned hlt hn hfits, ⟨.owned (by simp) (by omega) hfits, rfl, ?_⟩, ?_⟩
    · exact fun i t hi hit _ => has_fitted.2 ⟨hi.trans_le (hle.trans hn.le), hit⟩
    · exact (capacity_owned (lt_of_fits hpos hfits)).ge
  | @borrowed cells size m hm hsize hfits₀ =>
    have hlt := lt_of_fits hpos hfits₀
    rw [capacity_borrowed hlt] at hn hle
    refine ⟨_, reserve_borrowed hm hlt hsize hn hfits,
      ⟨.owned (by simp) (by omega) hfits, rfl, ?_⟩, ?_⟩
    · intro i t hi hit _
      exact has_fitted.2 ⟨hi.trans_le (hle.trans hn.le), has_take.2 ⟨hi, hit⟩⟩
    · exact (capacity_owned (lt_of_fits hpos hfits)).ge
  | cleared => exact absurd ⟨ownsData_owned (by decide), not_false⟩ hforeign

/-! ### The operations, one by one -/

/-- Nothing goes wrong, and the array that is left represents the list. -/
def Performs (elementSize : ℕ) (x : Computed Fault (DynamicArray T)) (l : List (Option T)) : Prop :=
  ∃ a, x = pure a ∧ Ok elementSize a ∧ Represents a l

theorem Resized.represents {b : DynamicArray T} (h : Resized elementSize a size b)
    (hl : Represents a l) (hm : m.length = size) (hml : ∀ i t, Has m i t → Has l i t) :
    Represents b m := by
  refine ⟨hm.trans h.size_eq.symm, fun i t hit => ?_⟩
  have hlit := hml i t hit
  exact h.has i t (hl.length_eq ▸ hlit.lt) (hl.has i t hlit) (hm ▸ hit.lt)

theorem readArgument_eq (hl : Represents a l) {b : DynamicArray T} {x : Argument T}
    (hx : x.IsObject ∨ b.rawCapacity = a.rawCapacity) :
    ∃ v, readArgument a b x = pure v ∧ ∀ t, x.valueIn l = some t → v = some t := by
  cases x with
  | object value => exact ⟨some value, rfl, fun t h => h⟩
  | element index =>
    refine ⟨_, ?_, fun t h => valueIn_element.2 (hl.has _ _ (valueIn_element.1 h))⟩
    rw [readArgument, assert_of (hx.resolve_left not_false)]
    rfl

section Specs

variable (ha : Ok elementSize a) (hpos : 0 < elementSize)

include ha hpos

theorem pushBack_spec (h : Operation.Harmless elementSize a .pushBack) :
    ∃ b, a.pushBack elementSize = pure b ∧ Resized elementSize a (a.size + 1) b ∧
      (a.size < a.capacity → b.rawCapacity = a.rawCapacity) := by
  have hle := ha.size_le_capacity hpos
  unfold pushBack
  simp only [capacity_withSize]
  split_ifs with hgrow
  · -- the size counts the new element before the storage grows
    obtain ⟨hheap, hfits⟩ := h.resolve_left (by omega)
    have hsize : a.size + 1 ≤ max (a.capacity * 2) 1 := by omega
    obtain ⟨b, hb, hresized⟩ := reserve_resized ha hheap hpos (by omega) hsize hfits
    exact ⟨b, hb, hresized, fun hlt => absurd hlt (by omega)⟩
  · exact ⟨_, rfl, ha.resized (by omega) hpos, fun _ => rfl⟩

theorem resizeUninitialized_spec {doubleOnResize : Bool}
    (h : Operation.Harmless elementSize a (.resizeUninitialized size doubleOnResize)) :
    ∃ b, a.resizeUninitialized elementSize size doubleOnResize = pure b ∧
      Resized elementSize a size b := by
  have hrequested := a.le_requestedSize size doubleOnResize
  unfold resizeUninitialized
  simp only [capacity_withSize, requestedSize_withSize]
  split_ifs with hle
  · exact ⟨_, rfl, ha.resized hle hpos⟩
  · obtain ⟨hheap, hfits⟩ := h.resolve_left hle
    exact reserve_resized ha hheap hpos (by omega) hrequested hfits

theorem reserve_spec {inCapacity : ℕ}
    (h : Operation.Harmless elementSize a (.reserve inCapacity)) :
    ∃ b, a.reserve elementSize inCapacity = pure b ∧ Resized elementSize a a.size b ∧
      inCapacity ≤ b.capacity := by
  by_cases hle : inCapacity ≤ a.capacity
  · refine ⟨a, by rw [reserve, if_pos hle], ?_, hle⟩
    exact ha.resized (ha.size_le_capacity hpos) hpos
  · obtain ⟨hforeign, hfits⟩ := h.resolve_left hle
    exact reserve_same_size ha hforeign hpos (by omega) hfits

variable (hl : Represents a l)

include hl

theorem pushBack_performs (h : Operation.Harmless elementSize a .pushBack) :
    Performs elementSize (a.pushBack elementSize) (l ++ [none]) := by
  obtain ⟨b, hb, hresized, -⟩ := pushBack_spec ha hpos h
  refine ⟨b, hb, hresized.ok, hresized.represents hl (by simp [hl.length_eq]) fun i t hit => ?_⟩
  simpa [has_append, has_singleton] using hit

theorem pushBackValue_performs {x : Argument T}
    (h : Operation.Harmless elementSize a (.pushBackValue x)) :
    Performs elementSize (a.pushBackValue elementSize x) (l ++ [x.valueIn l]) := by
  have hpush : Operation.Harmless elementSize a .pushBack := h.imp_right fun h => ⟨h.1, h.2.1⟩
  obtain ⟨b, hb, hresized, hsame⟩ := pushBack_spec ha hpos hpush
  obtain ⟨v, hv, hvalue⟩ := readArgument_eq (b := b) hl
    (h.symm.imp (fun h => h.2.2) hsame)
  have hroom : b.size - 1 + [v].length ≤ b.data.cells.length := by
    have := hresized.ok.size_le
    have := hresized.size_eq
    simp only [List.length_singleton]
    omega
  have hsub : b.size - 1 = a.size := by rw [hresized.size_eq, Nat.add_sub_cancel]
  refine ⟨{ b with data := b.data.withCells (written b.data.cells (b.size - 1) [v]) }, ?_,
    hresized.ok.withCells (length_written hroom), ?_, fun i t hit => ?_⟩
  · rw [pushBackValue, hb, pure_bind', hv, pure_bind', writeCells_written hroom]
    rfl
  · simp [hresized.size_eq, hl.length_eq]
  · rw [cells_withCells, has_written hroom, hsub]
    rcases has_append.1 hit with hit | ⟨hi, hit⟩
    · have hlt : i < a.size := hl.length_eq ▸ hit.lt
      exact .inl ⟨.inl hlt, hresized.has i t hlt (hl.has i t hit) (by omega)⟩
    · rw [hl.length_eq] at hi hit
      obtain ⟨hzero, hx⟩ := has_singleton.1 hit
      exact .inr ⟨hi, has_singleton.2 ⟨hzero, hvalue t hx⟩⟩

theorem resizeUninitialized_performs {doubleOnResize : Bool}
    (h : Operation.Harmless elementSize a (.resizeUninitialized size doubleOnResize)) :
    Performs elementSize (a.resizeUninitialized elementSize size doubleOnResize)
      (fitted l size) := by
  obtain ⟨b, hb, hresized⟩ := resizeUninitialized_spec ha hpos h
  exact ⟨b, hb, hresized.ok,
    hresized.represents hl length_fitted fun i t hit => (has_fitted.1 hit).2⟩

theorem reserve_performs {inCapacity : ℕ}
    (h : Operation.Harmless elementSize a (.reserve inCapacity)) :
    Performs elementSize (a.reserve elementSize inCapacity) l := by
  obtain ⟨b, hb, hresized, -⟩ := reserve_spec ha hpos h
  exact ⟨b, hb, hresized.ok, hresized.represents hl hl.length_eq fun _ _ hit => hit⟩

omit hl in
theorem ensureCapacity_spec {x : Argument T} {doubleOnResize : Bool}
    (h : Operation.Harmless elementSize a (.resizeInitialized size x doubleOnResize)) :
    ∃ b, a.ensureCapacity elementSize size doubleOnResize = pure b ∧
      Resized elementSize a a.size b ∧ size ≤ b.capacity ∧
      (x.IsObject ∨ b.rawCapacity = a.rawCapacity) := by
  have hrequested := a.le_requestedSize size doubleOnResize
  unfold ensureCapacity
  split_ifs with hgrow
  · obtain ⟨hforeign, hfits, hobject⟩ := h.resolve_left (by omega)
    have hreserve : Operation.Harmless elementSize a
        (.reserve (a.requestedSize size doubleOnResize)) := .inr ⟨hforeign, hfits⟩
    obtain ⟨b, hb, hresized, hroom⟩ := reserve_spec ha hpos hreserve
    exact ⟨b, hb, hresized, hrequested.trans hroom, .inl hobject⟩
  · exact ⟨a, rfl, ha.resized (ha.size_le_capacity hpos) hpos, not_lt.1 hgrow, .inr rfl⟩

omit ha hpos in
theorem fillNew_spec {b : DynamicArray T} {x : Argument T} (hb : Resized elementSize a a.size b)
    (hroom : size ≤ b.data.cells.length) (hx : x.IsObject ∨ b.rawCapacity = a.rawCapacity) :
    ∃ cells, fillNew a b size x = pure (b.data.withCells cells) ∧
      cells.length = b.data.cells.length ∧
      ∀ i t, Has (l.take size ++ List.replicate (size - l.length) (x.valueIn l)) i t →
        Has cells i t := by
  obtain ⟨v, hv, hvalue⟩ := readArgument_eq hl hx
  have hsize := hb.size_eq
  have hlen := hl.length_eq
  -- the old elements are in the storage
  have hold : ∀ i t, Has (l.take size) i t → i < b.size ∧ Has b.data.cells i t := by
    intro i t hit
    obtain ⟨-, hit⟩ := has_take.1 hit
    have hi : i < a.size := hlen ▸ hit.lt
    exact ⟨hsize ▸ hi, hb.has i t hi (hl.has i t hit) hi⟩
  unfold fillNew
  split_ifs with hlarger
  · have hwrite : b.size + (List.replicate (size - b.size) v).length ≤ b.data.cells.length := by
      rw [List.length_replicate]
      omega
    refine ⟨_, by rw [hv, pure_bind', writeCells_written hwrite], length_written hwrite, ?_⟩
    intro i t hit
    rw [has_written hwrite]
    rcases has_append.1 hit with hit | ⟨hi, hit⟩
    · exact .inl ⟨.inl (hold i t hit).1, (hold i t hit).2⟩
    · rw [List.length_take] at hi hit
      obtain ⟨hlt, hx⟩ := has_replicate.1 hit
      exact .inr ⟨by omega, has_replicate.2 ⟨by omega, hvalue t hx⟩⟩
  · refine ⟨b.data.cells, ?_, rfl, ?_⟩
    · cases hdata : b.data <;> rfl
    · intro i t hit
      rcases has_append.1 hit with hit | ⟨-, hit⟩
      · exact (hold i t hit).2
      · exact absurd (has_replicate.1 hit).1 (by omega)

theorem resizeInitialized_performs {x : Argument T} {doubleOnResize : Bool}
    (h : Operation.Harmless elementSize a (.resizeInitialized size x doubleOnResize)) :
    Performs elementSize (a.resizeInitialized elementSize size x doubleOnResize)
      (l.take size ++ List.replicate (size - l.length) (x.valueIn l)) := by
  obtain ⟨b, hb, hresized, hroom, hx⟩ := ensureCapacity_spec ha hpos h
  obtain ⟨cells, hfill, hlen, hhas⟩ :=
    fillNew_spec hl hresized (hroom.trans (hresized.ok.capacity_le hpos)) hx
  refine ⟨{ b with data := b.data.withCells cells, size := size }, ?_, ?_, ?_, ?_⟩
  · rw [resizeInitialized, hb, pure_bind', hfill]
    rfl
  · exact (hresized.ok.withCells hlen).withSize hroom hpos
  · simp [hl.length_eq]
    omega
  · rw [cells_withCells]
    exact hhas

omit hl in
theorem assign_performs {range : List (Option T)} (hrange : range.length * elementSize < 2 ^ 63)
    (h : Operation.Harmless elementSize a (.assign range)) :
    Performs elementSize (a.assign elementSize range) range := by
  have hresize : Operation.Harmless elementSize a (.resizeUninitialized range.length false) :=
    h.imp_right fun h => ⟨h, by simpa [requestedSize] using hrange⟩
  obtain ⟨b, hb, hresized⟩ := resizeUninitialized_spec ha hpos hresize
  have hroom : 0 + range.length ≤ b.data.cells.length := by
    rw [Nat.zero_add, ← hresized.size_eq]
    exact hresized.ok.size_le
  refine ⟨{ b with data := b.data.withCells (written b.data.cells 0 range) }, ?_,
    hresized.ok.withCells (length_written hroom), hresized.size_eq.symm, fun i t hit => ?_⟩
  · rw [assign, hb, pure_bind', writeCells_written hroom]
    rfl
  · rw [cells_withCells, has_written hroom]
    exact .inr ⟨Nat.zero_le _, hit⟩

omit ha hpos hl in
theorem release_eq (h : ¬ a.Foreign) : ∃ data, a.release = pure data ∧
    (a.OwnsData → data = .heap []) := by
  unfold release
  split_ifs with howns
  · have hheap : a.InHeap := by
      by_contra hheap
      exact h ⟨howns, hheap⟩
    obtain ⟨cells | cells, size, n⟩ := a
    · exact ⟨_, rfl, fun _ => rfl⟩
    · exact hheap.elim
  · exact ⟨_, rfl, fun h => absurd h howns⟩

omit ha hpos hl in
theorem assignExternal_performs {range : List (Option T)}
    (hrange : range.length * elementSize < 2 ^ 63) (h : ¬ a.Foreign) :
    Performs elementSize (a.assignExternal range) range := by
  obtain ⟨data, hdata, -⟩ := release_eq h
  refine ⟨_, by rw [assignExternal, hdata]; rfl, .borrowed rfl le_rfl hrange, rfl, ?_⟩
  exact fun _ _ hit => hit

omit hl in
theorem clear_performs (h : ¬ a.Foreign) : Performs elementSize a.clear [] := by
  obtain ⟨data, hdata, hheap⟩ := release_eq h
  refine ⟨⟨data, 0, 0⟩, by rw [clear, hdata]; rfl, ?_, rfl, nofun⟩
  cases ha with
  | owned hn hsize hfits =>
    rw [hheap (ownsData_owned (lt_of_fits hpos hfits))]
    exact .owned rfl le_rfl (by simp)
  | borrowed =>
    -- the pointer to what was borrowed stays, while the capacity becomes 0
    rw [release, if_neg not_ownsData_borrowed] at hdata
    cases congrArg value hdata
    exact .cleared
  | cleared => exact absurd ⟨ownsData_owned (by decide), not_false⟩ h

omit hl in
theorem popBack_performs (hl : Represents a l) (h : 1 ≤ a.size) :
    Performs elementSize (pure a.popBack) l.dropLast := by
  have hresized := ha.resized (n := a.size - 1) (by have := ha.size_le_capacity hpos; omega) hpos
  refine ⟨_, rfl, hresized.ok, hresized.represents hl (by simp [hl.length_eq]) fun i t hit => ?_⟩
  rw [List.dropLast_eq_take] at hit
  exact (has_take.1 hit).2

theorem erase_performs {first last : ℕ} (h₁ : first ≤ last) (h₂ : last ≤ a.size) :
    Performs elementSize (a.erase first last) (l.take first ++ l.drop last) := by
  have hsize := ha.size_le
  have hlen := hl.length_eq
  have hread : readCells a.data a.size = pure (fitted a.data.cells a.size) := readCells_eq hsize
  have hwrite : first + ((fitted a.data.cells a.size).drop last).length ≤ a.data.cells.length := by
    simp
    omega
  have hok := (ha.withCells (length_written hwrite)).withSize
    (n := a.size - (last - first)) (show _ ≤ a.capacity by
      have := ha.size_le_capacity hpos
      omega) hpos
  refine ⟨_, by rw [erase, hread, pure_bind', writeCells_written hwrite]; rfl, hok, ?_, ?_⟩
  · simp
    omega
  · intro i t hit
    rw [cells_withCells, has_written hwrite]
    rcases has_append.1 hit with hit | ⟨hi, hit⟩
    · obtain ⟨hlt, hit⟩ := has_take.1 hit
      exact .inl ⟨.inl hlt, hl.has i t hit⟩
    · rw [List.length_take] at hi hit
      have hmin : min first l.length = first := by omega
      rw [hmin] at hi hit
      rw [has_drop] at hit
      have hlt : last + (i - first) < a.size := hlen ▸ hit.lt
      exact .inr ⟨hi, has_drop.2 (has_fitted.2 ⟨hlt, hl.has _ t hit⟩)⟩

end Specs

theorem Operation.run_performs (hpos : 0 < elementSize) (ha : Ok elementSize a)
    (hl : Represents a l) {op : Operation T} (hpossible : op.Possible elementSize a)
    (h : op.Harmless elementSize a) : Performs elementSize (op.run elementSize a) (op.onList l) := by
  cases op with
  | pushBack => exact pushBack_performs ha hpos hl h
  | pushBackValue x => exact pushBackValue_performs ha hpos hl h
  | resizeUninitialized size doubleOnResize => exact resizeUninitialized_performs ha hpos hl h
  | resizeInitialized size x doubleOnResize => exact resizeInitialized_performs ha hpos hl h
  | reserve inCapacity => exact reserve_performs ha hpos hl h
  | assign range => exact assign_performs ha hpos hpossible h
  | assignExternal range => exact assignExternal_performs hpossible h
  | popBack => exact popBack_performs ha hpos hl hpossible
  | erase first last => exact erase_performs ha hpos hl hpossible.1 hpossible.2
  | clear => exact clear_performs ha hpos h

/-! ### Operations that are not harmless -/

theorem bind_faults_left {α β : Type} {x : Computed Fault α} {f : α → Computed Fault β}
    (h : x.faults ≠ []) : (x >>= f).faults ≠ [] := by
  simp [h]

theorem bind_faults_right {α β : Type} {x : Computed Fault α} {f : α → Computed Fault β}
    (h : (f x.value).faults ≠ []) : (x >>= f).faults ≠ [] := by
  simp [h]

theorem reserve_value_rawCapacity (hn : a.capacity < n) :
    (reserve elementSize a n).value.rawCapacity = n := by
  rw [reserve, if_neg (by omega)]
  split_ifs <;> rfl

theorem ne_rawCapacity (hpos : 0 < elementSize) (hn : a.capacity < n)
    (hfits : n * elementSize < 2 ^ 63) : n ≠ a.rawCapacity := by
  rintro rfl
  exact absurd (Nat.mod_eq_of_lt (lt_of_fits hpos hfits)) hn.ne

theorem readArgument_faults {b : DynamicArray T} {x : Argument T} (hx : ¬ x.IsObject)
    (hb : b.rawCapacity ≠ a.rawCapacity) : (readArgument a b x).faults ≠ [] := by
  cases x with
  | object value => exact absurd trivial hx
  | element index => simp [readArgument, assert, hb]

section Faults

variable (ha : Ok elementSize a) (hpos : 0 < elementSize)

include ha hpos

theorem Ok.not_inHeap (h : ¬ a.InHeap) :
    a.Foreign ∨ ¬ a.OwnsData ∧ a.data.cells.length = a.capacity := by
  cases ha with
  | owned => exact absurd trivial h
  | borrowed hn hsize hfits =>
    exact .inr ⟨not_ownsData_borrowed,
      (hn.symm.trans (capacity_borrowed (lt_of_fits hpos hfits)).symm)⟩
  | cleared => exact .inl ⟨ownsData_owned (by decide), h⟩

theorem reserve_bumped_faults (hn : a.capacity < n) (hsize : a.capacity < size)
    (h : ¬ (a.InHeap ∧ n * elementSize < 2 ^ 63)) :
    (reserve elementSize { a with size := size } n).faults ≠ [] := by
  refine reserve_faults hn fun ⟨hfits, hforeign, hread⟩ => ?_
  rcases ha.not_inHeap hpos fun hheap => h ⟨hheap, hfits⟩ with hf | ⟨howns, hlen⟩
  · exact hforeign hf
  · have : size ≤ a.data.cells.length := hread howns
    omega

omit ha hpos in
theorem reserve_op_faults {inCapacity : ℕ}
    (h : ¬ Operation.Harmless elementSize a (.reserve inCapacity)) :
    (a.reserve elementSize inCapacity).faults ≠ [] := by
  simp only [Operation.Harmless, not_or] at h
  refine reserve_faults (by omega) fun ⟨hfits, hforeign, _⟩ => h.2 ⟨hforeign, hfits⟩

theorem pushBack_faults (h : ¬ Operation.Harmless elementSize a .pushBack) :
    (a.pushBack elementSize).faults ≠ [] := by
  simp only [Operation.Harmless, not_or, not_lt] at h
  simp only [pushBack, capacity_withSize]
  rw [if_pos (by omega)]
  exact reserve_bumped_faults ha hpos (by omega) (by omega) h.2

theorem pushBackValue_faults {x : Argument T}
    (h : ¬ Operation.Harmless elementSize a (.pushBackValue x)) :
    (a.pushBackValue elementSize x).faults ≠ [] := by
  by_cases hpush : Operation.Harmless elementSize a .pushBack
  · -- the array grows, and the argument is an element of it
    simp only [Operation.Harmless, not_or, not_and, not_lt] at h hpush
    obtain ⟨hheap, hfits⟩ := hpush.resolve_left (by omega)
    have hraw : (a.pushBack elementSize).value.rawCapacity = max (a.capacity * 2) 1 := by
      simp only [pushBack, capacity_withSize]
      rw [if_pos (by omega), reserve_value_rawCapacity (by rw [capacity_withSize]; omega)]
    refine bind_faults_right (bind_faults_left (readArgument_faults (h.2 hheap hfits) ?_))
    rw [hraw]
    exact ne_rawCapacity hpos (by omega) hfits
  · exact bind_faults_left (pushBack_faults ha hpos hpush)

theorem resizeUninitialized_faults {doubleOnResize : Bool}
    (h : ¬ Operation.Harmless elementSize a (.resizeUninitialized size doubleOnResize)) :
    (a.resizeUninitialized elementSize size doubleOnResize).faults ≠ [] := by
  simp only [Operation.Harmless, not_or, not_le] at h
  have hrequested := a.le_requestedSize size doubleOnResize
  simp only [resizeUninitialized, capacity_withSize, requestedSize_withSize]
  rw [if_neg (by omega)]
  exact reserve_bumped_faults ha hpos (by omega) h.1 h.2

theorem resizeInitialized_faults {x : Argument T} {doubleOnResize : Bool}
    (h : ¬ Operation.Harmless elementSize a (.resizeInitialized size x doubleOnResize)) :
    (a.resizeInitialized elementSize size x doubleOnResize).faults ≠ [] := by
  simp only [Operation.Harmless, not_or, not_le, not_and] at h
  have hrequested := a.le_requestedSize size doubleOnResize
  have hensure : a.ensureCapacity elementSize size doubleOnResize =
      a.reserve elementSize (a.requestedSize size doubleOnResize) := if_pos h.1
  unfold resizeInitialized
  rw [hensure]
  by_cases hreserve : Operation.Harmless elementSize a
      (.reserve (a.requestedSize size doubleOnResize))
  · obtain ⟨hforeign, hfits⟩ := hreserve.resolve_left (by omega)
    obtain ⟨b, hb, hresized, -⟩ := reserve_spec ha hpos hreserve
    -- the storage has moved before the argument, an element of the old one, is read
    have hraw : (a.reserve elementSize (a.requestedSize size doubleOnResize)).value.rawCapacity =
        a.requestedSize size doubleOnResize := reserve_value_rawCapacity (by omega)
    have hlarger : size > b.size := by
      rw [hresized.size_eq]
      exact (ha.size_le_capacity hpos).trans_lt h.1
    rw [hb, value_pure] at hraw
    rw [hb, pure_bind', fillNew, if_pos hlarger]
    refine bind_faults_left (bind_faults_left (readArgument_faults (h.2 hforeign hfits) ?_))
    rw [hraw]
    exact ne_rawCapacity hpos (by omega) hfits
  · exact bind_faults_left (reserve_op_faults hreserve)

omit hpos ha in
theorem release_faults (h : a.Foreign) : a.release.faults ≠ [] := by
  obtain ⟨_ | cells, size, n⟩ := a
  · exact absurd trivial h.2
  · rw [release, if_pos h.1]
    simp [deallocate, assert]

theorem Operation.run_faults {op : Operation T} (h : ¬ op.Harmless elementSize a) :
    (op.run elementSize a).faults ≠ [] := by
  cases op with
  | pushBack => exact pushBack_faults ha hpos h
  | pushBackValue x => exact pushBackValue_faults ha hpos h
  | resizeUninitialized size doubleOnResize => exact resizeUninitialized_faults ha hpos h
  | resizeInitialized size x doubleOnResize => exact resizeInitialized_faults ha hpos h
  | reserve inCapacity => exact reserve_op_faults h
  | assign range =>
    refine bind_faults_left (resizeUninitialized_faults ha hpos fun hresize => h ?_)
    exact hresize.imp_right fun h => h.1
  | assignExternal range => exact bind_faults_left (release_faults (not_not.1 h))
  | popBack => exact absurd trivial h
  | erase first last => exact absurd trivial h
  | clear => exact bind_faults_left (release_faults (not_not.1 h))

end Faults

/-! ### Runs -/

/-- The assignment of the contents of another array. -/
def copyFrom (elementSize : ℕ) (a other : DynamicArray T) : Computed Fault (DynamicArray T) := do
  let range ← readCells other.data other.size
  a.assign elementSize range

variable {ι : Type} [DecidableEq ι]

/-- Arrays, the lists that they should be, and what has gone wrong. -/
structure State (ι T : Type) where
  arrays : ι → DynamicArray T
  lists : ι → List (Option T)
  faults : List Fault

/-- An operation on one array, or `operator=` or `swap` on two. -/
inductive Label (ι T : Type)
  | on (i : ι) (op : Operation T)
  | copy (target source : ι)
  | swap (i j : ι)

def init : State ι T := ⟨fun _ => empty, fun _ => [], []⟩

instance (elementSize : ℕ) (a : DynamicArray T) (op : Operation T) :
    Decidable (op.Possible elementSize a) := by
  have hargument : ∀ x : Argument T, Decidable (Operation.ArgumentIn a x) := fun x => by
    cases x <;> unfold Operation.ArgumentIn <;> infer_instance
  cases op <;> unfold Operation.Possible <;> infer_instance

/-- The state in which the array `i` is what a computation leaves. -/
def State.become (s : State ι T) (i : ι) (x : Computed Fault (DynamicArray T))
    (l : List (Option T)) : State ι T where
  arrays := Function.update s.arrays i x.value
  lists := Function.update s.lists i l
  faults := s.faults ++ x.faults

def step (elementSize : ℕ) (s : State ι T) : Label ι T → Option (State ι T)
  | .on i op =>
    if op.Possible elementSize (s.arrays i) then
      some (s.become i (op.run elementSize (s.arrays i)) (op.onList (s.lists i)))
    else none
  | .copy target source =>
    if target = source then some s
    else some (s.become target (copyFrom elementSize (s.arrays target) (s.arrays source))
      (s.lists source))
  | .swap i j =>
    some { s with
      arrays := fun k => if k = i then s.arrays j else if k = j then s.arrays i else s.arrays k
      lists := fun k => if k = i then s.lists j else if k = j then s.lists i else s.lists k }

/-- The step is harmless for the array that it changes. -/
def Harmless (elementSize : ℕ) (s : State ι T) : Label ι T → Prop
  | .on i op => op.Harmless elementSize (s.arrays i)
  | .copy target source =>
    target = source ∨
      (s.arrays source).size ≤ (s.arrays target).capacity ∨ (s.arrays target).InHeap
  | .swap _ _ => True

/-- While nothing has gone wrong, the arrays represent their lists. -/
def Sound (elementSize : ℕ) (s : State ι T) : Prop :=
  s.faults = [] → ∀ i, Ok elementSize (s.arrays i) ∧ Represents (s.arrays i) (s.lists i)

theorem Ok.size_fits (h : Ok elementSize a) : a.size * elementSize < 2 ^ 63 := by
  cases h with
  | owned hn hsize hfits => exact (Nat.mul_le_mul_right _ hsize).trans_lt hfits
  | borrowed hn hsize hfits => exact (Nat.mul_le_mul_right _ hsize).trans_lt hfits
  | cleared => simp

theorem Represents.fitted (hl : Represents a l) :
    (fitted a.data.cells a.size).length = l.length ∧
      ∀ i t, Has l i t → Has (DynamicArray.fitted a.data.cells a.size) i t :=
  ⟨by rw [length_fitted, hl.length_eq],
    fun i t hit => has_fitted.2 ⟨hl.length_eq ▸ hit.lt, hl.has i t hit⟩⟩

theorem copyFrom_performs (hpos : 0 < elementSize) {other : DynamicArray T}
    (ha : Ok elementSize a) (hother : Ok elementSize other) (hl : Represents other l)
    (h : other.size ≤ a.capacity ∨ a.InHeap) :
    Performs elementSize (copyFrom elementSize a other) l := by
  obtain ⟨hlen, hhas⟩ := hl.fitted
  have hrange : (DynamicArray.fitted other.data.cells other.size).length = other.size :=
    length_fitted
  have hassign : Operation.Harmless elementSize a
      (.assign (DynamicArray.fitted other.data.cells other.size)) :=
    h.imp_left fun hle => hrange.trans_le hle
  rw [copyFrom, readCells_eq hother.size_le, pure_bind']
  obtain ⟨b, hb, hok, hrep⟩ :=
    assign_performs ha hpos (hrange.symm ▸ hother.size_fits) hassign
  exact ⟨b, hb, hok, hlen.symm.trans hrep.length_eq,
    fun i t hit => hrep.has i t (hhas i t hit)⟩

theorem copyFrom_faults (hpos : 0 < elementSize) {other : DynamicArray T}
    (ha : Ok elementSize a) (h : ¬ (other.size ≤ a.capacity ∨ a.InHeap)) :
    (copyFrom elementSize a other).faults ≠ [] := by
  have hassign : ¬ Operation.Harmless elementSize a
      (.assign (readCells other.data other.size).value) := fun hassign =>
    h (hassign.imp_left fun hle => length_fitted.symm.trans_le hle)
  exact bind_faults_right (Operation.run_faults ha hpos hassign)

theorem become_sound {s : State ι T} (hs : Sound elementSize s) {i : ι}
    {x : Computed Fault (DynamicArray T)} {G : Prop}
    (hperforms : s.faults = [] → G → Performs elementSize x l)
    (hfaults : s.faults = [] → ¬ G → x.faults ≠ []) :
    Sound elementSize (s.become i x l) ∧ ((s.become i x l).faults = [] ↔ s.faults = [] ∧ G) := by
  have hiff : (s.become i x l).faults = [] ↔ s.faults = [] ∧ G := by
    simp only [State.become, List.append_eq_nil_iff]
    refine and_congr_right fun hnil => ⟨fun h => ?_, fun h => ?_⟩
    · by_contra hG
      exact hfaults hnil hG h
    · obtain ⟨b, rfl, -⟩ := hperforms hnil h
      rfl
  refine ⟨fun hnil => ?_, hiff⟩
  obtain ⟨hs₀, hG⟩ := hiff.1 hnil
  obtain ⟨b, rfl, hok, hrep⟩ := hperforms hs₀ hG
  intro k
  by_cases hk : k = i
  · subst hk
    simpa [State.become] using ⟨hok, hrep⟩
  · simpa [State.become, hk] using hs hs₀ k

theorem step_sound (hpos : 0 < elementSize) {s s' : State ι T} {label : Label ι T}
    (hs : Sound elementSize s) (hstep : step elementSize s label = some s') :
    Sound elementSize s' ∧ (s'.faults = [] ↔ s.faults = [] ∧ Harmless elementSize s label) := by
  cases label with
  | on i op =>
    rw [step] at hstep
    split_ifs at hstep with hpossible
    cases hstep
    exact become_sound hs
      (fun hnil h => Operation.run_performs hpos (hs hnil i).1 (hs hnil i).2 hpossible h)
      (fun hnil h => Operation.run_faults (hs hnil i).1 hpos h)
  | copy target source =>
    rw [step] at hstep
    split_ifs at hstep with hsame
    · cases hstep
      exact ⟨hs, (and_iff_left (.inl hsame)).symm⟩
    · cases hstep
      have hharmless : Harmless elementSize s (.copy target source) ↔
          (s.arrays source).size ≤ (s.arrays target).capacity ∨ (s.arrays target).InHeap :=
        or_iff_right hsame
      rw [hharmless]
      exact become_sound hs
        (fun hnil h => copyFrom_performs hpos (hs hnil target).1 (hs hnil source).1
          (hs hnil source).2 h)
        (fun hnil h => copyFrom_faults hpos (hs hnil target).1 h)
  | swap i j =>
    cases hstep
    refine ⟨fun hnil k => ?_, (and_iff_left trivial).symm⟩
    dsimp only
    split_ifs
    · exact hs hnil j
    · exact hs hnil i
    · exact hs hnil k

omit [DecidableEq ι] in
theorem init_sound : Sound elementSize (init : State ι T) := fun _ _ =>
  ⟨.owned rfl le_rfl (by simp), rfl, fun _ _ hit => hit⟩

/-- The runs of harmless steps are those in which nothing goes wrong, and in them the size and the
elements of every array are those of its list. -/
theorem refines_list (hpos : 0 < elementSize) (s : State ι T) :
    ((LTS.ofFun (step elementSize)).ReachWith (Harmless elementSize) init s ↔
      (LTS.ofFun (step elementSize)).Reachable init s ∧ s.faults = []) ∧
    ((LTS.ofFun (step elementSize)).ReachWith (Harmless elementSize) init s →
      ∀ i, (s.arrays i).size = (s.lists i).length ∧
        (s.arrays i).contents.length = (s.lists i).length ∧
        ∀ (k : ℕ) (t : T), (s.lists i)[k]? = some (some t) →
          (s.arrays i).contents[k]? = some (some t)) := by
  have hsound : ∀ s : State ι T, (LTS.ofFun (step elementSize)).Reachable init s →
      Sound elementSize s := fun s h =>
    h.invariant init_sound fun s l s' hs _ hstep => (step_sound hpos hs hstep).1
  have hiff : (LTS.ofFun (step elementSize)).ReachWith (Harmless elementSize) init s ↔
      (LTS.ofFun (step elementSize)).Reachable init s ∧ s.faults = [] :=
    LTS.reachWith_iff (P := fun s => s.faults = []) rfl
      fun s l s' hr hstep => (step_sound hpos (hsound s hr) hstep).2
  refine ⟨hiff, fun h i => ?_⟩
  obtain ⟨hreach, hnil⟩ := hiff.1 h
  obtain ⟨hok, hrep⟩ := hsound s hreach hnil i
  have hsize := hok.size_le
  refine ⟨hrep.length_eq.symm, ?_, fun k t hkt => ?_⟩
  · rw [contents, List.length_take, hrep.length_eq]
    omega
  · exact has_take.2 ⟨hrep.length_eq ▸ Has.lt hkt, hrep.has k t hkt⟩

/-- An array that borrows one element, reserves storage and appends another. -/
def reserveThenAppend : List (Label Unit ℕ) :=
  [.on () (.assignExternal [some 1]), .on () (.reserve 2), .on () (.pushBackValue (.object 2))]

theorem refines_list_reserved : ∃ s : State Unit ℕ,
    (s.arrays ()).contents = [some 1, some 2] ∧ (s.arrays ()).size = (s.lists ()).length := by
  obtain ⟨s, hs, hfaults, hcontents⟩ := LTS.exists_reachWith (G := fun _ _ => True) (f := step 8)
    (i := init) reserveThenAppend
    (fun s : State Unit ℕ => s.faults = [] ∧ (s.arrays ()).contents = [some 1, some 2]) (by decide)
  obtain ⟨hiff, hrefines⟩ := refines_list (by decide : 0 < 8) s
  exact ⟨s, hcontents, (hrefines (hiff.2 ⟨hs, hfaults⟩) ()).1⟩

/-- An array that borrows one element and appends another. -/
def appendToBorrowed : List (Label Unit ℕ) :=
  [.on () (.assignExternal [some 1]), .on () (.pushBackValue (.object 2))]

/-- The step from borrowed storage reads more than was lent. -/
theorem outside_read : ¬ ∀ s : State Unit ℕ,
    (LTS.ofFun (step 8)).Reachable init s → s.faults = [] := by
  intro h
  obtain ⟨s, hs, hfaults⟩ := LTS.exists_reachWith (G := fun _ _ => True) (f := step 8) (i := init)
    appendToBorrowed (fun s : State Unit ℕ => s.faults = [.outside]) (by decide)
  exact absurd (hfaults.symm.trans (h s hs)) (by simp)

end DynamicArray

end Il2Cpp
