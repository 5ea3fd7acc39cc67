import Il2Cpp.LTS.Basic

/-!
# The growable block array

The liveness state keeps its objects in arrays that grow by blocks.  The blocks form a chain from
the first one on, to which a block is added when the current one and all behind it are full, and
from which none is taken; so a block is known by its place in the chain.

* `CustomGrowableBlockArray` : the chain, the current block and the iterator, with its functions.
* `Represents` : the elements of the array, from the first block to the current one.
* `next_spec` : what `Next` yields.
* `blockArray_refines_stack` : as long as `Clear` finds the first block to be the current one, the
  functions return what those of a stack return; and where it finds another one, they do not.
-/

namespace Il2Cpp

namespace Liveness

/-- `kArrayElementsPerBlock`, for pointers of a given size. -/
def kArrayElementsPerBlock (pointerSize : ℕ) : ℕ := (8 * 1024 - 3 * pointerSize) / pointerSize

/-- `CustomArrayBlock`; `nextItem` is an offset into `p_data`. -/
structure CustomArrayBlock (V : Type) where
  nextItem : ℕ
  pData : ℕ → V

/-- `CustomGrowableBlockArray` and its iterator.  The blocks are numbered along the chain. -/
structure CustomGrowableBlockArray (V : Type) where
  blocks : ℕ → CustomArrayBlock V
  /-- The number of blocks in the chain. -/
  count : ℕ
  currentBlock : ℕ
  iteratorBlock : ℕ
  iteratorPosition : ℕ

namespace CustomGrowableBlockArray

variable {V : Type}

/-- The constructor; `memory` is what is in the allocated block. -/
def new (memory : ℕ → V) : CustomGrowableBlockArray V := ⟨fun _ => ⟨0, memory⟩, 1, 0, 0, 0⟩

section functions

variable (perBlock : ℕ) (null : V) (a : CustomGrowableBlockArray V)

/-- The current block is changed. -/
def modify (f : CustomArrayBlock V → CustomArrayBlock V) : CustomGrowableBlockArray V :=
  { a with blocks := Function.update a.blocks a.currentBlock (f (a.blocks a.currentBlock)) }

/-- `IsEmpty`. -/
def isEmpty : Bool := (a.blocks 0).nextItem = 0

/-- The block after the current one becomes the current one; it is allocated if there is none. -/
def advance (memory : ℕ → V) : CustomGrowableBlockArray V :=
  if a.currentBlock + 1 = a.count then
    { a with
      blocks := Function.update a.blocks a.count ⟨0, memory⟩
      count := a.count + 1
      currentBlock := a.currentBlock + 1 }
  else { a with currentBlock := a.currentBlock + 1 }

/-- `*current_block->next_item++ = value`. -/
def store (value : V) : CustomGrowableBlockArray V :=
  a.modify fun b => ⟨b.nextItem + 1, Function.update b.pData b.nextItem value⟩

/-- `PushBack`. -/
def pushBack (value : V) (memory : ℕ → V) : CustomGrowableBlockArray V :=
  if (a.blocks a.currentBlock).nextItem = perBlock then (a.advance memory).store value
  else a.store value

/-- The block before the current one becomes the current one, full. -/
def retreat : CustomGrowableBlockArray V :=
  { a with currentBlock := a.currentBlock - 1 }.modify fun b => { b with nextItem := perBlock }

/-- `*--current_block->next_item`. -/
def take : CustomGrowableBlockArray V × V :=
  let b := a.blocks a.currentBlock
  (a.modify fun b => { b with nextItem := b.nextItem - 1 }, b.pData (b.nextItem - 1))

/-- `PopBack`. -/
def popBack : CustomGrowableBlockArray V × V :=
  if (a.blocks a.currentBlock).nextItem = 0 then
    if a.currentBlock = 0 then (a, null) else (a.retreat perBlock).take
  else a.take

/-- `ResetIterator`. -/
def resetIterator : CustomGrowableBlockArray V :=
  { a with iteratorBlock := 0, iteratorPosition := 0 }

/-- `Next`. -/
def next : CustomGrowableBlockArray V × V :=
  let b := a.blocks a.iteratorBlock
  if a.iteratorPosition ≠ b.nextItem then
    ({ a with iteratorPosition := a.iteratorPosition + 1 }, b.pData a.iteratorPosition)
  else if a.iteratorBlock + 1 = a.count then (a, null)
  else
    let b := a.blocks (a.iteratorBlock + 1)
    if 0 = b.nextItem then
      ({ a with iteratorBlock := a.iteratorBlock + 1, iteratorPosition := 0 }, null)
    else
      ({ a with iteratorBlock := a.iteratorBlock + 1, iteratorPosition := 1 }, b.pData 0)

/-- `Next`, some number of times. -/
def nextN : ℕ → CustomGrowableBlockArray V → CustomGrowableBlockArray V × List V
  | 0, a => (a, [])
  | n + 1, a =>
    let first := a.next null
    let others := nextN n first.1
    (others.1, first.2 :: others.2)

/-- `Clear`: the current block stays what it is. -/
def clear : CustomGrowableBlockArray V :=
  { a with blocks := fun i =>
      if i < a.count then { a.blocks i with nextItem := 0 } else a.blocks i }

end functions

end CustomGrowableBlockArray

/-! ### Calls -/

/-- A call; `iterate` is `ResetIterator` and then `Next` a number of times. -/
inductive BlockArrayCall (V : Type)
  | pushBack (value : V) (memory : ℕ → V)
  | popBack
  | isEmpty
  | iterate (n : ℕ)
  | clear

/-- What a call returns. -/
inductive BlockArrayResult (V : Type)
  | none
  | value (value : V)
  | flag (b : Bool)
  | values (values : List V)

section calls

variable {V : Type} (perBlock : ℕ) (null : V)

namespace CustomGrowableBlockArray

/-- A call on the array. -/
def call (a : CustomGrowableBlockArray V) :
    BlockArrayCall V → CustomGrowableBlockArray V × BlockArrayResult V
  | .pushBack value memory => (a.pushBack perBlock value memory, .none)
  | .popBack => (a.popBack perBlock null).map id .value
  | .isEmpty => (a, .flag a.isEmpty)
  | .iterate n => (nextN null n a.resetIterator).map id .values
  | .clear => (a.clear, .none)

end CustomGrowableBlockArray

/-- The same call on a list, whose last element is on top: what the array is for. -/
def stackCall (l : List V) : BlockArrayCall V → List V × BlockArrayResult V
  | .pushBack value _ => (l ++ [value], .none)
  | .popBack => (l.dropLast, .value (l.getLast?.getD null))
  | .isEmpty => (l, .flag l.isEmpty)
  | .iterate n => (l, .values ((l ++ List.replicate n null).take n))
  | .clear => ([], .none)

/-- The results of some calls. -/
def results {S : Type} (call : S → BlockArrayCall V → S × BlockArrayResult V) :
    S → List (BlockArrayCall V) → List (BlockArrayResult V)
  | _, [] => []
  | s, c :: cs => (call s c).2 :: results call (call s c).1 cs

end calls

/-! ### The elements of the array -/

/-- **The invariant**: the blocks up to the current one hold the list. -/
structure Represents {V : Type} (perBlock : ℕ) (a : CustomGrowableBlockArray V) (l : List V) :
    Prop where
  current_lt : a.currentBlock < a.count
  full : ∀ i < a.currentBlock, (a.blocks i).nextItem = perBlock
  le : (a.blocks a.currentBlock).nextItem ≤ perBlock
  empty : ∀ i, a.currentBlock < i → i < a.count → (a.blocks i).nextItem = 0
  length : perBlock * a.currentBlock + (a.blocks a.currentBlock).nextItem = l.length
  data : ∀ i ≤ a.currentBlock, ∀ p < (a.blocks i).nextItem,
    l[perBlock * i + p]? = some ((a.blocks i).pData p)

namespace Represents

variable {V : Type} {perBlock : ℕ} {null : V} {a : CustomGrowableBlockArray V} {l : List V}

theorem new (memory : ℕ → V) : Represents perBlock (.new memory) [] where
  current_lt := Nat.one_pos
  full _ h := absurd h (Nat.not_lt_zero _)
  le := Nat.zero_le _
  empty i h h' := absurd h (by change i < 1 at h'; omega)
  length := rfl
  data _ _ _ h := absurd h (Nat.not_lt_zero _)

theorem index_lt (h : Represents perBlock a l) {i p : ℕ} (hi : i ≤ a.currentBlock)
    (hp : p < (a.blocks i).nextItem) : perBlock * i + p < l.length :=
  (List.getElem?_eq_some_iff.1 (h.data i hi p hp)).1

/-! ### Pushes -/

theorem advance (h : Represents perBlock a l)
    (hfull : (a.blocks a.currentBlock).nextItem = perBlock) (memory : ℕ → V) :
    Represents perBlock (a.advance memory) l ∧
      ((a.advance memory).blocks (a.advance memory).currentBlock).nextItem = 0 := by
  have hlength : perBlock * (a.currentBlock + 1) = l.length := by
    rw [Nat.mul_succ, ← h.length, hfull]
  rw [CustomGrowableBlockArray.advance]
  split_ifs with hlast
  · -- a new block
    have hold (i : ℕ) (hi : i ≤ a.currentBlock) :
        Function.update a.blocks a.count ⟨0, memory⟩ i = a.blocks i :=
      Function.update_of_ne (by omega) ..
    have hnew :
        Function.update a.blocks a.count ⟨0, memory⟩ (a.currentBlock + 1) = ⟨0, memory⟩ := by
      rw [hlast, Function.update_self]
    refine ⟨⟨?_, fun i hi => ?_, ?_, fun i hi hi' => ?_, ?_, fun i hi p hp => ?_⟩, ?_⟩
    · exact Nat.add_lt_add_right h.current_lt 1
    · have hi : i < a.currentBlock + 1 := hi
      dsimp only
      rw [hold i (by omega)]
      rcases Nat.lt_succ_iff_lt_or_eq.1 hi with hi | rfl
      · exact h.full i hi
      · exact hfull
    · dsimp only
      rw [hnew]
      exact Nat.zero_le _
    · have hi : a.currentBlock + 1 < i := hi
      have hi' : i < a.count + 1 := hi'
      omega
    · dsimp only
      rw [hnew, ← hlength]
      rfl
    · dsimp only at hi hp ⊢
      rcases Nat.le_succ_iff.1 hi with hi | rfl
      · rw [hold i hi] at hp ⊢
        exact h.data i hi p hp
      · rw [hnew] at hp
        exact absurd hp (Nat.not_lt_zero p)
    · dsimp only
      rw [hnew]
  · -- a block that has been emptied
    have hcurrent := h.current_lt
    have hzero := h.empty (a.currentBlock + 1) (Nat.lt_succ_self _) (by omega)
    refine ⟨⟨by dsimp only; omega, fun i hi => ?_, ?_, fun i hi hi' => ?_, ?_, fun i hi p hp => ?_⟩,
      hzero⟩
    · rcases Nat.lt_succ_iff_lt_or_eq.1 hi with hi | rfl
      · exact h.full i hi
      · exact hfull
    · dsimp only
      omega
    · dsimp only at hi hi'
      exact h.empty i (by omega) hi'
    · dsimp only
      omega
    · dsimp only at hi hp ⊢
      rcases Nat.le_succ_iff.1 hi with hi | rfl
      · exact h.data i hi p hp
      · rw [hzero] at hp
        exact absurd hp (Nat.not_lt_zero p)

theorem store (h : Represents perBlock a l)
    (hroom : (a.blocks a.currentBlock).nextItem < perBlock) (value : V) :
    Represents perBlock (a.store value) (l ++ [value]) := by
  have hself : (a.store value).blocks a.currentBlock =
      ⟨(a.blocks a.currentBlock).nextItem + 1,
        Function.update (a.blocks a.currentBlock).pData (a.blocks a.currentBlock).nextItem value⟩ :=
    Function.update_self ..
  have hother (i : ℕ) (hi : i ≠ a.currentBlock) : (a.store value).blocks i = a.blocks i :=
    Function.update_of_ne hi ..
  have hlength := h.length
  refine ⟨h.current_lt, fun i hi => ?_, ?_, fun i hi hi' => ?_, ?_, fun i hi p hp => ?_⟩
  · rw [hother i (Nat.ne_of_lt hi)]
    exact h.full i hi
  · change ((a.store value).blocks a.currentBlock).nextItem ≤ _
    rw [hself]
    exact hroom
  · rw [hother i (Nat.ne_of_gt hi)]
    exact h.empty i hi hi'
  · change perBlock * a.currentBlock + ((a.store value).blocks a.currentBlock).nextItem = _
    rw [hself, List.length_append, List.length_singleton, ← hlength]
    rfl
  · have hi : i ≤ a.currentBlock := hi
    rcases Nat.lt_or_eq_of_le hi with hlt | rfl
    · rw [hother i (Nat.ne_of_lt hlt)] at hp ⊢
      rw [List.getElem?_append_left (h.index_lt hi hp)]
      exact h.data i hi p hp
    · rw [hself] at hp ⊢
      dsimp only at hp ⊢
      rcases Nat.lt_succ_iff_lt_or_eq.1 hp with hp | rfl
      · rw [Function.update_of_ne (Nat.ne_of_lt hp), List.getElem?_append_left (h.index_lt hi hp)]
        exact h.data a.currentBlock hi p hp
      · rw [Function.update_self, hlength, List.getElem?_concat_length]

theorem pushBack (h : Represents perBlock a l) (hpos : 0 < perBlock) (value : V)
    (memory : ℕ → V) : Represents perBlock (a.pushBack perBlock value memory) (l ++ [value]) := by
  rw [CustomGrowableBlockArray.pushBack]
  split_ifs with hfull
  · obtain ⟨hadvance, hzero⟩ := h.advance hfull memory
    exact hadvance.store (hzero ▸ hpos) value
  · exact h.store (Nat.lt_of_le_of_ne h.le hfull) value

/-! ### Pops -/

theorem retreat (h : Represents perBlock a l) (hzero : (a.blocks a.currentBlock).nextItem = 0)
    (hne : a.currentBlock ≠ 0) : Represents perBlock (a.retreat perBlock) l ∧
      ((a.retreat perBlock).blocks (a.retreat perBlock).currentBlock).nextItem = perBlock := by
  have hfull := h.full (a.currentBlock - 1) (by omega)
  have hblocks : (a.retreat perBlock).blocks = a.blocks := by
    funext i
    change Function.update a.blocks (a.currentBlock - 1) _ i = _
    rcases eq_or_ne i (a.currentBlock - 1) with rfl | hi
    · rw [Function.update_self, ← hfull]
    · rw [Function.update_of_ne hi]
  have hcurrent : (a.retreat perBlock).currentBlock = a.currentBlock - 1 := rfl
  have hlt := h.current_lt
  refine ⟨⟨?_, fun i hi => ?_, ?_, fun i hi hi' => ?_, ?_, fun i hi p hp => ?_⟩, ?_⟩
  · rw [hcurrent]
    exact Nat.lt_of_le_of_lt (Nat.sub_le ..) hlt
  · rw [hblocks]
    exact h.full i (by omega)
  · exact Nat.le_of_eq (by rw [hblocks, hcurrent, hfull])
  · rw [hblocks]
    rcases Nat.lt_or_eq_of_le (by omega : a.currentBlock ≤ i) with hi | rfl
    · exact h.empty i hi hi'
    · exact hzero
  · rw [hblocks, hcurrent, hfull, ← Nat.mul_succ, Nat.succ_eq_add_one,
      Nat.sub_add_cancel (Nat.pos_of_ne_zero hne), ← h.length, hzero]
    rfl
  · rw [hblocks] at hp ⊢
    exact h.data i (by omega) p hp
  · rw [hblocks, hcurrent, hfull]

theorem take (h : Represents perBlock a l) (hpos : 0 < (a.blocks a.currentBlock).nextItem) :
    Represents perBlock a.take.1 l.dropLast ∧ l.getLast? = some a.take.2 := by
  have hself : (a.take.1.blocks a.currentBlock) =
      ⟨(a.blocks a.currentBlock).nextItem - 1, (a.blocks a.currentBlock).pData⟩ :=
    Function.update_self ..
  have hother (i : ℕ) (hi : i ≠ a.currentBlock) : a.take.1.blocks i = a.blocks i :=
    Function.update_of_ne hi ..
  have hlength := h.length
  have hle := h.le
  refine ⟨⟨h.current_lt, fun i hi => ?_, ?_, fun i hi hi' => ?_, ?_, fun i hi p hp => ?_⟩, ?_⟩
  · rw [hother i (Nat.ne_of_lt hi)]
    exact h.full i hi
  · change (a.take.1.blocks a.currentBlock).nextItem ≤ _
    rw [hself]
    exact Nat.le_trans (Nat.sub_le ..) hle
  · rw [hother i (Nat.ne_of_gt hi)]
    exact h.empty i hi hi'
  · change perBlock * a.currentBlock + (a.take.1.blocks a.currentBlock).nextItem = _
    rw [hself, List.length_dropLast]
    dsimp only
    omega
  · have hi : i ≤ a.currentBlock := hi
    -- the element is not the last one
    have hindex : p < (a.blocks i).nextItem ∧ perBlock * i + p < l.length - 1 := by
      rcases Nat.lt_or_eq_of_le hi with hlt | rfl
      · rw [hother i (Nat.ne_of_lt hlt)] at hp
        have hblock : perBlock * (i + 1) ≤ perBlock * a.currentBlock := Nat.mul_le_mul_left _ hlt
        have hfull := h.full i hlt
        rw [Nat.mul_succ] at hblock
        exact ⟨hp, by omega⟩
      · rw [hself] at hp
        dsimp only at hp
        omega
    have hdata : (a.take.1.blocks i).pData = (a.blocks i).pData := by
      rcases eq_or_ne i a.currentBlock with rfl | hne
      · rw [hself]
      · rw [hother i hne]
    rw [hdata, List.getElem?_dropLast, if_pos hindex.2]
    exact h.data i hi p hindex.1
  · rw [List.getLast?_eq_getElem?, ← hlength, Nat.add_sub_assoc hpos]
    exact h.data a.currentBlock (Nat.le_refl _) _ (Nat.sub_lt hpos Nat.one_pos)

theorem popBack (h : Represents perBlock a l) (hpos : 0 < perBlock) :
    Represents perBlock (a.popBack perBlock null).1 l.dropLast ∧
      (a.popBack perBlock null).2 = l.getLast?.getD null := by
  rw [CustomGrowableBlockArray.popBack]
  split_ifs with hzero hfirst
  · have hnil : l = [] := by
      refine List.eq_nil_of_length_eq_zero ?_
      rw [← h.length, hzero, hfirst]
      rfl
    subst hnil
    exact ⟨h, rfl⟩
  · obtain ⟨hretreat, hfull⟩ := h.retreat hzero hfirst
    obtain ⟨htake, hlast⟩ := hretreat.take (Nat.lt_of_lt_of_eq hpos hfull.symm)
    exact ⟨htake, by rw [hlast, Option.getD_some]⟩
  · obtain ⟨htake, hlast⟩ := h.take (Nat.pos_of_ne_zero hzero)
    exact ⟨htake, by rw [hlast, Option.getD_some]⟩

/-! ### The other calls -/

theorem isEmpty (h : Represents perBlock a l) (hpos : 0 < perBlock) : a.isEmpty = l.isEmpty := by
  have hlength := h.length
  rw [CustomGrowableBlockArray.isEmpty, Bool.eq_iff_iff, decide_eq_true_eq, List.isEmpty_iff,
    ← List.length_eq_zero_iff, ← hlength]
  rcases Nat.eq_zero_or_pos a.currentBlock with hfirst | hlater
  · rw [hfirst, Nat.mul_zero, Nat.zero_add]
  · rw [h.full 0 hlater]
    have hproduct := Nat.mul_pos hpos hlater
    omega

theorem clear (h : Represents perBlock a l) (hfirst : a.currentBlock = 0) :
    Represents perBlock a.clear [] := by
  have hzero (i : ℕ) (hi : i < a.count) : (a.clear.blocks i).nextItem = 0 := by
    change (if i < a.count then { a.blocks i with nextItem := 0 } else a.blocks i).nextItem = 0
    rw [if_pos hi]
  have hcurrent : (a.clear.blocks a.clear.currentBlock).nextItem = 0 := hzero _ h.current_lt
  have hlt (i : ℕ) (hi : i ≤ a.clear.currentBlock) : i < a.count :=
    Nat.lt_of_le_of_lt hi h.current_lt
  refine ⟨h.current_lt, fun i hi => ?_, ?_, fun i _ hi => hzero i hi, ?_, fun i hi p hp => ?_⟩
  · have hi : i < a.currentBlock := hi
    omega
  · rw [hcurrent]
    exact Nat.zero_le perBlock
  · rw [hcurrent]
    change perBlock * a.currentBlock + 0 = 0
    rw [hfirst, Nat.mul_zero]
  · rw [hzero i (hlt i hi)] at hp
    exact absurd hp (Nat.not_lt_zero p)

/-! ### Iteration -/

/-- The iterator has yielded the first `k` elements. -/
structure Yielded (perBlock : ℕ) (a : CustomGrowableBlockArray V) (l : List V) (k : ℕ) : Prop where
  represents : Represents perBlock a l
  block_lt : a.iteratorBlock < a.count
  place : (a.iteratorBlock ≤ a.currentBlock ∧
      a.iteratorPosition ≤ (a.blocks a.iteratorBlock).nextItem ∧
      k = perBlock * a.iteratorBlock + a.iteratorPosition) ∨
    (a.currentBlock < a.iteratorBlock ∧ a.iteratorPosition = 0 ∧ k = l.length)

theorem setIterator (h : Represents perBlock a l) (block position : ℕ) : Represents perBlock
    { a with iteratorBlock := block, iteratorPosition := position } l :=
  ⟨h.current_lt, h.full, h.le, h.empty, h.length, h.data⟩

theorem resetIterator (h : Represents perBlock a l) : Yielded perBlock a.resetIterator l 0 :=
  ⟨h.setIterator 0 0, Nat.lt_of_le_of_lt (Nat.zero_le _) h.current_lt,
    .inl ⟨Nat.zero_le _, Nat.zero_le _, rfl⟩⟩

namespace Yielded

variable {k : ℕ}

theorem eq_mul (h : Yielded perBlock a l k)
    (hend : a.iteratorPosition = (a.blocks a.iteratorBlock).nextItem)
    (hlt : a.iteratorBlock < a.currentBlock) : k = perBlock * (a.iteratorBlock + 1) := by
  rcases h.place with ⟨-, -, hk⟩ | ⟨hlater, -, -⟩
  · rw [hk, hend, h.represents.full _ hlt, Nat.mul_succ]
  · omega

theorem eq_length (h : Yielded perBlock a l k)
    (hend : a.iteratorPosition = (a.blocks a.iteratorBlock).nextItem)
    (hge : a.currentBlock ≤ a.iteratorBlock) : k = l.length := by
  rcases h.place with ⟨hle, -, hk⟩ | ⟨-, -, hk⟩
  · rw [hk, hend, Nat.le_antisymm hle hge, h.represents.length]
  · exact hk

theorem getElem?_eq (h : Yielded perBlock a l k)
    (hmore : a.iteratorPosition ≠ (a.blocks a.iteratorBlock).nextItem) :
    a.iteratorBlock ≤ a.currentBlock ∧
      a.iteratorPosition < (a.blocks a.iteratorBlock).nextItem ∧
      k = perBlock * a.iteratorBlock + a.iteratorPosition ∧
      l[k]? = some ((a.blocks a.iteratorBlock).pData a.iteratorPosition) := by
  rcases h.place with ⟨hle, hposition, hk⟩ | ⟨hlater, hposition, -⟩
  · have hlt := Nat.lt_of_le_of_ne hposition hmore
    exact ⟨hle, hlt, hk, hk ▸ h.represents.data _ hle _ hlt⟩
  · rw [h.represents.empty _ hlater h.block_lt] at hmore
    exact absurd hposition hmore

theorem stays (h : Represents perBlock a l) {block : ℕ} (hblock : block < a.count)
    (hlater : a.currentBlock < block) :
    Yielded perBlock { a with iteratorBlock := block, iteratorPosition := 0 } l l.length :=
  ⟨h.setIterator block 0, hblock, .inr ⟨hlater, rfl, rfl⟩⟩

end Yielded

variable (null) in
theorem next_spec {k : ℕ} (hpos : 0 < perBlock) (h : Yielded perBlock a l k) :
    Yielded perBlock (a.next null).1 l (min (k + 1) l.length) ∧
      (a.next null).2 = l[k]?.getD null := by
  have hr := h.represents
  have hblock := h.block_lt
  -- behind the last element
  have hnone (hk : k = l.length) : min (k + 1) l.length = k ∧ l[k]?.getD null = null := by
    refine ⟨by omega, ?_⟩
    rw [List.getElem?_eq_none (Nat.le_of_eq hk.symm), Option.getD_none]
  have hsome {value : V} (hk : l[k]? = some value) : min (k + 1) l.length = k + 1 := by
    have := (List.getElem?_eq_some_iff.1 hk).1
    omega
  rw [CustomGrowableBlockArray.next]
  dsimp only
  by_cases hend : a.iteratorPosition = (a.blocks a.iteratorBlock).nextItem
  · rw [if_neg (not_not.2 hend)]
    rcases Nat.lt_or_ge a.iteratorBlock a.currentBlock with hlt | hge
    · -- the next block is one of the list
      have hlast : a.iteratorBlock + 1 ≠ a.count := by
        have := hr.current_lt
        omega
      have hk := h.eq_mul hend hlt
      rw [if_neg hlast]
      by_cases hempty : 0 = (a.blocks (a.iteratorBlock + 1)).nextItem
      · have hcurrent : a.iteratorBlock + 1 = a.currentBlock := by
          by_contra hne
          have := hr.full (a.iteratorBlock + 1) (by omega)
          omega
        have hlength : k = l.length := by
          rw [hk, ← hr.length, ← hcurrent, ← hempty]
          rfl
        rw [if_pos hempty, (hnone hlength).1, (hnone hlength).2]
        exact ⟨⟨hr.setIterator _ _, by dsimp only; omega, .inl ⟨hlt, Nat.zero_le _, hk⟩⟩, rfl⟩
      · have hvalue := hr.data (a.iteratorBlock + 1) hlt 0 (by omega)
        rw [Nat.add_zero, ← hk] at hvalue
        rw [if_neg hempty, hsome hvalue, hvalue, Option.getD_some]
        exact ⟨⟨hr.setIterator _ _, by dsimp only; omega,
          .inl ⟨hlt, by dsimp only; omega, by rw [hk]⟩⟩, rfl⟩
    · have hk := h.eq_length hend hge
      rw [(hnone hk).1, (hnone hk).2]
      by_cases hlast : a.iteratorBlock + 1 = a.count
      · rw [if_pos hlast]
        exact ⟨h, rfl⟩
      · have hlt : a.iteratorBlock + 1 < a.count := by omega
        have hempty := hr.empty (a.iteratorBlock + 1) (by omega) hlt
        rw [if_neg hlast, if_pos hempty.symm]
        exact ⟨hk ▸ Yielded.stays hr hlt (by omega), rfl⟩
  · obtain ⟨hle, hlt, hk, hvalue⟩ := h.getElem?_eq hend
    rw [if_pos hend, hsome hvalue, hvalue, Option.getD_some]
    exact ⟨⟨hr.setIterator _ _, hblock, .inl ⟨hle, hlt, by dsimp only; omega⟩⟩, rfl⟩

theorem nextN_spec (hpos : 0 < perBlock) (n : ℕ) {k : ℕ} (h : Yielded perBlock a l k)
    (hk : k ≤ l.length) : Represents perBlock (CustomGrowableBlockArray.nextN null n a).1 l ∧
      (CustomGrowableBlockArray.nextN null n a).2 =
        ((l.drop k) ++ List.replicate n null).take n := by
  induction n generalizing a k with
  | zero => exact ⟨h.represents, by rw [List.take_zero]; rfl⟩
  | succ n ih =>
    obtain ⟨hnext, hvalue⟩ := next_spec null hpos h
    obtain ⟨hr, hvalues⟩ := ih hnext (Nat.min_le_right ..)
    refine ⟨hr, ?_⟩
    rw [CustomGrowableBlockArray.nextN]
    dsimp only
    rw [hvalues, hvalue]
    rcases Nat.lt_or_eq_of_le hk with hlt | rfl
    · have hpad : (l.drop (k + 1) ++ List.replicate (n + 1) null).take n =
          (l.drop (k + 1) ++ List.replicate n null).take n := by
        rw [List.replicate_succ', ← List.append_assoc]
        refine List.take_append_of_le_length ?_
        rw [List.length_append, List.length_replicate]
        exact Nat.le_add_left n _
      rw [Nat.min_eq_left hlt, List.getElem?_eq_getElem hlt, Option.getD_some,
        List.drop_eq_getElem_cons hlt, List.cons_append, List.take_succ_cons, hpad]
    · rw [Nat.min_eq_right (Nat.le_succ _), List.drop_length, List.getElem?_eq_none (Nat.le_refl _),
        List.nil_append, List.nil_append, List.replicate_succ, List.take_succ_cons]
      rfl

/-- **One call**: it returns what the same call on the list returns. -/
theorem call_spec (h : Represents perBlock a l) (hpos : 0 < perBlock) (c : BlockArrayCall V) :
    (a.call perBlock null c).2 = (stackCall null l c).2 := by
  cases c with
  | pushBack value memory | clear => rfl
  | popBack => exact congrArg BlockArrayResult.value (h.popBack hpos).2
  | isEmpty => exact congrArg BlockArrayResult.flag (h.isEmpty hpos)
  | iterate n =>
    exact congrArg BlockArrayResult.values (nextN_spec hpos n h.resetIterator (Nat.zero_le _)).2

theorem call (h : Represents perBlock a l) (hpos : 0 < perBlock) {c : BlockArrayCall V}
    (hclear : c = .clear → a.currentBlock = 0) :
    Represents perBlock (a.call perBlock null c).1 (stackCall null l c).1 := by
  cases c with
  | pushBack value memory => exact h.pushBack hpos value memory
  | popBack => exact (h.popBack hpos).1
  | isEmpty => exact h
  | iterate n => exact (nextN_spec hpos n h.resetIterator (Nat.zero_le _)).1
  | clear => exact h.clear (hclear rfl)

theorem isEmpty_clear (h : Represents perBlock a l) (hpos : 0 < perBlock)
    (hlater : a.currentBlock ≠ 0) (value : V) (memory : ℕ → V) :
    (a.clear.pushBack perBlock value memory).isEmpty = true := by
  have hzero (i : ℕ) (hi : i < a.count) : (a.clear.blocks i).nextItem = 0 := by
    change (if i < a.count then { a.blocks i with nextItem := 0 } else a.blocks i).nextItem = 0
    rw [if_pos hi]
  have hcurrent : (a.clear.blocks a.clear.currentBlock).nextItem = 0 := hzero _ h.current_lt
  have hfirst : (a.clear.store value).blocks 0 = a.clear.blocks 0 :=
    Function.update_of_ne (Ne.symm hlater) ..
  rw [CustomGrowableBlockArray.pushBack, hcurrent, if_neg (Nat.ne_of_lt hpos),
    CustomGrowableBlockArray.isEmpty, hfirst,
    hzero 0 (Nat.lt_of_le_of_lt (Nat.zero_le _) h.current_lt)]
  rfl

end Represents

/-! ### Runs -/

section runs

variable {V : Type} (perBlock : ℕ) (null : V)

/-- The array and the list, with the same calls. -/
def blockArrayLts : LTS (CustomGrowableBlockArray V × List V) (BlockArrayCall V) :=
  LTS.ofFun fun s c => some ((s.1.call perBlock null c).1, (stackCall null s.2 c).1)

/-- The first block is the current one when the array is cleared. -/
def ClearsFirst (s : CustomGrowableBlockArray V × List V) (c : BlockArrayCall V) : Prop :=
  c = .clear → s.1.currentBlock = 0

variable {perBlock null} {a : CustomGrowableBlockArray V} {l : List V}

theorem results_eq (hpos : 0 < perBlock) (h : Represents perBlock a l)
    {cs : List (BlockArrayCall V)} (hcs : .clear ∉ cs) :
    results (CustomGrowableBlockArray.call perBlock null) a cs = results (stackCall null) l cs := by
  induction cs generalizing a l with
  | nil => rfl
  | cons c cs ih =>
    rw [List.mem_cons, not_or] at hcs
    rw [results, results, h.call_spec hpos, ih (h.call hpos fun hc => absurd hc.symm hcs.1) hcs.2]

theorem represents_of_reachWith (hpos : 0 < perBlock) {memory : ℕ → V}
    (h : (blockArrayLts perBlock null).ReachWith ClearsFirst (.new memory, []) (a, l)) :
    Represents perBlock a l := by
  refine h.invariant (I := fun s => Represents perBlock s.1 s.2) (.new memory) ?_
  intro s c s' hs hc hstep
  cases hstep
  exact hs.call hpos hc

/-- **The block array refines a stack.**  In a run in which the array is cleared only while its
first block is the current one, every call returns what it returns on the list; and after `Clear`
the calls go on to do so exactly if the first block is the current one. -/
theorem blockArray_refines_stack (hpos : 0 < perBlock) {memory : ℕ → V}
    (h : (blockArrayLts perBlock null).ReachWith ClearsFirst (.new memory, []) (a, l)) :
    (∀ c, (a.call perBlock null c).2 = (stackCall null l c).2) ∧
      ((∀ cs, .clear ∉ cs → results (CustomGrowableBlockArray.call perBlock null) a.clear cs =
          results (stackCall null) [] cs) ↔
        a.currentBlock = 0) := by
  have hr := represents_of_reachWith hpos h
  refine ⟨hr.call_spec hpos, fun hresults => ?_, fun hfirst cs hcs =>
    results_eq hpos (hr.clear hfirst) hcs⟩
  by_contra hlater
  have hpushed := hresults [.pushBack null memory, .isEmpty] (by simp)
  have hempty := hr.isEmpty_clear hpos hlater null memory
  simp only [results, CustomGrowableBlockArray.call, stackCall, hempty] at hpushed
  cases hpushed

variable (perBlock null) in
theorem exists_pushed (value : V) (memory : ℕ → V) (n : ℕ) :
    ∃ a, (blockArrayLts perBlock null).ReachWith ClearsFirst (.new memory, [])
      (a, List.replicate n value) := by
  induction n with
  | zero => exact ⟨_, .init⟩
  | succ n ih =>
    obtain ⟨a, ha⟩ := ih
    refine ⟨a.pushBack perBlock value memory, ha.step (l := .pushBack value memory) nofun ?_⟩
    rw [List.replicate_succ']
    rfl

end runs

/-- Two elements in the blocks of a machine with 64 bits. -/
theorem blockArray_refines_stack_pushed :
    ∃ a, (blockArrayLts (kArrayElementsPerBlock 8) 0).ReachWith ClearsFirst
        (.new fun _ => 0, []) (a, [7, 7]) ∧
      (∀ c, (a.call (kArrayElementsPerBlock 8) 0 c).2 = (stackCall 0 [7, 7] c).2) ∧
      ((∀ cs, .clear ∉ cs → results (CustomGrowableBlockArray.call (kArrayElementsPerBlock 8) 0)
          a.clear cs = results (stackCall 0) [] cs) ↔ a.currentBlock = 0) := by
  obtain ⟨a, ha⟩ := exists_pushed (kArrayElementsPerBlock 8) 0 7 (fun _ => 0) 2
  exact ⟨a, ha, blockArray_refines_stack (by decide) ha⟩

/-- A block and one element more are pushed, the array is cleared, and one element is pushed: it
says that it is empty. -/
theorem blockArray_not_stack :
    ¬ ∀ (a : CustomGrowableBlockArray ℕ) (l : List ℕ),
      (blockArrayLts (kArrayElementsPerBlock 8) 0).Reachable (.new fun _ => 0, []) (a, l) →
      ∀ c, (a.call (kArrayElementsPerBlock 8) 0 c).2 = (stackCall 0 l c).2 := by
  intro hall
  have hpos : 0 < kArrayElementsPerBlock 8 := by decide
  obtain ⟨a, ha⟩ := exists_pushed (kArrayElementsPerBlock 8) 0 7 (fun _ => 0)
    (kArrayElementsPerBlock 8 + 1)
  have hr := represents_of_reachWith hpos ha
  have hlater : a.currentBlock ≠ 0 := by
    intro hfirst
    have hlength := hr.length
    have hle := hr.le
    rw [hfirst, List.length_replicate] at hlength
    rw [hfirst] at hle
    omega
  have hrun := (ha.reachable.step (l := .clear) trivial rfl).step (l := .pushBack 7 fun _ => 0)
    trivial rfl
  have hresult := hall _ _ hrun .isEmpty
  simp only [CustomGrowableBlockArray.call, stackCall,
    hr.isEmpty_clear hpos hlater 7 fun _ => 0] at hresult
  cases hresult

end Liveness

end Il2Cpp
