import Il2Cpp.Data.SerialLayout
import Il2Cpp.LTS.Basic

/-!
# Memory pools

`MemoryPool.cpp`: blocks are cut from regions that are allocated when the last region has no room.
What `IL2CPP_MALLOC` returns is part of the label of a step, and `Suitable` is what is relied on.

* `addRegion`, `malloc`, `calloc` : the functions, on the list of the regions.
* `State`, `step` : the pool with the blocks that it has returned, and one call.
* `Invariant` : the regions are disjoint and each is made of a used and a free part; the blocks are
  disjoint and in the used parts.
* `step_invariant` : a call keeps it; no call fails.
* `memory_pool` : the blocks of any run.
-/

namespace Il2Cpp

namespace MemoryPool

open SerialLayout

def kPageSize : UInt64 := 4096

def kDefaultRegionSize : UInt64 := 64 * 1024

def kMemoryAlignment : UInt64 := 8

def makeMultipleOf (size alignment : UInt64) : UInt64 :=
  (size + alignment - 1) &&& ~~~(alignment - 1)

structure Region where
  start : UInt64
  current : UInt64
  size : UInt64
  free : UInt64
  deriving DecidableEq

/-- The last region has a page or more left. -/
def lastHasPage (regions : List Region) : Prop :=
  ∃ last ∈ regions.getLast?, last.free ≥ kPageSize

instance (regions : List Region) : Decidable (lastHasPage regions) :=
  inferInstanceAs (Decidable (∃ last ∈ regions.getLast?, _))

/-- The size that `AddRegion` allocates. -/
def allocationSize (regions : List Region) (size : UInt64) : UInt64 :=
  let rounded := makeMultipleOf size kPageSize
  if lastHasPage regions then rounded
  else if kDefaultRegionSize < rounded then rounded else kDefaultRegionSize

/-- A region that is free. -/
def Region.ofMemory (memory size : UInt64) : Region := ⟨memory, memory, size, size⟩

/-- `AddRegion`, which is given the allocated memory: the index of the region, and the list. -/
def addRegion (regions : List Region) (size memory : UInt64) : ℕ × List Region :=
  let newRegion := Region.ofMemory memory (allocationSize regions size)
  if lastHasPage regions then
    (regions.length - 1, regions.dropLast ++ newRegion :: regions.getLast?.toList)
  else (regions.length, regions ++ [newRegion])

/-- The region without its first free bytes. -/
def Region.take (region : Region) (size : UInt64) : Region :=
  { region with current := region.current + size, free := region.free - size }

/-- The last region has no room for the size. -/
def lastIsFull (regions : List Region) (size : UInt64) : Prop :=
  ∃ last ∈ regions.getLast?, last.free < size

instance (regions : List Region) (size : UInt64) : Decidable (lastIsFull regions size) :=
  inferInstanceAs (Decidable (∃ last ∈ regions.getLast?, _))

/-- The region from which `Malloc` takes the block: its index, and the list. -/
def chooseRegion (regions : List Region) (size memory : UInt64) : ℕ × List Region :=
  if lastIsFull regions size then addRegion regions size memory else (regions.length - 1, regions)

/-- `Malloc`: the block, and the list.  The constructor has added a region. -/
def malloc (regions : List Region) (size memory : UInt64) : Option (UInt64 × List Region) :=
  let size := makeMultipleOf size kMemoryAlignment
  let (index, regions) := chooseRegion regions size memory
  regions[index]?.map fun region => (region.current, regions.set index (region.take size))

/-- `Calloc`, but for the zeros that it stores in the block. -/
def calloc (regions : List Region) (count size memory : UInt64) :
    Option (UInt64 × List Region) :=
  malloc regions (count * size) memory

/-! ### Runs -/

/-- The calls, with what `IL2CPP_MALLOC` returns if a region is added. -/
inductive Call
  | malloc (size memory : UInt64)
  | calloc (count size memory : UInt64)

/-- The size that is asked for. -/
def Call.bytes : Call → UInt64
  | malloc size _ => size
  | calloc count size _ => count * size

def Call.memory : Call → UInt64
  | malloc _ memory => memory
  | calloc _ _ memory => memory

/-- A block that was returned, with the size that was asked for. -/
structure Block where
  address : UInt64
  size : UInt64

/-- The pool, and the blocks that it has returned, the last one first. -/
structure State where
  regions : List Region
  blocks : List Block

def exec (regions : List Region) : Call → Option (UInt64 × List Region)
  | .malloc size memory => MemoryPool.malloc regions size memory
  | .calloc count size memory => MemoryPool.calloc regions count size memory

/-- A call, and the state after it. -/
def step (s : State) (call : Call) : Option State :=
  (exec s.regions call).map fun r => ⟨r.2, ⟨r.1, call.bytes⟩ :: s.blocks⟩

/-- The constructor. -/
def init (initialSize memory : UInt64) : State := ⟨(addRegion [] initialSize memory).2, []⟩

/-! ### Memory -/

/-- The addresses of the region. -/
def Region.memory (r : Region) : Set ℕ := Set.Ico r.start.toNat (r.start.toNat + r.size.toNat)

/-- The addresses of the block. -/
def Block.memory (b : Block) : Set ℕ := Set.Ico b.address.toNat (b.address.toNat + b.size.toNat)

/-- What is relied on of `IL2CPP_MALLOC`: the memory is aligned, ends before the end of the address
space, and is not part of any region. -/
structure Suitable (regions : List Region) (memory size : UInt64) : Prop where
  aligned : kMemoryAlignment.toNat ∣ memory.toNat
  fits : memory.toNat + size.toNat < 2 ^ 64
  fresh : ∀ r ∈ regions,
    Disjoint r.memory (Set.Ico memory.toNat (memory.toNat + size.toNat))

/-- The size does not wrap when it is rounded up, first to the alignment and then to the page. -/
def RoundsUp (size : UInt64) : Prop :=
  size.toNat + 7 < 2 ^ 64 ∧ alignUp size.toNat 8 + 4095 < 2 ^ 64

/-- The call rounds up its size without wrapping, and if it adds a region it is given suitable
memory. -/
def Proper (s : State) (call : Call) : Prop :=
  let size := makeMultipleOf call.bytes kMemoryAlignment
  RoundsUp call.bytes ∧
    (lastIsFull s.regions size → Suitable s.regions call.memory (allocationSize s.regions size))

/-! ### The invariant -/

/-- The region is a used part and a free part. -/
structure Region.Divided (r : Region) : Prop where
  start_le : r.start.toNat ≤ r.current.toNat
  current_add_free : r.start.toNat + r.size.toNat = r.current.toNat + r.free.toNat
  fits : r.start.toNat + r.size.toNat < 2 ^ 64
  start_aligned : kMemoryAlignment.toNat ∣ r.start.toNat
  current_aligned : kMemoryAlignment.toNat ∣ r.current.toNat

/-- The block is in the used part of the region. -/
def Block.UsedOf (b : Block) (r : Region) : Prop :=
  r.start.toNat ≤ b.address.toNat ∧ b.address.toNat + b.size.toNat ≤ r.current.toNat

structure Invariant (s : State) : Prop where
  nonempty : s.regions ≠ []
  divided : ∀ r ∈ s.regions, r.Divided
  regions_disjoint : (s.regions.map Region.memory).Pairwise Disjoint
  used : ∀ b ∈ s.blocks, ∃ r ∈ s.regions, b.UsedOf r
  aligned : ∀ b ∈ s.blocks, kMemoryAlignment.toNat ∣ b.address.toNat
  blocks_disjoint : (s.blocks.map Block.memory).Pairwise Disjoint

theorem Block.UsedOf.memory_subset {b : Block} {r : Region} (h : b.UsedOf r) (hr : r.Divided) :
    b.memory ⊆ r.memory := by
  have := hr.current_add_free
  exact Set.Ico_subset_Ico h.1 (h.2.trans (by omega))

/-! ### Rounding up -/

theorem isPowerOfTwo_kMemoryAlignment : kMemoryAlignment.toNat.isPowerOfTwo := ⟨3, rfl⟩

theorem isPowerOfTwo_kPageSize : kPageSize.toNat.isPowerOfTwo := ⟨12, rfl⟩

theorem toNat_makeMultipleOf {size alignment : UInt64} (ha : alignment.toNat.isPowerOfTwo)
    (hfit : size.toNat + alignment.toNat ≤ 2 ^ 64) :
    (makeMultipleOf size alignment).toNat = alignUp size.toNat alignment.toNat := by
  have hassoc : size + alignment - 1 = size + (alignment - 1) := by
    rw [UInt64.sub_eq_add_neg, UInt64.add_assoc, ← UInt64.sub_eq_add_neg]
  rw [makeMultipleOf, hassoc]
  exact toNat_alignUp_mask ha hfit

variable {regions : List Region} {size memory : UInt64}

theorem le_allocationSize (h : size.toNat + 4095 < 2 ^ 64) :
    size.toNat ≤ (allocationSize regions size).toNat := by
  have hround : (makeMultipleOf size kPageSize).toNat = alignUp size.toNat kPageSize.toNat :=
    toNat_makeMultipleOf isPowerOfTwo_kPageSize (by simp [kPageSize]; omega)
  have hle := le_alignUp size.toNat (a := kPageSize.toNat) (by decide)
  unfold allocationSize
  dsimp only
  rw [← hround] at hle
  split_ifs with hpage hlt
  · exact hle
  · exact hle
  · rw [UInt64.lt_iff_toNat_lt] at hlt
    omega

/-! ### Adding a region -/

theorem addRegion_perm (regions : List Region) (size memory : UInt64) :
    (addRegion regions size memory).2.Perm
      (.ofMemory memory (allocationSize regions size) :: regions) := by
  unfold addRegion
  dsimp only
  split_ifs with hpage
  · obtain ⟨last, hlast, -⟩ := hpage
    have hsplit := List.dropLast_append_getLast? _ hlast
    rw [Option.mem_def.1 hlast, Option.toList_some]
    refine List.perm_middle.trans ?_
    rw [hsplit]
  · exact List.perm_append_comm

theorem addRegion_getElem? (regions : List Region) (size memory : UInt64) :
    (addRegion regions size memory).2[(addRegion regions size memory).1]? =
      some (.ofMemory memory (allocationSize regions size)) := by
  unfold addRegion
  dsimp only
  split_ifs
  · rw [← List.length_dropLast]
    simp
  · simp

theorem Suitable.divided (h : Suitable regions memory size) :
    (Region.ofMemory memory size).Divided :=
  ⟨le_rfl, rfl, h.fits, h.aligned, h.aligned⟩

variable {s : State}

theorem Invariant.addRegion (h : Invariant s)
    (hmem : Suitable s.regions memory (allocationSize s.regions size)) :
    Invariant { s with regions := (addRegion s.regions size memory).2 } := by
  have hperm := addRegion_perm s.regions size memory
  refine ⟨?_, ?_, ?_, ?_, h.aligned, h.blocks_disjoint⟩
  · intro hnil
    have hlen := hperm.length_eq
    rw [show (MemoryPool.addRegion s.regions size memory).2 = [] from hnil] at hlen
    cases hlen
  · intro r hr
    rcases List.mem_cons.1 (hperm.subset hr) with rfl | hr
    · exact hmem.divided
    · exact h.divided r hr
  · refine ((hperm.map _).pairwise_iff fun hd => hd.symm).2 ?_
    rw [List.map_cons, List.pairwise_cons]
    refine ⟨?_, h.regions_disjoint⟩
    intro m hm
    obtain ⟨r, hr, rfl⟩ := List.mem_map.1 hm
    exact (hmem.fresh r hr).symm
  · intro b hb
    obtain ⟨r, hr, hused⟩ := h.used b hb
    exact ⟨r, hperm.symm.subset (List.mem_cons_of_mem _ hr), hused⟩

/-! ### Taking a block -/

theorem Region.Divided.take {r : Region} (h : r.Divided) (hfree : size ≤ r.free)
    (haligned : kMemoryAlignment.toNat ∣ size.toNat) :
    (r.take size).Divided ∧ (r.take size).current.toNat = r.current.toNat + size.toNat := by
  have hle := UInt64.le_iff_toNat_le.1 hfree
  have hsum := h.current_add_free
  have hfits := h.fits
  have hcurrent : (r.current + size).toNat = r.current.toNat + size.toNat := by
    rw [UInt64.toNat_add, Nat.mod_eq_of_lt (by omega)]
  have hfree : (r.free - size).toNat = r.free.toNat - size.toNat := UInt64.toNat_sub_of_le _ _ hfree
  refine ⟨⟨?_, ?_, h.fits, h.start_aligned, ?_⟩, hcurrent⟩
  · exact h.start_le.trans (hcurrent ▸ Nat.le_add_right _ _)
  · show r.start.toNat + r.size.toNat = (r.current + size).toNat + (r.free - size).toNat
    omega
  · show kMemoryAlignment.toNat ∣ (r.current + size).toNat
    rw [hcurrent]
    exact Nat.dvd_add h.current_aligned haligned

theorem mem_set_of_ne {α : Type} {l : List α} {i : ℕ} {a b x : α} (ha : l[i]? = some a)
    (hx : x ∈ l) (hne : x ≠ a) : x ∈ l.set i b := by
  obtain ⟨j, hj⟩ := List.mem_iff_getElem?.1 hx
  refine List.mem_iff_getElem?.2 ⟨j, ?_⟩
  rw [List.getElem?_set_ne, hj]
  rintro rfl
  rw [ha] at hj
  exact hne (Option.some.inj hj).symm

theorem Invariant.disjoint_free (h : Invariant s) {r : Region} (hr : r ∈ s.regions) {b : Block}
    (hb : b ∈ s.blocks) :
    Disjoint (Set.Ico r.current.toNat (r.start.toNat + r.size.toNat)) b.memory := by
  obtain ⟨r', hr', hused⟩ := h.used b hb
  by_cases heq : r = r'
  · subst heq
    exact (Set.Ico_disjoint_Ico_same.mono_left (Set.Ico_subset_Ico_right hused.2)).symm
  · have : Std.Symm fun r r' : Region => Disjoint r.memory r'.memory := ⟨fun _ _ hd => hd.symm⟩
    have hdisj := (List.pairwise_map.1 h.regions_disjoint).forall hr hr' heq
    exact hdisj.mono (Set.Ico_subset_Ico_left (h.divided r hr).start_le)
      (hused.memory_subset (h.divided r' hr'))

theorem Invariant.take (h : Invariant s) {index : ℕ} {r : Region}
    (hr : s.regions[index]? = some r) (hfree : size ≤ r.free)
    (haligned : kMemoryAlignment.toNat ∣ size.toNat) {bytes : UInt64}
    (hbytes : bytes.toNat ≤ size.toNat) :
    Invariant ⟨s.regions.set index (r.take size), ⟨r.current, bytes⟩ :: s.blocks⟩ := by
  have hmem := List.mem_of_getElem? hr
  have hdiv := h.divided r hmem
  obtain ⟨hdiv', hcurrent⟩ := hdiv.take hfree haligned
  have hfree' := UInt64.le_iff_toNat_le.1 hfree
  have hsum := hdiv.current_add_free
  have hset : r.take size ∈ s.regions.set index (r.take size) :=
    List.mem_set (List.getElem?_eq_some_iff.1 hr).1 _
  -- the region is where it was
  have hsame : (s.regions.set index (r.take size)).map Region.memory =
      s.regions.map Region.memory := by
    obtain ⟨hlt, rfl⟩ := List.getElem?_eq_some_iff.1 hr
    rw [List.map_set]
    refine List.ext_getElem? fun i => ?_
    rw [List.getElem?_set, List.getElem?_map]
    split_ifs with hi hlen
    · subst hi
      rw [hr]
      rfl
    · exact absurd (by simpa using hlt) hlen
    · rfl
  refine ⟨fun hnil => ?_, ?_, hsame ▸ h.regions_disjoint, ?_, ?_, ?_⟩
  · rw [show s.regions.set index (r.take size) = [] from hnil] at hset
    cases hset
  · intro r' hr'
    rcases List.mem_or_eq_of_mem_set hr' with hr' | rfl
    · exact h.divided r' hr'
    · exact hdiv'
  · intro b hb
    rcases List.mem_cons.1 hb with rfl | hb
    · refine ⟨_, hset, hdiv.start_le, ?_⟩
      rw [hcurrent]
      exact Nat.add_le_add_left hbytes _
    · obtain ⟨r', hr', hused⟩ := h.used b hb
      by_cases heq : r' = r
      · subst heq
        exact ⟨_, hset, hused.1, hused.2.trans (hcurrent ▸ Nat.le_add_right _ _)⟩
      · exact ⟨r', mem_set_of_ne hr hr' heq, hused⟩
  · intro b hb
    rcases List.mem_cons.1 hb with rfl | hb
    · exact hdiv.current_aligned
    · exact h.aligned b hb
  · rw [List.map_cons, List.pairwise_cons]
    refine ⟨?_, h.blocks_disjoint⟩
    intro m hm
    obtain ⟨b, hb, rfl⟩ := List.mem_map.1 hm
    refine (h.disjoint_free hmem hb).mono_left (Set.Ico_subset_Ico_right ?_)
    show r.current.toNat + bytes.toNat ≤ _
    omega

/-! ### Runs -/

theorem Invariant.chooseRegion (h : Invariant s) (hfits : size.toNat + 4095 < 2 ^ 64)
    (hmem : lastIsFull s.regions size →
      Suitable s.regions memory (allocationSize s.regions size)) :
    Invariant { s with regions := (chooseRegion s.regions size memory).2 } ∧
    ∃ r, (MemoryPool.chooseRegion s.regions size memory).2[
        (MemoryPool.chooseRegion s.regions size memory).1]? = some r ∧ size ≤ r.free := by
  unfold MemoryPool.chooseRegion
  split_ifs with hfull
  · refine ⟨h.addRegion (hmem hfull), _, addRegion_getElem? _ _ _, ?_⟩
    exact UInt64.le_iff_toNat_le.2 (le_allocationSize hfits)
  · obtain ⟨last, hlast⟩ := List.getLast?_isSome.2 h.nonempty |> Option.isSome_iff_exists.1
    refine ⟨h, last, ?_, ?_⟩
    · rw [← List.getLast?_eq_getElem?, hlast]
    · by_contra hlt
      exact hfull ⟨last, hlast, UInt64.not_le.1 hlt⟩

theorem malloc_eq {r : Region}
    (hr : (chooseRegion regions (makeMultipleOf size kMemoryAlignment) memory).2[
      (chooseRegion regions (makeMultipleOf size kMemoryAlignment) memory).1]? = some r) :
    malloc regions size memory = some (r.current,
      (chooseRegion regions (makeMultipleOf size kMemoryAlignment) memory).2.set
        (chooseRegion regions (makeMultipleOf size kMemoryAlignment) memory).1
        (r.take (makeMultipleOf size kMemoryAlignment))) := by
  unfold malloc
  dsimp only
  rw [hr]
  rfl

theorem exec_eq (regions : List Region) (call : Call) :
    exec regions call = malloc regions call.bytes call.memory := by
  cases call <;> rfl

theorem step_invariant (h : Invariant s) {call : Call} (hcall : Proper s call) :
    ∃ s', step s call = some s' ∧ Invariant s' := by
  obtain ⟨⟨h₇, hpage⟩, hmem⟩ := hcall
  have hround : (makeMultipleOf call.bytes kMemoryAlignment).toNat =
      alignUp call.bytes.toNat kMemoryAlignment.toNat :=
    toNat_makeMultipleOf isPowerOfTwo_kMemoryAlignment (by simp [kMemoryAlignment]; omega)
  obtain ⟨hinv, r, hr, hfree⟩ := h.chooseRegion (hround ▸ hpage) hmem
  refine ⟨_, by rw [step, exec_eq, malloc_eq hr]; rfl, hinv.take hr hfree ?_ ?_⟩
  · rw [hround]
    exact dvd_alignUp _ _
  · rw [hround]
    exact le_alignUp _ (by decide)

theorem init_invariant {initialSize : UInt64}
    (h : Suitable [] memory (allocationSize [] initialSize)) :
    Invariant (init initialSize memory) := by
  refine ⟨List.cons_ne_nil _ _, ?_, List.pairwise_singleton _ _, nofun, nofun, .nil⟩
  intro r hr
  cases List.mem_singleton.1 hr
  exact h.divided

/-- In every run the blocks are disjoint, aligned and inside regions of the pool, every region is a
used and a free part, and no call fails. -/
theorem memory_pool {initialSize : UInt64}
    (h₀ : Suitable [] memory (allocationSize [] initialSize))
    (h : (LTS.ofFun step).ReachWith Proper (init initialSize memory) s) :
    (s.blocks.map Block.memory).Pairwise Disjoint ∧
    (∀ b ∈ s.blocks, kMemoryAlignment.toNat ∣ b.address.toNat ∧
      ∃ r ∈ s.regions, r.start.toNat ≤ b.address.toNat ∧
        b.address.toNat + b.size.toNat ≤ r.start.toNat + r.size.toNat) ∧
    (∀ r ∈ s.regions, r.start.toNat + r.size.toNat = r.current.toNat + r.free.toNat) ∧
    ∀ call, Proper s call → ∃ s', step s call = some s' := by
  have hinv : Invariant s := by
    refine h.invariant (init_invariant h₀) fun s call s' hs hcall hstep => ?_
    obtain ⟨t, ht, htinv⟩ := step_invariant hs hcall
    cases Option.some.inj (ht.symm.trans hstep)
    exact htinv
  refine ⟨hinv.blocks_disjoint, fun b hb => ⟨hinv.aligned b hb, ?_⟩,
    fun r hr => (hinv.divided r hr).current_add_free, fun call hcall => ?_⟩
  · obtain ⟨r, hr, hused⟩ := hinv.used b hb
    have := (hinv.divided r hr).current_add_free
    exact ⟨r, hr, hused.1, hused.2.trans (by omega)⟩
  · obtain ⟨s', hs', -⟩ := step_invariant hinv hcall
    exact ⟨s', hs'⟩

/-- A pool that has returned a small block and one that is larger than its first region. -/
def twoBlocks : State :=
  ⟨[⟨0x100000, 0x1186A0, 102400, 2400⟩, ⟨0x10000, 0x10010, 65536, 65520⟩],
    [⟨0x100000, 100000⟩, ⟨0x10000, 10⟩]⟩

theorem memory_pool_twoBlocks : (twoBlocks.blocks.map Block.memory).Pairwise Disjoint := by
  have hsuitable : Suitable [] 0x10000 (allocationSize [] kDefaultRegionSize) :=
    ⟨by decide, by decide, nofun⟩
  have hfirst : Proper (init kDefaultRegionSize 0x10000) (.malloc 10 0) :=
    ⟨⟨by decide, by decide⟩, fun h => absurd h (by decide)⟩
  have hsecond : Proper ⟨[⟨0x10000, 0x10010, 65536, 65520⟩], [⟨0x10000, 10⟩]⟩
      (.calloc 1000 100 0x100000) := by
    refine ⟨⟨by decide, by decide⟩, fun _ => ⟨by decide, by decide, fun r hr => ?_⟩⟩
    cases List.mem_singleton.1 hr
    exact Set.Ico_disjoint_Ico.2 (by decide)
  exact (memory_pool hsuitable (.step (.step .init hfirst rfl) hsecond rfl)).1

end MemoryPool

end Il2Cpp
