import Il2Cpp.GC.GCHandle

/-!
# The operations on one handle table

What each operation of `GC.HandleData` does, in terms of the slots in use and of the entries.

* `HandleData.Wf` : the invariant of a table.  The hint may point past the bitmap after the table
  grew, but then some slot is free, and the search stops before it leaves the bitmap.
* `HandleData.allocHandle_spec` : an allocation succeeds, takes one slot that was free and leaves
  the other slots and entries as they were, whether or not the table grew.
* `HandleData.setTarget_spec`, `HandleData.free_spec`, `HandleData.clearLink_spec` : the same for
  the other operations.
-/

namespace Il2Cpp

namespace GC

/-! ### Handles -/

theorem toNat_makeHandle (type : GCHandleType) {slot : ℕ} (h : slot < 2 ^ 29) :
    (makeHandle type slot).toNat = slot * 8 + (type.toNat + 1) := by
  have htype : type.toNat + 1 < 2 ^ 3 := by cases type <;> decide
  have hshift : (BitVec.ofNat 32 slot <<< 3).toNat = slot <<< 3 := by
    rw [BitVec.toNat_shiftLeft, BitVec.toNat_ofNat, Nat.shiftLeft_eq, Nat.shiftLeft_eq]
    omega
  rw [makeHandle, BitVec.toNat_or, hshift, BitVec.toNat_ofNat, Nat.mod_eq_of_lt (by omega),
    ← Nat.shiftLeft_add_eq_or_of_lt htype, Nat.shiftLeft_eq]

theorem handleSlot_eq (h : Handle) : handleSlot h = h.toNat / 8 := by
  rw [handleSlot, BitVec.toNat_ushiftRight, Nat.shiftRight_eq_div_pow]

theorem handleType_eq_some {h : Handle} {type : GCHandleType} :
    handleType h = some type ↔ h.toNat % 8 = type.toNat + 1 := by
  have hmod : (h &&& 7).toNat = h.toNat % 8 := by
    rw [BitVec.toNat_and]
    exact Nat.and_two_pow_sub_one_eq_mod _ 3
  have hlt : (h &&& 7).toNat < 8 := by omega
  rw [← hmod, handleType]
  generalize h &&& 7 = r at hlt
  obtain ⟨n, rfl⟩ : ∃ n : Fin 8, r = BitVec.ofNat 32 n := ⟨⟨r.toNat, hlt⟩, by simp⟩
  clear hlt hmod h
  cases type <;> revert n <;> decide

theorem handleType_makeHandle (type : GCHandleType) {slot : ℕ} (h : slot < 2 ^ 29) :
    handleType (makeHandle type slot) = some type := by
  have htype : type.toNat + 1 < 8 := by cases type <;> decide
  rw [handleType_eq_some, toNat_makeHandle type h]
  omega

theorem handleSlot_makeHandle (type : GCHandleType) {slot : ℕ} (h : slot < 2 ^ 29) :
    handleSlot (makeHandle type slot) = slot := by
  have htype : type.toNat + 1 < 8 := by cases type <;> decide
  rw [handleSlot_eq, toNat_makeHandle type h]
  omega

theorem eq_makeHandle_iff {h : Handle} {type : GCHandleType} {slot : ℕ} (hslot : slot < 2 ^ 29)
    (htype : handleType h = some type) : h = makeHandle type slot ↔ handleSlot h = slot := by
  constructor
  · rintro rfl
    exact handleSlot_makeHandle type hslot
  · intro heq
    apply BitVec.eq_of_toNat_eq
    rw [toNat_makeHandle type hslot, ← handleType_eq_some.1 htype, ← heq, handleSlot_eq]
    omega

theorem makeHandle_ne_zero (type : GCHandleType) {slot : ℕ} (h : slot < 2 ^ 29) :
    makeHandle type slot ≠ 0 := by
  intro h0
  have := toNat_makeHandle type h
  rw [h0] at this
  simp at this

/-! ### Entries -/

theorem getWeakLink_zero : getWeakLink 0 = 0 := by decide

theorem getWeakLink_addWeakLink (obj : ObjectPtr) :
    getWeakLink (addWeakLink obj.word) = obj.word := by
  rw [getWeakLink, addWeakLink, BitVec.not_not, if_neg obj.ne_allOnes]

@[simp] theorem entryOf_null (type : GCHandleType) : type.entryOf .null = 0 := by
  simp [GCHandleType.entryOf, ObjectPtr.null]

namespace HandleData

/-- Slot `j` is marked. -/
def bit (handles : HandleData) (j : ℕ) : Bool := handles.bitmap.testBit j

/-- The entry of slot `j`. -/
def entry (handles : HandleData) (j : ℕ) : Word := handles.entries.getD j 0

theorem moveLink_eq (entry : Word) : moveLink entry = entry := by
  rw [moveLink]
  split_ifs with h
  · rw [getWeakLink] at h ⊢
    split_ifs at h ⊢
    · exact absurd rfl h
    · simp [addWeakLink]
  · rfl

theorem read_entryOf {handles : HandleData} {j : ℕ} {obj : ObjectPtr}
    (h : handles.entry j = handles.type.entryOf obj) : handles.read j = obj.word := by
  change (if handles.type.isWeak then getWeakLink (handles.entry j) else handles.entry j) = _
  rw [h, GCHandleType.entryOf]
  cases handles.type.isWeak
  · simp
  · rw [if_pos rfl]
    split_ifs with hobj
    · exact getWeakLink_addWeakLink obj
    · have hnull : obj.word = 0 := by simpa using hobj
      rw [hnull, getWeakLink_zero]

/-- **The invariant of a table.** -/
structure Wf (handles : HandleData) : Prop where
  size_dvd : 32 ∣ handles.size
  bitmap_length : handles.bitmap.length = handles.size / 32
  entries_length : handles.entries.length = handles.size
  hint : handles.slotHint ≤ handles.size / 32 ∨ ∃ j < handles.size, handles.bit j = false

theorem Wf.bit_lt {handles : HandleData} (hw : handles.Wf) {j : ℕ} (h : handles.bit j = true) :
    j < handles.size := by
  by_contra hj
  have hle : handles.bitmap.length ≤ j / 32 := by
    rw [hw.bitmap_length]
    exact Nat.div_le_div_right (Nat.not_lt.1 hj)
  rw [bit, Bitmap.testBit_of_length_le hle] at h
  exact Bool.noConfusion h

theorem Wf.inUse_iff {handles : HandleData} (hw : handles.Wf) {j : ℕ} :
    handles.InUse j ↔ handles.bit j = true := by
  have hbit : (handles.bitmap.getD (j / 32) 0 &&& 1#32 <<< (j % 32) ≠ 0) ↔ handles.bit j = true :=
    Bitmap.and_mask_ne_zero_iff (Nat.mod_lt _ (by decide))
  rw [InUse, hbit]
  exact and_iff_right_of_imp hw.bit_lt

/-- One of the slots whose number fits in a handle is free, or not made yet. -/
structure Room (handles : HandleData) : Prop where
  size_le : handles.size ≤ 2 ^ 29
  free : ∃ j < 2 ^ 29, handles.bit j = false

theorem Wf.bit_of_size_le {handles : HandleData} (hw : handles.Wf) {j : ℕ} (h : handles.size ≤ j) :
    handles.bit j = false := by
  by_contra hbit
  exact Nat.not_lt.2 h (hw.bit_lt (Bool.of_not_eq_false hbit))

theorem Wf.room {handles : HandleData} (hw : handles.Wf) (h : handles.size < 2 ^ 29) :
    handles.Room :=
  ⟨Nat.le_of_lt h, handles.size, h, hw.bit_of_size_le (Nat.le_refl _)⟩

/-- The sizes of a table that never outgrew the numbers of slots. -/
def Sized (handles : HandleData) : Prop := handles.size = 0 ∨ ∃ k ≤ 29, handles.size = 2 ^ k

theorem Sized.size_le {handles : HandleData} (hs : handles.Sized) : handles.size ≤ 2 ^ 29 := by
  rcases hs with h | ⟨k, hk, h⟩
  · rw [h]
    exact Nat.zero_le _
  · rw [h]
    exact Nat.pow_le_pow_right Nat.two_pos hk

/-! ### The search for a free slot -/

/-- Word `k` of the bitmap has no free bit. -/
def Full (handles : HandleData) (k : ℕ) : Prop := handles.bitmap[k]? = some 0xffffffff

theorem bit_of_full {handles : HandleData} {j : ℕ} (h : handles.Full (j / 32)) :
    handles.bit j = true := by
  rw [bit, Bitmap.testBit, List.getD_eq_getElem?_getD, h]
  have hj : j % 32 < 32 := Nat.mod_lt _ (by decide)
  have hones : ∀ i < 32, (0xffffffff : BitVec 32).getLsbD i = true := by decide
  exact hones _ hj

theorem findFirstUnset_spec {word : BitVec 32} (h : word ≠ 0xffffffff) :
    ∃ i < 32, findFirstUnset word = some i ∧ word.getLsbD i = false := by
  have hmask : ∀ i < 32, word &&& 1#32 <<< i = 0 ↔ word.getLsbD i = false := by
    intro i hi
    rw [← not_iff_not, Bool.not_eq_false]
    exact Bitmap.and_mask_ne_zero_iff hi
  cases hfind : findFirstUnset word with
  | none =>
    exfalso
    rw [findFirstUnset, List.find?_eq_none] at hfind
    refine h (BitVec.eq_of_getLsbD_eq fun i hi => ?_)
    have hset : word.getLsbD i = true := by
      have := hfind i (List.mem_range.2 hi)
      rw [decide_eq_true_eq, hmask i hi] at this
      exact Bool.of_not_eq_false this
    rw [hset]
    have hones : ∀ i < 32, (0xffffffff : BitVec 32).getLsbD i = true := by decide
    exact (hones i hi).symm
  | some i =>
    have hi := List.mem_range.1 (List.mem_of_find?_eq_some hfind)
    have hfree := List.find?_some hfind
    rw [decide_eq_true_eq, hmask i hi] at hfree
    exact ⟨i, hi, rfl, hfree⟩

/-- What a search leaves: the hint at the word it found, if any, and a free bit of that word. -/
inductive Found (handles : HandleData) (slot n : ℕ) : HandleData × Option (ℕ × ℕ) → Prop
  | free (k i : ℕ) (hk : k < handles.bitmap.length) (hi : i < 32)
      (hfree : handles.bit (k * 32 + i) = false) :
      Found handles slot n ({ handles with slotHint := k % 2 ^ 24 }, some (k, i))
  | full (h : ∀ k, slot ≤ k → k < slot + n → handles.Full k) : Found handles slot n (handles, none)

theorem search_found {handles : HandleData} {slot n : ℕ}
    {r : HandleData × Option (ℕ × ℕ)}
    (h : handles.search slot n = some r) : handles.Found slot n r := by
  induction n generalizing slot with
  | zero =>
    obtain rfl := Option.some.inj h
    exact .full fun k hk hlt => by omega
  | succ n ih =>
    rw [search] at h
    obtain ⟨word, hword, h⟩ := Option.bind_eq_some_iff.1 h
    obtain ⟨hslot, -⟩ := List.getElem?_eq_some_iff.1 hword
    split_ifs at h with hne
    · obtain ⟨i, hi, hfind, hfree⟩ := findFirstUnset_spec hne
      rw [hfind] at h
      obtain rfl := Option.some.inj h
      refine .free slot i hslot hi ?_
      obtain ⟨hdiv, hmod⟩ := (Bitmap.div_mod_eq_iff hi).2 (rfl : slot * 32 + i = slot * 32 + i)
      rw [bit, Bitmap.testBit, hdiv, hmod, List.getD_eq_getElem?_getD, hword]
      exact hfree
    · have hfull : handles.Full slot := by rw [Full, hword, not_ne_iff.1 hne]
      cases ih h with
      | free k i hk hi hfree => exact .free k i hk hi hfree
      | full hall =>
        refine .full fun k hk hlt => ?_
        rcases Nat.eq_or_lt_of_le hk with rfl | hk
        · exact hfull
        · exact hall k hk (by omega)

/-- A search loop reads word `j` only when the words before it are full; if all these places are
in the bitmap, the loop ends. -/
theorem search_isSome {handles : HandleData} {slot n : ℕ}
    (h : ∀ j, slot ≤ j → j < slot + n → (∀ k, slot ≤ k → k < j → handles.Full k) →
      j < handles.bitmap.length) : (handles.search slot n).isSome := by
  induction n generalizing slot with
  | zero => rfl
  | succ n ih =>
    have hslot : slot < handles.bitmap.length :=
      h slot (Nat.le_refl _) (by omega) fun k hk hlt => absurd hlt (by omega)
    have hword := List.getElem?_eq_getElem hslot
    rw [search, hword, Option.bind_eq_bind, Option.bind_some]
    split_ifs with hne
    · obtain ⟨i, -, hfind, -⟩ := findFirstUnset_spec hne
      rw [hfind]
      rfl
    · refine ih fun j hj hlt hall => h j (by omega) (by omega) fun k hk hkj => ?_
      rcases Nat.eq_or_lt_of_le hk with rfl | hk
      · rw [Full, hword, not_ne_iff.1 hne]
      · exact hall k hk hkj

theorem search_spec (handles : HandleData) (slot n : ℕ)
    (h : ∀ j, slot ≤ j → j < slot + n → (∀ k, slot ≤ k → k < j → handles.Full k) →
      j < handles.bitmap.length) :
    ∃ r, handles.search slot n = some r ∧ handles.Found slot n r := by
  obtain ⟨r, hr⟩ := Option.isSome_iff_exists.1 (search_isSome h)
  exact ⟨r, hr, search_found hr⟩

theorem findSlot_spec {handles : HandleData} (hw : handles.Wf) :
    ∃ r, handles.findSlot = some r ∧ handles.Found 0 handles.bitmap.length r := by
  obtain ⟨r, hr, hfound⟩ := handles.search_spec handles.slotHint
    (handles.size / 32 - handles.slotHint) fun j hj hlt _ => by
      rw [hw.bitmap_length]
      omega
  rw [findSlot, hr, Option.bind_eq_bind, Option.bind_some]
  cases hfound with
  | free k i hk hi hfree => exact ⟨_, rfl, .free k i hk hi hfree⟩
  | full hfull =>
    have hrest : ∀ k, handles.slotHint ≤ k → k < handles.bitmap.length → handles.Full k := by
      intro k hk hlt
      rw [hw.bitmap_length] at hlt
      exact hfull k hk (by omega)
    by_cases hhint : handles.slotHint = 0
    · refine ⟨_, by simp [hhint], .full fun k hk hlt => hrest k ?_ ?_⟩ <;> omega
    · -- the second loop: up to the hint, which may lie beyond the bitmap
      obtain ⟨r, hr, hfound⟩ := handles.search_spec 0 handles.slotHint fun j _ hlt hall => by
        rcases hw.hint with hhint | ⟨s, hs, hfree⟩
        · rw [hw.bitmap_length]
          omega
        · by_contra hj
          have hdiv : s / 32 < handles.bitmap.length := by
            rw [hw.bitmap_length]
            have := hw.size_dvd
            omega
          rw [bit_of_full (hall _ (Nat.zero_le _) (by omega))] at hfree
          exact Bool.noConfusion hfree
      refine ⟨r, by simpa [hhint] using hr, ?_⟩
      cases hfound with
      | free k i hk hi hfree => exact .free k i hk hi hfree
      | full hall =>
        refine .full fun k hk hlt => ?_
        rcases Nat.lt_or_ge k handles.slotHint with h | h
        · exact hall k hk (by omega)
        · exact hrest k h (by omega)

/-! ### Growth -/

theorem grow_fst (handles : HandleData) : handles.grow.1 =
    { handles with
      bitmap := handles.bitmap ++
        List.replicate (handles.size * 2 % 2 ^ 32 / 32 - handles.size / 32) 0
      entries := handles.entries ++
        List.replicate (handles.size * 2 % 2 ^ 32 - handles.size) 0
      slotHint := (handles.size + 1) % 2 ^ 24
      size := handles.size * 2 % 2 ^ 32 } := by
  have hmove : handles.entries.map moveLink = handles.entries := by
    conv_rhs => rw [← List.map_id handles.entries]
    exact List.map_congr_left fun entry _ => moveLink_eq entry
  simp only [grow, hmove, ite_self]

theorem bit_grow (handles : HandleData) (j : ℕ) : handles.grow.1.bit j = handles.bit j := by
  rw [grow_fst]
  exact Bitmap.testBit_append_zeros ..

theorem entry_grow (handles : HandleData) (j : ℕ) : handles.grow.1.entry j = handles.entry j := by
  rw [grow_fst, entry, entry, List.getD_eq_getElem?_getD, List.getD_eq_getElem?_getD]
  rcases Nat.lt_or_ge j handles.entries.length with h | h
  · rw [List.getElem?_append_left h]
  · rw [List.getElem?_append_right h, List.getElem?_replicate, List.getElem?_eq_none h]
    split_ifs <;> rfl

/-! ### Allocation -/

theorem entry_set {handles : HandleData} {slot : ℕ} (h : slot < handles.entries.length)
    (link : Word) (j : ℕ) :
    (handles.entries.set slot link).getD j 0 = if j = slot then link else handles.entry j := by
  rw [entry, List.getD_eq_getElem?_getD, List.getD_eq_getElem?_getD, List.getElem?_set]
  by_cases hj : j = slot
  · subst hj
    simp [h]
  · simp [hj, Ne.symm hj]

/-- What an allocation does: one free slot is taken, the others keep their entries. -/
structure Allocated (handles : HandleData) (obj : ObjectPtr) (slot : ℕ) (handles' : HandleData) :
    Prop where
  wf : handles'.Wf
  type : handles'.type = handles.type
  lt : slot < 2 ^ 29
  free : handles.bit slot = false
  bit : ∀ j, handles'.bit j = true ↔ handles.bit j = true ∨ j = slot
  entry : ∀ j, handles'.entry j = if j = slot then handles.type.entryOf obj else handles.entry j

theorem bit_occupy {handles : HandleData} {k i : ℕ} (hk : k < handles.bitmap.length) (hi : i < 32)
    (obj : ObjectPtr) (j : ℕ) :
    (handles.occupy obj k i).1.bit j = true ↔ handles.bit j = true ∨ j = k * 32 + i :=
  Bitmap.testBit_setBit hk hi j

/-- Taking a free slot keeps the invariant, if the hint does not go past the bitmap or leaves
another slot free. -/
theorem wf_occupy (handles : HandleData) (obj : ObjectPtr) {k i : ℕ}
    (hdvd : 32 ∣ handles.size) (hbitmap : handles.bitmap.length = handles.size / 32)
    (hentries : handles.entries.length = handles.size) (hk : k < handles.bitmap.length)
    (hi : i < 32) (hhint : handles.slotHint ≤ handles.size / 32 ∨
      ∃ j < handles.size, j ≠ k * 32 + i ∧ handles.bit j = false) :
    (handles.occupy obj k i).1.Wf := by
  refine ⟨hdvd, ?_, ?_, ?_⟩
  · exact (Bitmap.length_setBit ..).trans hbitmap
  · exact List.length_set.trans hentries
  · refine hhint.imp id ?_
    rintro ⟨j, hj, hne, hbit⟩
    refine ⟨j, hj, Bool.eq_false_iff.2 fun h => ?_⟩
    rcases (bit_occupy hk hi obj j).1 h with h | h
    · exact Bool.noConfusion (hbit.symm.trans h)
    · exact hne h

theorem allocated_occupy (handles : HandleData) (obj : ObjectPtr) {k i : ℕ}
    (hdvd : 32 ∣ handles.size) (hbitmap : handles.bitmap.length = handles.size / 32)
    (hentries : handles.entries.length = handles.size) (hk : k < handles.bitmap.length)
    (hi : i < 32) (hlt : k * 32 + i < 2 ^ 29) (hfree : handles.bit (k * 32 + i) = false)
    (hhint : handles.slotHint ≤ handles.size / 32 ∨
      ∃ j < handles.size, j ≠ k * 32 + i ∧ handles.bit j = false) :
    handles.Allocated obj (k * 32 + i) (handles.occupy obj k i).1 := by
  have hslot : k * 32 + i < handles.entries.length := by omega
  exact ⟨wf_occupy handles obj hdvd hbitmap hentries hk hi hhint, rfl, hlt, hfree,
    bit_occupy hk hi obj, entry_set hslot _⟩

theorem firstUse_spec {handles : HandleData} (hw : handles.Wf) :
    handles.firstUse.Wf ∧ handles.firstUse.type = handles.type ∧ 0 < handles.firstUse.size ∧
      (handles.Room → handles.firstUse.Room) ∧
      (∀ j, handles.firstUse.bit j = handles.bit j) ∧
      ∀ j, handles.firstUse.entry j = handles.entry j := by
  rw [firstUse]
  split_ifs with hsize
  · have hbitmap : handles.bitmap = [] :=
      List.eq_nil_of_length_eq_zero (by rw [hw.bitmap_length, hsize])
    have hentries : handles.entries = [] :=
      List.eq_nil_of_length_eq_zero (by rw [hw.entries_length, hsize])
    have hbit : ∀ j, ({ handles with
        size := 32, entries := List.replicate 32 0, bitmap := List.replicate (32 / 32) 0 } :
        HandleData).bit j = handles.bit j := by
      intro j
      rw [bit, bit, hbitmap]
      exact Bitmap.testBit_append_zeros [] 1 j
    have hfree := (hbit 0).trans (congrArg (Bitmap.testBit · 0) hbitmap)
    refine ⟨⟨⟨1, rfl⟩, List.length_replicate, List.length_replicate,
      .inr ⟨0, Nat.succ_pos _, hfree⟩⟩, rfl, Nat.succ_pos _,
      fun _ => ⟨(by decide : 32 ≤ 2 ^ 29), 0, by decide, hfree⟩, hbit, ?_⟩
    intro j
    rw [entry, entry, hentries, List.getD_eq_getElem?_getD, List.getElem?_replicate]
    split_ifs <;> rfl
  · exact ⟨hw, rfl, Nat.pos_of_ne_zero hsize, id, fun _ => rfl, fun _ => rfl⟩

theorem sized_firstUse {handles : HandleData} (hs : handles.Sized) : handles.firstUse.Sized := by
  rw [firstUse]
  split_ifs
  · exact .inr ⟨5, by decide, rfl⟩
  · exact hs

theorem takeSlot_spec {handles : HandleData} (hw : handles.Wf) (hpos : 0 < handles.size)
    (hroom : handles.Room) (obj : ObjectPtr) :
    ∃ handles' slot, handles.takeSlot obj = some (handles', makeHandle handles.type slot) ∧
      handles.Allocated obj slot handles' ∧ (handles.Sized → handles'.Sized) := by
  obtain ⟨r, hr, hfound⟩ := findSlot_spec hw
  rw [takeSlot, hr, Option.bind_eq_bind, Option.bind_some]
  have hdvd := hw.size_dvd
  have hle := hroom.size_le
  cases hfound with
  | free k i hk hi hfree =>
    have hk' := hk
    rw [hw.bitmap_length] at hk'
    have hhint : k % 2 ^ 24 ≤ handles.size / 32 := Nat.le_trans (Nat.mod_le ..) (Nat.le_of_lt hk')
    have ha := allocated_occupy { handles with slotHint := k % 2 ^ 24 } obj hdvd
      hw.bitmap_length hw.entries_length hk hi (by omega) hfree (.inl hhint)
    exact ⟨_, _, rfl, ⟨ha.wf, ha.type, ha.lt, ha.free, ha.bit, ha.entry⟩, id⟩
  | full hfull =>
    -- no slot of the table is free, so one beyond it is
    have hsize : handles.size < 2 ^ 29 := by
      obtain ⟨j, hj, hfree⟩ := hroom.free
      refine Nat.lt_of_le_of_lt (Nat.not_lt.1 fun hlt => ?_) hj
      have hword : handles.Full (j / 32) :=
        hfull _ (Nat.zero_le _) (by rw [hw.bitmap_length]; omega)
      exact Bool.noConfusion (hfree.symm.trans (bit_of_full hword))
    have hnew : handles.size * 2 % 2 ^ 32 = handles.size * 2 := Nat.mod_eq_of_lt (by omega)
    have hslot : (handles.size + 1) / 32 * 32 + 0 = handles.size := by omega
    have hfresh : ∀ j, handles.size ≤ j → handles.grow.1.bit j = false := by
      intro j hj
      rw [bit_grow, hw.bit_of_size_le hj]
    have hgrown : handles.grow.1.size = handles.size * 2 := hnew
    have hbitmap : handles.grow.1.bitmap.length = handles.grow.1.size / 32 := by
      rw [hgrown, grow_fst, hnew, List.length_append, hw.bitmap_length, List.length_replicate]
      omega
    have hentries : handles.grow.1.entries.length = handles.grow.1.size := by
      rw [hgrown, grow_fst, hnew, List.length_append, hw.entries_length, List.length_replicate]
      omega
    -- the hint may be out of range, but the slot after the new one is free
    have ha := allocated_occupy handles.grow.1 obj (k := (handles.size + 1) / 32)
      (i := 0) (by rw [hgrown]; omega) hbitmap hentries (by rw [hbitmap, hgrown]; omega) (by omega)
      (by omega) (hfresh _ (by omega))
      (.inr ⟨handles.size + 1, by rw [hgrown]; omega, by omega, hfresh _ (by omega)⟩)
    refine ⟨(handles.grow.1.occupy obj ((handles.size + 1) / 32) 0).1, _, rfl,
      ⟨ha.wf, ha.type, ha.lt, ?_, fun j => ?_, fun j => ?_⟩, ?_⟩
    · rw [← bit_grow, ha.free]
    · rw [ha.bit, bit_grow]
    · rw [ha.entry, entry_grow]
      rfl
    · rintro (h0 | ⟨k, hk, hsizek⟩)
      · exact absurd h0 (Nat.ne_of_gt hpos)
      · rw [hsizek] at hsize
        have hlt := (Nat.pow_lt_pow_iff_right Nat.one_lt_two).1 hsize
        exact .inr ⟨k + 1, hlt, by rw [occupy, hgrown, hsizek, Nat.pow_succ]⟩

/-- **Allocation.**  While there is room it succeeds with a slot that was free; no other slot
changes, even when the table grows. -/
theorem allocHandle_spec {handles : HandleData} (hw : handles.Wf) (hroom : handles.Room)
    (obj : ObjectPtr) :
    ∃ handles' slot, handles.allocHandle obj = some (handles', makeHandle handles.type slot) ∧
      handles.Allocated obj slot handles' ∧ (handles.Sized → handles'.Sized) := by
  obtain ⟨hw', htype, hpos, hroom', hbit, hentry⟩ := firstUse_spec hw
  obtain ⟨handles', slot, heq, ha, hsized⟩ := takeSlot_spec hw' hpos (hroom' hroom) obj
  rw [htype] at heq
  refine ⟨handles', slot, heq, ⟨ha.wf, ha.type.trans htype, ha.lt, ?_, fun j => ?_, fun j => ?_⟩,
    fun hs => hsized (sized_firstUse hs)⟩
  · rw [← hbit, ha.free]
  · rw [ha.bit, hbit]
  · rw [ha.entry, htype, hentry]

/-! ### The other operations -/

theorem Wf.setEntry {handles : HandleData} (hw : handles.Wf) (slot : ℕ) (link : Word) :
    ({ handles with entries := handles.entries.set slot link } : HandleData).Wf :=
  ⟨hw.size_dvd, hw.bitmap_length, List.length_set.trans hw.entries_length, hw.hint⟩

theorem setTarget_spec {handles : HandleData} (hw : handles.Wf) (slot : ℕ) (obj : ObjectPtr) :
    (handles.setTarget slot obj).Wf ∧ (handles.setTarget slot obj).type = handles.type ∧
      (∀ j, (handles.setTarget slot obj).bit j = handles.bit j) ∧
      ∀ j, (handles.setTarget slot obj).entry j =
        if j = slot ∧ handles.bit j = true then handles.type.entryOf obj else handles.entry j := by
  simp only [setTarget, hw.inUse_iff]
  split_ifs with h
  · have hlt : slot < handles.entries.length := by
      rw [hw.entries_length]
      exact hw.bit_lt h
    refine ⟨hw.setEntry _ _, rfl, fun _ => rfl, fun j => ?_⟩
    refine (entry_set hlt _ j).trans ?_
    by_cases hj : j = slot
    · subst hj
      simp [h]
    · simp [hj]
  · refine ⟨hw, rfl, fun _ => rfl, fun j => ?_⟩
    rw [if_neg]
    rintro ⟨rfl, hbit⟩
    exact h hbit

theorem free_spec {handles : HandleData} (hw : handles.Wf) (slot : ℕ) :
    (handles.free slot).Wf ∧ (handles.free slot).type = handles.type ∧
      (∀ j, (handles.free slot).bit j = true ↔ handles.bit j = true ∧ j ≠ slot) ∧
      ∀ j, (handles.free slot).entry j =
        if j = slot ∧ handles.bit j = true then 0 else handles.entry j := by
  simp only [free, hw.inUse_iff]
  split_ifs with h
  · have hslot := hw.bit_lt h
    have hlt : slot < handles.entries.length := by rwa [hw.entries_length]
    have hdiv : slot / 32 < handles.bitmap.length := by
      rw [hw.bitmap_length]
      have := hw.size_dvd
      omega
    have hbit : ∀ j, (handles.bitmap.clearBit (slot / 32) (slot % 32)).testBit j = true ↔
        handles.bit j = true ∧ j ≠ slot := by
      intro j
      rw [Bitmap.testBit_clearBit hdiv (Nat.mod_lt _ (by decide)), Nat.div_add_mod' slot 32]
      rfl
    refine ⟨⟨hw.size_dvd, (Bitmap.length_clearBit ..).trans hw.bitmap_length,
      List.length_set.trans hw.entries_length, .inr ⟨slot, hslot, ?_⟩⟩, rfl, hbit, fun j => ?_⟩
    · exact Bool.eq_false_iff.2 fun hset => ((hbit slot).1 hset).2 rfl
    · refine (entry_set hlt _ j).trans ?_
      by_cases hj : j = slot
      · subst hj
        simp [h]
      · simp [hj]
  · refine ⟨hw, rfl, fun j => ⟨fun hj => ⟨hj, ?_⟩, And.left⟩, fun j => ?_⟩
    · rintro rfl
      exact h hj
    · rw [if_neg]
      rintro ⟨rfl, hbit⟩
      exact h hbit

theorem clearLink_spec {handles : HandleData} (hw : handles.Wf) (slot : ℕ) :
    (handles.clearLink slot).Wf ∧ (handles.clearLink slot).type = handles.type ∧
      (∀ j, (handles.clearLink slot).bit j = handles.bit j) ∧
      ∀ j, (handles.clearLink slot).entry j =
        if j = slot ∧ handles.type.isWeak = true then 0 else handles.entry j := by
  rw [clearLink]
  split_ifs with h
  · have hlt : slot < handles.entries.length := by
      rw [hw.entries_length]
      exact h.2
    refine ⟨hw.setEntry _ _, rfl, fun _ => rfl, fun j => ?_⟩
    refine (entry_set hlt _ j).trans ?_
    simp [h.1]
  · refine ⟨hw, rfl, fun _ => rfl, fun j => ?_⟩
    split_ifs with hj
    · -- beyond the table
      have hle : handles.entries.length ≤ j := by
        rw [hw.entries_length]
        by_contra hlt
        exact h ⟨hj.2, hj.1 ▸ Nat.not_le.1 hlt⟩
      rw [entry, List.getD_eq_getElem?_getD, List.getElem?_eq_none hle]
      rfl
    · rfl

end HandleData

end GC

end Il2Cpp
