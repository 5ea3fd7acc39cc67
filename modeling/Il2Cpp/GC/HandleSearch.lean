import Il2Cpp.GC.HandleMap

/-!
# The search for a free handle slot

Where `alloc_handle` puts a handle, over the runs of the handle tables.  The number of slots is a
32-bit number that doubles, so a full table of `2 ^ 31` slots cannot grow.

* `HandleData.place` : the slot that is taken, after a search and maybe after the table grew.
* `HandleData.FindsFree` : the search reads no word outside the bitmap, and the slot is a free one
  of the table.
* `HandleData.place_spec` : so it is for a table that satisfies the invariant and does not overflow.
* `search_in_bounds` : so it is exactly for the tables that do not overflow, in every run in which
  no table did.
* `exists_overflows` : a run that fills a table of `2 ^ 31` slots.
-/

namespace Il2Cpp

namespace GC

namespace HandleData

/-- The table, the word of its bitmap and the bit that `alloc_handle` marks: those of the search, or
those of the first new slot. -/
def place (handles : HandleData) : Option (HandleData × ℕ × ℕ) :=
  handles.firstUse.findSlot.map fun (handles, found) =>
    match found with
    | some (slot, i) => (handles, slot, i)
    | none => handles.grow

theorem allocHandle_eq_place (handles : HandleData) (obj : ObjectPtr) :
    handles.allocHandle obj = handles.place.map fun p => p.1.occupy obj p.2.1 p.2.2 := by
  rw [allocHandle, takeSlot, place, Option.bind_eq_bind]
  cases handles.firstUse.findSlot with
  | none => rfl
  | some r =>
    obtain ⟨handles', _ | ⟨slot, i⟩⟩ := r <;> rfl

/-- The search ends in the bitmap, and the slot that is taken is in the table and free. -/
def FindsFree (handles : HandleData) : Prop :=
  ∃ handles' slot i, handles.place = some (handles', slot, i) ∧ slot < handles'.size / 32 ∧
    handles'.bitmap.length = handles'.size / 32 ∧ i < 32 ∧ handles'.bit (slot * 32 + i) = false

/-- Every slot of the table is in use. -/
def AllInUse (handles : HandleData) : Prop := ∀ j < handles.size, handles.bit j = true

/-- A full table has to grow whose number of slots doubles to zero. -/
def Overflows (handles : HandleData) : Prop := handles.size = 2 ^ 31 ∧ handles.AllInUse

/-- The sizes that a table takes. -/
def Doubled (handles : HandleData) : Prop := handles.size = 0 ∨ ∃ k ≤ 31, handles.size = 2 ^ k

theorem Doubled.lt {handles : HandleData} (hd : handles.Doubled) (h : handles.size ≠ 2 ^ 31) :
    handles.size ≤ 2 ^ 30 := by
  rcases hd with hzero | ⟨k, hk, hsize⟩
  · rw [hzero]
    exact Nat.zero_le _
  · rw [hsize] at h ⊢
    refine Nat.pow_le_pow_right Nat.two_pos ?_
    by_contra hlt
    exact h (by rw [show k = 31 by omega])

/-- The slot that is taken, and the table before it is. -/
structure Placed (handles handles' : HandleData) (slot i : ℕ) : Prop where
  dvd : 32 ∣ handles'.size
  bitmap_length : handles'.bitmap.length = handles'.size / 32
  entries_length : handles'.entries.length = handles'.size
  lt : slot < handles'.bitmap.length
  bit_lt : i < 32
  free : handles'.bit (slot * 32 + i) = false
  hint : handles'.slotHint ≤ handles'.size / 32 ∨
    ∃ j < handles'.size, j ≠ slot * 32 + i ∧ handles'.bit j = false
  bit : ∀ j, handles'.bit j = handles.bit j
  doubled : handles'.Doubled
  /-- The table grows only if it is full. -/
  size : handles'.size = handles.size ∨ handles.AllInUse ∧ handles'.size = handles.size * 2

theorem allInUse_of_full {handles : HandleData} (hw : handles.Wf)
    (hfull : ∀ k, 0 ≤ k → k < 0 + handles.bitmap.length → handles.Full k) : handles.AllInUse := by
  intro j hj
  refine bit_of_full (hfull _ (Nat.zero_le _) ?_)
  have := hw.size_dvd
  rw [hw.bitmap_length]
  omega

theorem placed_grow {handles : HandleData} (hw : handles.Wf) (hpos : 0 < handles.size)
    (hd : handles.Doubled) (hle : handles.size ≤ 2 ^ 30) (hall : handles.AllInUse) :
    handles.Placed handles.grow.1 handles.grow.2.1 handles.grow.2.2 := by
  have hdvd := hw.size_dvd
  have hnew : handles.size * 2 % 2 ^ 32 = handles.size * 2 := Nat.mod_eq_of_lt (by omega)
  have hgrown : handles.grow.1.size = handles.size * 2 := hnew
  have hslot : handles.grow.2.1 = handles.size / 32 := by
    change (handles.size + 1) / 32 = _
    omega
  have hbit : handles.grow.2.2 = 0 := rfl
  have hfresh (j : ℕ) (hj : handles.size ≤ j) : handles.grow.1.bit j = false := by
    rw [bit_grow, hw.bit_of_size_le hj]
  have hbitmap : handles.grow.1.bitmap.length = handles.grow.1.size / 32 := by
    rw [hgrown, grow_fst, hnew, List.length_append, hw.bitmap_length, List.length_replicate]
    omega
  refine ⟨by rw [hgrown]; omega, hbitmap, ?_, ?_, by omega, ?_, ?_, bit_grow handles, ?_,
    .inr ⟨hall, hgrown⟩⟩
  · rw [hgrown, grow_fst, hnew, List.length_append, hw.entries_length, List.length_replicate]
    omega
  · rw [hbitmap, hgrown, hslot]
    omega
  · rw [hslot, hbit]
    exact hfresh _ (by omega)
  · -- the hint may be out of range, but the slot after the new one is free
    exact .inr ⟨handles.size + 1, by rw [hgrown]; omega, by rw [hslot, hbit]; omega,
      hfresh _ (by omega)⟩
  · rcases hd with hzero | ⟨k, -, hsize⟩
    · exact absurd hzero (Nat.ne_of_gt hpos)
    · rw [hsize] at hle
      have hk := (Nat.pow_le_pow_iff_right Nat.one_lt_two).1 hle
      exact .inr ⟨k + 1, by omega, by rw [hgrown, hsize, Nat.pow_succ]⟩

theorem doubled_firstUse {handles : HandleData} (hd : handles.Doubled) :
    handles.firstUse.Doubled := by
  rw [firstUse]
  split_ifs
  · exact .inr ⟨5, by decide, rfl⟩
  · exact hd

/-- **One search**: without an overflow it ends in the bitmap and finds a free slot. -/
theorem place_spec {handles : HandleData} (hw : handles.Wf) (hd : handles.Doubled)
    (hno : ¬ handles.Overflows) : ∃ handles' slot i,
      handles.place = some (handles', slot, i) ∧ handles.firstUse.Placed handles' slot i := by
  obtain ⟨hw', -, hpos, -, -, -⟩ := firstUse_spec hw
  have hd' := doubled_firstUse hd
  obtain ⟨r, hr, hfound⟩ := findSlot_spec hw'
  rw [place, hr, Option.map_some]
  cases hfound with
  | free k i hk hi hfree =>
    refine ⟨_, k, i, rfl, hw'.size_dvd, hw'.bitmap_length, hw'.entries_length, hk, hi, hfree, ?_,
      fun _ => rfl, hd', .inl rfl⟩
    rw [hw'.bitmap_length] at hk
    exact .inl (Nat.le_trans (Nat.mod_le ..) (Nat.le_of_lt hk))
  | full hfull =>
    have hall := allInUse_of_full hw' hfull
    refine ⟨_, _, _, rfl, placed_grow hw' hpos hd' (hd'.lt fun hsize => hno ?_) hall⟩
    have hsame : handles.firstUse = handles := by
      rw [firstUse] at hsize ⊢
      split_ifs at hsize ⊢ with hzero
      · exact absurd (show (32 : ℕ) = 2 ^ 31 from hsize) (by decide)
      · rfl
    rw [hsame] at hsize hall
    exact ⟨hsize, hall⟩

/-- The sizes of a table after an allocation, and the slots in use. -/
structure Taken (handles handles' : HandleData) (slot : ℕ) : Prop where
  wf : handles'.Wf
  doubled : handles'.Doubled
  lt : slot < handles'.size
  free : handles.bit slot = false
  bit : ∀ j, handles'.bit j = true ↔ handles.bit j = true ∨ j = slot
  size : handles'.size = handles.size ∨ handles.AllInUse ∧ handles'.size = handles.size * 2

theorem allocHandle_taken {handles : HandleData} (hw : handles.Wf) (hd : handles.Doubled)
    (hno : ¬ handles.Overflows) (obj : ObjectPtr) : ∃ handles' gchandle slot,
      handles.allocHandle obj = some (handles', gchandle) ∧
        handles.firstUse.Taken handles' slot := by
  obtain ⟨handles', slot, i, hplace, hp⟩ := place_spec hw hd hno
  have hlt : slot * 32 + i < handles'.size := by
    have hslot := hp.lt
    have hi := hp.bit_lt
    have := hp.dvd
    rw [hp.bitmap_length] at hslot
    omega
  rw [allocHandle_eq_place, hplace, Option.map_some]
  refine ⟨_, _, slot * 32 + i, rfl, ?_, hp.doubled, hlt, ?_, fun j => ?_, hp.size⟩
  · exact wf_occupy handles' obj hp.dvd hp.bitmap_length hp.entries_length hp.lt hp.bit_lt hp.hint
  · rw [← hp.bit, hp.free]
  · rw [← hp.bit]
    exact bit_occupy hp.lt hp.bit_lt obj j

theorem Overflows.not_findsFree {handles : HandleData} (hw : handles.Wf) (h : handles.Overflows) :
    ¬ handles.FindsFree := by
  obtain ⟨hsize, hall⟩ := h
  have hfirst : handles.firstUse = handles := by
    rw [firstUse, if_neg]
    rw [hsize]
    decide
  obtain ⟨r, hr, hfound⟩ := findSlot_spec hw
  rintro ⟨handles', slot, i, hplace, hslot, -, -, -⟩
  rw [place, hfirst, hr, Option.map_some] at hplace
  cases hfound with
  | free k i hk hi hfree =>
    have hdvd := hw.size_dvd
    rw [hw.bitmap_length] at hk
    rw [hall _ (by omega)] at hfree
    cases hfree
  | full =>
    cases hplace
    change _ < handles.size * 2 % 2 ^ 32 / 32 at hslot
    rw [hsize] at hslot
    omega

/-- The tables whose search cannot leave the bitmap. -/
structure Searchable (handles : HandleData) : Prop where
  wf : handles.Wf
  doubled : handles.Doubled

namespace Searchable

variable {handles : HandleData}

theorem setTarget (h : handles.Searchable) (slot : ℕ) (obj : ObjectPtr) :
    (handles.setTarget slot obj).Searchable := by
  refine ⟨(setTarget_spec h.wf slot obj).1, ?_⟩
  rw [HandleData.setTarget]
  split_ifs <;> exact h.doubled

theorem free (h : handles.Searchable) (slot : ℕ) : (handles.free slot).Searchable := by
  refine ⟨(free_spec h.wf slot).1, ?_⟩
  rw [HandleData.free]
  split_ifs <;> exact h.doubled

theorem clearLink (h : handles.Searchable) (slot : ℕ) : (handles.clearLink slot).Searchable := by
  refine ⟨(clearLink_spec h.wf slot).1, ?_⟩
  rw [HandleData.clearLink]
  split_ifs <;> exact h.doubled

theorem findsFree_iff (h : handles.Searchable) : handles.FindsFree ↔ ¬ handles.Overflows := by
  constructor
  · intro hfree hov
    exact hov.not_findsFree h.wf hfree
  · intro hno
    obtain ⟨handles', slot, i, hplace, hp⟩ := place_spec h.wf h.doubled hno
    have hlt := hp.lt
    rw [hp.bitmap_length] at hlt
    exact ⟨handles', slot, i, hplace, hlt, hp.bitmap_length, hp.bit_lt, hp.free⟩

theorem size_le (h : handles.Searchable) : handles.size ≤ 2 ^ 31 := by
  rcases h.doubled with hzero | ⟨k, hk, hsize⟩
  · rw [hzero]
    exact Nat.zero_le _
  · rw [hsize]
    exact Nat.pow_le_pow_right Nat.two_pos hk

end Searchable

end HandleData

namespace GCHandles

variable {tables tables' : GCHandles}

/-- Every table can be searched. -/
def Searchable (tables : GCHandles) : Prop := ∀ type, (tables type).Searchable

/-- The operation does not allocate in a table that overflows. -/
def NoOverflow (tables : GCHandles) (op : HandleOp) : Prop :=
  ∀ type, op.allocates? = some type → ¬ (tables type).Overflows

theorem searchable_init : init.Searchable := by
  intro type
  exact ⟨⟨⟨0, rfl⟩, (Nat.zero_div 32).symm, rfl, .inl (Nat.zero_le _)⟩, .inl rfl⟩

theorem Searchable.update (hs : tables.Searchable) {type : GCHandleType} {handles : HandleData}
    (h : handles.Searchable) : Searchable (Function.update tables type handles) := by
  intro t
  rcases eq_or_ne t type with rfl | hne
  · simpa using h
  · simpa [hne] using hs t

theorem Searchable.modify (hs : tables.Searchable) (h : Handle) {f : HandleData → ℕ → HandleData}
    (hf : ∀ handles slot, handles.Searchable → (f handles slot).Searchable) :
    (tables.modify h f).Searchable := by
  rw [GCHandles.modify]
  split
  · exact hs
  · exact hs.update (hf _ _ (hs _))

theorem Searchable.allocHandle (hs : tables.Searchable) {type : GCHandleType}
    (hno : ¬ (tables type).Overflows) {obj : ObjectPtr} {h : Handle}
    (halloc : tables.allocHandle type obj = some (tables', h)) : tables'.Searchable := by
  obtain ⟨handles, gchandle, slot, heq, ht⟩ :=
    HandleData.allocHandle_taken (hs type).wf (hs type).doubled hno obj
  rw [GCHandles.allocHandle, heq] at halloc
  cases halloc
  exact hs.update ⟨ht.wf, ht.doubled⟩

theorem Searchable.new (hs : tables.Searchable) {obj : ObjectPtr} {pinned : Bool}
    (hno : ¬ (tables (if pinned then .pinned else .normal)).Overflows) {r : HandleResult}
    (h : tables.new obj pinned = some (tables', r)) : tables'.Searchable := by
  obtain ⟨⟨tables'', h'⟩, halloc, heq⟩ := Option.bind_eq_some_iff.1 h
  cases heq
  exact hs.allocHandle hno halloc

theorem Searchable.newWeakref (hs : tables.Searchable) {obj : ObjectPtr} {track : Bool}
    (hno : ¬ (tables (if track then .weakTrack else .weak)).Overflows) {r : HandleResult}
    (h : tables.newWeakref obj track = some (tables', r)) : tables'.Searchable := by
  obtain ⟨⟨tables'', h'⟩, halloc, heq⟩ := Option.bind_eq_some_iff.1 h
  have hsame : tables'' = tables' := by
    cases track <;> cases heq <;> rfl
  rw [← hsame]
  exact hs.allocHandle hno halloc

/-- **One operation** that does not overflow a table keeps the tables searchable. -/
theorem Searchable.run (hs : tables.Searchable) {op : HandleOp} (hno : tables.NoOverflow op)
    {r : HandleResult} (h : tables.run op = some (tables', r)) : tables'.Searchable := by
  cases op with
  | new obj pinned => exact hs.new (hno _ rfl) h
  | newWeakref obj track => exact hs.newWeakref (hno _ rfl) h
  | getTarget gchandle =>
    cases h
    exact hs
  | free gchandle =>
    cases h
    exact hs.modify gchandle fun _ slot hh => hh.free slot
  | clearLink gchandle =>
    cases h
    exact hs.modify gchandle fun _ slot hh => hh.clearLink slot
  | getTargetHandle obj gchandle type =>
    rw [GCHandles.run, GCHandles.getTargetHandle] at h
    split_ifs at h
    · cases h
      exact hs.modify gchandle fun _ slot hh => hh.setTarget slot obj
    · refine hs.newWeakref ?_ h
      exact hno _ (by simp [HandleOp.allocates?, *])
    · refine hs.newWeakref ?_ h
      exact hno _ (by simp [HandleOp.allocates?, *])
    · refine hs.new ?_ h
      exact hno _ (by simp [HandleOp.allocates?, *])
    · refine hs.new ?_ h
      exact hno _ (by simp [HandleOp.allocates?, *])
    · cases h
      exact hs

/-- **The search for a slot stays in bounds.**  In every run in which no table overflowed: the
bitmap of every table has the words that the search may read, the search does not read another, and
the slot that the next allocation takes is a free one of the table exactly if the table does not
overflow. -/
theorem search_in_bounds
    (hs : lts.ReachWith (fun tables l => tables.NoOverflow l.1) init tables)
    (type : GCHandleType) :
    (tables type).firstUse.bitmap.length = (tables type).firstUse.size / 32 ∧
      (tables type).firstUse.findSlot.isSome ∧
      ((tables type).FindsFree ↔ ¬ (tables type).Overflows) := by
  have hsearch : tables.Searchable :=
    hs.invariant searchable_init fun _ _ _ ih hno hst => ih.run hno hst
  obtain ⟨hw, -⟩ := HandleData.firstUse_spec (hsearch type).wf
  obtain ⟨r, hr, -⟩ := HandleData.findSlot_spec hw
  exact ⟨hw.bitmap_length, by rw [hr]; rfl, (hsearch type).findsFree_iff⟩

/-! ### A table that overflows -/

/-- The slots in use of the table of normal handles. -/
def used (tables : GCHandles) : Finset ℕ :=
  (Finset.range (2 ^ 31)).filter fun j => (tables .normal).bit j = true

theorem exists_new (hs : tables.Searchable) (hno : ¬ (tables .normal).Overflows) (obj : ObjectPtr) :
    ∃ tables' r, tables.run (.new obj false) = some (tables', r) ∧ tables'.Searchable ∧
      tables'.used.card = tables.used.card + 1 := by
  obtain ⟨handles, gchandle, slot, heq, ht⟩ :=
    HandleData.allocHandle_taken (hs .normal).wf (hs .normal).doubled hno obj
  have hfirst := (HandleData.firstUse_spec (hs .normal).wf).2.2.2.2.1
  have hsearch : HandleData.Searchable handles := ⟨ht.wf, ht.doubled⟩
  refine ⟨Function.update tables .normal handles, .issued gchandle, ?_, hs.update hsearch, ?_⟩
  · rw [GCHandles.run, GCHandles.new, GCHandles.allocHandle]
    simp only [Bool.false_eq_true, if_false, heq]
    rfl
  · have hfree : slot ∉ tables.used := by
      intro hmem
      have hset := (Finset.mem_filter.1 hmem).2
      rw [← hfirst, ht.free] at hset
      cases hset
    have hlt : slot < 2 ^ 31 := Nat.lt_of_lt_of_le ht.lt hsearch.size_le
    have hinsert : used (Function.update tables .normal handles) = insert slot tables.used := by
      ext j
      rw [used, Finset.mem_filter, Function.update_self, ht.bit, hfirst, Finset.mem_insert, used,
        Finset.mem_filter, Finset.mem_range]
      constructor
      · rintro ⟨hj, hbit | rfl⟩
        · exact .inr ⟨hj, hbit⟩
        · exact .inl rfl
      · rintro (rfl | ⟨hj, hbit⟩)
        · exact ⟨hlt, .inr rfl⟩
        · exact ⟨hj, .inl hbit⟩
    rw [hinsert, Finset.card_insert_of_notMem hfree]

theorem exists_used (obj : ObjectPtr) (n : ℕ) : ∃ tables, lts.Reachable init tables ∧
    tables.Searchable ∧ ((tables .normal).Overflows ∨ tables.used.card = n) := by
  induction n with
  | zero =>
    refine ⟨init, .init, searchable_init, .inr ?_⟩
    rw [used, Finset.card_eq_zero, Finset.filter_eq_empty_iff]
    intro j _ hbit
    have hfree : (init .normal).bit j = false := Bitmap.testBit_of_length_le (Nat.zero_le _)
    rw [hfree] at hbit
    cases hbit
  | succ n ih =>
    obtain ⟨tables, hreach, hs, hor⟩ := ih
    by_cases hov : (tables .normal).Overflows
    · exact ⟨tables, hreach, hs, .inl hov⟩
    · obtain ⟨tables', r, hrun, hs', hcard⟩ := exists_new hs hov obj
      have hstep : lts.step tables (.new obj false, r) tables' := hrun
      refine ⟨tables', .step hreach trivial hstep, hs', .inr ?_⟩
      rw [hcard, hor.resolve_left hov]

/-- A run that only makes handles ends with a table that overflows; its next allocation takes no
free slot of the table. -/
theorem exists_overflows : ∃ tables, lts.Reachable init tables ∧
    (tables .normal).Overflows ∧ ¬ (tables .normal).FindsFree := by
  obtain ⟨tables, hreach, hs, hor⟩ := exists_used .null (2 ^ 31)
  suffices hov : (tables .normal).Overflows from ⟨tables, hreach, hov, hov.not_findsFree (hs _).wf⟩
  rcases hor with hov | hcard
  · exact hov
  · -- all the slots that there can be are in use
    have hall : tables.used = Finset.range (2 ^ 31) :=
      Finset.eq_of_subset_of_card_le (Finset.filter_subset ..) (by rw [hcard, Finset.card_range])
    have hbit (j : ℕ) (hj : j < 2 ^ 31) : (tables .normal).bit j = true := by
      rw [← Finset.mem_range, ← hall] at hj
      exact (Finset.mem_filter.1 hj).2
    have hle := (hs .normal).size_le
    refine ⟨Nat.le_antisymm hle ?_, fun j hj => hbit j (Nat.lt_of_lt_of_le hj hle)⟩
    have hlast := (hs .normal).wf.bit_lt (hbit (2 ^ 31 - 1) (by decide))
    omega

theorem search_in_bounds_new : ∃ tables h, init.run (.new .null false) = some (tables, .issued h) ∧
    (tables .normal).FindsFree := by
  obtain ⟨tables, hrun⟩ : ∃ tables, init.run (.new .null false) = some (tables, .issued 3) :=
    ⟨_, rfl⟩
  have hno : init.NoOverflow (.new .null false) := by
    rintro type - ⟨hsize, -⟩
    exact absurd (show (0 : ℕ) = 2 ^ 31 from hsize) (by decide)
  have hsmall : ¬ (tables .normal).Overflows := by
    rintro ⟨hsize, -⟩
    cases hrun
    exact absurd (show (32 : ℕ) = 2 ^ 31 from hsize) (by decide)
  have hstep : lts.step init (.new .null false, .issued 3) tables := hrun
  exact ⟨tables, 3, hrun, (search_in_bounds (.step .init hno hstep) .normal).2.2.2 hsmall⟩

end GCHandles

end GC

end Il2Cpp
