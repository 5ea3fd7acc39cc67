import Il2Cpp.GC.HandleMap

/-!
# The walk over the strong handles

`GCHandle::WalkStrongGCHandleTargets` reports the roots that the strong handles are: it goes through
the entries of two tables and calls back on each that is not NULL, without a look at the bitmap.

* `WalksLive` : the calls are one for each live strong handle with an object, on that object.
* `walk_strong` : so it is in every run in which an allocation always finds a slot whose number fits
  in a handle.
* `lost_slot` : the allocation after `2 ^ 29` live handles of one table issues a handle that is
  still in use, and nobody can clear the entry any more.
-/

namespace Il2Cpp

namespace GC

/-- The handle is `HANDLE_NORMAL` or `HANDLE_PINNED`. -/
def IsStrong (h : Handle) : Prop := handleType h = some .normal ∨ handleType h = some .pinned

/-- The walk calls back once for each live strong handle whose object is not NULL, on that object,
and on nothing else. -/
def WalksLive (s : GCHandles × HandleMap) : Prop :=
  ∃ hs : List Handle, hs.Nodup ∧
    (∀ h, h ∈ hs ↔ IsStrong h ∧ ∃ obj, s.2 h = .live obj ∧ obj.word ≠ 0) ∧
    s.1.walkStrongGCHandleTargets = hs.map fun h => (s.2 h).target.word

/-- The operation allocates nothing, or one of the first `2 ^ 29` slots of its table is free. -/
def GCHandles.HasRoom (tables : GCHandles) (op : HandleOp) : Prop :=
  ∀ type, op.allocates? = some type → ∃ slot < 2 ^ 29, (tables type).bit slot = false

/-! ### The handles of a table -/

/-- The handles of the entries that the walk reports. -/
def reported (tables : GCHandles) (type : GCHandleType) : List Handle :=
  ((List.range (tables type).size).filter fun i => (tables type).entry i ≠ 0).map (makeHandle type)

theorem mem_reported {tables : GCHandles} {type : GCHandleType} {h : Handle} :
    h ∈ reported tables type ↔
      ∃ i < (tables type).size, (tables type).entry i ≠ 0 ∧ makeHandle type i = h := by
  simp [reported, List.mem_filter, and_assoc]

theorem walk_eq (tables : GCHandles) : tables.walkStrongGCHandleTargets =
    [GCHandleType.normal, .pinned].flatMap fun type =>
      ((List.range (tables type).size).filter fun i => (tables type).entry i ≠ 0).map
        (tables type).entry := by
  refine congrArg (List.flatMap · _) (funext fun type => ?_)
  rw [← List.filterMap_eq_map', List.filterMap_filter]
  simp only [decide_eq_true_eq]
  rfl

/-- What holds between the tables and the map after every operation. -/
structure WalkInv (s : GCHandles × HandleMap) : Prop where
  represents : s.1.Represents s.2
  sized : s.1.Sized
  leaked : ∀ h obj, s.2 h = .leaked obj → handleType h = some .weakTrack

theorem walkInv_init : WalkInv (GCHandles.init, fun _ => .unused) :=
  ⟨GCHandles.represents_init, fun _ => .inl rfl, fun _ _ h => Cell.noConfusion h⟩

theorem HandleMap.leaked_after {m : HandleMap} {op : HandleOp} {r : HandleResult} (hr : r.LostOk)
    (hm : ∀ h obj, m h = .leaked obj → handleType h = some .weakTrack) {h : Handle}
    {obj : ObjectPtr} (hh : m.after op r h = .leaked obj) : handleType h = some .weakTrack := by
  -- the cell of one handle is changed, and is lost only if it was, or if the result says so
  have hupdate : ∀ {k : Handle} {cell : Cell}, Function.update m k cell h = .leaked obj →
      (cell = .leaked obj → handleType k = some .weakTrack) → handleType h = some .weakTrack := by
    intro k cell heq hcell
    rcases eq_or_ne h k with rfl | hne
    · rw [Function.update_self] at heq
      exact hcell heq
    · rw [Function.update_of_ne hne] at heq
      exact hm h obj heq
  have hstore : ∀ {k : Handle} {o : ObjectPtr}, (m k).store o = .leaked obj →
      handleType k = some .weakTrack := by
    intro k o heq
    cases hk : m k with
    | leaked o' => exact hm k o' hk
    | unused | freed | live o' =>
      rw [hk] at heq
      exact Cell.noConfusion heq
  cases r with
  | issued k => exact hupdate hh fun h => Cell.noConfusion h
  | notSupported k => exact hupdate hh fun _ => hr k rfl
  | same _ | target _ | done =>
    cases op with
    | new _ _ | newWeakref _ _ | getTarget _ => exact hm h obj hh
    | free k => exact hupdate hh fun h => Cell.noConfusion h
    | getTargetHandle _ k type =>
      simp only [after] at hh
      split_ifs at hh
      · exact hupdate hh hstore
      · exact hm h obj hh
    | clearLink k =>
      simp only [after] at hh
      split_ifs at hh
      · exact hupdate hh hstore
      · exact hm h obj hh

namespace WalkInv

variable {s : GCHandles × HandleMap}

theorem room (hi : WalkInv s) {type : GCHandleType}
    (h : ∃ slot < 2 ^ 29, (s.1 type).bit slot = false) : (s.1 type).Room :=
  ⟨(hi.sized type).size_le, h⟩

/-- **One operation** keeps the invariant. -/
theorem step {l : HandleOp × HandleResult} {s' : GCHandles × HandleMap} (hi : WalkInv s)
    (hroom : s.1.HasRoom l.1) (hst : handleHistory.step s l s') : WalkInv s' := by
  obtain ⟨op, r⟩ := l
  obtain ⟨tables', r', hrun, -, hr', hlost, hsized⟩ :=
    hi.represents.run op fun type htype => hi.room (hroom type htype)
  obtain ⟨hst, hmap⟩ := hst
  cases hst.symm.trans hrun
  refine ⟨hmap ▸ hr', hsized hi.sized, fun h obj hh => ?_⟩
  exact HandleMap.leaked_after hlost hi.leaked (hmap ▸ hh)

theorem live_of_entry (hi : WalkInv s) {type : GCHandleType} (hstrong : type.isWeak = false)
    {h : Handle} (htype : handleType h = some type) :
    (s.1 type).entry (handleSlot h) = (s.2 h).target.word ∧
      ((s.2 h).target.word ≠ 0 ↔ ∃ obj, s.2 h = .live obj ∧ obj.word ≠ 0) := by
  refine ⟨?_, ?_⟩
  · rw [hi.represents.entry h type htype, GCHandleType.entryOf]
    simp [hstrong]
  · cases hcell : s.2 h with
    | unused | freed => simp [Cell.target, ObjectPtr.null]
    | live obj => simp [Cell.target]
    | leaked obj =>
      have hlost := hi.leaked h obj hcell
      rw [htype] at hlost
      cases hlost
      exact Bool.noConfusion hstrong

theorem slot_lt (hi : WalkInv s) {type : GCHandleType} {i : ℕ} (h : i < (s.1 type).size) :
    i < 2 ^ 29 :=
  Nat.lt_of_lt_of_le h (hi.sized type).size_le

theorem nodup_reported (hi : WalkInv s) (type : GCHandleType) : (reported s.1 type).Nodup := by
  refine (List.nodup_range.filter _).map_on ?_
  intro i hi' j hj heq
  have hlt : ∀ k ∈ (List.range (s.1 type).size).filter fun i => (s.1 type).entry i ≠ 0,
      handleSlot (makeHandle type k) = k := fun k hk =>
    handleSlot_makeHandle type (hi.slot_lt (List.mem_range.1 (List.mem_of_mem_filter hk)))
  rw [← hlt i hi', heq, hlt j hj]

theorem mem_reported_iff (hi : WalkInv s) {type : GCHandleType} (hstrong : type.isWeak = false)
    (h : Handle) : h ∈ reported s.1 type ↔
      handleType h = some type ∧ ∃ obj, s.2 h = .live obj ∧ obj.word ≠ 0 := by
  rw [mem_reported]
  constructor
  · rintro ⟨i, hi', hentry, rfl⟩
    have hlt := hi.slot_lt hi'
    have htype := handleType_makeHandle type hlt
    obtain ⟨heq, hlive⟩ := hi.live_of_entry hstrong htype
    rw [handleSlot_makeHandle type hlt] at heq
    exact ⟨htype, hlive.1 (heq ▸ hentry)⟩
  · rintro ⟨htype, hobj⟩
    obtain ⟨heq, hlive⟩ := hi.live_of_entry hstrong htype
    have hlt : handleSlot h < 2 ^ 29 := by
      rw [handleSlot_eq]
      omega
    have hbit : (s.1 type).bit (handleSlot h) = true := by
      rw [hi.represents.bit h type htype]
      obtain ⟨obj, hobj, -⟩ := hobj
      rw [hobj]
      trivial
    refine ⟨handleSlot h, (hi.represents.wf type).bit_lt hbit, ?_, ?_⟩
    · rw [heq]
      exact hlive.2 hobj
    · exact ((eq_makeHandle_iff hlt htype).2 rfl).symm

theorem map_reported (hi : WalkInv s) {type : GCHandleType} (hstrong : type.isWeak = false) :
    ((List.range (s.1 type).size).filter fun i => (s.1 type).entry i ≠ 0).map (s.1 type).entry =
      (reported s.1 type).map fun h => (s.2 h).target.word := by
  rw [reported, List.map_map]
  refine List.map_congr_left fun i hmem => ?_
  have hlt := hi.slot_lt (List.mem_range.1 (List.mem_of_mem_filter hmem))
  have hlive := (hi.live_of_entry hstrong (handleType_makeHandle type hlt)).1
  rwa [handleSlot_makeHandle type hlt] at hlive

theorem walksLive (hi : WalkInv s) : WalksLive s := by
  have hnormal : GCHandleType.normal.isWeak = false := rfl
  have hpinned : GCHandleType.pinned.isWeak = false := rfl
  refine ⟨reported s.1 .normal ++ reported s.1 .pinned, ?_, fun h => ?_, ?_⟩
  · refine (hi.nodup_reported _).append (hi.nodup_reported _) fun h h₁ h₂ => ?_
    have htype := ((hi.mem_reported_iff hnormal h).1 h₁).1
    rw [((hi.mem_reported_iff hpinned h).1 h₂).1] at htype
    exact GCHandleType.noConfusion (Option.some.inj htype)
  · rw [List.mem_append, hi.mem_reported_iff hnormal, hi.mem_reported_iff hpinned, IsStrong,
      or_and_right]
  · rw [walk_eq, List.map_append, ← hi.map_reported hnormal, ← hi.map_reported hpinned]
    simp only [List.flatMap_cons, List.flatMap_nil, List.append_nil]

end WalkInv

/-- **The walk reports the live strong handles**, in every state of every run in which each
allocation finds one of the first `2 ^ 29` slots of its table free: once for each live handle whose
object is not NULL, and nothing else. -/
theorem walk_strong {s : GCHandles × HandleMap}
    (hs : handleHistory.ReachWith (fun s l => s.1.HasRoom l.1) (GCHandles.init, fun _ => .unused)
      s) : WalksLive s :=
  (hs.invariant walkInv_init fun _ _ _ hi hroom hst => hi.step hroom hst).walksLive

/-- After one `New` the walk reports its object. -/
theorem walk_strong_new : ∃ tables m, WalksLive (tables, m) ∧ m 3 = .live ⟨0x1000, by decide⟩ ∧
    tables.walkStrongGCHandleTargets = [0x1000] := by
  obtain ⟨tables, hrun, hwalk⟩ : ∃ tables, GCHandles.init.run (.new ⟨0x1000, by decide⟩ false) =
      some (tables, .issued 3) ∧ tables.walkStrongGCHandleTargets = [0x1000] := ⟨_, rfl, rfl⟩
  refine ⟨tables, _, walk_strong (.step (l := (_, _)) .init ?_ ⟨hrun, rfl⟩), rfl, hwalk⟩
  intro type _
  exact ⟨0, by decide, (GCHandles.represents_init.wf type).bit_of_size_le (Nat.zero_le _)⟩

/-! ### A slot whose number does not fit -/

/-- The slots with a handle of their own that are in use in the table of normal handles. -/
def usedSlots (tables : GCHandles) : Finset ℕ :=
  (Finset.range (2 ^ 29)).filter fun j => (tables .normal).bit j = true

/-- A run has filled `k` slots of the table of normal handles, all with the object `obj`. -/
structure Filled (obj : ObjectPtr) (k : ℕ) (s : GCHandles × HandleMap) : Prop where
  reach : handleHistory.Reachable (GCHandles.init, fun _ => .unused) s
  inv : WalkInv s
  used : (usedSlots s.1).card = k
  live : ∀ h o, s.2 h = .live o → o = obj

theorem filled_init (obj : ObjectPtr) : Filled obj 0 (GCHandles.init, fun _ => .unused) := by
  refine ⟨.init, walkInv_init, ?_, fun _ _ h => Cell.noConfusion h⟩
  rw [Finset.card_eq_zero, usedSlots, Finset.filter_eq_empty_iff]
  intro j _ hbit
  rw [(GCHandles.represents_init.wf .normal).bit_of_size_le (Nat.zero_le j)] at hbit
  exact Bool.noConfusion hbit

theorem WalkInv.new {s : GCHandles × HandleMap} (hi : WalkInv s)
    (hroom : ∃ slot < 2 ^ 29, (s.1 .normal).bit slot = false) (obj : ObjectPtr) :
    ∃ tables h slot, handleHistory.step s (.new obj false, .issued h)
        (tables, Function.update s.2 h (.live obj)) ∧
      slot < 2 ^ 29 ∧ (s.1 .normal).bit slot = false ∧
      ∀ j, (tables .normal).bit j = true ↔ (s.1 .normal).bit j = true ∨ j = slot := by
  obtain ⟨handles, slot, heq, ha, -⟩ :=
    HandleData.allocHandle_spec (hi.represents.wf .normal) (hi.room hroom) obj
  refine ⟨Function.update s.1 .normal handles, makeHandle (s.1 .normal).type slot, slot,
    ⟨?_, rfl⟩, ha.lt, ha.free, ?_⟩
  · change s.1.new obj false = _
    simp only [GCHandles.new, GCHandles.allocHandle, Bool.false_eq_true, if_false, heq]
    rfl
  · rw [Function.update_self]
    exact ha.bit

theorem Filled.succ {obj : ObjectPtr} {k : ℕ} {s : GCHandles × HandleMap} (hf : Filled obj k s)
    (hk : k < 2 ^ 29) : ∃ s', Filled obj (k + 1) s' := by
  have hroom : ∃ slot < 2 ^ 29, (s.1 .normal).bit slot = false := by
    by_contra hall
    have hfull : usedSlots s.1 = Finset.range (2 ^ 29) := by
      refine Finset.filter_true_of_mem fun j hj => ?_
      by_contra hbit
      exact hall ⟨j, Finset.mem_range.1 hj, Bool.eq_false_iff.2 hbit⟩
    have hcard := hf.used
    rw [hfull, Finset.card_range] at hcard
    exact Nat.ne_of_gt hk hcard
  obtain ⟨tables, h, slot, hst, hlt, hfree, hbit⟩ := hf.inv.new hroom obj
  refine ⟨(tables, _), .step hf.reach trivial hst, hf.inv.step (fun type htype => ?_) hst, ?_, ?_⟩
  · cases htype
    exact hroom
  · have hmem : slot ∉ usedSlots s.1 := by simp [usedSlots, hfree]
    have hins : usedSlots tables = insert slot (usedSlots s.1) := by
      ext j
      simp only [usedSlots, Finset.mem_filter, Finset.mem_insert, hbit]
      constructor
      · rintro ⟨hj, hbit | rfl⟩
        · exact .inr ⟨hj, hbit⟩
        · exact .inl rfl
      · rintro (rfl | ⟨hj, hbit⟩)
        · exact ⟨Finset.mem_range.2 hlt, .inr rfl⟩
        · exact ⟨hj, .inl hbit⟩
    change (usedSlots tables).card = k + 1
    rw [hins, Finset.card_insert_of_notMem hmem, hf.used]
  · intro g o hg
    simp only [Function.update_apply] at hg
    split_ifs at hg
    · exact (Cell.live.inj hg).symm
    · exact hf.live g o hg

theorem exists_filled (obj : ObjectPtr) (k : ℕ) (hk : k ≤ 2 ^ 29) : ∃ s, Filled obj k s := by
  induction k with
  | zero => exact ⟨_, filled_init obj⟩
  | succ k ih =>
    obtain ⟨s, hs⟩ := ih (Nat.le_of_succ_le hk)
    exact hs.succ hk

theorem Filled.takeSlot {obj : ObjectPtr} {s : GCHandles × HandleMap}
    (hf : Filled obj (2 ^ 29) s) (obj' : ObjectPtr) :
    (s.1 .normal).size = 2 ^ 29 ∧ (s.1 .normal).allocHandle obj' =
      some ((s.1 .normal).grow.1.occupy obj' (2 ^ 24) 0) := by
  have hw := hf.inv.represents.wf .normal
  have hbit : ∀ j < 2 ^ 29, (s.1 .normal).bit j = true := by
    intro j hj
    have hsub : usedSlots s.1 = Finset.range (2 ^ 29) := by
      refine Finset.eq_of_subset_of_card_le (Finset.filter_subset _ _) ?_
      rw [hf.used, Finset.card_range]
    have hmem : j ∈ usedSlots s.1 := by
      rw [hsub]
      exact Finset.mem_range.2 hj
    exact (Finset.mem_filter.1 hmem).2
  have hsize : (s.1 .normal).size = 2 ^ 29 := by
    have hle := (hf.inv.sized .normal).size_le
    have hlt := hw.bit_lt (hbit (2 ^ 29 - 1) (by decide))
    omega
  refine ⟨hsize, ?_⟩
  have hfirst : (s.1 .normal).firstUse = s.1 .normal := by
    rw [HandleData.firstUse, if_neg]
    rw [hsize]
    decide
  obtain ⟨r, hr, hfound⟩ := HandleData.findSlot_spec hw
  rw [HandleData.allocHandle, hfirst, HandleData.takeSlot, hr, Option.bind_eq_bind,
    Option.bind_some]
  cases hfound with
  | free k i hk hi hfree =>
    rw [hw.bitmap_length, hsize] at hk
    rw [hbit _ (by omega)] at hfree
    exact Bool.noConfusion hfree
  | full _ =>
    have hslot : ((s.1 .normal).size + 1) / 32 = 2 ^ 24 := by omega
    simp only [HandleData.grow, hslot]
    rfl

/-- The entry after the last number that fits, and what the table that gets it looks like. -/
theorem Filled.grown {obj : ObjectPtr} {s : GCHandles × HandleMap} (hf : Filled obj (2 ^ 29) s)
    (obj' : ObjectPtr) : ∃ handles, (s.1 .normal).allocHandle obj' = some (handles, 3) ∧
      handles.size = 2 ^ 30 ∧ handles.entry (2 ^ 29) = obj'.word := by
  obtain ⟨hsize, halloc⟩ := hf.takeSlot obj'
  have htype : (s.1 .normal).type = .normal := hf.inv.represents.type .normal
  have hlen : (s.1 .normal).grow.1.entries.length = 2 ^ 30 := by
    rw [HandleData.grow_fst, List.length_append, (hf.inv.represents.wf .normal).entries_length,
      List.length_replicate]
    omega
  refine ⟨_, halloc.trans (congrArg some (Prod.ext rfl ?_)), ?_, ?_⟩
  · change makeHandle (s.1 .normal).type _ = 3
    rw [htype]
    decide
  · change (s.1 .normal).size * 2 % 2 ^ 32 = 2 ^ 30
    omega
  · change ((s.1 .normal).grow.1.entries.set (2 ^ 24 * 32 + 0) _).getD (2 ^ 29) 0 = _
    rw [HandleData.entry_set (by rw [hlen]; decide), if_pos (by decide)]
    change GCHandleType.entryOf (s.1 .normal).type obj' = _
    rw [htype, GCHandleType.entryOf, if_neg (by simp [GCHandleType.isWeak])]

theorem HandleData.entry_free_of_ne (handles : HandleData) {slot j : ℕ} (h : j ≠ slot) :
    (handles.free slot).entry j = handles.entry j := by
  rw [free]
  split_ifs
  · rw [entry, List.getD_eq_getElem?_getD, List.getElem?_set_ne h.symm,
      ← List.getD_eq_getElem?_getD]
    rfl
  · rfl

theorem HandleData.size_free (handles : HandleData) (slot : ℕ) :
    (handles.free slot).size = handles.size := by
  rw [free]
  split_ifs <;> rfl

/-- **The strong handle after `2 ^ 29` live ones** has the handle of slot 0: freeing it frees that
slot, and the walk keeps reporting the object of a handle that is freed. -/
theorem lost_slot : ∃ s, handleHistory.Reachable (GCHandles.init, fun _ => .unused) s ∧
    ¬ WalksLive s := by
  obtain ⟨s, hf⟩ := exists_filled ⟨0x1000, by decide⟩ (2 ^ 29) (Nat.le_refl _)
  obtain ⟨handles, halloc, hsize, hentry⟩ := hf.grown ⟨0x2000, by decide⟩
  let tables : GCHandles := Function.update s.1 .normal handles
  have hnew : handleHistory.step s (.new ⟨0x2000, by decide⟩ false, .issued 3)
      (tables, Function.update s.2 3 (.live ⟨0x2000, by decide⟩)) := by
    refine ⟨?_, rfl⟩
    change s.1.new _ false = _
    simp only [GCHandles.new, GCHandles.allocHandle, Bool.false_eq_true, if_false, halloc]
    rfl
  refine ⟨(tables.free 3, Function.update (Function.update s.2 3 (.live _)) 3 .freed),
    .step (l := (.free 3, .done)) (.step hf.reach trivial hnew) trivial ⟨rfl, rfl⟩, ?_⟩
  have htable : tables.free 3 .normal = handles.free 0 := by
    change Function.update tables .normal (HandleData.free (tables .normal) 0) .normal = _
    rw [Function.update_self]
    exact congrArg (HandleData.free · 0) (Function.update_self ..)
  have hmem : (0x2000 : Word) ∈ (tables.free 3).walkStrongGCHandleTargets := by
    rw [walk_eq]
    refine List.mem_flatMap.2 ⟨.normal, List.mem_cons_self, List.mem_map.2 ⟨2 ^ 29, ?_, ?_⟩⟩
    · refine List.mem_filter.2 ⟨List.mem_range.2 ?_, decide_eq_true ?_⟩
      · rw [htable, HandleData.size_free, hsize]
        decide
      · rw [htable, HandleData.entry_free_of_ne _ (by decide), hentry]
        decide
    · rw [htable, HandleData.entry_free_of_ne _ (by decide), hentry]
  rintro ⟨hs, -, hlive, hwalk⟩
  rw [hwalk] at hmem
  obtain ⟨h, hh, htarget⟩ := List.mem_map.1 hmem
  obtain ⟨-, obj, hobj, -⟩ := (hlive h).1 hh
  rw [hobj] at htarget
  -- the live handles are those of the filled table
  have hold : s.2 h = .live obj := by
    simp only [Function.update_apply] at hobj
    split_ifs at hobj
    exact hobj
  rw [hf.live h obj hold] at htarget
  exact absurd htarget (by decide)

end GC

end Il2Cpp
