import Il2Cpp.GC.HandleTable
import Il2Cpp.LTS.Basic

/-!
# Handle tables as a map from handles to objects

To its clients the handle tables are a map from the handles that were issued and not freed to the
object last stored in each.  `HandleMap` is that map, kept from the operations and their results
alone; the tables with their bitmaps, hints and growing arrays refine it.

* `HandleMap.after` : the map after an operation with a given result.
* `HandleMap.Allows` : which results the map allows; an allocation must give a handle that is not
  in use, and `GetTarget` the object of its handle.
* `GCHandles.simulates` : the tables simulate the map, as long as each has less than `2 ^ 29`
  slots.
* `handles_fresh_and_isolated` : what this means for the clients.
-/

namespace Il2Cpp

namespace GC

/-! ### The map -/

/-- What became of a handle. -/
inductive Cell
  | unused
  | live (target : ObjectPtr)
  /-- made by `alloc_handle`, but `NewWeakref` returned an error -/
  | leaked (target : ObjectPtr)
  | freed

namespace Cell

/-- The object of a handle, NULL if it has none. -/
def target : Cell → ObjectPtr
  | live obj | leaked obj => obj
  | unused | freed => .null

@[simp] theorem target_freed : freed.target = .null := rfl

/-- The slot of the handle is taken. -/
def Taken : Cell → Prop
  | live _ | leaked _ => True
  | unused | freed => False

/-- The cell with another object, if it has one. -/
def store (obj : ObjectPtr) : Cell → Cell
  | live _ => live obj
  | leaked _ => leaked obj
  | unused => unused
  | freed => freed

theorem taken_store (c : Cell) (obj : ObjectPtr) : (c.store obj).Taken ↔ c.Taken := by
  cases c <;> rfl

theorem target_of_not_taken {c : Cell} (h : ¬ c.Taken) : c.target = .null := by
  cases c with
  | unused | freed => rfl
  | live obj | leaked obj => exact absurd trivial h

theorem target_store (c : Cell) (obj : ObjectPtr) [Decidable c.Taken] :
    (c.store obj).target = if c.Taken then obj else c.target := by
  cases c <;> simp [store, target, Taken]

end Cell

/-- A cell for each handle. -/
abbrev HandleMap := Handle → Cell

/-- The object an operation stores. -/
def HandleOp.object : HandleOp → ObjectPtr
  | new obj _ | newWeakref obj _ | getTargetHandle obj _ _ => obj
  | getTarget _ | free _ | clearLink _ => .null

/-- The handle an operation is about, if it is about one that exists before it. -/
def HandleOp.handle? : HandleOp → Option Handle
  | new _ _ | newWeakref _ _ => none
  | getTargetHandle _ h type => if type = -1 then some h else none
  | getTarget h | free h | clearLink h => some h

/-- The type of the handle an operation allocates, if it allocates one. -/
def HandleOp.allocates? : HandleOp → Option GCHandleType
  | new _ pinned => some (if pinned then .pinned else .normal)
  | newWeakref _ track => some (if track then .weakTrack else .weak)
  | getTargetHandle _ _ type =>
    if type = 0 then some .weak
    else if type = 1 then some .weakTrack
    else if type = 2 then some .normal
    else if type = 3 then some .pinned
    else none
  | getTarget _ | free _ | clearLink _ => none

/-- A handle that nobody gets is one of the table of `NewWeakref`. -/
def HandleResult.LostOk (r : HandleResult) : Prop :=
  ∀ h, r = .notSupported h → handleType h = some .weakTrack

namespace HandleMap

/-- The map after an operation with a given result. -/
def after (m : HandleMap) (op : HandleOp) : HandleResult → HandleMap
  | .issued h => Function.update m h (.live op.object)
  | .notSupported h => Function.update m h (.leaked op.object)
  | .same _ | .target _ | .done =>
    match op with
    | .getTargetHandle obj h type =>
      if type = -1 then Function.update m h ((m h).store obj) else m
    | .free h => Function.update m h .freed
    | .clearLink h =>
      if (handleType h).any GCHandleType.isWeak then
        Function.update m h ((m h).store .null)
      else m
    | .new _ _ | .newWeakref _ _ | .getTarget _ => m

/-- The results that the map allows. -/
def Allows (m : HandleMap) (op : HandleOp) : HandleResult → Prop
  | .issued h | .notSupported h => h ≠ 0 ∧ ¬ (m h).Taken
  | .target obj => ∃ h, op = .getTarget h ∧ obj = (m h).target.word
  | .same _ | .done => True

/-- The map as a transition system. -/
def lts : LTS HandleMap (HandleOp × HandleResult) where
  step m l m' := m.Allows l.1 l.2 ∧ m' = m.after l.1 l.2

end HandleMap

/-! ### The tables refine the map -/

namespace GCHandles

/-- The tables as a transition system. -/
def lts : LTS GCHandles (HandleOp × HandleResult) where
  step tables l tables' := tables.run l.1 = some (tables', l.2)

/-- Every table has less than `2 ^ 29` slots. -/
def Below (tables : GCHandles) : Prop := ∀ type, (tables type).size < 2 ^ 29

/-- No table outgrew the numbers of slots. -/
def Sized (tables : GCHandles) : Prop := ∀ type, (tables type).Sized

/-- The slots in use and their entries are those of the map. -/
structure Represents (tables : GCHandles) (m : HandleMap) : Prop where
  wf : ∀ type, (tables type).Wf
  type : ∀ type, (tables type).type = type
  bit : ∀ h type, handleType h = some type →
    ((tables type).bit (handleSlot h) = true ↔ (m h).Taken)
  entry : ∀ h type, handleType h = some type →
    (tables type).entry (handleSlot h) = type.entryOf (m h).target
  untyped : ∀ h, handleType h = none → ¬ (m h).Taken

theorem represents_init : Represents init fun _ => .unused := by
  refine ⟨fun type => ⟨⟨0, rfl⟩, (Nat.zero_div 32).symm, rfl, .inl (Nat.zero_le _)⟩, fun _ => rfl, ?_, ?_, ?_⟩
  · intro h type _
    have hfree : (init type).bit (handleSlot h) = false :=
      Bitmap.testBit_of_length_le (Nat.zero_le _)
    rw [hfree]
    exact ⟨Bool.noConfusion, False.elim⟩
  · intro h type _
    exact (entryOf_null type).symm
  · exact fun _ _ => id

variable {tables : GCHandles} {m : HandleMap}

theorem Sized.update (hs : tables.Sized) {type : GCHandleType} {handles : HandleData}
    (h : handles.Sized) : Sized (Function.update tables type handles) := by
  intro t
  rcases eq_or_ne t type with rfl | hne
  · simpa using h
  · simpa [hne] using hs t

theorem Sized.modify (hs : tables.Sized) (h : Handle) {f : HandleData → ℕ → HandleData}
    (hf : ∀ handles slot, (f handles slot).size = handles.size) : (tables.modify h f).Sized := by
  rw [GCHandles.modify]
  split
  · exact hs
  · refine hs.update ?_
    rw [HandleData.Sized, hf]
    exact hs _

theorem Represents.update (hr : Represents tables m) {type : GCHandleType} {handles : HandleData}
    (hw : handles.Wf) (htype : handles.type = type) {m' : HandleMap}
    (hother : ∀ h, handleType h ≠ some type → m' h = m h)
    (hbit : ∀ h, handleType h = some type → (handles.bit (handleSlot h) = true ↔ (m' h).Taken))
    (hentry : ∀ h, handleType h = some type →
      handles.entry (handleSlot h) = type.entryOf (m' h).target) :
    Represents (Function.update tables type handles) m' := by
  refine ⟨?_, ?_, ?_, ?_, ?_⟩
  · intro t
    rcases eq_or_ne t type with rfl | hne
    · simpa using hw
    · simpa [hne] using hr.wf t
  · intro t
    rcases eq_or_ne t type with rfl | hne
    · simpa using htype
    · simpa [hne] using hr.type t
  · intro h t ht
    rcases eq_or_ne t type with rfl | hne
    · simpa using hbit h ht
    · rw [hother h (by simpa [ht] using hne)]
      simpa [hne] using hr.bit h t ht
  · intro h t ht
    rcases eq_or_ne t type with rfl | hne
    · simpa using hentry h ht
    · rw [hother h (by simpa [ht] using hne)]
      simpa [hne] using hr.entry h t ht
  · intro h hnone
    rw [hother h (by simp [hnone])]
    exact hr.untyped h hnone

theorem Represents.getTarget_eq (hr : Represents tables m) (h : Handle) :
    tables.getTarget h = (m h).target.word := by
  cases htype : handleType h with
  | none =>
    rw [Cell.target_of_not_taken (hr.untyped h htype), getTarget, htype]
    rfl
  | some type =>
    simp only [getTarget, htype, HandleData.getTarget, (hr.wf type).inUse_iff]
    split_ifs with hbit
    · apply HandleData.read_entryOf
      rw [hr.type, hr.entry h type htype]
    · rw [hr.bit h type htype] at hbit
      rw [Cell.target_of_not_taken hbit]
      rfl

theorem Represents.allocHandle (hr : Represents tables m) {type : GCHandleType}
    (hroom : (tables type).Room) (obj : ObjectPtr) (cell : Cell) (hcell : cell.Taken)
    (hobj : cell.target = obj) :
    ∃ tables' h, tables.allocHandle type obj = some (tables', h) ∧ handleType h = some type ∧
      h ≠ 0 ∧ ¬ (m h).Taken ∧ Represents tables' (Function.update m h cell) ∧
      (tables.Sized → tables'.Sized) := by
  obtain ⟨handles, slot, heq, ha, hsized⟩ := HandleData.allocHandle_spec (hr.wf type) hroom obj
  rw [hr.type] at heq
  refine ⟨Function.update tables type handles, makeHandle type slot, ?_,
    handleType_makeHandle type ha.lt, makeHandle_ne_zero type ha.lt, ?_, ?_,
    fun hs => hs.update (hsized (hs type))⟩
  · rw [GCHandles.allocHandle, heq]
    rfl
  · rw [← hr.bit _ type (handleType_makeHandle type ha.lt), handleSlot_makeHandle type ha.lt,
      ha.free]
    exact Bool.false_ne_true
  · have hcell' : ∀ h, handleType h = some type → Function.update m (makeHandle type slot) cell h =
        if handleSlot h = slot then cell else m h := by
      intro h ht
      rw [Function.update_apply]
      exact if_congr (eq_makeHandle_iff ha.lt ht) rfl rfl
    refine hr.update ha.wf (ha.type.trans (hr.type type)) ?_ ?_ ?_
    · rintro h hne
      refine Function.update_of_ne ?_ _ _
      rintro rfl
      exact hne (handleType_makeHandle type ha.lt)
    · intro h ht
      rw [hcell' h ht, ha.bit, hr.bit h type ht]
      split_ifs with hslot <;> simp [hslot, hcell]
    · intro h ht
      rw [hcell' h ht, ha.entry, hr.type, hr.entry h type ht]
      split_ifs <;> simp [hobj]

theorem Represents.modify (hr : Represents tables m) {h : Handle} {cell : Cell}
    {f : HandleData → ℕ → HandleData} (hnone : handleType h = none → ¬ cell.Taken)
    (hf : ∀ type, handleType h = some type →
      (f (tables type) (handleSlot h)).Wf ∧ (f (tables type) (handleSlot h)).type = type ∧
      (∀ j, (f (tables type) (handleSlot h)).bit j = true ↔
        if j = handleSlot h then cell.Taken else (tables type).bit j = true) ∧
      ∀ j, (f (tables type) (handleSlot h)).entry j =
        if j = handleSlot h then type.entryOf cell.target else (tables type).entry j) :
    Represents (tables.modify h f) (Function.update m h cell) := by
  cases htype : handleType h with
  | none =>
    simp only [GCHandles.modify, htype]
    refine ⟨hr.wf, hr.type, ?_, ?_, ?_⟩
    · rintro k type hk
      rw [Function.update_of_ne (by rintro rfl; simp [htype] at hk)]
      exact hr.bit k type hk
    · rintro k type hk
      rw [Function.update_of_ne (by rintro rfl; simp [htype] at hk)]
      exact hr.entry k type hk
    · intro k hk
      rcases eq_or_ne k h with rfl | hne
      · simpa using hnone hk
      · simpa [hne] using hr.untyped k hk
  | some type =>
    obtain ⟨hw, ht, hbit, hentry⟩ := hf type htype
    have hsame : ∀ k, handleType k = some type → (k = h ↔ handleSlot k = handleSlot h) := by
      intro k hk
      have hlt : handleSlot h < 2 ^ 29 := by
        rw [handleSlot_eq]
        omega
      rw [(eq_makeHandle_iff hlt htype).2 rfl, eq_makeHandle_iff hlt hk,
        handleSlot_makeHandle type hlt]
    simp only [GCHandles.modify, htype]
    refine hr.update hw ht ?_ ?_ ?_
    · intro k hk
      exact Function.update_of_ne (by rintro rfl; exact hk htype) _ _
    · intro k hk
      rw [hbit, Function.update_apply, hr.bit k type hk]
      by_cases hkh : k = h
      · simp [hkh]
      · simp [hkh, mt (hsame k hk).2 hkh]
    · intro k hk
      rw [hentry, Function.update_apply, hr.entry k type hk]
      by_cases hkh : k = h
      · simp [hkh]
      · simp [hkh, mt (hsame k hk).2 hkh]

theorem Represents.setTarget (hr : Represents tables m) (h : Handle) (obj : ObjectPtr) :
    Represents (tables.setTarget h obj) (Function.update m h ((m h).store obj)) := by
  refine hr.modify (fun hnone => ?_) fun type htype => ?_
  · rw [Cell.taken_store]
    exact hr.untyped h hnone
  · obtain ⟨hw, ht, hbit, hentry⟩ := HandleData.setTarget_spec (hr.wf type) (handleSlot h) obj
    refine ⟨hw, ht.trans (hr.type type), fun j => ?_, fun j => ?_⟩
    · rw [hbit, Cell.taken_store]
      split_ifs with hj
      · rw [hj, hr.bit h type htype]
      · rfl
    · rw [hentry, hr.type]
      by_cases hj : j = handleSlot h
      · subst hj
        have := Classical.propDecidable (m h).Taken
        simp only [true_and, hr.bit h type htype, if_true, Cell.target_store, hr.entry h type htype]
        split_ifs <;> rfl
      · simp [hj]

theorem Represents.free (hr : Represents tables m) (h : Handle) :
    Represents (tables.free h) (Function.update m h .freed) := by
  refine hr.modify (fun _ => id) fun type htype => ?_
  obtain ⟨hw, ht, hbit, hentry⟩ := HandleData.free_spec (hr.wf type) (handleSlot h)
  refine ⟨hw, ht.trans (hr.type type), fun j => ?_, fun j => ?_⟩
  · rw [hbit]
    split_ifs with hj <;> simp [hj, Cell.Taken]
  · rw [hentry]
    by_cases hj : j = handleSlot h
    · subst hj
      have := Classical.propDecidable (m h).Taken
      simp only [true_and, if_true, Cell.target_freed, entryOf_null, hr.bit h type htype,
        hr.entry h type htype]
      split_ifs with htaken
      · rfl
      · rw [Cell.target_of_not_taken htaken, entryOf_null]
    · simp [hj]

theorem Represents.clearLink (hr : Represents tables m) (h : Handle) :
    Represents (tables.clearLink h)
      (if (handleType h).any GCHandleType.isWeak then
        Function.update m h ((m h).store .null) else m) := by
  have hcell : (if (handleType h).any GCHandleType.isWeak then
      Function.update m h ((m h).store .null) else m) = Function.update m h
        (if (handleType h).any GCHandleType.isWeak then (m h).store .null else m h) := by
    split_ifs
    · rfl
    · exact (Function.update_eq_self h m).symm
  rw [hcell]
  refine hr.modify (fun hnone => ?_) fun type htype => ?_
  · simpa [hnone] using hr.untyped h hnone
  · obtain ⟨hw, ht, hbit, hentry⟩ := HandleData.clearLink_spec (hr.wf type) (handleSlot h)
    have htaken : (if (handleType h).any GCHandleType.isWeak then (m h).store .null
        else m h).Taken ↔ (m h).Taken := by
      split_ifs
      · exact Cell.taken_store ..
      · rfl
    refine ⟨hw, ht.trans (hr.type type), fun j => ?_, fun j => ?_⟩
    · rw [hbit, htaken]
      split_ifs with hj
      · rw [hj, hr.bit h type htype]
      · rfl
    · rw [hentry, hr.type, htype]
      by_cases hj : j = handleSlot h
      · subst hj
        have := Classical.propDecidable (m h).Taken
        cases hweak : type.isWeak
        · simpa [hweak] using hr.entry h type htype
        · simp only [hweak, Option.any_some, and_self, if_true, Cell.target_store]
          split_ifs with htaken
          · exact (entryOf_null type).symm
          · rw [Cell.target_of_not_taken htaken, entryOf_null]
      · simp [hj]

theorem Represents.new (hr : Represents tables m) {pinned : Bool}
    (hroom : (tables (if pinned then .pinned else .normal)).Room) (obj : ObjectPtr) :
    ∃ tables' h, tables.new obj pinned = some (tables', .issued h) ∧ h ≠ 0 ∧ ¬ (m h).Taken ∧
      Represents tables' (Function.update m h (.live obj)) ∧ (tables.Sized → tables'.Sized) := by
  obtain ⟨tables', h, heq, -, h0, hfree, hr'⟩ :=
    hr.allocHandle hroom obj (.live obj) trivial rfl
  exact ⟨tables', h, by rw [GCHandles.new, heq]; rfl, h0, hfree, hr'⟩

theorem Represents.newWeakref (hr : Represents tables m) {track : Bool}
    (hroom : (tables (if track then .weakTrack else .weak)).Room) (obj : ObjectPtr) :
    ∃ tables' h, tables.newWeakref obj track =
        some (tables', if track then .notSupported h else .issued h) ∧
      handleType h = some (if track then .weakTrack else .weak) ∧ h ≠ 0 ∧ ¬ (m h).Taken ∧
      Represents tables' (Function.update m h (if track then .leaked obj else .live obj)) ∧
      (tables.Sized → tables'.Sized) := by
  obtain ⟨tables', h, heq, htype, h0, hfree, hr'⟩ :=
    hr.allocHandle hroom obj (if track then .leaked obj else .live obj)
      (by cases track <;> trivial) (by cases track <;> rfl)
  refine ⟨tables', h, ?_, htype, h0, hfree, hr'⟩
  rw [GCHandles.newWeakref, heq]
  cases track <;> rfl

/-- **One operation.**  It does not fault, its result is one that the map allows, and the tables
represent the map that follows. -/
theorem Represents.run (hr : Represents tables m) (op : HandleOp)
    (hroom : ∀ type, op.allocates? = some type → (tables type).Room) :
    ∃ tables' r, tables.run op = some (tables', r) ∧ m.Allows op r ∧
      Represents tables' (m.after op r) ∧ r.LostOk ∧ (tables.Sized → tables'.Sized) := by
  -- an allocation, with the operation that it is part of
  have hnew : ∀ obj pinned, op.object = obj →
      op.allocates? = some (if pinned then .pinned else .normal) → ∃ tables' r,
      tables.new obj pinned = some (tables', r) ∧ m.Allows op r ∧
      Represents tables' (m.after op r) ∧ r.LostOk ∧ (tables.Sized → tables'.Sized) := by
    rintro _ pinned rfl htype
    obtain ⟨tables', h, heq, h0, hfree, hr', hs⟩ := hr.new (hroom _ htype) op.object
    exact ⟨tables', _, heq, ⟨h0, hfree⟩, hr', fun _ hr => HandleResult.noConfusion hr, hs⟩
  have hweak : ∀ obj track, op.object = obj →
      op.allocates? = some (if track then .weakTrack else .weak) → ∃ tables' r,
      tables.newWeakref obj track = some (tables', r) ∧ m.Allows op r ∧
      Represents tables' (m.after op r) ∧ r.LostOk ∧ (tables.Sized → tables'.Sized) := by
    rintro _ track rfl htype
    obtain ⟨tables', h, heq, htype, h0, hfree, hr', hs⟩ := hr.newWeakref (hroom _ htype) op.object
    refine ⟨tables', _, heq, ?_⟩
    cases track
    · exact ⟨⟨h0, hfree⟩, hr', fun _ hr => HandleResult.noConfusion hr, hs⟩
    · exact ⟨⟨h0, hfree⟩, hr', fun _ hr => by cases hr; exact htype, hs⟩
  have hsame : ∀ {r : HandleResult}, (∀ h, r ≠ .notSupported h) → r.LostOk :=
    fun hr h heq => absurd heq (hr h)
  cases op with
  | new obj pinned => exact hnew obj pinned rfl rfl
  | newWeakref obj track => exact hweak obj track rfl rfl
  | getTarget h => exact ⟨_, _, rfl, ⟨h, rfl, hr.getTarget_eq h⟩, hr, hsame (by simp), id⟩
  | free h =>
    refine ⟨_, _, rfl, trivial, hr.free h, hsame (by simp), fun hs => hs.modify h ?_⟩
    intro handles slot
    rw [HandleData.free]
    split_ifs <;> rfl
  | clearLink h =>
    refine ⟨_, _, rfl, trivial, hr.clearLink h, hsame (by simp), fun hs => hs.modify h ?_⟩
    intro handles slot
    rw [HandleData.clearLink]
    split_ifs <;> rfl
  | getTargetHandle obj h type =>
    simp only [GCHandles.run, getTargetHandle]
    split_ifs with htype
    · refine ⟨_, _, rfl, trivial, ?_, hsame (by simp), fun hs => hs.modify h ?_⟩
      · simpa only [HandleMap.after, if_pos htype] using hr.setTarget h obj
      · intro handles slot
        rw [HandleData.setTarget]
        split_ifs <;> rfl
    · exact hweak obj false rfl (by simp [HandleOp.allocates?, *])
    · exact hweak obj true rfl (by simp [HandleOp.allocates?, *])
    · exact hnew obj false rfl (by simp [HandleOp.allocates?, *])
    · exact hnew obj true rfl (by simp [HandleOp.allocates?, *])
    · refine ⟨_, _, rfl, trivial, ?_, hsame (by simp), id⟩
      simpa only [HandleMap.after, if_neg htype] using hr

/-- **The tables simulate the map.** -/
theorem simulates : lts.Simulates HandleMap.lts (fun tables _ => tables.Below) Represents := by
  rintro tables m ⟨op, r⟩ tables' hr hb hst
  obtain ⟨tables'', r', hrun, hallows, hr', -⟩ :=
    hr.run op fun type _ => (hr.wf type).room (hb type)
  cases hst.symm.trans hrun
  exact ⟨_, ⟨hallows, rfl⟩, hr'⟩

end GCHandles

/-! ### What the clients see -/

/-- The tables, with the map of what was issued, stored and freed so far. -/
def handleHistory : LTS (GCHandles × HandleMap) (HandleOp × HandleResult) :=
  GCHandles.lts.withHistory fun m l => m.after l.1 l.2

theorem HandleMap.after_live {m : HandleMap} {op : HandleOp} {r : HandleResult}
    (hallows : m.Allows op r) {h : Handle} (hne : op.handle? ≠ some h) {obj : ObjectPtr}
    (hlive : m h = .live obj) : m.after op r h = .live obj := by
  have htaken : (m h).Taken := by
    rw [hlive]
    trivial
  have hupdate : ∀ {k cell}, (k = h → False) → Function.update m k cell h = .live obj := by
    rintro k cell hk
    rw [Function.update_of_ne (fun hkh => hk hkh.symm), hlive]
  cases r with
  | issued k | notSupported k =>
    refine hupdate ?_
    rintro rfl
    exact hallows.2 htaken
  | same _ | target _ | done =>
    cases op with
    | new _ _ | newWeakref _ _ | getTarget _ => exact hlive
    | free k =>
      refine hupdate ?_
      rintro rfl
      exact hne rfl
    | getTargetHandle _ k type =>
      simp only [after]
      split_ifs with htype
      · refine hupdate ?_
        rintro rfl
        simp [HandleOp.handle?, htype] at hne
      · exact hlive
    | clearLink k =>
      simp only [after]
      split_ifs
      · refine hupdate ?_
        rintro rfl
        exact hne rfl
      · exact hlive

/-- **Handles are fresh and isolated.**  In every run in which each table has less than `2 ^ 29`
slots before each step: a live handle gives the object last stored in it (NULL, if the collector
cleared its weak link since); a freed handle gives NULL until it is issued again; and every
operation succeeds, a handle it issues is not zero and not live, and it leaves the objects of all
live handles as they were, except for the handle it is called with. -/
theorem handles_fresh_and_isolated {s : GCHandles × HandleMap}
    (hs : handleHistory.ReachWith (fun s _ => s.1.Below) (GCHandles.init, fun _ => .unused) s) :
    (∀ h obj, s.2 h = .live obj → s.1.getTarget h = obj.word) ∧
    (∀ h, s.2 h = .freed → s.1.getTarget h = 0) ∧
    (s.1.Below → ∀ op, ∃ tables' r, s.1.run op = some (tables', r) ∧
      (∀ h, r = .issued h → h ≠ 0 ∧ ∀ obj, s.2 h ≠ .live obj) ∧
      ∀ h obj, s.2 h = .live obj → op.handle? ≠ some h →
        tables'.getTarget h = s.1.getTarget h) := by
  have hr : s.1.Represents s.2 :=
    GCHandles.simulates.history (fun _ _ _ h => h.2) GCHandles.represents_init hs
  refine ⟨?_, ?_, ?_⟩
  · intro h obj hlive
    rw [hr.getTarget_eq, hlive]
    rfl
  · intro h hfreed
    rw [hr.getTarget_eq, hfreed]
    rfl
  · intro hb op
    obtain ⟨tables', r, hrun, hallows, hr', -⟩ :=
      hr.run op fun type _ => (hr.wf type).room (hb type)
    refine ⟨tables', r, hrun, ?_, ?_⟩
    · rintro h rfl
      refine ⟨hallows.1, fun obj hlive => hallows.2 ?_⟩
      rw [hlive]
      trivial
    · intro h obj hlive hne
      rw [hr'.getTarget_eq, hr.getTarget_eq, HandleMap.after_live hallows hne hlive, hlive]

theorem getTarget_after_new :
    ∃ tables, GCHandles.init.run (.new ⟨0x1000, by decide⟩ false) = some (tables, .issued 3) ∧
      tables.getTarget 3 = 0x1000 := by
  have hbelow : GCHandles.init.Below := fun _ => Nat.pow_pos Nat.two_pos
  obtain ⟨tables, hrun⟩ : ∃ tables, GCHandles.init.run (.new ⟨0x1000, by decide⟩ false) =
      some (tables, .issued 3) := ⟨_, rfl⟩
  have hlive := (handles_fresh_and_isolated (s := (tables, _))
    (.step (l := (_, _)) .init hbelow ⟨hrun, rfl⟩)).1 3 ⟨0x1000, by decide⟩
  exact ⟨tables, hrun, hlive rfl⟩

end GC

end Il2Cpp
