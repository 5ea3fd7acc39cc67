import Il2Cpp.GC.HandleMap

/-!
# The error of weak references

`GCHandle::NewWeakref` with `track_resurrection` reports an error, after `alloc_handle` has made the
handle.

* `HandleData.allocHandle_ne` : an allocation changes its table, in every state: a bit of the bitmap
  or the size.
* `newWeakref_error` : so whenever `NewWeakref` reports an error the tables are not as they were, and
  the handle that nobody gets gives the object.
-/

namespace Il2Cpp

namespace GC

namespace HandleData

variable {handles : HandleData}

theorem findSlot_found {r : HandleData × Option (ℕ × ℕ)} (h : handles.findSlot = some r) :
    (∃ slotHint, r.1 = { handles with slotHint }) ∧
      ∀ k i, r.2 = some (k, i) → k < handles.bitmap.length ∧ i < 32 ∧
        handles.bit (k * 32 + i) = false := by
  have hfound {slot n : ℕ} {r : HandleData × Option (ℕ × ℕ)} (hr : handles.Found slot n r) :
      (∃ slotHint, r.1 = { handles with slotHint }) ∧
        ∀ k i, r.2 = some (k, i) → k < handles.bitmap.length ∧ i < 32 ∧
          handles.bit (k * 32 + i) = false := by
    cases hr with
    | free k i hk hi hfree =>
      refine ⟨⟨_, rfl⟩, ?_⟩
      rintro k' i' heq
      obtain ⟨rfl, rfl⟩ := Prod.mk.inj (Option.some.inj heq)
      exact ⟨hk, hi, hfree⟩
    | full _ => exact ⟨⟨handles.slotHint, rfl⟩, fun k i heq => by cases heq⟩
  rw [findSlot] at h
  obtain ⟨r₁, hr₁, h⟩ := Option.bind_eq_some_iff.1 h
  have hfirst := hfound (search_found hr₁)
  cases search_found hr₁ with
  | free k i hk hi hfree =>
    obtain rfl := Option.some.inj h
    exact hfirst
  | full _ =>
    simp only at h
    split_ifs at h
    · exact hfound (search_found h)
    · obtain rfl := Option.some.inj h
      exact hfirst

theorem takeSlot_ne {obj : ObjectPtr} {handles' : HandleData} {gchandle : Handle}
    (h : handles.takeSlot obj = some (handles', gchandle)) :
    (handles'.size = handles.size ∧ handles'.bitmap ≠ handles.bitmap) ∨
      handles'.size = handles.size * 2 % 2 ^ 32 := by
  rw [takeSlot] at h
  obtain ⟨⟨handles₁, found⟩, hfind, h⟩ := Option.bind_eq_some_iff.1 h
  obtain ⟨⟨slotHint, rfl⟩, hfree⟩ := findSlot_found hfind
  cases found with
  | none =>
    cases h
    exact .inr rfl
  | some slot =>
    obtain ⟨k, i⟩ := slot
    obtain ⟨hk, hi, hbit⟩ := hfree k i rfl
    cases h
    refine .inl ⟨rfl, fun heq => ?_⟩
    have hset := (Bitmap.testBit_setBit hk hi (k * 32 + i)).2 (.inr rfl)
    have hsame : (handles.bitmap.setBit k i).testBit (k * 32 + i) = handles.bit (k * 32 + i) :=
      congrArg (fun bitmap => Bitmap.testBit bitmap (k * 32 + i)) heq
    rw [hsame, hbit] at hset
    cases hset

/-- **An allocation changes the table**, in every state. -/
theorem allocHandle_ne {obj : ObjectPtr} {handles' : HandleData} {gchandle : Handle}
    (h : handles.allocHandle obj = some (handles', gchandle)) :
    handles'.size ≠ handles.size ∨ handles'.bitmap ≠ handles.bitmap := by
  rw [allocHandle, firstUse] at h
  split_ifs at h with hsize
  · rcases takeSlot_ne h with ⟨hsame, -⟩ | hgrown
    · exact .inl (by simp [hsame, hsize])
    · exact .inl (by simp [hgrown, hsize])
  · rcases takeSlot_ne h with ⟨-, hbitmap⟩ | hgrown
    · exact .inr hbitmap
    · exact .inl (by omega)

end HandleData

/-- **The error of `NewWeakref` is not atomic**: whenever it is reported, the size or the bitmap of a
table has changed; and in a state that represents a map, with a free slot, the new handle was not
taken, and gives the object. -/
theorem newWeakref_error {tables tables' : GCHandles} {obj : ObjectPtr} {trackResurrection : Bool}
    {gchandle : Handle}
    (h : tables.newWeakref obj trackResurrection = some (tables', .notSupported gchandle)) :
    ((tables' .weakTrack).size ≠ (tables .weakTrack).size ∨
      (tables' .weakTrack).bitmap ≠ (tables .weakTrack).bitmap) ∧
    ∀ m, tables.Represents m → (tables .weakTrack).Room →
      ¬ (m gchandle).Taken ∧ tables'.getTarget gchandle = obj.word := by
  cases trackResurrection with
  | false =>
    rw [GCHandles.newWeakref] at h
    obtain ⟨_, -, h⟩ := Option.bind_eq_some_iff.1 h
    cases h
  | true =>
    constructor
    · rw [GCHandles.newWeakref] at h
      obtain ⟨⟨tables₁, gchandle₁⟩, halloc, h⟩ := Option.bind_eq_some_iff.1 h
      cases h
      rw [GCHandles.allocHandle] at halloc
      obtain ⟨⟨handles', gchandle₂⟩, halloc, heq⟩ := Option.bind_eq_some_iff.1 halloc
      cases heq
      have hne := HandleData.allocHandle_ne halloc
      simpa using hne
    · intro m hr hroom
      obtain ⟨tables₁, gchandle₁, heq, -, -, hfree, hr', -⟩ :=
        @GCHandles.Represents.newWeakref _ _ hr true hroom obj
      cases h.symm.trans heq
      refine ⟨hfree, ?_⟩
      rw [hr'.getTarget_eq, Function.update_self]
      rfl

/-- The first weak reference that tracks resurrection is made, and lost. -/
theorem newWeakref_error_init :
    ∃ tables', GCHandles.init.newWeakref ⟨0x1000, by decide⟩ true =
        some (tables', .notSupported 2) ∧
      tables'.getTarget 2 = 0x1000 := by
  obtain ⟨tables', h⟩ : ∃ tables', GCHandles.init.newWeakref ⟨0x1000, by decide⟩ true =
      some (tables', .notSupported 2) := ⟨_, rfl⟩
  have hroom : (GCHandles.init .weakTrack).Room := ⟨Nat.zero_le _, 0, by decide, rfl⟩
  exact ⟨tables', h, ((newWeakref_error h).2 _ GCHandles.represents_init hroom).2⟩

theorem newWeakref_changes_tables :
    ∃ tables' gchandle, GCHandles.init.newWeakref ⟨0x1000, by decide⟩ true =
        some (tables', .notSupported gchandle) ∧
      (tables' .weakTrack).bitmap ≠ (GCHandles.init .weakTrack).bitmap ∧
      tables'.getTarget gchandle ≠ 0 :=
  ⟨_, 2, rfl, by decide, by decide⟩

end GC

end Il2Cpp
