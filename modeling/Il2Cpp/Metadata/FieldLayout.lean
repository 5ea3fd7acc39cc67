import Il2Cpp.Data.SerialLayout

/-!
# Field layout

`FieldLayout::LayoutFields` gives the fields of a class their offsets, behind the fields of the
parent class.  The arithmetic is that of `size_t`, and the alignment of a field is capped by the
packing of the class.

* `layoutFields` : the function; `layoutInstanceFields` and its siblings are how it is called.
* `items` : the fields as items of a row (`SerialLayout`), where no sum overflows (`Fits`).
* `layoutFields_eq` : the offsets are those of the row.

Masking with `~(alignment - 1)` aligns to powers of two only.  That is what the packings of the
metadata are (`isPowerOfTwo_effectiveAlignment`).
-/

namespace Il2Cpp.FieldLayout

open SerialLayout

/-! ### The code -/

/-- `SizeAndAlignment`. -/
structure SizeAndAlignment where
  size : UInt64
  alignment : UInt8
  deriving DecidableEq, Repr

/-- A `FieldInfo`: the attributes and the answer of `GetTypeSizeAndAlignment` for its type, and the
offset in the metadata. -/
structure FieldInfo where
  /-- `FIELD_ATTRIBUTE_STATIC`. -/
  static : Bool
  /-- `FIELD_ATTRIBUTE_LITERAL`. -/
  literal : Bool
  offset : Int32
  sizeAndAlignment : SizeAndAlignment
  deriving DecidableEq

/-- `THREAD_STATIC_FIELD_OFFSET`. -/
def threadStaticFieldOffset : Int32 := -1

/-- `Field::IsInstance`. -/
def isInstance (field : FieldInfo) : Bool := !field.static

/-- `Field::IsNormalStatic`. -/
def isNormalStatic (field : FieldInfo) : Bool :=
  field.static && field.offset != threadStaticFieldOffset && !field.literal

/-- `Field::IsThreadStatic`. -/
def isThreadStatic (field : FieldInfo) : Bool :=
  field.static && field.offset == threadStaticFieldOffset && !field.literal

/-- `FieldLayoutData`. -/
structure FieldLayoutData where
  fieldOffsets : List UInt64
  classSize : UInt64
  actualClassSize : UInt64
  minimumAlignment : UInt8
  deriving DecidableEq, Repr

section

variable {α : Type} [LT α] [DecidableLT α]

/-- `std::max`. -/
def stdMax (a b : α) : α := if a < b then b else a

/-- `std::min`. -/
def stdMin (a b : α) : α := if b < a then b else a

end

/-- `AlignTo`. -/
def alignTo (size alignment : UInt64) : UInt64 :=
  if size &&& (alignment - 1) ≠ 0 then (size + (alignment - 1)) &&& ~~~(alignment - 1) else size

/-- The alignment of a field under a packing, where 0 stands for none. -/
def effectiveAlignment (packing : UInt8) (field : FieldInfo) : UInt8 :=
  if 0 < packing then stdMin field.sizeAndAlignment.alignment packing
  else field.sizeAndAlignment.alignment

/-- One round of the loop of `LayoutFields`. -/
def layoutField (packing : UInt8) (isExplicitLayout : Bool) (data : FieldLayoutData)
    (field : FieldInfo) : FieldLayoutData :=
  let alignment := effectiveAlignment packing field
  let offset := if isExplicitLayout then field.offset.toInt64.toUInt64 else data.actualClassSize
  let offset := (offset + (alignment.toUInt64 - 1)) &&& ~~~(alignment.toUInt64 - 1)
  { data with
    fieldOffsets := data.fieldOffsets ++ [offset]
    actualClassSize := stdMax data.actualClassSize (offset + stdMax field.sizeAndAlignment.size 1)
    minimumAlignment := stdMax data.minimumAlignment alignment }

/-- `FieldLayout::LayoutFields`.  `msvc` is the switch `IL2CPP_CXX_ABI_MSVC`. -/
def layoutFields (msvc : Bool) (fields : List FieldInfo) (filter : FieldInfo → Bool)
    (parentSize actualParentSize parentAlignment : UInt64) (packing : UInt8)
    (isExplicitLayout : Bool) : FieldLayoutData :=
  let data : FieldLayoutData := ⟨[], parentSize, actualParentSize, parentAlignment.toUInt8⟩
  let data := (fields.filter filter).foldl (layoutField packing isExplicitLayout) data
  let data :=
    { data with classSize := alignTo data.actualClassSize data.minimumAlignment.toUInt64 }
  if msvc then { data with actualClassSize := data.classSize } else data

/-- `FieldLayout::LayoutInstanceFields`. -/
def layoutInstanceFields (msvc : Bool) (fields : List FieldInfo)
    (parentSize actualParentSize parentAlignment : UInt64) (packing : UInt8)
    (explicitLayout generic : Bool) : FieldLayoutData :=
  layoutFields msvc fields isInstance parentSize actualParentSize parentAlignment packing
    (explicitLayout && !generic)

/-- `FieldLayout::LayoutStaticFields`. -/
def layoutStaticFields (msvc : Bool) (fields : List FieldInfo) : FieldLayoutData :=
  layoutFields msvc fields isNormalStatic 0 0 1 0 false

/-- `FieldLayout::LayoutThreadStaticFields`. -/
def layoutThreadStaticFields (msvc : Bool) (fields : List FieldInfo) : FieldLayoutData :=
  layoutFields msvc fields isThreadStatic 0 0 1 0 false

/-- `ConvertPackingSizeEnumToValue`: the packings that the metadata can hold. -/
def convertPackingSizeEnumToValue (packingSize : ℕ) : UInt8 :=
  match packingSize with
  | 0 => 0
  | 1 => 1
  | 2 => 2
  | 3 => 4
  | 4 => 8
  | 5 => 16
  | 6 => 32
  | 7 => 64
  | 8 => 128
  | _ => 0

/-! ### Fields as a row of items -/

/-- A field takes at least one byte, as a class without fields does in C++. -/
def FieldInfo.extentInBytes (field : FieldInfo) : ℕ := (stdMax field.sizeAndAlignment.size 1).toNat

/-- What the layout places. -/
def items (packing : UInt8) (fields : List FieldInfo) : List Item :=
  fields.map fun field => ⟨field.extentInBytes, (effectiveAlignment packing field).toNat⟩

/-- The row of the fields ends where `size_t` can still round it up. -/
def Fits (actualParentSize : UInt64) (packing : UInt8) (fields : List FieldInfo) : Prop :=
  extent actualParentSize.toNat (items packing fields) + 255 < 2 ^ 64

/-- All alignments are powers of two. -/
def PowersOfTwo (packing : UInt8) (fields : List FieldInfo) : Prop :=
  ∀ field ∈ fields, (effectiveAlignment packing field).toNat.isPowerOfTwo

theorem toNat_stdMax (a b : UInt64) : (stdMax a b).toNat = max a.toNat b.toNat := by
  simp only [stdMax, UInt64.lt_iff_toNat_lt]
  split <;> omega

theorem alignTo_eq_alignUp {size alignment : UInt64} (ha : alignment.toNat.isPowerOfTwo)
    (hfit : size.toNat + alignment.toNat ≤ 2 ^ 64) :
    (alignTo size alignment).toNat = alignUp size.toNat alignment.toNat := by
  rw [alignTo]
  split
  case isTrue => exact toNat_alignUp_mask ha hfit
  case isFalse h =>
    rw [not_not, ← UInt64.toNat_inj, toNat_and_mask _ ha] at h
    rw [alignUp_of_dvd (Nat.dvd_of_mod_eq_zero h)]

theorem isPowerOfTwo_stdMax {a b : UInt8} (ha : a.toNat.isPowerOfTwo) (hb : b.toNat.isPowerOfTwo) :
    (stdMax a b).toNat.isPowerOfTwo := by
  rw [stdMax]
  split <;> assumption

theorem isPowerOfTwo_stdMin {a b : UInt8} (ha : a.toNat.isPowerOfTwo) (hb : b.toNat.isPowerOfTwo) :
    (stdMin a b).toNat.isPowerOfTwo := by
  rw [stdMin]
  split <;> assumption

/-! ### The packings of the metadata -/

theorem convertPackingSizeEnumToValue_cases (packingSize : ℕ) :
    convertPackingSizeEnumToValue packingSize = 0 ∨
      (convertPackingSizeEnumToValue packingSize).toNat.isPowerOfTwo := by
  unfold convertPackingSizeEnumToValue
  split
  case h_1 => exact .inl rfl
  case h_2 => exact .inr ⟨0, rfl⟩
  case h_3 => exact .inr ⟨1, rfl⟩
  case h_4 => exact .inr ⟨2, rfl⟩
  case h_5 => exact .inr ⟨3, rfl⟩
  case h_6 => exact .inr ⟨4, rfl⟩
  case h_7 => exact .inr ⟨5, rfl⟩
  case h_8 => exact .inr ⟨6, rfl⟩
  case h_9 => exact .inr ⟨7, rfl⟩
  case h_10 => exact .inl rfl

theorem isPowerOfTwo_effectiveAlignment (packingSize : ℕ) {field : FieldInfo}
    (h : field.sizeAndAlignment.alignment.toNat.isPowerOfTwo) :
    (effectiveAlignment (convertPackingSizeEnumToValue packingSize) field).toNat.isPowerOfTwo := by
  rw [effectiveAlignment]
  split
  case isTrue hpos =>
    rcases convertPackingSizeEnumToValue_cases packingSize with hzero | hpow
    · rw [hzero] at hpos
      exact absurd hpos (UInt8.lt_irrefl 0)
    · exact isPowerOfTwo_stdMin h hpow
  case isFalse => exact h

/-! ### The loop -/

theorem alignment_pos {packing : UInt8} {fields : List FieldInfo}
    (hpow : PowersOfTwo packing fields) : ∀ item ∈ items packing fields, 0 < item.alignment := by
  intro item hitem
  obtain ⟨field, hfield, rfl⟩ := List.mem_map.1 hitem
  exact Nat.pos_of_isPowerOfTwo (hpow field hfield)

theorem layoutField_spec {packing : UInt8} {data : FieldLayoutData} {field : FieldInfo}
    (hpow : (effectiveAlignment packing field).toNat.isPowerOfTwo)
    (hfit : alignUp data.actualClassSize.toNat (effectiveAlignment packing field).toNat +
      field.extentInBytes + 255 < 2 ^ 64) :
    ∃ offset : UInt64,
      offset.toNat = alignUp data.actualClassSize.toNat (effectiveAlignment packing field).toNat ∧
      (layoutField packing false data field).fieldOffsets = data.fieldOffsets ++ [offset] ∧
      (layoutField packing false data field).actualClassSize.toNat =
        offset.toNat + field.extentInBytes := by
  have hcast : (effectiveAlignment packing field).toUInt64.toNat =
      (effectiveAlignment packing field).toNat := UInt8.toNat_toUInt64 _
  have hlt : (effectiveAlignment packing field).toNat < 256 := UInt8.toNat_lt _
  have hle := le_alignUp data.actualClassSize.toNat (Nat.pos_of_isPowerOfTwo hpow)
  refine ⟨(data.actualClassSize + ((effectiveAlignment packing field).toUInt64 - 1)) &&&
    ~~~((effectiveAlignment packing field).toUInt64 - 1), ?_, rfl, ?_⟩
  · rw [toNat_alignUp_mask (by rwa [hcast]) (by omega), hcast]
  · have hoffset := toNat_alignUp_mask (x := data.actualClassSize)
      (a := (effectiveAlignment packing field).toUInt64) (by rwa [hcast]) (by omega)
    rw [hcast] at hoffset
    rw [FieldInfo.extentInBytes] at hfit ⊢
    simp only [layoutField, Bool.false_eq_true, if_false, toNat_stdMax, UInt64.toNat_add, hoffset]
    rw [← toNat_stdMax]
    omega

theorem foldl_layoutField_spec {packing : UInt8} {fields : List FieldInfo}
    (hpow : PowersOfTwo packing fields) (data : FieldLayoutData)
    (hfit : Fits data.actualClassSize packing fields) :
    ((fields.foldl (layoutField packing false) data).fieldOffsets.map UInt64.toNat =
        data.fieldOffsets.map UInt64.toNat ++
          offsets data.actualClassSize.toNat (items packing fields)) ∧
      (fields.foldl (layoutField packing false) data).actualClassSize.toNat =
        extent data.actualClassSize.toNat (items packing fields) := by
  induction fields generalizing data with
  | nil => exact ⟨(List.append_nil _).symm, rfl⟩
  | cons field fields ih =>
    obtain ⟨hfield, hfields⟩ := List.forall_mem_cons.1 hpow
    have hnext : alignUp data.actualClassSize.toNat (effectiveAlignment packing field).toNat +
        field.extentInBytes + 255 < 2 ^ 64 :=
      lt_of_le_of_lt (Nat.add_le_add_right (le_extent (alignment_pos hfields)) 255) hfit
    obtain ⟨offset, hoffset, happend, hactual⟩ := layoutField_spec hfield hnext
    rw [hoffset] at hactual
    have hrest : Fits (layoutField packing false data field).actualClassSize packing fields := by
      rw [Fits, hactual]
      exact hfit
    obtain ⟨hmap, hext⟩ := ih hfields _ hrest
    rw [List.foldl_cons]
    constructor
    · rw [hmap, happend, hactual, List.map_append, List.append_assoc, List.map_singleton, hoffset]
      rfl
    · rw [hext, hactual]
      rfl

theorem foldl_layoutField_minimumAlignment {packing : UInt8} {fields : List FieldInfo}
    (hpow : PowersOfTwo packing fields) {data : FieldLayoutData}
    (hmin : data.minimumAlignment.toNat.isPowerOfTwo) :
    (fields.foldl (layoutField packing false) data).minimumAlignment.toNat.isPowerOfTwo := by
  induction fields generalizing data with
  | nil => exact hmin
  | cons field fields ih =>
    obtain ⟨hfield, hfields⟩ := List.forall_mem_cons.1 hpow
    exact ih hfields (isPowerOfTwo_stdMax hmin hfield)

theorem layoutFields_eq {fields : List FieldInfo} {filter : FieldInfo → Bool}
    {actualParentSize parentAlignment : UInt64} {packing : UInt8}
    (hpow : PowersOfTwo packing (fields.filter filter))
    (hparent : parentAlignment.toUInt8.toNat.isPowerOfTwo)
    (hfit : Fits actualParentSize packing (fields.filter filter)) (msvc : Bool)
    (parentSize : UInt64) :
    let data := layoutFields msvc fields filter parentSize actualParentSize parentAlignment packing
      false
    let row := items packing (fields.filter filter)
    data.fieldOffsets.map UInt64.toNat = offsets actualParentSize.toNat row ∧
      data.classSize.toNat =
        alignUp (extent actualParentSize.toNat row) data.minimumAlignment.toNat ∧
      data.actualClassSize.toNat =
        (if msvc then data.classSize.toNat else extent actualParentSize.toNat row) ∧
      data.minimumAlignment.toNat.isPowerOfTwo := by
  let start : FieldLayoutData := ⟨[], parentSize, actualParentSize, parentAlignment.toUInt8⟩
  let done := (fields.filter filter).foldl (layoutField packing false) start
  obtain ⟨hoffsets, hactual⟩ := foldl_layoutField_spec hpow start hfit
  have hmin : done.minimumAlignment.toNat.isPowerOfTwo :=
    foldl_layoutField_minimumAlignment hpow hparent
  have hround : (alignTo done.actualClassSize done.minimumAlignment.toUInt64).toNat =
      alignUp (extent actualParentSize.toNat (items packing (fields.filter filter)))
        done.minimumAlignment.toNat := by
    have hlt : done.minimumAlignment.toNat < 256 := UInt8.toNat_lt _
    have hfit' : done.actualClassSize.toNat + 255 < 2 ^ 64 := by
      rw [hactual]
      exact hfit
    rw [alignTo_eq_alignUp, UInt8.toNat_toUInt64, hactual]
    · rwa [UInt8.toNat_toUInt64]
    · rw [UInt8.toNat_toUInt64]
      omega
  cases msvc
  · exact ⟨hoffsets, hround, hactual, hmin⟩
  · exact ⟨hoffsets, hround, rfl, hmin⟩

/-! ### Soundness -/

/-- A layout of the fields behind the parent's.  All numbers are exact. -/
structure Sound (actualParentSize : UInt64) (packing : UInt8) (fields : List FieldInfo)
    (data : FieldLayoutData) : Prop where
  /-- Every field has its offset. -/
  length_eq : data.fieldOffsets.length = fields.length
  /-- Offsets are multiples of the effective alignments. -/
  aligned : ∀ p ∈ fields.zip data.fieldOffsets,
    (effectiveAlignment packing p.1).toNat ∣ p.2.toNat
  /-- Offsets grow with the fields. -/
  ordered : data.fieldOffsets.Pairwise fun o o' => o.toNat < o'.toNat
  /-- A field ends before the later ones begin. -/
  disjoint : (fields.zip data.fieldOffsets).Pairwise fun p q =>
    p.2.toNat + p.1.extentInBytes ≤ q.2.toNat
  /-- No field is in the parent. -/
  afterParent : ∀ o ∈ data.fieldOffsets, actualParentSize.toNat ≤ o.toNat
  /-- All fields are in the class. -/
  withinClass : ∀ p ∈ fields.zip data.fieldOffsets,
    p.2.toNat + p.1.extentInBytes ≤ data.actualClassSize.toNat
  actual_le_classSize : data.actualClassSize.toNat ≤ data.classSize.toNat
  minimumAlignment_dvd : data.minimumAlignment.toNat ∣ data.classSize.toNat

theorem mem_zip_items (packing : UInt8) {fields : List FieldInfo} {os : List UInt64}
    {p : FieldInfo × UInt64} (h : p ∈ fields.zip os) :
    ((⟨p.1.extentInBytes, (effectiveAlignment packing p.1).toNat⟩ : Item), p.2.toNat) ∈
      (items packing fields).zip (os.map UInt64.toNat) := by
  rw [items, List.zip_map]
  exact List.mem_map_of_mem h

theorem extentInBytes_pos (field : FieldInfo) : 0 < field.extentInBytes := by
  rw [FieldInfo.extentInBytes, toNat_stdMax]
  exact lt_of_lt_of_le Nat.one_pos (Nat.le_max_right _ _)

theorem sound_of_row {actualParentSize : UInt64} {packing : UInt8} {fields : List FieldInfo}
    {data : FieldLayoutData} (hpow : PowersOfTwo packing fields)
    (hoffsets : data.fieldOffsets.map UInt64.toNat =
      offsets actualParentSize.toNat (items packing fields))
    (hextent : extent actualParentSize.toNat (items packing fields) ≤ data.actualClassSize.toNat)
    (hactual : data.actualClassSize.toNat ≤ data.classSize.toNat)
    (hdvd : data.minimumAlignment.toNat ∣ data.classSize.toNat) :
    Sound actualParentSize packing fields data := by
  have hlength : data.fieldOffsets.length = fields.length := by
    rw [← List.length_map UInt64.toNat, hoffsets, length_offsets, items, List.length_map]
  have hdisjoint : (fields.zip data.fieldOffsets).Pairwise fun p q =>
      p.2.toNat + p.1.extentInBytes ≤ q.2.toNat := by
    have hrow := pairwise_offsets actualParentSize.toNat (alignment_pos hpow)
    rw [← hoffsets, items, List.zip_map, List.pairwise_map] at hrow
    exact hrow
  refine ⟨hlength, ?_, ?_, hdisjoint, ?_, ?_, hactual, hdvd⟩
  · intro p hp
    have hmem := mem_zip_items packing hp
    rw [hoffsets] at hmem
    exact dvd_of_mem_zip_offsets hmem
  · have hsnd : (fields.zip data.fieldOffsets).map Prod.snd = data.fieldOffsets :=
      List.map_snd_zip (Nat.le_of_eq hlength)
    rw [← hsnd, List.pairwise_map]
    exact hdisjoint.imp fun {p _} h =>
      lt_of_lt_of_le (Nat.lt_add_of_pos_right (extentInBytes_pos p.1)) h
  · intro o ho
    have hmem := List.mem_map_of_mem (f := UInt64.toNat) ho
    rw [hoffsets] at hmem
    exact le_of_mem_offsets (alignment_pos hpow) hmem
  · intro p hp
    have hmem := mem_zip_items packing hp
    rw [hoffsets] at hmem
    exact (add_size_le_extent (alignment_pos hpow) hmem).trans hextent

/-- **Field layouts are sound.**  If the effective alignments are powers of two and no size
overflows, the fields of a class lie on multiples of their alignments, behind the parent's, in order
and apart from each other, within a class whose size is rounded up. -/
theorem layoutFields_sound (msvc : Bool) (fields : List FieldInfo) (filter : FieldInfo → Bool)
    (parentSize actualParentSize parentAlignment : UInt64) (packing : UInt8)
    (hpow : PowersOfTwo packing (fields.filter filter))
    (hparent : parentAlignment.toNat.isPowerOfTwo) (hbyte : parentAlignment.toNat ≤ 255)
    (hfit : Fits actualParentSize packing (fields.filter filter)) :
    Sound actualParentSize packing (fields.filter filter)
      (layoutFields msvc fields filter parentSize actualParentSize parentAlignment packing
        false) := by
  have hparent' : parentAlignment.toUInt8.toNat.isPowerOfTwo := by
    rw [UInt64.toNat_toUInt8, Nat.mod_eq_of_lt (by omega)]
    exact hparent
  obtain ⟨hoffsets, hclass, hactual, hmin⟩ := layoutFields_eq hpow hparent' hfit msvc parentSize
  have hround := le_alignUp (extent actualParentSize.toNat (items packing (fields.filter filter)))
    (Nat.pos_of_isPowerOfTwo hmin)
  rw [← hclass] at hround
  apply sound_of_row hpow hoffsets
  · rw [hactual]
    split
    · exact hround
    · exact Nat.le_refl _
  · rw [hactual]
    split
    · exact Nat.le_refl _
    · exact hround
  · rw [hclass]
    exact dvd_alignUp _ _

/-- What the callers pass does not overflow: the sizes of a parent are `uint32_t`, those of value
types `int32_t`, and the fields are counted by a `uint16_t`. -/
theorem fits_of_callers {actualParentSize : UInt64} {packing : UInt8} {fields : List FieldInfo}
    (hpow : PowersOfTwo packing fields) (hparent : actualParentSize.toNat < 2 ^ 32)
    (hsize : ∀ field ∈ fields, field.sizeAndAlignment.size.toNat < 2 ^ 31)
    (hcount : fields.length < 2 ^ 16) : Fits actualParentSize packing fields := by
  have hitem : ∀ n ∈ (items packing fields).map fun item => item.size + item.alignment,
      n ≤ 2 ^ 31 + 256 := by
    simp only [items, List.map_map, List.mem_map, Function.comp_apply]
    rintro n ⟨field, hfield, rfl⟩
    have halign : (effectiveAlignment packing field).toNat < 256 := UInt8.toNat_lt _
    have hbytes : field.extentInBytes ≤ 2 ^ 31 := by
      rw [FieldInfo.extentInBytes, toNat_stdMax]
      exact max_le (hsize field hfield).le (by decide)
    omega
  have hsum := List.sum_le_card_nsmul _ _ hitem
  have hext := extent_le actualParentSize.toNat (alignment_pos hpow)
  rw [List.length_map, items, List.length_map, Nat.nsmul_eq_mul] at hsum
  have hprod : fields.length * (2 ^ 31 + 256) ≤ 2 ^ 16 * (2 ^ 31 + 256) :=
    Nat.mul_le_mul_right _ hcount.le
  rw [Fits]
  rw [items] at hext ⊢
  omega

theorem fits_of_callers_header : Fits 16 0 [⟨false, false, 0, ⟨4, 4⟩⟩] :=
  fits_of_callers (List.forall_mem_cons.2 ⟨⟨2, rfl⟩, nofun⟩) (by decide) (by simp) (by decide)

/-- A 32-bit field behind a byte, behind the header of an object. -/
theorem layoutFields_sound_header :
    Sound 16 0 [⟨false, false, 0, ⟨1, 1⟩⟩, ⟨false, false, 0, ⟨4, 4⟩⟩]
      (layoutFields false [⟨false, false, 0, ⟨1, 1⟩⟩, ⟨false, false, 0, ⟨4, 4⟩⟩] isInstance 16 16 8
        0 false) :=
  layoutFields_sound false [⟨false, false, 0, ⟨1, 1⟩⟩, ⟨false, false, 0, ⟨4, 4⟩⟩] isInstance 16 16 8
    0 (List.forall_mem_cons.2 ⟨⟨0, rfl⟩, List.forall_mem_cons.2 ⟨⟨2, rfl⟩, nofun⟩⟩) ⟨3, rfl⟩
    (by decide) (by unfold Fits; decide)

/-- A packing of 3 puts a field at offset 5, and a parent at the end of the address space puts a
field at offset 0. -/
theorem layoutFields_unsound :
    ¬ Sound 0 3 [⟨false, false, 0, ⟨5, 1⟩⟩, ⟨false, false, 0, ⟨4, 4⟩⟩]
        (layoutFields false [⟨false, false, 0, ⟨5, 1⟩⟩, ⟨false, false, 0, ⟨4, 4⟩⟩] isInstance 0 0 1
          3 false) ∧
      ¬ Sound 18446744073709551615 0 [⟨false, false, 0, ⟨4, 4⟩⟩]
        (layoutFields false [⟨false, false, 0, ⟨4, 4⟩⟩] isInstance 18446744073709551615
          18446744073709551615 1 0 false) := by
  constructor
  · intro h
    exact absurd (h.aligned (⟨false, false, 0, ⟨4, 4⟩⟩, 5) (by decide)) (by decide)
  · intro h
    exact absurd (h.afterParent 0 (by decide)) (by decide)

end Il2Cpp.FieldLayout
