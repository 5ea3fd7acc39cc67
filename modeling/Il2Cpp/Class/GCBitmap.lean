import Il2Cpp.Data.BitMarks
import Il2Cpp.Liveness.Layout
import Il2Cpp.Metadata.FieldLayout

/-!
# The bitmap of the references of a class

`GetBitmapNoInit` sets a bit for each word of an object that a field with a reference begins in,
`GetStaticBitmap` does the same for the static fields.  Both go into the value types that have
references (`has_references`), whose offsets include an object header, and the former goes up the
parents.  The buffer is sized from the instance size, or from the size of the static fields.

* `Il2CppClass`, `getBitmapNoInit`, `getStaticBitmap` : the code.
* `ClassTable` : classes with what their layout guarantees.
* `FieldAt`, `StaticFieldAt` : what is a field of an object, at any depth.
* `ClassTable.offset_add_valueSize_le` : the layouts of `LayoutFields` give this guarantee.
* `ClassTable.bitmaps_exact` : for a class without type parameters in its fields, the bits are those
  of the references that are not in a value of type `Ephemeron`, and no write misses the buffer.

`LayoutFieldsLocked` clears `has_references` for corlib's `Ephemeron`, so that its values count as
having no references where they are embedded (`ClassTable.not_bitmaps_exact`).
-/

namespace Il2Cpp.GCBitmap

open Liveness (FieldAttributes FieldInfo FieldType sizeOfObject sizeOfPointer)

/-! ### The code -/

/-- What the walk reads of `Il2CppClass`.  Classes are named by `C`. -/
structure Il2CppClass (C : Type) where
  /-- `image == il2cpp_defaults.corlib && !strcmp("Ephemeron", name)`. -/
  isEphemeron : Bool
  parent : Option C
  fields : List (FieldInfo C)
  /-- `instance_size`. -/
  instanceSize : UInt32
  /-- `static_fields_size`. -/
  staticFieldsSize : UInt32
  /-- `has_references`. -/
  hasReferences : Bool

/-- `THREAD_STATIC_FIELD_OFFSET`. -/
def threadStaticFieldOffset : ℤ := -1

/-- `Field::IsNormalStatic`. -/
def isNormalStatic {C : Type} (field : FieldInfo C) : Bool :=
  if !field.attrs.isStatic then false
  else if field.offset = threadStaticFieldOffset then false
  else !field.attrs.literal

/-- The index `offset / sizeof(void*)`, where `offset` is a `size_t`: sums and differences that
leave its range wrap around. -/
def wordIndex (offset : ℤ) : ℕ := (offset % 2 ^ 64).toNat / 8

section

variable {C : Type} (classes : C → Il2CppClass C)

/-- The `switch` of both functions, for a field at `offset`.  `nested` is the walk through a value
type. -/
def markField (nested : C → ℤ → Buffer 64 → Option (Buffer 64)) (type : FieldType C) (offset : ℤ)
    (bitmap : Buffer 64) : Option (Buffer 64) :=
  match type.structClass with
  | some fieldClass =>
    -- the offsets in a value type include the object header of the boxed value
    if (classes fieldClass).hasReferences then nested fieldClass (offset - sizeOfObject) bitmap
    else some bitmap
  | none =>
    if type.getUnderlyingType.setsBit then bitmap.mark (wordIndex offset) else some bitmap

/-- `GetBitmapNoInit`, with a bound on the parents and value types that are gone through. -/
def getBitmapNoInit : ℕ → C → ℤ → Buffer 64 → Option (Buffer 64)
  | 0, _, _, _ => none
  | n + 1, klass, parentOffset, bitmap =>
    ((classes klass).fields.foldlM (fun bitmap field =>
      if field.attrs.isStatic || field.attrs.hasFieldRVA then some bitmap
      else markField classes (getBitmapNoInit n) field.type (parentOffset + field.offset) bitmap)
      bitmap).bind fun bitmap =>
    match (classes klass).parent with
    | none => some bitmap
    | some parent => getBitmapNoInit n parent parentOffset bitmap

/-- `GetStaticBitmap`. -/
def getStaticBitmap (n : ℕ) (klass : C) (parentOffset : ℤ) (bitmap : Buffer 64) :
    Option (Buffer 64) :=
  (classes klass).fields.foldlM (fun bitmap field =>
    if !isNormalStatic field then some bitmap
    else
      markField classes (getBitmapNoInit classes n) field.type (parentOffset + field.offset) bitmap)
    bitmap

/-- The words of a buffer for `size` bytes, as `Class::GetBitmapSize` and `LayoutFieldsLocked` count
them. -/
def bitmapWords (size : UInt32) : ℕ := 1 + size.toNat / 8 / 64

/-- The bitmap of the instances, in the buffer of `SetupGCDescriptor`. -/
def instanceBitmap (n : ℕ) (klass : C) : Option (Buffer 64) :=
  getBitmapNoInit classes n klass 0 (.zero (bitmapWords (classes klass).instanceSize))

/-- The bitmap of the static fields, in the buffer of `LayoutFieldsLocked`. -/
def staticBitmap (n : ℕ) (klass : C) : Option (Buffer 64) :=
  getStaticBitmap classes n klass 0 (.zero (bitmapWords (classes klass).staticFieldsSize))

/-- The instance field has references, as `LayoutFieldsLocked` sees it. -/
def fieldHasReferences (type : FieldType C) : Bool :=
  let ftype := type.getUnderlyingType
  ftype.isReference || ftype.structClass.any fun klass => (classes klass).hasReferences

/-- What `LayoutFieldsLocked` makes of `has_references`. -/
def layoutHasReferences (klass : Il2CppClass C) : Bool :=
  let inherited := klass.parent.any fun parent => (classes parent).hasReferences
  if klass.fields.isEmpty then inherited
  else
    let hasReferences := inherited ||
      klass.fields.any fun field => !field.attrs.isStatic && fieldHasReferences classes field.type
    if klass.isEphemeron then false else hasReferences

/-- The size of a field, from `GetTypeSizeAndAlignment`.  A value type is as large as its boxed
value without the header. -/
def valueSize (type : FieldType C) : ℤ :=
  match type.structClass with
  | some klass => (classes klass).instanceSize.toNat - sizeOfObject
  | none =>
    match type.getUnderlyingType with
    | .simple .i1 | .simple .u1 | .simple .boolean => 1
    | .simple .i2 | .simple .u2 | .simple .char => 2
    | .simple .i4 | .simple .u4 | .simple .r4 => 4
    | .simple .i8 | .simple .u8 | .simple .r8 | .simple .i | .simple .u => 8
    | .simple .fnptr | .simple .string | .simple .object => sizeOfPointer
    | .simple _ => 0
    | _ => sizeOfPointer

end

/-! ### Classes and their layout -/

/-- Classes, some of which have been laid out: `LayoutFieldsLocked` has given their sizes, the
offsets of their fields and `has_references`.  An open generic definition is never laid out, and a
value type that contains itself is not laid out either. -/
structure ClassTable (C : Type) where
  classes : C → Il2CppClass C
  laidOut : C → Prop
  /-- Bounds the parents and value types that a class is made of. -/
  depth : C → ℕ
  parent_laidOut : ∀ k, laidOut k → ∀ p ∈ (classes k).parent, laidOut p
  parent_depth : ∀ k, laidOut k → ∀ p ∈ (classes k).parent, depth p < depth k
  /-- A parent is a reference type. -/
  parent_isEphemeron : ∀ k, laidOut k → ∀ p ∈ (classes k).parent, (classes p).isEphemeron = false
  /-- An object begins with an object of the parent class. -/
  parent_size : ∀ k, laidOut k → ∀ p ∈ (classes k).parent,
    (classes p).instanceSize.toNat ≤ (classes k).instanceSize.toNat
  struct_laidOut : ∀ k, laidOut k → ∀ f ∈ (classes k).fields, f.attrs.isStatic = false →
    ∀ c ∈ f.type.structClass, laidOut c
  struct_depth : ∀ k, laidOut k → ∀ f ∈ (classes k).fields, f.attrs.isStatic = false →
    ∀ c ∈ f.type.structClass, depth c < depth k
  /-- Instance fields lie in the object. -/
  field_size : ∀ k, laidOut k → ∀ f ∈ (classes k).fields, f.attrs.isStatic = false →
    f.offset + valueSize classes f.type ≤ (classes k).instanceSize.toNat
  /-- Static fields that are not thread-static lie in the memory for the static fields. -/
  static_size : ∀ k, laidOut k → ∀ f ∈ (classes k).fields, isNormalStatic f = true →
    0 ≤ f.offset ∧ f.offset + valueSize classes f.type ≤ (classes k).staticFieldsSize.toNat
  hasReferences_eq : ∀ k, laidOut k →
    (classes k).hasReferences = layoutHasReferences classes (classes k)
  /-- `Ephemeron` has a key and a value. -/
  isEphemeron_fields : ∀ k, (classes k).isEphemeron = true → (classes k).fields ≠ []

namespace ClassTable

variable {C : Type} (T : ClassTable C)

/-- Objects of class `k` have field `f` at `offset`: it is a field of the class or of a parent, or
of a value type in such a field.  Only value types that meet `into` are looked into. -/
inductive FieldAt (into : C → Prop) : C → ℤ → FieldInfo C → Prop
  | own {k : C} {f : FieldInfo C} :
      f ∈ (T.classes k).fields → f.attrs.isStatic = false → f.type.structClass = none →
      FieldAt into k f.offset f
  | inherited {k p : C} {offset : ℤ} {f : FieldInfo C} :
      p ∈ (T.classes k).parent → FieldAt into p offset f → FieldAt into k offset f
  | nested {k c : C} {offset : ℤ} {f g : FieldInfo C} :
      g ∈ (T.classes k).fields → g.attrs.isStatic = false → c ∈ g.type.structClass → into c →
      FieldAt into c offset f → FieldAt into k (g.offset + offset - sizeOfObject) f

/-- Field `f` lies at `offset` in the memory for the static fields of class `k`. -/
inductive StaticFieldAt (into : C → Prop) (k : C) : ℤ → FieldInfo C → Prop
  | own {f : FieldInfo C} :
      f ∈ (T.classes k).fields → isNormalStatic f = true → f.type.structClass = none →
      StaticFieldAt into k f.offset f
  | nested {c : C} {offset : ℤ} {f g : FieldInfo C} :
      g ∈ (T.classes k).fields → isNormalStatic g = true → c ∈ g.type.structClass → into c →
      T.FieldAt into c offset f → StaticFieldAt into k (g.offset + offset - sizeOfObject) f

/-- The words that the fields of a relation begin in, if they hold references. -/
def referenceWords (fieldAt : ℤ → FieldInfo C → Prop) : Set ℕ :=
  {i | ∃ offset f, fieldAt offset f ∧ f.type.getUnderlyingType.isReference = true ∧
    (i : ℤ) = offset / sizeOfPointer}

/-- A bitmap has exactly the bits of `S`, all of which are in a buffer for `size` bytes and up to
`maxSetBit`. -/
def Exact (size : UInt32) (bitmap : Option (Buffer 64)) (S : Set ℕ) : Prop :=
  (∀ i ∈ S, i / 64 < bitmapWords size) ∧ ∃ b, bitmap = some b ∧
    (∀ i, b.bitmap.testBit i = true ↔ i ∈ S) ∧ ∀ i ∈ S, i ≤ b.maxSetBit

/-- No field is of the type of a type parameter. -/
def Closed (k : C) : Prop :=
  ∀ offset f, T.FieldAt (fun _ => True) k offset f ∨ T.StaticFieldAt (fun _ => True) k offset f →
    f.type ≠ .var ∧ f.type ≠ .mvar

/-- The value types of the static fields have been laid out. -/
def StaticsLaidOut (k : C) : Prop :=
  ∀ f ∈ (T.classes k).fields, isNormalStatic f = true → ∀ c ∈ f.type.structClass, T.laidOut c

variable {T}

namespace FieldAt

variable {into into' : C → Prop} {k : C} {offset : ℤ} {f : FieldInfo C}

theorem mono (hinto : ∀ c, into c → into' c) (h : T.FieldAt into k offset f) :
    T.FieldAt into' k offset f := by
  induction h with
  | own hf hs hc => exact .own hf hs hc
  | inherited hp _ ih => exact .inherited hp ih
  | nested hg hs hc hi _ ih => exact .nested hg hs hc (hinto _ hi) ih

theorem bounds (h : T.FieldAt into k offset f) (hk : T.laidOut k) :
    sizeOfObject ≤ offset ∧ offset + valueSize T.classes f.type ≤
      (T.classes k).instanceSize.toNat := by
  induction h with
  | own hf hs _ => exact ⟨FieldInfo.header_le _ hs, T.field_size _ hk _ hf hs⟩
  | inherited hp _ ih =>
    obtain ⟨hlow, hhigh⟩ := ih (T.parent_laidOut _ hk _ hp)
    have := T.parent_size _ hk _ hp
    exact ⟨hlow, by omega⟩
  | @nested k c offset f g hg hs hc _ _ ih =>
    obtain ⟨hlow, hhigh⟩ := ih (T.struct_laidOut _ hk _ hg hs _ hc)
    have hheader := FieldInfo.header_le _ hs
    have hsize := T.field_size _ hk _ hg hs
    have hvalue : valueSize T.classes g.type = (T.classes c).instanceSize.toNat - sizeOfObject := by
      rw [valueSize, Option.mem_def.1 hc]
    constructor <;> omega

end FieldAt

theorem StaticFieldAt.bounds {into : C → Prop} {k : C} {offset : ℤ} {f : FieldInfo C}
    (h : T.StaticFieldAt into k offset f) (hk : T.laidOut k) (hstatics : T.StaticsLaidOut k) :
    0 ≤ offset ∧ offset + valueSize T.classes f.type ≤ (T.classes k).staticFieldsSize.toNat := by
  cases h with
  | own hf hs _ => exact T.static_size _ hk _ hf hs
  | @nested c offset f g hg hs hc _ hat =>
    obtain ⟨hlow, hhigh⟩ := hat.bounds (hstatics g hg hs c hc)
    obtain ⟨hzero, hsize⟩ := T.static_size _ hk _ hg hs
    have hvalue : valueSize T.classes g.type = (T.classes c).instanceSize.toNat - sizeOfObject := by
      rw [valueSize, Option.mem_def.1 hc]
    constructor <;> omega

/-! ### Where the sizes come from -/

/-- What `LayoutFields` reads of a field. -/
def toLayoutField (classes : C → Il2CppClass C) (alignment : FieldInfo C → UInt8)
    (field : FieldInfo C) : FieldLayout.FieldInfo where
  static := field.attrs.isStatic
  literal := field.attrs.literal
  offset := Int32.ofInt field.offset
  sizeAndAlignment := ⟨UInt64.ofNat (valueSize classes field.type).toNat, alignment field⟩

/-- **Fields lie in their class**: the offsets of a sound layout meet `field_size` and
`static_size`. -/
theorem offset_add_valueSize_le {classes : C → Il2CppClass C} {alignment : FieldInfo C → UInt8}
    {fields : List (FieldInfo C)} {actualParentSize : UInt64} {packing : UInt8}
    {data : FieldLayout.FieldLayoutData}
    (hsound : FieldLayout.Sound actualParentSize packing
      (fields.map (toLayoutField classes alignment)) data)
    (hoffsets : fields.map (·.offset) = data.fieldOffsets.map fun o => (o.toNat : ℤ))
    (hsize : ∀ f ∈ fields, valueSize classes f.type < 2 ^ 64) {f : FieldInfo C} (hf : f ∈ fields) :
    0 ≤ f.offset ∧ f.offset + valueSize classes f.type ≤ data.classSize.toNat := by
  obtain ⟨i, hi, rfl⟩ := List.getElem_of_mem hf
  have hlen : data.fieldOffsets.length = fields.length := by
    rw [hsound.length_eq, List.length_map]
  have hoffset : fields[i].offset = (data.fieldOffsets[i].toNat : ℤ) := by
    have h := congrArg (fun offsets => offsets[i]?) hoffsets
    simpa [hi, hlen] using h
  have hin := hsound.withinClass (toLayoutField classes alignment fields[i], data.fieldOffsets[i])
    (List.mem_iff_getElem.2 ⟨i, by simp [hi, hlen], by simp⟩)
  have hclass := hsound.actual_le_classSize
  have hextent : valueSize classes fields[i].type ≤
      (toLayoutField classes alignment fields[i]).extentInBytes := by
    have hlt := hsize _ hf
    rw [FieldLayout.FieldInfo.extentInBytes, FieldLayout.toNat_stdMax]
    simp only [toLayoutField, UInt64.toNat_ofNat']
    omega
  simp only at hin
  rw [hoffset]
  constructor <;> omega

/-! ### The walk -/

/-- The walk goes into the value types that have references. -/
abbrev entered (T : ClassTable C) (k : C) : Prop := (T.classes k).hasReferences = true

/-- The bits that the walk through an object at `object` sets. -/
def visitedWords (T : ClassTable C) (object : ℤ) (k : C) : Set ℕ :=
  {i | ∃ offset f, T.FieldAt T.entered k offset f ∧ f.type.getUnderlyingType.setsBit = true ∧
    i = wordIndex (object + offset)}

/-- The bits that a field at `offset` sets. -/
def fieldWords (T : ClassTable C) (offset : ℤ) (type : FieldType C) : Set ℕ :=
  {i | (type.structClass = none ∧ type.getUnderlyingType.setsBit = true ∧ i = wordIndex offset) ∨
    ∃ c ∈ type.structClass, T.entered c ∧ i ∈ T.visitedWords (offset - sizeOfObject) c}

theorem marks_markField {words n : ℕ} {type : FieldType C} {offset : ℤ}
    (h : ∀ c ∈ type.structClass, ∀ object, Marks words (getBitmapNoInit T.classes n c object)
      (T.visitedWords object c)) :
    Marks words (markField T.classes (getBitmapNoInit T.classes n) type offset)
      (T.fieldWords offset type) := by
  unfold markField fieldWords
  cases hc : type.structClass with
  | some c =>
    simp only [Option.mem_some_iff, exists_eq_left', reduceCtorEq, false_and, false_or]
    split
    case isTrue hr => exact (h c hc (offset - sizeOfObject)).congr (by simp [entered, hr])
    case isFalse hr => exact Marks.pure.congr (by simp [entered, hr])
  | none =>
    simp only [Option.not_mem_none, false_and, exists_false, or_false, true_and]
    split
    case isTrue hb => exact (Marks.mark (by decide) _).congr (by simp [hb])
    case isFalse hb => exact Marks.pure.congr (by simp [hb])

theorem mem_visitedWords {object : ℤ} {k : C} {i : ℕ} :
    i ∈ T.visitedWords object k ↔
      (∃ f ∈ (T.classes k).fields, f.attrs.isStatic = false ∧
        i ∈ T.fieldWords (object + f.offset) f.type) ∨
      ∃ p ∈ (T.classes k).parent, i ∈ T.visitedWords object p := by
  constructor
  · rintro ⟨offset, f, hat, hb, rfl⟩
    cases hat with
    | own hf hs hc => exact .inl ⟨f, hf, hs, .inl ⟨hc, hb, rfl⟩⟩
    | inherited hp hat => exact .inr ⟨_, hp, offset, f, hat, hb, rfl⟩
    | nested hg hs hc hr hat =>
      refine .inl ⟨_, hg, hs, .inr ⟨_, hc, hr, _, f, hat, hb, ?_⟩⟩
      congr 1
      omega
  · rintro (⟨f, hf, hs, ⟨hc, hb, rfl⟩ | ⟨c, hc, hr, offset, g, hat, hb, rfl⟩⟩ |
      ⟨p, hp, offset, f, hat, hb, rfl⟩)
    · exact ⟨f.offset, f, .own hf hs hc, hb, rfl⟩
    · refine ⟨_, g, .nested hf hs hc hr hat, hb, ?_⟩
      congr 1
      omega
    · exact ⟨offset, f, .inherited hp hat, hb, rfl⟩

theorem skipped_eq (attrs : FieldAttributes) :
    (attrs.isStatic || attrs.hasFieldRVA) = attrs.isStatic := by
  have h := attrs.static_of_hasFieldRVA
  revert h
  cases attrs.isStatic <;> cases attrs.hasFieldRVA <;> simp

/-- **The walk** sets the bits of the fields that it visits, and ends. -/
theorem marks_getBitmapNoInit {words n : ℕ} {k : C} (object : ℤ) (hk : T.laidOut k)
    (hn : T.depth k < n) :
    Marks words (getBitmapNoInit T.classes n k object) (T.visitedWords object k) := by
  induction n generalizing k object with
  | zero => exact absurd hn (Nat.not_lt_zero _)
  | succ n ih =>
    have hfields : Marks words (fun bitmap => (T.classes k).fields.foldlM (fun bitmap field =>
        if field.attrs.isStatic || field.attrs.hasFieldRVA then some bitmap
        else markField T.classes (getBitmapNoInit T.classes n) field.type (object + field.offset)
          bitmap) bitmap)
        {i | ∃ f ∈ (T.classes k).fields, f.attrs.isStatic = false ∧
          i ∈ T.fieldWords (object + f.offset) f.type} := by
      refine Marks.foldlM _ fun f hf => ?_
      rw [skipped_eq]
      refine Marks.skipping fun hs => marks_markField fun c hc object => ?_
      have hdepth := T.struct_depth _ hk f hf hs c hc
      exact ih object (T.struct_laidOut _ hk f hf hs c hc) (by omega)
    have hparent : Marks words (fun bitmap => match (T.classes k).parent with
        | none => some bitmap
        | some parent => getBitmapNoInit T.classes n parent object bitmap)
        {i | ∃ p ∈ (T.classes k).parent, i ∈ T.visitedWords object p} := by
      cases hp : (T.classes k).parent with
      | none => exact Marks.pure.congr (by simp)
      | some p =>
        refine (ih object (T.parent_laidOut _ hk p hp) ?_).congr (by simp)
        have := T.parent_depth _ hk p hp
        omega
    refine (hfields.bind hparent).congr ?_
    ext i
    exact mem_visitedWords.symm

theorem marks_getStaticBitmap {words n : ℕ} {k : C} (hstatics : T.StaticsLaidOut k)
    (hn : ∀ f ∈ (T.classes k).fields, isNormalStatic f = true →
      ∀ c ∈ f.type.structClass, T.depth c < n) :
    Marks words (getStaticBitmap T.classes n k 0)
      {i | ∃ offset f, T.StaticFieldAt T.entered k offset f ∧
        f.type.getUnderlyingType.setsBit = true ∧ i = wordIndex offset} := by
  have hfields : Marks words (getStaticBitmap T.classes n k 0)
      {i | ∃ f ∈ (T.classes k).fields, (!isNormalStatic f) = false ∧
        i ∈ T.fieldWords (0 + f.offset) f.type} := by
    refine Marks.foldlM _ fun f hf => Marks.skipping fun hs => marks_markField fun c hc object => ?_
    have hs : isNormalStatic f = true := by simpa using hs
    exact marks_getBitmapNoInit object (hstatics f hf hs c hc) (hn f hf hs c hc)
  refine hfields.congr ?_
  ext i
  simp only [Bool.not_eq_false']
  constructor
  · rintro ⟨f, hf, hs, ⟨hc, hb, rfl⟩ | ⟨c, hc, hr, offset, g, hat, hb, rfl⟩⟩
    · exact ⟨f.offset, f, .own hf hs hc, hb, by rw [Int.zero_add]⟩
    · refine ⟨_, g, .nested hf hs hc hr hat, hb, ?_⟩
      congr 1
      omega
  · rintro ⟨offset, f, hat, hb, rfl⟩
    cases hat with
    | own hf hs hc => exact ⟨f, hf, hs, .inl ⟨hc, hb, by rw [Int.zero_add]⟩⟩
    | nested hg hs hc hr hat =>
      refine ⟨_, hg, hs, .inr ⟨_, hc, hr, _, f, hat, hb, ?_⟩⟩
      congr 1
      omega

/-! ### The fields that are visited -/

/-- The value types apart from `Ephemeron`. -/
abbrev NotEphemeron (T : ClassTable C) (k : C) : Prop := (T.classes k).isEphemeron = false

theorem setsBit_eq {type : FieldType C} (h : type ≠ .var ∧ type ≠ .mvar) :
    type.getUnderlyingType.setsBit = type.getUnderlyingType.isReference := by
  cases type with
  | var => exact absurd rfl h.1
  | mvar => exact absurd rfl h.2
  | simple tag => cases tag <;> rfl
  | valuetype v =>
    cases v with
    | enum base => cases base <;> rfl
    | struct => rfl
  | genericinst v =>
    rcases v with _ | _ | _
    · rfl
    · rename_i base
      cases base <;> rfl
    · rfl
  | _ => rfl

theorem not_isEphemeron_of_entered {k : C} (hk : T.laidOut k) (h : T.entered k) :
    T.NotEphemeron k := by
  rw [entered, T.hasReferences_eq k hk, layoutHasReferences] at h
  by_contra he
  rw [NotEphemeron, Bool.not_eq_false] at he
  have hfields : (T.classes k).fields.isEmpty = false := by
    simpa using T.isEphemeron_fields k he
  simp [hfields, he] at h

/-- **`has_references` is set when a field holds a reference** that is not in an `Ephemeron`, so the
walk goes into all value types that matter. -/
theorem FieldAt.entered {k : C} {offset : ℤ} {f : FieldInfo C}
    (h : T.FieldAt T.NotEphemeron k offset f) (hk : T.laidOut k)
    (hf : f.type.getUnderlyingType.isReference = true) :
    T.FieldAt T.entered k offset f ∧ (T.NotEphemeron k → T.entered k) := by
  induction h with
  | @own k f hmem hs hc =>
    refine ⟨.own hmem hs hc, fun he => ?_⟩
    have hne : (T.classes k).fields ≠ [] := List.ne_nil_of_mem hmem
    have hany : ((T.classes k).fields.any fun field =>
        !field.attrs.isStatic && fieldHasReferences T.classes field.type) = true :=
      List.any_eq_true.2 ⟨f, hmem, by simp [hs, fieldHasReferences, hf]⟩
    rw [ClassTable.entered, T.hasReferences_eq k hk, layoutHasReferences, he, hany]
    simp [hne]
  | @inherited k p offset f hp _ ih =>
    obtain ⟨hat, hr⟩ := ih (T.parent_laidOut _ hk p hp) hf
    refine ⟨.inherited hp hat, fun he => ?_⟩
    have hparent := hr (T.parent_isEphemeron _ hk p hp)
    rw [ClassTable.entered, T.hasReferences_eq k hk, layoutHasReferences, he, Option.mem_def.1 hp]
    simp [hparent]
  | @nested k c offset f g hg hs hc hi _ ih =>
    obtain ⟨hat, hr⟩ := ih (T.struct_laidOut _ hk g hg hs c hc) hf
    have hentered := hr hi
    refine ⟨.nested hg hs hc hentered hat, fun he => ?_⟩
    have hne : (T.classes k).fields ≠ [] := List.ne_nil_of_mem hg
    have hstruct : g.type.getUnderlyingType = g.type := by
      have hc' := Option.mem_def.1 hc
      unfold FieldType.getUnderlyingType
      split <;> simp_all [FieldType.structClass]
    have hany : ((T.classes k).fields.any fun field =>
        !field.attrs.isStatic && fieldHasReferences T.classes field.type) = true :=
      List.any_eq_true.2 ⟨g, hg, by
        simp [hs, fieldHasReferences, hstruct, Option.mem_def.1 hc, hentered]⟩
    rw [ClassTable.entered, T.hasReferences_eq k hk, layoutHasReferences, he, hany]
    simp [hne]

theorem FieldAt.notEphemeron {k : C} {offset : ℤ} {f : FieldInfo C}
    (h : T.FieldAt T.entered k offset f) (hk : T.laidOut k) :
    T.FieldAt T.NotEphemeron k offset f := by
  induction h with
  | own hmem hs hc => exact .own hmem hs hc
  | inherited hp _ ih => exact .inherited hp (ih (T.parent_laidOut _ hk _ hp))
  | nested hg hs hc hr _ ih =>
    have hlaid := T.struct_laidOut _ hk _ hg hs _ hc
    exact .nested hg hs hc (not_isEphemeron_of_entered hlaid hr) (ih hlaid)

/-! ### Exactness -/

theorem wordIndex_eq {offset : ℤ} (hlow : 0 ≤ offset) (hhigh : offset < 2 ^ 64) :
    (wordIndex offset : ℤ) = offset / sizeOfPointer := by
  rw [wordIndex, Int.emod_eq_of_lt hlow hhigh]
  simp only [sizeOfPointer]
  omega

theorem valueSize_of_isReference {type : FieldType C} (hc : type.structClass = none)
    (h : type.getUnderlyingType.isReference = true) :
    valueSize T.classes type = sizeOfPointer := by
  rw [valueSize, hc]
  generalize type.getUnderlyingType = ftype at h
  cases ftype with
  | simple tag => cases tag <;> first | rfl | cases h
  | _ => rfl

theorem FieldAt.structClass {into : C → Prop} {k : C} {offset : ℤ} {f : FieldInfo C}
    (h : T.FieldAt into k offset f) : f.type.structClass = none := by
  induction h with
  | own _ _ hc => exact hc
  | inherited _ _ ih => exact ih
  | nested _ _ _ _ _ ih => exact ih

theorem exact_of_marks {size : UInt32} {program : Buffer 64 → Option (Buffer 64)}
    {visited fieldAt : ℤ → FieldInfo C → Prop}
    (hmarks : Marks (bitmapWords size) program {i | ∃ offset f, visited offset f ∧
      f.type.getUnderlyingType.setsBit = true ∧ i = wordIndex offset})
    (hsame : ∀ offset f, visited offset f ∧ f.type.getUnderlyingType.setsBit = true ↔
      fieldAt offset f ∧ f.type.getUnderlyingType.isReference = true)
    (hbounds : ∀ offset f, fieldAt offset f → f.type.structClass = none ∧ 0 ≤ offset ∧
      offset + valueSize T.classes f.type ≤ size.toNat) :
    Exact size (program (.zero (bitmapWords size))) (referenceWords fieldAt) := by
  have hplace {offset : ℤ} {f : FieldInfo C} (hat : fieldAt offset f)
      (hr : f.type.getUnderlyingType.isReference = true) :
      0 ≤ offset ∧ offset + 8 ≤ size.toNat := by
    obtain ⟨hc, hlow, hhigh⟩ := hbounds offset f hat
    rw [valueSize_of_isReference hc hr] at hhigh
    exact ⟨hlow, hhigh⟩
  have hsize : size.toNat < 4294967296 := size.toNat_lt
  have hwords : {i | ∃ offset f, visited offset f ∧ f.type.getUnderlyingType.setsBit = true ∧
      i = wordIndex offset} = referenceWords fieldAt := by
    ext i
    simp only [referenceWords, Set.mem_ofPred_eq, ← and_assoc, hsame]
    refine exists_congr fun offset => exists_congr fun f => and_congr_right fun ⟨hat, hr⟩ => ?_
    obtain ⟨hlow, hhigh⟩ := hplace hat hr
    rw [← wordIndex_eq hlow (by omega), Int.natCast_inj]
  have hin : ∀ i ∈ referenceWords fieldAt, i / 64 < bitmapWords size := by
    rintro i ⟨offset, f, hat, hr, hi⟩
    obtain ⟨hlow, hhigh⟩ := hplace hat hr
    simp only [bitmapWords, sizeOfPointer] at hi ⊢
    omega
  rw [hwords] at hmarks
  obtain ⟨b, hb, hbits, hmax⟩ := hmarks.run_zero hin
  exact ⟨hin, b, hb, hbits, (hmax b.maxSetBit).1 (Nat.le_refl _)⟩

theorem Closed.fieldAt_iff {k : C} (hclosed : T.Closed k) (hk : T.laidOut k) {offset : ℤ}
    {f : FieldInfo C} :
    T.FieldAt T.entered k offset f ∧ f.type.getUnderlyingType.setsBit = true ↔
      T.FieldAt T.NotEphemeron k offset f ∧ f.type.getUnderlyingType.isReference = true := by
  constructor
  · rintro ⟨hat, hb⟩
    rw [setsBit_eq (hclosed offset f (.inl (hat.mono fun _ _ => trivial)))] at hb
    exact ⟨hat.notEphemeron hk, hb⟩
  · rintro ⟨hat, hr⟩
    rw [setsBit_eq (hclosed offset f (.inl (hat.mono fun _ _ => trivial)))]
    exact ⟨(hat.entered hk hr).1, hr⟩

theorem StaticFieldAt.mono {into into' : C → Prop} (hinto : ∀ c, into c → into' c) {k : C}
    {offset : ℤ} {f : FieldInfo C} (h : T.StaticFieldAt into k offset f) :
    T.StaticFieldAt into' k offset f := by
  cases h with
  | own hf hs hc => exact .own hf hs hc
  | nested hg hs hc hi hat => exact .nested hg hs hc (hinto _ hi) (hat.mono hinto)

theorem Closed.staticFieldAt_iff {k : C} (hclosed : T.Closed k) (hstatics : T.StaticsLaidOut k)
    {offset : ℤ} {f : FieldInfo C} :
    T.StaticFieldAt T.entered k offset f ∧ f.type.getUnderlyingType.setsBit = true ↔
      T.StaticFieldAt T.NotEphemeron k offset f ∧
        f.type.getUnderlyingType.isReference = true := by
  constructor
  · rintro ⟨hat, hb⟩
    rw [setsBit_eq (hclosed offset f (.inr (hat.mono fun _ _ => trivial)))] at hb
    refine ⟨?_, hb⟩
    cases hat with
    | own hf hs hc => exact .own hf hs hc
    | nested hg hs hc hi hat =>
      have hlaid := hstatics _ hg hs _ hc
      exact .nested hg hs hc (not_isEphemeron_of_entered hlaid hi) (hat.notEphemeron hlaid)
  · rintro ⟨hat, hr⟩
    rw [setsBit_eq (hclosed offset f (.inr (hat.mono fun _ _ => trivial)))]
    refine ⟨?_, hr⟩
    cases hat with
    | own hf hs hc => exact .own hf hs hc
    | nested hg hs hc hi hat =>
      obtain ⟨hat', hentered⟩ := hat.entered (hstatics _ hg hs _ hc) hr
      exact .nested hg hs hc (hentered hi) hat'

theorem instanceBitmap_exact {k : C} (hk : T.laidOut k) (hclosed : T.Closed k) {n : ℕ}
    (hn : T.depth k < n) :
    Exact (T.classes k).instanceSize (instanceBitmap T.classes n k)
      (referenceWords (T.FieldAt T.NotEphemeron k)) := by
  refine exact_of_marks (T := T) ((marks_getBitmapNoInit 0 hk hn).congr ?_)
    (fun _ _ => hclosed.fieldAt_iff hk) fun offset f hat => ?_
  · simp only [visitedWords, Int.zero_add]
  · have hbounds := hat.bounds hk
    simp only [sizeOfObject] at hbounds
    exact ⟨hat.structClass, by omega, hbounds.2⟩

theorem staticBitmap_exact {k : C} (hk : T.laidOut k) (hclosed : T.Closed k)
    (hstatics : T.StaticsLaidOut k) {n : ℕ}
    (hn : ∀ f ∈ (T.classes k).fields, isNormalStatic f = true →
      ∀ c ∈ f.type.structClass, T.depth c < n) :
    Exact (T.classes k).staticFieldsSize (staticBitmap T.classes n k)
      (referenceWords (T.StaticFieldAt T.NotEphemeron k)) := by
  refine exact_of_marks (T := T) (marks_getStaticBitmap hstatics hn)
    (fun _ _ => hclosed.staticFieldAt_iff hstatics) fun offset f hat => ?_
  refine ⟨?_, hat.bounds hk hstatics⟩
  cases hat with
  | own _ _ hc => exact hc
  | nested _ _ _ _ hat => exact hat.structClass

theorem exists_depth_bound (k : C) : ∃ n, T.depth k < n ∧
    ∀ f ∈ (T.classes k).fields, ∀ c ∈ f.type.structClass, T.depth c < n := by
  induction (T.classes k).fields with
  | nil => exact ⟨_, Nat.lt_succ_self _, by simp⟩
  | cons f fields ih =>
    obtain ⟨n, hk, hfields⟩ := ih
    cases hc : f.type.structClass with
    | none => exact ⟨n, hk, List.forall_mem_cons.2 ⟨by simp [hc], hfields⟩⟩
    | some c =>
      refine ⟨max n (T.depth c + 1), by omega, List.forall_mem_cons.2 ⟨?_, fun g hg d hd => ?_⟩⟩
      · rw [hc]
        intro d hd
        obtain rfl := Option.mem_some_iff.1 hd
        omega
      · have := hfields g hg d hd
        omega

/-- **The bitmaps of a class.**  For a class that has been laid out, with the value types of its
static fields, and has no field of the type of a type parameter, both bitmaps have the bits of the
references that are in no value of type `Ephemeron`, and all writes are inside of the buffers. -/
theorem bitmaps_exact (T : ClassTable C) {k : C} (hk : T.laidOut k)
    (hstatics : T.StaticsLaidOut k) (hclosed : T.Closed k) :
    ∃ N, ∀ n, N ≤ n →
      Exact (T.classes k).instanceSize (instanceBitmap T.classes n k)
        (referenceWords (T.FieldAt T.NotEphemeron k)) ∧
      Exact (T.classes k).staticFieldsSize (staticBitmap T.classes n k)
        (referenceWords (T.StaticFieldAt T.NotEphemeron k)) := by
  obtain ⟨N, hdepth, hfields⟩ := T.exists_depth_bound k
  refine ⟨N, fun n hn => ⟨instanceBitmap_exact hk hclosed (by omega),
    staticBitmap_exact hk hclosed hstatics fun f hf _ c hc => ?_⟩⟩
  have := hfields f hf c hc
  omega

/-! ### A class with an `Ephemeron` -/

/-- Some classes. -/
inductive Sample
  | object
  | pair
  | ephemeron
  | holder

/-- An instance field. -/
def instanceField (type : FieldType Sample) (offset : ℤ) (h : sizeOfObject ≤ offset) :
    FieldInfo Sample :=
  ⟨⟨false, false, false, nofun, nofun⟩, type, offset, fun _ => h⟩

/-- A static field. -/
def staticField (type : FieldType Sample) (offset : ℤ) : FieldInfo Sample :=
  ⟨⟨true, false, false, nofun, nofun⟩, type, offset, nofun⟩

/-- `pair` is a value type.  `holder` has a pair, an object and an `Ephemeron`, and a static pair
and a static array. -/
def sampleClasses : Sample → Il2CppClass Sample
  | .object => ⟨false, none, [], 16, 0, false⟩
  | .pair => ⟨false, some .object,
      [instanceField (.simple .string) 16 (by decide), instanceField (.simple .i4) 24 (by decide)],
      32, 0, true⟩
  | .ephemeron => ⟨true, some .object,
      [instanceField (.simple .object) 16 (by decide),
        instanceField (.simple .object) 24 (by decide)],
      32, 0, false⟩
  | .holder => ⟨false, some .object,
      [instanceField (.valuetype (.struct .pair)) 16 (by decide),
        instanceField (.simple .object) 32 (by decide),
        instanceField (.valuetype (.struct .ephemeron)) 40 (by decide),
        staticField (.valuetype (.struct .pair)) 0, staticField .szarray 16],
      56, 24, true⟩

def sample : ClassTable Sample where
  classes := sampleClasses
  laidOut _ := True
  depth
    | .object => 0
    | .pair => 1
    | .ephemeron => 1
    | .holder => 2
  parent_laidOut _ _ _ _ := trivial
  parent_depth k _ := by cases k <;> simp [sampleClasses]
  parent_isEphemeron k _ := by cases k <;> simp [sampleClasses]
  parent_size k _ := by cases k <;> simp [sampleClasses]
  struct_laidOut _ _ _ _ _ _ _ := trivial
  struct_depth k _ := by
    cases k <;> simp [sampleClasses, instanceField, staticField, FieldType.structClass]
  field_size k _ := by
    cases k <;> simp [sampleClasses, instanceField, staticField, FieldType.structClass, valueSize,
      FieldType.getUnderlyingType, sizeOfPointer, sizeOfObject]
  static_size k _ := by
    cases k <;> simp [sampleClasses, instanceField, staticField, FieldType.structClass, valueSize,
      FieldType.getUnderlyingType, isNormalStatic, threadStaticFieldOffset, sizeOfPointer,
      sizeOfObject]
  hasReferences_eq k _ := by cases k <;> rfl
  isEphemeron_fields k := by cases k <;> simp [sampleClasses]

theorem FieldAt.exists_mem {into : C → Prop} {k : C} {offset : ℤ} {f : FieldInfo C}
    (h : T.FieldAt into k offset f) : ∃ c, f ∈ (T.classes c).fields := by
  induction h with
  | own hf _ _ => exact ⟨_, hf⟩
  | inherited _ _ ih => exact ih
  | nested _ _ _ _ _ ih => exact ih

theorem sample_closed (k : Sample) : sample.Closed k := by
  have hmem : ∀ c, ∀ f ∈ (sample.classes c).fields, f.type ≠ .var ∧ f.type ≠ .mvar := by
    intro c
    cases c <;> simp [sample, sampleClasses, instanceField, staticField]
  rintro offset f (hat | hat)
  · obtain ⟨c, hc⟩ := hat.exists_mem
    exact hmem c f hc
  · cases hat with
    | own hf _ _ => exact hmem _ _ hf
    | nested _ _ _ _ hat =>
      obtain ⟨c, hc⟩ := hat.exists_mem
      exact hmem c f hc

theorem bitmaps_exact_sample : ∃ N, ∀ n, N ≤ n →
    Exact 56 (instanceBitmap sampleClasses n .holder)
      (referenceWords (sample.FieldAt sample.NotEphemeron .holder)) ∧
    Exact 24 (staticBitmap sampleClasses n .holder)
      (referenceWords (sample.StaticFieldAt sample.NotEphemeron .holder)) :=
  bitmaps_exact sample (k := .holder) trivial (fun _ _ _ _ _ => trivial) (sample_closed .holder)

/-- **An embedded `Ephemeron` has no bits.**  Its key in a `holder` is a reference at offset 40. -/
theorem not_bitmaps_exact : ¬ ∀ (C : Type) (T : ClassTable C) (k : C), T.laidOut k →
    T.StaticsLaidOut k → T.Closed k → ∃ N, ∀ n, N ≤ n →
      Exact (T.classes k).instanceSize (instanceBitmap T.classes n k)
        (referenceWords (T.FieldAt (fun _ => True) k)) := by
  intro h
  obtain ⟨N, hN⟩ := h Sample sample .holder trivial (fun _ _ _ _ _ => trivial)
    (sample_closed .holder)
  obtain ⟨-, b, hb, hbits, -⟩ := hN (N + 3) (Nat.le_add_right N 3)
  have hrun : instanceBitmap sample.classes (N + 3) .holder = some ⟨[20#64], 4⟩ := rfl
  let key := instanceField (.simple .object) 16 (by decide)
  have hown : sample.FieldAt (fun _ => True) .ephemeron key.offset key := .own (.head _) rfl rfl
  have hkey : sample.FieldAt (fun _ => True) .holder (40 + key.offset - sizeOfObject) key :=
    .nested (g := instanceField (.valuetype (.struct .ephemeron)) 40 (by decide))
      (by simp [sample, sampleClasses]) rfl rfl trivial hown
  have hset := (hbits 5).2 ⟨_, _, hkey, rfl, rfl⟩
  rw [hrun] at hb
  cases hb
  exact absurd hset (by decide)

end ClassTable

end Il2Cpp.GCBitmap
