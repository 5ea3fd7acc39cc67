import Il2Cpp.Liveness.Report

/-!
# The descriptors and the fields

An object is looked through with the descriptor of its class, or by walking its fields.  Which of
the two it is depends on whether the class has got a bitmap descriptor.  They add the same
references unless one is held only by a string field, or only by a field in a value type without
`has_references`.

* `Adds` : the references that are added to the liveness state.
* `Agree` : the two ways add the same references.
* `agree_iff` : when they do.
* `string_field` : a string in a field is added only with a descriptor.
-/

namespace Il2Cpp

namespace Liveness

variable {K Addr : Type} [DecidableEq K] (T : TypeSystem K) (H : Heap K Addr) (filter : Option K)

/-- A field at one of the places holds a reference to the object. -/
def HeldAt (object : Addr) (place : ℤ → Prop) (val : Addr) : Prop :=
  ∃ x, place x ∧ H.read object x = some val

/-- The fields that `TraverseObjectInternal` looks at. -/
def Walked (object : Addr) : ℤ → Prop :=
  T.FieldPlace (fun _ => true) (·.isWalked) (H.classOf object) (H.length object)

/-- The fields in the bitmap of the class. -/
def Bitmapped (object : Addr) : ℤ → Prop :=
  T.FieldPlace Il2CppClass.hasReferences (·.isBitmapped) (H.classOf object) (H.length object)

/-- The fields in the bitmap that are strings or of the type of a type parameter. -/
def BitmappedOnly (object : Addr) : ℤ → Prop :=
  T.FieldPlace Il2CppClass.hasReferences (fun type => type.isBitmapped && !type.isWalked)
    (H.classOf object) (H.length object)

/-- `x` is the place of a field that is not in the bitmap: it lies in a value type without
references. -/
def WalkedOnly (object : Addr) (x : ℤ) : Prop := Walked T H object x ∧ ¬ Bitmapped T H object x

namespace LivenessState

/-- The references in an object, as they are read without descriptors. -/
def fieldReferences (object : Addr) : List (List (Option Addr)) :=
  (T.fieldPlaces (H.classOf object) (H.length object)).map (·.map (H.read object))

variable [DecidableEq Addr]

/-- With the descriptors and by walking the fields the same references of an object are added, to
the objects that are marked and to the work list. -/
def Agree (object : Addr) (s : LivenessState Addr) : Prop :=
  let byDescriptor := (s.addProcessObjects T H filter (references T H object).flatten).2
  let byFields := (s.addProcessObjects T H filter (fieldReferences T H object).flatten).2
  ∀ val, (byDescriptor.marked val = true ↔ byFields.marked val = true) ∧
    (val ∈ byDescriptor.processArray ↔ val ∈ byFields.processArray)

variable {T H filter} {s : LivenessState Addr}

theorem addProcessObject_marked (object : Option Addr) (s : LivenessState Addr) (x : Addr) :
    (s.addProcessObject T H filter object).2.marked x = true ↔
      s.marked x = true ∨ object = some x ∧ Wanted T H filter x := by
  cases object with
  | none => simp [addProcessObject]
  | some object =>
    rw [addProcessObject]
    split_ifs with hm hr hp
    · simp only [Option.some.injEq]
      exact ⟨.inl, fun h => h.elim id fun h => h.1 ▸ hm⟩
    · have hw : Wanted T H filter object := .inl hr
      simp only [push, marked_mark, Option.some.injEq]
      grind
    · have hw : Wanted T H filter object := .inr hp
      simp only [marked_mark, Option.some.injEq]
      grind
    · have hw : ¬ Wanted T H filter object := fun hw => hw.elim hr hp
      simp only [Option.some.injEq]
      grind

theorem addProcessObject_processArray (object : Option Addr) (s : LivenessState Addr) (x : Addr) :
    x ∈ (s.addProcessObject T H filter object).2.processArray ↔
      x ∈ s.processArray ∨ s.marked x = false ∧ object = some x ∧ Inner T H x := by
  cases object with
  | none => simp [addProcessObject]
  | some object =>
    rw [addProcessObject]
    split_ifs with hm hr hp
    · grind
    · have hi : Inner T H object := hr
      simp only [push, mark, List.mem_cons, Option.some.injEq]
      grind
    · simp only [mark, Inner]
      grind
    · simp only [Inner]
      grind

theorem addProcessObjects_marked (objects : List (Option Addr)) (s : LivenessState Addr) (x : Addr) :
    (s.addProcessObjects T H filter objects).2.marked x = true ↔
      s.marked x = true ∨ some x ∈ objects ∧ Wanted T H filter x := by
  induction objects generalizing s with
  | nil => simp [addProcessObjects]
  | cons object objects ih =>
    simp only [addProcessObjects]
    rw [ih, addProcessObject_marked, List.mem_cons]
    grind

theorem addProcessObjects_processArray (objects : List (Option Addr)) (s : LivenessState Addr)
    (x : Addr) :
    x ∈ (s.addProcessObjects T H filter objects).2.processArray ↔
      x ∈ s.processArray ∨ s.marked x = false ∧ some x ∈ objects ∧ Inner T H x := by
  induction objects generalizing s with
  | nil => simp [addProcessObjects]
  | cons object objects ih =>
    simp only [addProcessObjects]
    have hmarked : (s.addProcessObject T H filter object).2.marked x = true ↔ _ :=
      addProcessObject_marked object s x
    have hwanted : Inner T H x → Wanted T H filter x := .inl
    rw [ih, addProcessObject_processArray, List.mem_cons, ← Bool.not_eq_true
      ((s.addProcessObject T H filter object).2.marked x), hmarked]
    grind

omit [DecidableEq K] [DecidableEq Addr] in
theorem mem_fieldReferences {object val : Addr} :
    some val ∈ (fieldReferences T H object).flatten ↔
      ∃ x ∈ (T.fieldPlaces (H.classOf object) (H.length object)).flatten,
        H.read object x = some val := by
  rw [fieldReferences, ← List.map_flatten, List.mem_map]

theorem agree_iff_references {object : Addr} :
    Agree T H filter object s ↔ ∀ val, s.marked val = false → Wanted T H filter val →
      (some val ∈ (references T H object).flatten ↔
        some val ∈ (fieldReferences T H object).flatten) := by
  have hwanted (val : Addr) : Inner T H val → Wanted T H filter val := .inl
  simp only [Agree, addProcessObjects_marked, addProcessObjects_processArray]
  constructor
  · intro h val hm hw
    have := (h val).1
    simpa [hm, hw] using this
  · intro h val
    have := h val
    have := hwanted val
    grind

end LivenessState

open LivenessState

omit [DecidableEq K] in
theorem elements_eq_nil {p : FieldType Il2CppClass → Bool} {into : Il2CppClass → Bool} {k : K}
    {n : ℕ} {x : ℤ} (h : T.FieldPlace into p k n x) : T.elements k n = [] := by
  obtain ⟨start, hs, -⟩ := h
  rw [TypeSystem.elements]
  rw [TypeSystem.starts] at hs
  split
  · rfl
  · simp_all

omit [DecidableEq K] in
theorem bitmapped_iff {object : Addr} {x : ℤ} :
    Bitmapped T H object x ↔ BitmappedOnly T H object x ∨ Bitmapped T H object x ∧ Walked T H object x := by
  constructor
  · intro h
    have h' := h
    obtain ⟨start, hs, offset, f, hf, hb, hx⟩ := h'
    cases hw : f.type.isWalked
    · exact .inl ⟨start, hs, offset, f, hf, by simp [hb, hw], hx⟩
    · exact .inr ⟨h, start, hs, offset, f, hf.mono fun _ _ => rfl, hw, hx⟩
  · rintro (⟨start, hs, offset, f, hf, hb, hx⟩ | ⟨h, -⟩)
    · exact ⟨start, hs, offset, f, hf, (Bool.and_eq_true_iff.1 hb).1, hx⟩
    · exact h

omit [DecidableEq K] in
theorem exists_elements_or {object val : Addr} {place : ℤ → Prop}
    (h : T.elements (H.classOf object) (H.length object) = []) :
    (∃ x, (x ∈ T.elements (H.classOf object) (H.length object) ∨ place x) ∧
      H.read object x = some val) ↔ HeldAt H object place val := by
  simp [h, HeldAt]

variable {T H} {filter : Option K} [DecidableEq Addr] {s : LivenessState Addr}

/-- **When the descriptors and the fields agree.**  If the class whose fields lie in the object has
a bitmap descriptor, each reference that is added and is in a string field, or in a field in a value
type without references, is in another field too that the other way looks at. -/
theorem agree_iff {object : Addr} :
    Agree T H filter object s ↔
      (T.hasDescriptor (T.fieldClass (H.classOf object)) = true →
        ∀ val, s.marked val = false → Wanted T H filter val →
          (HeldAt H object (BitmappedOnly T H object) val → HeldAt H object (Walked T H object) val) ∧
          (HeldAt H object (WalkedOnly T H object) val →
            HeldAt H object (Bitmapped T H object) val)) := by
  rw [agree_iff_references]
  simp only [mem_references, mem_fieldReferences, TypeSystem.mem_descriptorPlaces,
    TypeSystem.mem_fieldPlaces]
  by_cases hd : T.hasDescriptor (T.fieldClass (H.classOf object)) = true
  · simp only [hd, if_true, true_imp_iff]
    refine forall_congr' fun val => imp_congr_right fun _ => imp_congr_right fun _ => ?_
    constructor
    · intro h
      constructor
      · rintro ⟨x, hx, hr⟩
        have hnil := elements_eq_nil T hx
        exact (exists_elements_or T H hnil).1
          (h.1 ⟨x, .inr ((bitmapped_iff T H).2 (.inl hx)), hr⟩)
      · rintro ⟨x, ⟨hx, _⟩, hr⟩
        have hnil := elements_eq_nil T hx
        exact (exists_elements_or T H hnil).1 (h.2 ⟨x, .inr hx, hr⟩)
    · rintro ⟨hstring, hvalue⟩
      constructor
      · rintro ⟨x, hx | hx, hr⟩
        · exact ⟨x, .inl hx, hr⟩
        · rcases (bitmapped_iff T H).1 hx with hx | ⟨-, hx⟩
          · obtain ⟨y, hy, hr⟩ := hstring ⟨x, hx, hr⟩
            exact ⟨y, .inr hy, hr⟩
          · exact ⟨x, .inr hx, hr⟩
      · rintro ⟨x, hx | hx, hr⟩
        · exact ⟨x, .inl hx, hr⟩
        · by_cases hb : Bitmapped T H object x
          · exact ⟨x, .inr hb, hr⟩
          · obtain ⟨y, hy, hr⟩ := hvalue ⟨x, ⟨hx, hb⟩, hr⟩
            exact ⟨y, .inr hy, hr⟩
  · simp [hd]

/-- An object of the class `Holder` whose `name` is a string. -/
def namedHeap : Heap Bool Bool where
  classOf object := object
  read
    | true, 16 => some false
    | _, _ => none
  length _ := 0
  staticFieldData := []
  readStatic _ _ := none

/-- The string in the field is added with the descriptor only. -/
theorem string_field :
    ((initial : LivenessState Bool).addProcessObjects holderTypes namedHeap none
        (references holderTypes namedHeap true).flatten).2.allObjects = [false] ∧
      ((initial : LivenessState Bool).addProcessObjects holderTypes namedHeap none
        (fieldReferences holderTypes namedHeap true).flatten).2.allObjects = [] ∧
      ¬ Agree holderTypes namedHeap none true initial := by
  refine ⟨by decide, by decide, fun h => ?_⟩
  exact absurd (h false).1 (by decide)

end Liveness

end Il2Cpp
