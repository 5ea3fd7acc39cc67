import Il2Cpp.Metadata.Il2CppType

/-!
# The fields of a class that hold references

A class with what its value-type fields embed is a finite tree: the fields of a value type lie in
the object itself.  The fields are looked through in two ways, by `TraverseObjectInternal` and by
`GetBitmapNoInit`, which differ in the types that they take for references and in the value types
that they look into.

* `Il2CppClass` : a class, its fields and its parents.
* `Il2CppClass.hasReferences` : the flag `has_references`, as `LayoutFieldsLocked` computes it.
* `Il2CppClass.places` : the walk through the fields, with what the two ways differ in as
  parameters.
* `traverseObjectInternal`, `bitmapOffsets` : the two ways.
* `FieldAt`, `mem_places` : what is a field of an object, and that the walk finds these.
-/

namespace Il2Cpp

namespace Liveness

/-- `sizeof(Il2CppObject)`: the class pointer and the monitor. -/
abbrev sizeOfObject : ℤ := 16

/-- `sizeof(void*)`. -/
abbrev sizeOfPointer : ℤ := 8

/-- The flags of a field.  A literal field and a field with an RVA are static. -/
structure FieldAttributes where
  isStatic : Bool
  literal : Bool
  hasFieldRVA : Bool
  static_of_literal : literal = true → isStatic = true
  static_of_hasFieldRVA : hasFieldRVA = true → isStatic = true

/-- A value type: an enumeration with its base type, or another one, whose fields lie in the
field. -/
inductive ValueType (C : Type) where
  | enum (base : SimpleType)
  | struct (klass : C)

/-- The type of a field, with the class of a value type.  A field is not `byref`. -/
inductive FieldType (C : Type) where
  | simple (tag : SimpleType)
  | ptr
  | klass
  | szarray
  | array
  | var
  | mvar
  | valuetype (type : ValueType C)
  /-- An instance of a generic value type, or of a generic reference type. -/
  | genericinst (type : Option (ValueType C))

/-- `FieldInfo`.  An instance field lies behind the object header, also in a value type. -/
structure FieldInfo (C : Type) where
  attrs : FieldAttributes
  type : FieldType C
  offset : ℤ
  header_le : attrs.isStatic = false → sizeOfObject ≤ offset

/-- The part of `Il2CppClass` that describes the fields. -/
inductive Il2CppClass where
  | mk (isEphemeron : Bool) (parent : Option Il2CppClass) (fields : List (FieldInfo Il2CppClass))

namespace FieldType

variable {C : Type}

/-- `Type::GetUnderlyingType`. -/
def getUnderlyingType : FieldType C → FieldType C
  | valuetype (.enum base) | genericinst (some (.enum base)) => simple base
  | type => type

/-- The class of a value type whose fields lie in the field. -/
def structClass : FieldType C → Option C
  | valuetype (.struct k) | genericinst (some (.struct k)) => some k
  | _ => none

/-- `Type::IsStruct`. -/
def isStruct : FieldType C → Bool
  | simple .typedbyref => true
  | type => type.structClass.isSome

/-- `Type::IsReference`. -/
def isReference : FieldType C → Bool
  | simple .string | simple .object | szarray | klass | array | genericinst none => true
  | _ => false

/-- The type is `IL2CPP_TYPE_STRING`. -/
def isString : FieldType C → Bool
  | simple .string => true
  | _ => false

/-- `LivenessState::FieldCanContainReferences`. -/
def fieldCanContainReferences (attrs : FieldAttributes) (type : FieldType C) : Bool :=
  if type.isStruct then true
  else if attrs.literal then false
  else if type.isString then false
  else type.isReference

/-- `TraverseObjectInternal` adds the value of a field of this type.  (The class of a
`TYPEDBYREF` does not exist: no field is of this type.) -/
def isTraversed (attrs : FieldAttributes) (type : FieldType C) : Bool :=
  type.fieldCanContainReferences attrs && !type.isStruct

/-- The types of `GetBitmapNoInit`'s `switch` that set a bit. -/
def setsBit : FieldType C → Bool
  | simple .string | simple .object | szarray | klass | array | var | mvar | genericinst none =>
    true
  | _ => false

/-- `GetBitmapNoInit` sets the bit of a field of this type. -/
def isBitmapped (type : FieldType C) : Bool := type.getUnderlyingType.setsBit

end FieldType

namespace Il2CppClass

/-- The class is the `Ephemeron` of corlib. -/
def isEphemeron : Il2CppClass → Bool
  | mk isEphemeron _ _ => isEphemeron

def parent : Il2CppClass → Option Il2CppClass
  | mk _ parent _ => parent

def fields : Il2CppClass → List (FieldInfo Il2CppClass)
  | mk _ _ fields => fields

section

variable {P : Il2CppClass → Prop}
  (h : ∀ k : Il2CppClass, (∀ p ∈ k.parent, P p) →
    (∀ f ∈ k.fields, ∀ c ∈ f.type.structClass, P c) → P k)

include h

set_option linter.unusedSectionVars false in
mutual

/-- **Induction over a class**, its parent and the value types of its fields. -/
theorem induction : ∀ k, P k
  | mk isEphemeron parent fields =>
    h (mk isEphemeron parent fields) (parent_induction parent) (fields_induction fields)

private theorem parent_induction : ∀ parent : Option Il2CppClass, ∀ p ∈ parent, P p
  | none, _, hp => by cases hp
  | some k, p, hp => by
    cases hp
    exact induction k

private theorem fields_induction :
    ∀ fields : List (FieldInfo Il2CppClass), ∀ f ∈ fields, ∀ c ∈ f.type.structClass, P c
  | [], f, hf, _, _ => by cases hf
  | ⟨attrs, type, offset, header⟩ :: fields, f, hf, c, hc => by
    rcases List.mem_cons.1 hf with rfl | hf
    · exact type_induction type c hc
    · exact fields_induction fields f hf c hc

private theorem type_induction :
    ∀ type : FieldType Il2CppClass, ∀ c ∈ type.structClass, P c
  | .valuetype (.struct k), c, hc => by
    cases hc
    exact induction k
  | .genericinst (some (.struct k)), c, hc => by
    cases hc
    exact induction k
  | .valuetype (.enum _), _, hc | .genericinst none, _, hc
  | .genericinst (some (.enum _)), _, hc | .simple _, _, hc | .ptr, _, hc | .klass, _, hc
  | .szarray, _, hc | .array, _, hc | .var, _, hc | .mvar, _, hc => by cases hc

end

end

mutual

/-- `has_references`, as `LayoutFieldsLocked` computes it. -/
def hasReferences : Il2CppClass → Bool
  | mk isEphemeron parent fields =>
    !isEphemeron && (parentHasReferences parent || fieldsHaveReferences fields)

def parentHasReferences : Option Il2CppClass → Bool
  | none => false
  | some klass => klass.hasReferences

def fieldsHaveReferences : List (FieldInfo Il2CppClass) → Bool
  | [] => false
  | ⟨attrs, type, _, _⟩ :: fields =>
    (!attrs.isStatic && match type with
      | .valuetype (.struct klass) | .genericinst (some (.struct klass)) => klass.hasReferences
      | type => type.getUnderlyingType.isReference) || fieldsHaveReferences fields

end

section

variable (skip : FieldAttributes → Bool) (counts : FieldAttributes → FieldType Il2CppClass → Bool)
  (into : Il2CppClass → Bool)

mutual

/-- The walk through the fields of a class and its parents: the places of the references in an
object at `object`.  It skips some fields, counts some types as references, and goes into some
value types. -/
def places (object : ℤ) : Il2CppClass → List ℤ
  | mk _ parent fields => fieldPlaces object fields ++ parentPlaces object parent

def parentPlaces (object : ℤ) : Option Il2CppClass → List ℤ
  | none => []
  | some klass => klass.places object

def fieldPlaces (object : ℤ) : List (FieldInfo Il2CppClass) → List ℤ
  | [] => []
  | ⟨attrs, type, offset, _⟩ :: fields =>
    (if skip attrs then [] else
      match type with
      | .valuetype (.struct klass) | .genericinst (some (.struct klass)) =>
        -- the offsets in a value type include the object header
        if into klass then klass.places (object + offset - sizeOfObject) else []
      | type => if counts attrs type then [object + offset] else []) ++ fieldPlaces object fields

end

end

/-- Field `f` of an object of class `k` lies at `offset`: it is a field of the class or of a
parent, or of a value type in such a field that the walk goes into. -/
inductive FieldAt (into : Il2CppClass → Bool) : Il2CppClass → ℤ → FieldInfo Il2CppClass → Prop
  | own {k : Il2CppClass} {f : FieldInfo Il2CppClass} :
      f ∈ k.fields → f.attrs.isStatic = false → f.type.structClass = none → FieldAt into k f.offset f
  | inherited {k p : Il2CppClass} {offset : ℤ} {f : FieldInfo Il2CppClass} :
      p ∈ k.parent → FieldAt into p offset f → FieldAt into k offset f
  | nested {k c : Il2CppClass} {offset : ℤ} {f g : FieldInfo Il2CppClass} :
      g ∈ k.fields → g.attrs.isStatic = false → c ∈ g.type.structClass → into c = true →
      FieldAt into c offset f → FieldAt into k (g.offset + offset - sizeOfObject) f

namespace FieldAt

variable {into into' : Il2CppClass → Bool} {k : Il2CppClass} {offset : ℤ}
  {f : FieldInfo Il2CppClass}

theorem isStatic (h : FieldAt into k offset f) : f.attrs.isStatic = false := by
  induction h with
  | own _ hs _ => exact hs
  | inherited _ _ ih => exact ih
  | nested _ _ _ _ _ ih => exact ih

theorem structClass (h : FieldAt into k offset f) : f.type.structClass = none := by
  induction h with
  | own _ _ hc => exact hc
  | inherited _ _ ih => exact ih
  | nested _ _ _ _ _ ih => exact ih

theorem header_le (h : FieldAt into k offset f) : sizeOfObject ≤ offset := by
  induction h with
  | own _ hs _ => exact FieldInfo.header_le _ hs
  | inherited _ _ ih => exact ih
  | nested _ hs _ _ _ ih =>
    have := FieldInfo.header_le _ hs
    omega

theorem mono (hinto : ∀ c, into c = true → into' c = true) (h : FieldAt into k offset f) :
    FieldAt into' k offset f := by
  induction h with
  | own hf hs hc => exact .own hf hs hc
  | inherited hp _ ih => exact .inherited hp ih
  | nested hg hs hc hi _ ih => exact .nested hg hs hc (hinto _ hi) ih

end FieldAt

section

variable {skip : FieldAttributes → Bool} {counts : FieldAttributes → FieldType Il2CppClass → Bool}
  {into : Il2CppClass → Bool}

theorem mem_fieldPlaces {object x : ℤ} {fields : List (FieldInfo Il2CppClass)} :
    x ∈ fieldPlaces skip counts into object fields ↔
      ∃ f ∈ fields, skip f.attrs = false ∧
        ((∃ c ∈ f.type.structClass, into c = true ∧
            x ∈ c.places skip counts into (object + f.offset - sizeOfObject)) ∨
          f.type.structClass = none ∧ counts f.attrs f.type = true ∧ x = object + f.offset) := by
  induction fields with
  | nil => simp [fieldPlaces]
  | cons f fields ih =>
    obtain ⟨attrs, type, offset, header⟩ := f
    cases type with
    | valuetype v => cases v <;> cases hs : skip attrs <;> simp [fieldPlaces, ih, hs,
        FieldType.structClass]
    | genericinst v =>
      rcases v with _ | v
      · cases hs : skip attrs <;> simp [fieldPlaces, ih, hs, FieldType.structClass]
      · cases v <;> cases hs : skip attrs <;> simp [fieldPlaces, ih, hs, FieldType.structClass]
    | _ => cases hs : skip attrs <;> simp [fieldPlaces, ih, hs, FieldType.structClass]

theorem mem_places (hskip : ∀ attrs, skip attrs = attrs.isStatic) {k : Il2CppClass} {object x : ℤ} :
    x ∈ k.places skip counts into object ↔
      ∃ offset f, FieldAt into k offset f ∧ counts f.attrs f.type = true ∧ x = object + offset := by
  constructor
  · induction k using Il2CppClass.induction generalizing object x with
    | h k ihp ihf =>
      obtain ⟨isEphemeron, parent, fields⟩ := k
      rw [places, List.mem_append, mem_fieldPlaces]
      rintro (⟨g, hg, hs, ⟨c, hc, hi, hx⟩ | ⟨hc, hcounts, rfl⟩⟩ | hx)
      · obtain ⟨offset, f, hf, hcounts, rfl⟩ := ihf g hg c hc hx
        exact ⟨_, f, .nested hg (by rw [← hskip, hs]) hc hi hf, hcounts, by omega⟩
      · exact ⟨g.offset, g, .own hg (by rw [← hskip, hs]) hc, hcounts, rfl⟩
      · cases parent with
        | none => simp [parentPlaces] at hx
        | some p =>
          obtain ⟨offset, f, hf, hcounts, rfl⟩ := ihp p rfl hx
          exact ⟨offset, f, .inherited rfl hf, hcounts, rfl⟩
  · rintro ⟨offset, f, hf, hcounts, rfl⟩
    induction hf generalizing object with
    | @own k f hf hs hc =>
      obtain ⟨isEphemeron, parent, fields⟩ := k
      rw [places, List.mem_append, mem_fieldPlaces]
      exact .inl ⟨f, hf, by rw [hskip, hs], .inr ⟨hc, hcounts, rfl⟩⟩
    | @inherited k p offset f hp _ ih =>
      obtain ⟨isEphemeron, parent, fields⟩ := k
      cases hp
      rw [places, List.mem_append]
      exact .inr (ih hcounts)
    | @nested k c offset f g hg hs hc hi _ ih =>
      obtain ⟨isEphemeron, parent, fields⟩ := k
      rw [places, List.mem_append, mem_fieldPlaces]
      refine .inl ⟨g, hg, by rw [hskip, hs], .inl ⟨c, hc, hi, ?_⟩⟩
      have h := @ih (object + g.offset - sizeOfObject) hcounts
      rwa [show object + (g.offset + offset - sizeOfObject) =
        object + g.offset - sizeOfObject + offset by omega]

end

end Il2CppClass

open Il2CppClass

/-- The places of the references that `TraverseObjectInternal` adds. -/
def traverseObjectInternal (object : ℤ) (isStruct : Bool) (klass : Il2CppClass) : List ℤ :=
  klass.places (·.isStatic) (fun attrs type => type.isTraversed attrs) (fun _ => true)
    (if isStruct then object - sizeOfObject else object)

/-- The offsets whose bits `GetBitmapNoInit` sets. -/
def bitmapOffsets (parentOffset : ℤ) (klass : Il2CppClass) : List ℤ :=
  klass.places (fun attrs => attrs.isStatic || attrs.hasFieldRVA)
    (fun _ type => type.isBitmapped) hasReferences parentOffset

/-- The values of instance fields of these types are added. -/
def FieldType.isWalked {C : Type} (type : FieldType C) : Bool :=
  type.isReference && !type.isString

theorem FieldType.isBitmapped_of_isWalked {C : Type} {type : FieldType C}
    (h : type.isWalked = true) : type.isBitmapped = true := by
  cases type with
  | simple tag => cases tag <;> first | rfl | cases h
  | valuetype v => cases h
  | genericinst v =>
    cases v with
    | none => rfl
    | some v => cases h
  | ptr => cases h
  | var | mvar | klass | szarray | array => rfl

theorem FieldType.fieldCanContainReferences_eq {C : Type} (attrs : FieldAttributes)
    {type : FieldType C} (h : type.isStruct = false) :
    type.fieldCanContainReferences attrs = (!attrs.literal && type.isWalked) := by
  rw [fieldCanContainReferences, isWalked, h]
  cases attrs.literal <;> cases type.isString <;> simp

theorem FieldType.isStruct_eq {C : Type} {type : FieldType C} (h : type.structClass = none) :
    type.isStruct = false ∨ type = simple .typedbyref := by
  unfold isStruct
  split
  · exact .inr rfl
  · simp [h]

theorem FieldType.isTraversed_eq {C : Type} {attrs : FieldAttributes} {type : FieldType C}
    (hs : attrs.isStatic = false) (hc : type.structClass = none) :
    type.isTraversed attrs = type.isWalked := by
  have hl : attrs.literal = false := by
    by_contra h
    rw [attrs.static_of_literal (by simpa using h)] at hs
    cases hs
  rcases isStruct_eq hc with hstruct | rfl
  · simp [isTraversed, fieldCanContainReferences_eq attrs hstruct, hstruct, hl]
  · rfl

theorem mem_traverseObjectInternal {object x : ℤ} {isStruct : Bool} {k : Il2CppClass} :
    x ∈ traverseObjectInternal object isStruct k ↔
      ∃ offset f, FieldAt (fun _ => true) k offset f ∧ f.type.isWalked = true ∧
        x = (if isStruct then object - sizeOfObject else object) + offset := by
  rw [traverseObjectInternal, mem_places fun _ => rfl]
  refine exists_congr fun offset => exists_congr fun f => and_congr_right fun hf => ?_
  rw [FieldType.isTraversed_eq hf.isStatic hf.structClass]

theorem mem_bitmapOffsets {x : ℤ} {k : Il2CppClass} :
    x ∈ bitmapOffsets 0 k ↔
      ∃ f, FieldAt hasReferences k x f ∧ f.type.isBitmapped = true := by
  have hskip (attrs : FieldAttributes) : (attrs.isStatic || attrs.hasFieldRVA) = attrs.isStatic := by
    have hrva := attrs.static_of_hasFieldRVA
    revert hrva
    cases attrs.isStatic <;> cases attrs.hasFieldRVA <;> simp
  rw [bitmapOffsets, mem_places hskip]
  constructor
  · rintro ⟨offset, f, hf, hb, rfl⟩
    rw [Int.zero_add]
    exact ⟨f, hf, hb⟩
  · rintro ⟨f, hf, hb⟩
    exact ⟨x, f, hf, hb, (Int.zero_add x).symm⟩

/-! ### `has_references` -/

namespace Il2CppClass

/-- A class that lies in objects of another one: a parent, or the value type of a field. -/
inductive Within (c : Il2CppClass) : Il2CppClass → Prop
  | refl : Within c c
  | parent {k p : Il2CppClass} : p ∈ k.parent → Within c p → Within c k
  | struct {k d : Il2CppClass} {f : FieldInfo Il2CppClass} :
      f ∈ k.fields → d ∈ f.type.structClass → Within c d → Within c k

theorem fieldsHaveReferences_iff {fields : List (FieldInfo Il2CppClass)} :
    fieldsHaveReferences fields = true ↔ ∃ f ∈ fields, f.attrs.isStatic = false ∧
      ((∃ c ∈ f.type.structClass, c.hasReferences = true) ∨
        f.type.structClass = none ∧ f.type.getUnderlyingType.isReference = true) := by
  induction fields with
  | nil => simp [fieldsHaveReferences]
  | cons f fields ih =>
    obtain ⟨attrs, type, offset, header⟩ := f
    cases type with
    | valuetype v => cases v <;> simp [fieldsHaveReferences, ih, FieldType.structClass]
    | genericinst v =>
      rcases v with _ | v
      · simp [fieldsHaveReferences, ih, FieldType.structClass]
      · cases v <;> simp [fieldsHaveReferences, ih, FieldType.structClass]
    | _ => simp [fieldsHaveReferences, ih, FieldType.structClass]

/-- **`has_references` is set when a field holds a reference**, unless there is an `Ephemeron`;
`GetBitmapNoInit` goes into all value types then that matter. -/
theorem hasReferences_of_fieldAt {k : Il2CppClass} {offset : ℤ} {f : FieldInfo Il2CppClass}
    (h : FieldAt (fun _ => true) k offset f) (hf : f.type.isReference = true)
    (hk : ∀ e, Within e k → e.isEphemeron = false) :
    k.hasReferences = true ∧ FieldAt hasReferences k offset f := by
  induction h with
  | @own k f hmem hs hc =>
    refine ⟨?_, .own hmem hs hc⟩
    obtain ⟨isEphemeron, parent, fields⟩ := k
    have he : isEphemeron = false := hk _ .refl
    have hu : f.type.getUnderlyingType = f.type := by
      unfold FieldType.getUnderlyingType
      split <;> simp_all [FieldType.isReference]
    have hfields : fieldsHaveReferences fields = true :=
      fieldsHaveReferences_iff.2 ⟨f, hmem, hs, .inr ⟨hc, by rw [hu, hf]⟩⟩
    simp [hasReferences, he, hfields]
  | @inherited k p offset f hp _ ih =>
    obtain ⟨hr, hat⟩ := ih hf fun e he => hk e (.parent hp he)
    refine ⟨?_, .inherited hp hat⟩
    obtain ⟨isEphemeron, parent, fields⟩ := k
    have he : isEphemeron = false := hk _ .refl
    cases hp
    simp [hasReferences, he, parentHasReferences, hr]
  | @nested k c offset f g hg hs hc _ _ ih =>
    obtain ⟨hr, hat⟩ := ih hf fun e he => hk e (.struct hg hc he)
    refine ⟨?_, .nested hg hs hc hr hat⟩
    obtain ⟨isEphemeron, parent, fields⟩ := k
    have he : isEphemeron = false := hk _ .refl
    have hfields : fieldsHaveReferences fields = true :=
      fieldsHaveReferences_iff.2 ⟨g, hg, hs, .inl ⟨c, hc, hr⟩⟩
    simp [hasReferences, he, hfields]

/-- A class with one field, an array. -/
theorem hasReferences_of_fieldAt_own :
    (mk false none [⟨⟨false, false, false, nofun, nofun⟩, .szarray, 16,
      fun _ => by decide⟩]).hasReferences = true := by
  refine (hasReferences_of_fieldAt (.own (.head _) rfl rfl) rfl fun e he => ?_).1
  cases he with
  | refl => rfl
  | parent hp => cases hp
  | struct hf hd =>
    cases List.mem_singleton.1 hf
    cases hd

end Il2CppClass

end Liveness

end Il2Cpp
