import Mathlib

/-!
# Value types that contain themselves

The size of a class needs the sizes of the value types among its fields, so `SetupFieldsLocked` goes
from class to class.  `Class::GetValueSize` has a check for a class that it comes to again.

* `Call`, `step` : the functions that call each other, with their calls as a parameter.
* `run` : their iteration; without enough fuel there is no result.
* `Untouched` : classes that no run has reached, and `run_untouched` : those that a run cannot come
  back from stay so.
* `rejected_iff` : when the classes of a cycle end with an initialization error.  The check comes too
  late, since `Class::HasReferences` follows the same fields before it.

Only the flags are modelled that decide what is called; `FieldLayout` is about the sizes.
-/

namespace Il2Cpp

namespace CyclicLayout

variable {C : Type*}

/-! ### Classes -/

/-- The type of a field: for a value type that is no enum its class, and whether it is a reference
otherwise. -/
inductive FieldType (C : Type*) where
  | scalar
  | reference
  | struct (klass : C)

/-- The attributes of a field and its type. -/
structure LayoutField (C : Type*) where
  static : Bool
  literal : Bool
  /-- The offset is `THREAD_STATIC_FIELD_OFFSET`. -/
  threadStatic : Bool
  type : FieldType C

namespace LayoutField

variable (field : LayoutField C)

/-- `Field::IsInstance`. -/
def isInstance : Bool := !field.static

/-- `Field::IsNormalStatic`. -/
def isNormalStatic : Bool := field.static && !field.threadStatic && !field.literal

/-- `Field::IsThreadStatic`. -/
def isThreadStatic : Bool := field.static && field.threadStatic && !field.literal

end LayoutField

/-- What does not change about a class. -/
structure LayoutClass (C : Type*) where
  parent : Option C
  /-- The type definition of a generic instance. -/
  genericDefinition : Option C
  /-- `Class::IsGeneric`. -/
  isGeneric : Bool
  /-- `GenericMetadata::ContainsGenericParameters`. -/
  containsGenericParameters : Bool
  /-- The element class of an array class. -/
  elementClass : Option C
  /-- `TYPE_ATTRIBUTE_EXPLICIT_LAYOUT`. -/
  explicitLayout : Bool
  isString : Bool
  /-- The class of `System.Runtime.CompilerServices.Ephemeron`. -/
  isEphemeron : Bool
  /-- The fields; those of a generic instance are inflated. -/
  fields : List (LayoutField C)

/-- The flags of a class. -/
structure ClassState where
  initialized : Bool := false
  initPending : Bool := false
  /-- There is an `initializationExceptionGCHandle`. -/
  initializationError : Bool := false
  sizeInitPending : Bool := false
  sizeInited : Bool := false
  hasReferences : Bool := false
  deriving DecidableEq

/-- The flags of all classes. -/
abbrev States (C : Type*) : Type _ := C → ClassState

/-- The functions that call each other. -/
inductive Call (C : Type*)
  | initLocked (klass : C)
  | setupFieldsLocked (klass : C)
  | getBitmapNoInit (klass : C)

/-! ### The functions -/

section

variable [DecidableEq C]

/-- The flags of a class are changed. -/
def States.modify (s : States C) (klass : C) (f : ClassState → ClassState) : States C :=
  Function.update s klass (f (s klass))

variable (G : C → LayoutClass C) (ask : States C → Call C → Option (States C))

/-- `Class::SetupFields`. -/
def setupFields (s : States C) (klass : C) : Option (States C) :=
  if (s klass).sizeInited then some s else ask s (.setupFieldsLocked klass)

/-- One field in the loop for `has_references`; for a value type it calls `Class::HasReferences`. -/
def noteReferences (klass : C) (s : States C) (field : LayoutField C) : Option (States C) :=
  match field.type with
  | .scalar => some s
  | .reference => some (s.modify klass fun k => { k with hasReferences := true })
  | .struct fieldClass => do
    let s ← setupFields ask s fieldClass
    if (s fieldClass).hasReferences then
      some (s.modify klass fun k => { k with hasReferences := true })
    else some s

/-- `Class::GetValueSize`, for the type of a field. -/
def getValueSize (s : States C) (field : LayoutField C) : Option (States C) :=
  match field.type with
  | .struct klass => do
    let s ← (if (s klass).sizeInitPending then some s else setupFields ask s klass)
    if (s klass).sizeInited then some s
    else some (s.modify klass fun k => { k with initializationError := true })
  | _ => some s

/-- One field in the loops of `GetBitmapNoInit` and `GetStaticBitmap`. -/
def bitmapField (s : States C) (field : LayoutField C) : Option (States C) :=
  match field.type with
  | .struct fieldClass => do
    let s ← ask s (.initLocked fieldClass)
    if (s fieldClass).hasReferences then ask s (.getBitmapNoInit fieldClass) else some s
  | _ => some s

/-- `GetBitmapNoInit`. -/
def getBitmapNoInit (s : States C) (klass : C) : Option (States C) := do
  let s ← ((G klass).fields.filter (·.isInstance)).foldlM (bitmapField ask) s
  (G klass).parent.elim (some s) fun parent => ask s (.getBitmapNoInit parent)

/-- The layout of the fields of a class that has some. -/
def layoutFields (s : States C) (klass : C) : Option (States C) := do
  let instanceFields := (G klass).fields.filter (·.isInstance)
  let s ← instanceFields.foldlM (noteReferences ask klass) s
  -- `LayoutInstanceFields`, `LayoutStaticFields` and `LayoutThreadStaticFields`
  let s ← instanceFields.foldlM (getValueSize ask) s
  let s := s.modify klass fun k => { k with sizeInited := true }
  let s ← ((G klass).fields.filter (·.isNormalStatic)).foldlM (getValueSize ask) s
  let s ← ((G klass).fields.filter (·.isThreadStatic)).foldlM (getValueSize ask) s
  if (G klass).isEphemeron then
    some (s.modify klass fun k => { k with hasReferences := false })
  else some s

/-- `LayoutFieldsLocked`. -/
def layoutFieldsLocked (s : States C) (klass : C) : Option (States C) := do
  let s := (G klass).parent.elim s fun parent =>
    s.modify klass fun k => { k with hasReferences := k.hasReferences || (s parent).hasReferences }
  let s ← (if (G klass).fields = [] then some s else layoutFields G ask s klass)
  -- `GetStaticBitmap`
  ((G klass).fields.filter (·.isNormalStatic)).foldlM (bitmapField ask) s

/-- `SetupFieldsLocked`. -/
def setupFieldsLocked (s : States C) (klass : C) : Option (States C) :=
  if (s klass).sizeInited then some s
  else do
    let s := s.modify klass fun k => { k with sizeInitPending := true }
    let s ← (G klass).parent.elim (some s) (setupFields ask s)
    let s ← (G klass).genericDefinition.elim (some s) fun d => ask s (.setupFieldsLocked d)
    let s ← (if (G klass).isGeneric then some s else layoutFieldsLocked G ask s klass)
    some (s.modify klass fun k => { k with sizeInitPending := false, sizeInited := true })

/-- A generic instance with explicit layout, which `Class::InitLocked` does not load. -/
def isExplicitGeneric (klass : C) : Bool :=
  (G klass).genericDefinition.isSome && (G klass).explicitLayout

/-- `if (!klass->initialized) InitLocked(klass, lock)`, for a class that may be missing. -/
def initIfNot (s : States C) (klass : Option C) : Option (States C) :=
  klass.elim (some s) fun k => if (s k).initialized then some s else ask s (.initLocked k)

/-- The part of `Class::InitLocked` that comes before the setup of the fields. -/
def initOthers (s : States C) (klass : C) : Option (States C) := do
  let s ← (G klass).genericDefinition.elim (some s) fun d => ask s (.initLocked d)
  let s ← initIfNot ask s (G klass).elementClass
  initIfNot ask s (G klass).parent

/-- `SetupGCDescriptor`, for a class that can be instantiated. -/
def setupGCDescriptor (s : States C) (klass : C) : Option (States C) :=
  if (G klass).isGeneric || (G klass).containsGenericParameters || (G klass).isString ||
    (G klass).elementClass.isSome then some s
  else ask s (.getBitmapNoInit klass)

/-- `Class::InitLocked`. -/
def initLocked (s : States C) (klass : C) : Option (States C) :=
  if (s klass).initialized || (s klass).initPending || (s klass).initializationError then some s
  else if isExplicitGeneric G klass then
    some (s.modify klass fun k => { k with initializationError := true })
  else do
    let s := s.modify klass fun k => { k with initPending := true }
    let s ← initOthers G ask s klass
    let s ← setupFields ask s klass
    if (s klass).initializationError then
      some (s.modify klass fun k => { k with initPending := false })
    else do
      let s ← setupGCDescriptor G ask s klass
      some (s.modify klass fun k => { k with initialized := true, initPending := false })

/-- The body of a call. -/
def step (s : States C) : Call C → Option (States C)
  | .initLocked klass => initLocked G ask s klass
  | .setupFieldsLocked klass => setupFieldsLocked G ask s klass
  | .getBitmapNoInit klass => getBitmapNoInit G ask s klass

/-- The calls, nested at most as deep as the fuel. -/
def run : ℕ → States C → Call C → Option (States C)
  | 0, _, _ => none
  | n + 1, s, call => step G (run n) s call

end

/-! ### Cycles -/

/-- An instance field of the class is of the value type.  A generic type definition has no values. -/
def Contains (G : C → LayoutClass C) (klass fieldClass : C) : Prop :=
  (G klass).isGeneric = false ∧
    ∃ field ∈ (G klass).fields, field.isInstance ∧ field.type = .struct fieldClass

/-- A class is on a chain of instance fields from a class to itself. -/
def OnChain (G : C → LayoutClass C) (c d : C) : Prop :=
  Relation.TransGen (Contains G) c d ∧ Relation.TransGen (Contains G) d c

/-- After the initialization of a class, all classes of the chain have an error, and none has a size
and no error. -/
def Rejected [DecidableEq C] (G : C → LayoutClass C) (s : States C) (first c : C) : Prop :=
  ∃ fuel s', run G fuel s (.initLocked first) = some s' ∧ ∀ d, OnChain G c d →
    (s' d).initializationError ∧ ¬ ((s' d).sizeInited ∧ ¬ (s' d).initializationError)

/-- What a loop that ends keeps, and what is true of each element that it has passed. -/
theorem foldlM_invariant {σ α : Type*} {f : σ → α → Option σ} {I : σ → Prop} {P : α → Prop}
    {l : List α} (hf : ∀ s x s', x ∈ l → I s → f s x = some s' → I s' ∧ P x) {s s' : σ} (hs : I s)
    (h : l.foldlM f s = some s') : I s' ∧ ∀ x ∈ l, P x := by
  induction l generalizing s with
  | nil =>
    cases h
    exact ⟨hs, nofun⟩
  | cons x l ih =>
    rw [List.foldlM_cons] at h
    obtain ⟨t, hx, hl⟩ := Option.bind_eq_some_iff.1 h
    obtain ⟨ht, hP⟩ := hf s x t (List.mem_cons_self ..) hs hx
    obtain ⟨hs', hall⟩ := ih (fun s y s' hy => hf s y s' (List.mem_cons_of_mem _ hy)) ht hl
    exact ⟨hs', List.forall_mem_cons.2 ⟨hP, hall⟩⟩

/-- No class of a set has a size.  With `strict` none of them is pending, and the only errors are
those of generic instances with explicit layout. -/
def Untouched (G : C → LayoutClass C) (T : Set C) (strict : Bool) (s : States C) : Prop :=
  ∀ d ∈ T, (s d).sizeInited = false ∧ (strict → (s d).sizeInitPending = false ∧
    ((s d).initializationError → isExplicitGeneric G d))

/-- The calls keep a set untouched, and the setup of the fields does not come back from a class of
it. -/
def Keeps [DecidableEq C] (G : C → LayoutClass C) (T : Set C)
    (ask : States C → Call C → Option (States C)) : Prop :=
  ∀ strict s call s', Untouched G T strict s → ask s call = some s' →
    Untouched G T strict s' ∧ ∀ c, call = .setupFieldsLocked c → c ∉ T

theorem Untouched.weaken {G : C → LayoutClass C} {T : Set C} {strict : Bool} {s : States C}
    (h : Untouched G T strict s) : Untouched G T false s :=
  fun d hd => ⟨(h d hd).1, nofun⟩

theorem Untouched.not_mem_of_sizeInited {G : C → LayoutClass C} {T : Set C} {strict : Bool}
    {s : States C} (h : Untouched G T strict s) {c : C}
    (hc : (s c).sizeInited) : c ∉ T := by
  intro hmem
  rw [(h c hmem).1] at hc
  cases hc

section

variable [DecidableEq C] {G : C → LayoutClass C} {T : Set C} {strict : Bool} {s s' : States C}
  {ask : States C → Call C → Option (States C)}

theorem States.modify_self (s : States C) (c : C) (f : ClassState → ClassState) :
    s.modify c f c = f (s c) := Function.update_self ..

theorem States.modify_of_ne (s : States C) {c d : C} (f : ClassState → ClassState) (h : d ≠ c) :
    s.modify c f d = s d := Function.update_of_ne h ..

theorem Untouched.modify (h : Untouched G T strict s) {c : C} (hc : c ∉ T)
    (f : ClassState → ClassState) : Untouched G T strict (s.modify c f) := by
  intro d hd
  rw [s.modify_of_ne f (ne_of_mem_of_not_mem hd hc)]
  exact h d hd

theorem Untouched.modify_same (h : Untouched G T strict s) (c : C) (f : ClassState → ClassState)
    (hinited : ∀ k, (f k).sizeInited = k.sizeInited)
    (hpending : ∀ k, (f k).sizeInitPending = k.sizeInitPending)
    (herror : ∀ k, (f k).initializationError = k.initializationError) :
    Untouched G T strict (s.modify c f) := by
  intro d hd
  by_cases hdc : d = c
  · subst hdc
    rw [s.modify_self, hinited, hpending, herror]
    exact h d hd
  · rw [s.modify_of_ne f hdc]
    exact h d hd

theorem Untouched.modify_weak (h : Untouched G T false s) (c : C) (f : ClassState → ClassState)
    (hinited : ∀ k, (f k).sizeInited = k.sizeInited) : Untouched G T false (s.modify c f) := by
  intro d hd
  refine ⟨?_, nofun⟩
  by_cases hdc : d = c
  · subst hdc
    rw [s.modify_self, hinited]
    exact (h d hd).1
  · rw [s.modify_of_ne f hdc]
    exact (h d hd).1

theorem Keeps.setupFields (hask : Keeps G T ask) (h : Untouched G T strict s) {c : C}
    (hrun : setupFields ask s c = some s') : Untouched G T strict s' ∧ c ∉ T := by
  rw [CyclicLayout.setupFields] at hrun
  split_ifs at hrun with hinited
  · cases hrun
    exact ⟨h, h.not_mem_of_sizeInited hinited⟩
  · obtain ⟨hs', hc⟩ := hask _ _ _ _ h hrun
    exact ⟨hs', hc c rfl⟩

theorem Keeps.noteReferences (hask : Keeps G T ask) (h : Untouched G T strict s) {c : C}
    {field : LayoutField C} (hrun : noteReferences ask c s field = some s') :
    Untouched G T strict s' ∧ ∀ d, field.type = .struct d → d ∉ T := by
  rw [CyclicLayout.noteReferences] at hrun
  cases htype : field.type with
  | scalar =>
    rw [htype] at hrun
    cases hrun
    exact ⟨h, nofun⟩
  | reference =>
    rw [htype] at hrun
    cases hrun
    exact ⟨h.modify_same _ _ (fun _ => rfl) (fun _ => rfl) (fun _ => rfl), nofun⟩
  | struct fieldClass =>
    rw [htype] at hrun
    obtain ⟨t, hsetup, hrest⟩ := Option.bind_eq_some_iff.1 hrun
    obtain ⟨ht, hnot⟩ := hask.setupFields h hsetup
    refine ⟨?_, fun d hd => by cases hd; exact hnot⟩
    split_ifs at hrest with hrefs
    · cases hrest
      exact ht.modify_same _ _ (fun _ => rfl) (fun _ => rfl) (fun _ => rfl)
    · cases hrest
      exact ht

theorem Keeps.getValueSize (hask : Keeps G T ask) (h : Untouched G T strict s)
    {field : LayoutField C} (hrun : getValueSize ask s field = some s') :
    Untouched G T strict s' := by
  rw [CyclicLayout.getValueSize] at hrun
  cases htype : field.type with
  | scalar | reference =>
    rw [htype] at hrun
    cases hrun
    exact h
  | struct c =>
    rw [htype] at hrun
    obtain ⟨t, hsetup, hrest⟩ := Option.bind_eq_some_iff.1 hrun
    have ht : Untouched G T strict t ∧ (strict → c ∉ T) := by
      split_ifs at hsetup with hpending
      · cases hsetup
        refine ⟨h, fun hstrict hc => ?_⟩
        rw [((h c hc).2 hstrict).1] at hpending
        cases hpending
      · obtain ⟨ht, hc⟩ := hask.setupFields h hsetup
        exact ⟨ht, fun _ => hc⟩
    split_ifs at hrest with hinited
    · cases hrest
      exact ht.1
    · cases hrest
      cases strict with
      | false => exact ht.1.modify_weak _ _ fun _ => rfl
      | true => exact ht.1.modify (ht.2 rfl) _

theorem Keeps.bitmapField (hask : Keeps G T ask) (h : Untouched G T strict s)
    {field : LayoutField C} (hrun : bitmapField ask s field = some s') :
    Untouched G T strict s' := by
  rw [CyclicLayout.bitmapField] at hrun
  cases htype : field.type with
  | scalar | reference =>
    rw [htype] at hrun
    cases hrun
    exact h
  | struct c =>
    rw [htype] at hrun
    obtain ⟨t, hinit, hrest⟩ := Option.bind_eq_some_iff.1 hrun
    have ht := (hask _ _ _ _ h hinit).1
    split_ifs at hrest with hrefs
    · exact (hask _ _ _ _ ht hrest).1
    · cases hrest
      exact ht

theorem Keeps.getBitmapNoInit (hask : Keeps G T ask) (h : Untouched G T strict s) {c : C}
    (hrun : getBitmapNoInit G ask s c = some s') : Untouched G T strict s' := by
  obtain ⟨t, hfields, hparent⟩ := Option.bind_eq_some_iff.1 hrun
  have ht := (foldlM_invariant (P := fun _ => True)
    (fun _ _ _ _ hs hx => ⟨hask.bitmapField hs hx, trivial⟩) h hfields).1
  cases hp : (G c).parent with
  | none =>
    rw [hp] at hparent
    cases hparent
    exact ht
  | some parent =>
    rw [hp] at hparent
    exact (hask _ _ _ _ ht hparent).1

theorem Keeps.getValueSizes (hask : Keeps G T ask) (h : Untouched G T strict s)
    {fields : List (LayoutField C)} (hrun : fields.foldlM (CyclicLayout.getValueSize ask) s = some s') :
    Untouched G T strict s' :=
  (foldlM_invariant (P := fun _ => True)
    (fun _ _ _ _ hs hx => ⟨hask.getValueSize hs hx, trivial⟩) h hrun).1

theorem Keeps.layoutFields (hask : Keeps G T ask) (hclosed : ∀ c ∈ T, ∃ d ∈ T, Contains G c d)
    (h : Untouched G T strict s) {c : C} (hrun : layoutFields G ask s c = some s') :
    Untouched G T strict s' ∧ c ∉ T := by
  obtain ⟨t₁, hrefs, hrun⟩ := Option.bind_eq_some_iff.1 hrun
  obtain ⟨t₂, hsizes, hrun⟩ := Option.bind_eq_some_iff.1 hrun
  obtain ⟨t₃, hstatics, hrun⟩ := Option.bind_eq_some_iff.1 hrun
  obtain ⟨t₄, hthreadStatics, hrun⟩ := Option.bind_eq_some_iff.1 hrun
  obtain ⟨ht₁, hpassed⟩ := foldlM_invariant
    (P := fun field : LayoutField C => ∀ d, field.type = .struct d → d ∉ T)
    (fun _ _ _ _ hs hx => hask.noteReferences hs hx) h hrefs
  have hc : c ∉ T := by
    intro hmem
    obtain ⟨d, hd, -, field, hfield, hinstance, htype⟩ := hclosed c hmem
    exact hpassed field (List.mem_filter.2 ⟨hfield, hinstance⟩) d htype hd
  have ht₂ := hask.getValueSizes ht₁ hsizes
  have ht₄ := hask.getValueSizes (hask.getValueSizes (ht₂.modify hc _) hstatics) hthreadStatics
  refine ⟨?_, hc⟩
  split_ifs at hrun with hephemeron
  · cases hrun
    exact ht₄.modify hc _
  · cases hrun
    exact ht₄

theorem Keeps.layoutFieldsLocked (hask : Keeps G T ask)
    (hclosed : ∀ c ∈ T, ∃ d ∈ T, Contains G c d) (h : Untouched G T strict s) {c : C}
    (hrun : layoutFieldsLocked G ask s c = some s') : Untouched G T strict s' ∧ c ∉ T := by
  obtain ⟨t, hlayout, hstatics⟩ := Option.bind_eq_some_iff.1 hrun
  have hparent : Untouched G T strict ((G c).parent.elim s fun parent =>
      s.modify c fun k => { k with hasReferences := k.hasReferences || (s parent).hasReferences }) := by
    cases (G c).parent with
    | none => exact h
    | some parent =>
      exact h.modify_same c
        (fun k => { k with hasReferences := k.hasReferences || (s parent).hasReferences })
        (fun _ => rfl) (fun _ => rfl) (fun _ => rfl)
  have ht : Untouched G T strict t ∧ c ∉ T := by
    split_ifs at hlayout with hempty
    · cases hlayout
      refine ⟨hparent, fun hmem => ?_⟩
      obtain ⟨d, -, -, field, hfield, -⟩ := hclosed c hmem
      rw [hempty] at hfield
      cases hfield
    · exact hask.layoutFields hclosed hparent hlayout
  exact ⟨(foldlM_invariant (P := fun _ => True)
    (fun _ _ _ _ hs hx => ⟨hask.bitmapField hs hx, trivial⟩) ht.1 hstatics).1, ht.2⟩

theorem Keeps.setupFieldsLocked_of (hask : Keeps G T ask)
    (hclosed : ∀ c ∈ T, ∃ d ∈ T, Contains G c d) (h : Untouched G T strict s) {c : C}
    (hc : strict → c ∉ T) (hrun : setupFieldsLocked G ask s c = some s') :
    Untouched G T strict s' ∧ c ∉ T := by
  by_cases hinited : (s c).sizeInited
  · rw [setupFieldsLocked, if_pos hinited] at hrun
    cases hrun
    exact ⟨h, h.not_mem_of_sizeInited hinited⟩
  · rw [setupFieldsLocked, if_neg hinited] at hrun
    obtain ⟨t₁, hparent, hrun⟩ := Option.bind_eq_some_iff.1 hrun
    obtain ⟨t₂, hdefinition, hrun⟩ := Option.bind_eq_some_iff.1 hrun
    obtain ⟨t₃, hlayout, hrun⟩ := Option.bind_eq_some_iff.1 hrun
    have hpending : Untouched G T strict
        (s.modify c fun k => { k with sizeInitPending := true }) := by
      cases strict with
      | false => exact h.modify_weak _ _ fun _ => rfl
      | true => exact h.modify (hc rfl) _
    have ht₁ : Untouched G T strict t₁ := by
      cases hp : (G c).parent with
      | none =>
        rw [hp] at hparent
        cases hparent
        exact hpending
      | some parent =>
        rw [hp] at hparent
        exact (hask.setupFields hpending hparent).1
    have ht₂ : Untouched G T strict t₂ := by
      cases hd : (G c).genericDefinition with
      | none =>
        rw [hd] at hdefinition
        cases hdefinition
        exact ht₁
      | some definition =>
        rw [hd] at hdefinition
        exact (hask _ _ _ _ ht₁ hdefinition).1
    have ht₃ : Untouched G T strict t₃ ∧ c ∉ T := by
      split_ifs at hlayout with hgeneric
      · cases hlayout
        refine ⟨ht₂, fun hmem => ?_⟩
        obtain ⟨d, -, hnot, -⟩ := hclosed c hmem
        rw [hgeneric] at hnot
        cases hnot
      · exact hask.layoutFieldsLocked hclosed ht₂ hlayout
    cases hrun
    exact ⟨ht₃.1.modify ht₃.2 _, ht₃.2⟩

/-- That the setup comes back tells that the class is outside of the set, which the strict form then
uses. -/
theorem Keeps.setupFieldsLocked (hask : Keeps G T ask)
    (hclosed : ∀ c ∈ T, ∃ d ∈ T, Contains G c d) (h : Untouched G T strict s) {c : C}
    (hrun : CyclicLayout.setupFieldsLocked G ask s c = some s') :
    Untouched G T strict s' ∧ c ∉ T :=
  have hc := (hask.setupFieldsLocked_of hclosed h.weaken nofun hrun).2
  hask.setupFieldsLocked_of hclosed h (fun _ => hc) hrun

theorem Keeps.initIfNot (hask : Keeps G T ask) (h : Untouched G T strict s) {c : Option C}
    (hrun : initIfNot ask s c = some s') : Untouched G T strict s' := by
  cases c with
  | none =>
    cases hrun
    exact h
  | some c =>
    rw [CyclicLayout.initIfNot, Option.elim_some] at hrun
    split_ifs at hrun with hinit
    · cases hrun
      exact h
    · exact (hask _ _ _ _ h hrun).1

theorem Keeps.initOthers (hask : Keeps G T ask) (h : Untouched G T strict s) {c : C}
    (hrun : initOthers G ask s c = some s') : Untouched G T strict s' := by
  obtain ⟨t₁, hdefinition, hrun⟩ := Option.bind_eq_some_iff.1 hrun
  obtain ⟨t₂, helement, hparent⟩ := Option.bind_eq_some_iff.1 hrun
  have ht₁ : Untouched G T strict t₁ := by
    cases hd : (G c).genericDefinition with
    | none =>
      rw [hd] at hdefinition
      cases hdefinition
      exact h
    | some definition =>
      rw [hd] at hdefinition
      exact (hask _ _ _ _ h hdefinition).1
  exact hask.initIfNot (hask.initIfNot ht₁ helement) hparent

theorem Keeps.initLocked (hask : Keeps G T ask) (h : Untouched G T strict s) {c : C}
    (hrun : initLocked G ask s c = some s') :
    Untouched G T strict s' ∧ ((s c).initialized = false → (s c).initPending = false →
      (s c).initializationError = false → c ∈ T → isExplicitGeneric G c) := by
  rw [CyclicLayout.initLocked] at hrun
  split_ifs at hrun with hdone hexplicit
  · cases hrun
    refine ⟨h, fun hinit hpending herror => ?_⟩
    simp [hinit, hpending, herror] at hdone
  · cases hrun
    refine ⟨fun d hd => ?_, fun _ _ _ _ => hexplicit⟩
    by_cases hdc : d = c
    · subst hdc
      rw [s.modify_self]
      exact ⟨(h d hd).1, fun hstrict => ⟨((h d hd).2 hstrict).1, fun _ => hexplicit⟩⟩
    · rw [s.modify_of_ne _ hdc]
      exact h d hd
  · obtain ⟨t₁, hothers, hrun⟩ := Option.bind_eq_some_iff.1 hrun
    obtain ⟨t₂, hfields, hrun⟩ := Option.bind_eq_some_iff.1 hrun
    have hpending := h.modify_same c (fun k => { k with initPending := true }) (fun _ => rfl)
      (fun _ => rfl) (fun _ => rfl)
    obtain ⟨ht₂, hc⟩ := hask.setupFields (hask.initOthers hpending hothers) hfields
    refine ⟨?_, fun _ _ _ hmem => absurd hmem hc⟩
    split_ifs at hrun with herror
    · cases hrun
      exact ht₂.modify hc _
    · obtain ⟨t₃, hdescriptor, hrun⟩ := Option.bind_eq_some_iff.1 hrun
      cases hrun
      refine Untouched.modify ?_ hc _
      rw [setupGCDescriptor] at hdescriptor
      split_ifs at hdescriptor with hnone
      · cases hdescriptor
        exact ht₂
      · exact (hask _ _ _ _ ht₂ hdescriptor).1

/-- **One call** keeps a set from which each class has a field into the set. -/
theorem Keeps.step (hask : Keeps G T ask) (hclosed : ∀ c ∈ T, ∃ d ∈ T, Contains G c d) :
    Keeps G T (step G ask) := by
  intro strict s call s' h hrun
  cases call with
  | initLocked c => exact ⟨(hask.initLocked h hrun).1, nofun⟩
  | setupFieldsLocked c =>
    obtain ⟨hs', hc⟩ := hask.setupFieldsLocked hclosed h hrun
    exact ⟨hs', fun d hd => by cases hd; exact hc⟩
  | getBitmapNoInit c => exact ⟨hask.getBitmapNoInit h hrun, nofun⟩

/-- **All calls** keep it. -/
theorem keeps_run (hclosed : ∀ c ∈ T, ∃ d ∈ T, Contains G c d) (fuel : ℕ) :
    Keeps G T (run G fuel) := by
  induction fuel with
  | zero => exact fun _ _ _ _ _ hrun => nomatch hrun
  | succ fuel ih => exact ih.step hclosed

end

/-! ### What happens to a cycle -/

section

variable {G : C → LayoutClass C} {c : C}

theorem exists_contains_onChain : ∀ d ∈ {d | OnChain G c d}, ∃ e ∈ {d | OnChain G c d}, Contains G d e := by
  rintro d ⟨hcd, hdc⟩
  obtain ⟨e, hde, hec⟩ := Relation.TransGen.head'_iff.1 hdc
  exact ⟨e, ⟨hcd.tail hde, Relation.TransGen.trans_right hec (hcd.trans hdc)⟩, hde⟩

variable {s s' : States C}

/-- The classes of a chain have not been initialized, and no function has begun with them. -/
def Fresh (G : C → LayoutClass C) (s : States C) (c : C) : Prop := ∀ d, OnChain G c d → s d = {}

theorem Fresh.untouched (h : Fresh G s c) : Untouched G {d | OnChain G c d} true s := by
  intro d hd
  rw [h d hd]
  exact ⟨rfl, fun _ => ⟨rfl, nofun⟩⟩

variable [DecidableEq C]

theorem Fresh.isExplicitGeneric (h : Fresh G s c) {first : C} (hfirst : OnChain G c first) {fuel : ℕ}
    (hrun : run G fuel s (.initLocked first) = some s') : isExplicitGeneric G first := by
  cases fuel with
  | zero => cases hrun
  | succ fuel =>
    refine ((keeps_run exists_contains_onChain fuel).initLocked h.untouched hrun).2 ?_ ?_ ?_ hfirst
    all_goals rw [h first hfirst]

theorem Fresh.run_eq (h : Fresh G s c) {first : C} (hfirst : OnChain G c first)
    (hexplicit : CyclicLayout.isExplicitGeneric G first) (fuel : ℕ) :
    run G (fuel + 1) s (.initLocked first) =
      some (s.modify first fun k => { k with initializationError := true }) := by
  simp [run, step, initLocked, h first hfirst, hexplicit]

/-- **Cyclic value types.**  If a class of the chain is the first to be initialized, the chain is
rejected if and only if it is that class alone, and a generic instance with explicit layout; and
whatever class is the first, a chain with any other class is not rejected. -/
theorem rejected_iff (h : Fresh G s c) :
    (∀ first, OnChain G c first → (Rejected G s first c ↔
      isExplicitGeneric G first ∧ ∀ d, OnChain G c d → d = first)) ∧
    ∀ first, Rejected G s first c → ∀ d, OnChain G c d → isExplicitGeneric G d := by
  refine ⟨fun first hfirst => ⟨?_, ?_⟩, ?_⟩
  · rintro ⟨fuel, s', hrun, herrors⟩
    have hexplicit := h.isExplicitGeneric hfirst hrun
    refine ⟨hexplicit, fun d hd => ?_⟩
    cases fuel with
    | zero => cases hrun
    | succ fuel =>
      rw [h.run_eq hfirst hexplicit] at hrun
      cases hrun
      by_contra hne
      have herror := (herrors d hd).1
      rw [s.modify_of_ne _ hne, h d hd] at herror
      cases herror
  · rintro ⟨hexplicit, halone⟩
    refine ⟨1, _, h.run_eq hfirst hexplicit 0, fun d hd => ?_⟩
    cases halone d hd
    rw [s.modify_self]
    exact ⟨rfl, fun hsize => hsize.2 rfl⟩
  · rintro first ⟨fuel, s', hrun, herrors⟩ d hd
    have hs' := (keeps_run exists_contains_onChain fuel _ _ _ _ h.untouched hrun).1
    exact ((hs' d hd).2 rfl).2 (herrors d hd).1

end

/-! ### Two structs -/

/-- A struct with one field. -/
def structOf {C : Type} (fieldClass : C) : LayoutClass C :=
  ⟨none, none, false, false, none, false, false, false, [⟨false, false, false, .struct fieldClass⟩]⟩

/-- `struct A { B b; }` and `struct B { A a; }`, as `false` and `true`. -/
def twoStructs (c : Bool) : LayoutClass Bool := structOf !c

theorem twoStructs_onChain (c d : Bool) : OnChain twoStructs c d := by
  have hnext : ∀ c, Contains twoStructs c !c := fun c => ⟨rfl, _, .head _, rfl, rfl⟩
  have hall : ∀ c d, Relation.TransGen (Contains twoStructs) c d := by
    intro c d
    by_cases hd : d = !c
    · rw [hd]
      exact .single (hnext c)
    · have hd' : d = !!c := by cases c <;> cases d <;> simp_all
      rw [hd']
      exact .tail (.single (hnext c)) (hnext _)
  exact ⟨hall c d, hall d c⟩

/-- Neither of them is rejected when `B` is the first. -/
theorem rejected_iff_twoStructs : ¬ Rejected twoStructs (fun _ => {}) true false := by
  intro h
  have hexplicit :=
    (((rejected_iff fun _ _ => rfl).1 true (twoStructs_onChain false true)).1 h).1
  cases hexplicit

/-- The initialization of a struct that contains itself does not come back with an error. -/
theorem rejected_twoStructs : ¬ ∀ (G : Bool → LayoutClass Bool) (s : States Bool) (first c : Bool),
    Fresh G s c → Relation.TransGen (Contains G) c c → Rejected G s first c := by
  intro h
  have hchain := twoStructs_onChain false false
  obtain ⟨fuel, s', hrun, -⟩ :=
    h twoStructs (fun _ => {}) false false (fun _ _ => rfl) hchain.1
  have hfresh : Fresh twoStructs (fun _ => {}) false := fun _ _ => rfl
  cases hfresh.isExplicitGeneric hchain hrun

end CyclicLayout

end Il2Cpp
