import Il2Cpp.Class.ArrayCast

/-!
# Assignability and classes without a type hierarchy

`Class::GetPtrClass` and `Class::FromGenericParameter` mark the classes they make as initialized by
hand, with a `typeHierarchyDepth` of 1 and no `typeHierarchy`.  `Class::Init` leaves such a class
alone, and `IsAssignableFrom` reads its hierarchy when the target is a class of depth 1 as well.

* `ConstructedTable` : the classes as the constructors leave them.
* `asked` : the questions that a question does ask itself, which depends on the answers so far.
* `ReadsNull` : a question that dereferences the NULL itself.
* `isAssignableFrom_ne_fault_iff` : a question never faults exactly when none of the questions that
  it comes to is such.
-/

namespace Il2Cpp

variable {C : Type*}

/-- A class as one of the constructors leaves it.  Depths are below 256. -/
inductive Constructed (T : ClassTable C) (c : C) : Prop
  /-- By `SetupTypeHierarchyLocked` : type definitions, generic instances and arrays when they are
  initialized, and any class that `HasParent` has been called on. -/
  | setUp : HierarchySetUp T c → (∀ p, (T.klass c).parent = some p →
      (T.klass c).typeHierarchyDepth = (T.klass p).typeHierarchyDepth + 1) → Constructed T c
  /-- By `GetPtrClass`. -/
  | pointer : (T.klass c).type = .ptr → (T.klass c).parent = none →
      (T.klass c).typeHierarchyDepth = 1 → (T.klass c).typeHierarchy = [] → Constructed T c
  /-- By `FromGenericParameter`. -/
  | genericParameter : (T.klass c).type = .var ∨ (T.klass c).type = .mvar →
      (T.klass c).parent = some T.defaults.objectClass →
      (T.klass c).typeHierarchyDepth = 1 → (T.klass c).typeHierarchy = [] → Constructed T c

/-- A table of classes that the constructors have made. -/
structure ConstructedTable (C : Type*) extends GroundedTable C where
  constructed : ∀ c, Constructed toClassTable c

section

variable {T : ClassTable C} {c : C}

theorem Constructed.depth_pos (h : Constructed T c) : 0 < (T.klass c).typeHierarchyDepth := by
  cases h with
  | setUp hset _ => exact hset.1
  | pointer _ _ hdepth _ | genericParameter _ _ hdepth _ => omega

theorem Constructed.of_nil (h : Constructed T c) (hnil : (T.klass c).typeHierarchy = []) :
    (T.klass c).typeHierarchyDepth = 1 ∧
      ((T.klass c).type = .ptr ∨ (T.klass c).type = .var ∨ (T.klass c).type = .mvar) := by
  cases h with
  | setUp hset _ =>
    have := hset.1
    have := hset.2
    simp_all
  | pointer htype _ hdepth _ => exact ⟨hdepth, .inl htype⟩
  | genericParameter htype _ hdepth _ => exact ⟨hdepth, .inr htype⟩

end

variable [DecidableEq C]

/-! ### The questions that are asked -/

section

variable {α : Type*}

/-- The questions of a loop that ends with the first test that does not answer no. -/
def askedAny (f : α → Option Answer) (asks : α → List (C × C)) : List α → List (C × C)
  | [] => []
  | x :: xs => asks x ++ if f x = some .no then askedAny f asks xs else []

/-- The questions of a loop that ends with the first test that does not answer yes. -/
def askedAll (f : α → Option Answer) (asks : α → List (C × C)) : List α → List (C × C)
  | [] => []
  | x :: xs => asks x ++ if f x = some .yes then askedAll f asks xs else []

end

section

variable (T : ClassTable C) (ask : C → C → Option Answer)

/-- The questions of `IsGenericClassAssignableFrom`. -/
def askedGeneric (klass oklass implementingClass : C) : List (C × C) :=
  if klass = oklass then []
  else match (T.klass klass).genericClass, (T.klass oklass).genericClass with
    | some genericClass, some oGenericClass =>
      if oGenericClass.type ≠ genericClass.type then []
      else
        askedAll (fun (parameterVariance, type, oType) =>
            isArgumentAssignableFrom T ask implementingClass parameterVariance type oType)
          (fun (parameterVariance, type, oType) =>
            argumentQuestions T parameterVariance type oType)
          ((T.klass genericClass.type).variances.zip
            (genericClass.typeArgv.zip oGenericClass.typeArgv))
    | _, _ => []

end

/-- The questions that `IsAssignableFrom` asks itself, in this order; `ask` has their answers. -/
def asked (T : GroundedTable C) (ask : C → C → Option Answer) (klass oklass : C) : List (C × C) :=
  let k := T.klass klass
  let o := T.klass oklass
  let asksGeneric := askedGeneric T.toClassTable ask klass
  let isGeneric := isGenericClassAssignableFrom T.toClassTable ask klass
  if klass = oklass then []
  else if !isInterface T.toClassTable klass then
    if k.rank ≠ 0 then
      if o.rank ≠ k.rank then []
      else if (T.klass o.castClass).valuetype then []
      else [(k.castClass, o.castClass)]
    else if klass = T.defaults.objectClass then []
    else if isNullable T.toClassTable klass then [(k.elementClass, oklass)]
    else if k.parent = some T.defaults.multicastdelegateClass ∧ k.genericClass.isSome then
      asksGeneric oklass oklass
    else []
  else if k.genericClass.isSome then
    askedAny (fun iter =>
        Answer.or (isGeneric iter oklass)
          (Answer.any (isGeneric · oklass) (tableInterfaces T.toClassTable iter)))
      (fun iter => asksGeneric iter oklass ++
        if isGeneric iter oklass = some .no then
          askedAny (isGeneric · oklass) (asksGeneric · oklass)
            (tableInterfaces T.toClassTable iter)
        else [])
      (bases T oklass)
  else []

/-- A run of `IsAssignableFrom` with recursion of at most `fuel` levels comes from one question to
another. -/
inductive ComesTo (T : GroundedTable C) : ℕ → C × C → C × C → Prop
  | refl (fuel : ℕ) (q : C × C) : ComesTo T (fuel + 1) q q
  | step {fuel : ℕ} {q q' q'' : C × C} : q' ∈ asked T (isAssignableFrom T fuel) q.1 q.2 →
      ComesTo T fuel q' q'' → ComesTo T (fuel + 1) q q''

/-- A question that reads the hierarchy of a source that has none. -/
structure ReadsNull (T : GroundedTable C) (klass oklass : C) : Prop where
  ne : klass ≠ oklass
  notInterface : isInterface T.toClassTable klass = false
  notArray : (T.klass klass).rank = 0
  notObject : klass ≠ T.defaults.objectClass
  notNullable : isNullable T.toClassTable klass = false
  depth : (T.klass klass).typeHierarchyDepth ≤ (T.klass oklass).typeHierarchyDepth
  noHierarchy : (T.klass oklass).typeHierarchy = []

/-! ### Faults -/

/-- One of the questions faults. -/
def Faults (ask : C → C → Option Answer) (qs : List (C × C)) : Prop :=
  ∃ q ∈ qs, ask q.1 q.2 = some .fault

section

variable {ask : C → C → Option Answer} {qs qs' : List (C × C)}

@[simp] theorem ofBool_ne_fault (b : Bool) : Answer.ofBool b ≠ .fault := by
  cases b <;> simp [Answer.ofBool]

omit [DecidableEq C] in
@[simp] theorem not_faults_nil : ¬ Faults ask [] := by simp [Faults]

omit [DecidableEq C] in
@[simp] theorem faults_singleton {q : C × C} :
    Faults ask [q] ↔ ask q.1 q.2 = some .fault := by simp [Faults]

omit [DecidableEq C] in
@[simp] theorem faults_append : Faults ask (qs ++ qs') ↔ Faults ask qs ∨ Faults ask qs' := by
  simp only [Faults, List.mem_append, or_and_right, exists_or]

omit [DecidableEq C] in
theorem or_eq_fault_iff {a b : Option Answer} (ha : a = some .fault ↔ Faults ask qs)
    (hb : b = some .fault ↔ Faults ask qs') :
    Answer.or a b = some .fault ↔ Faults ask (qs ++ if a = some .no then qs' else []) := by
  rw [faults_append, ← ha]
  match a with
  | none => simp [Answer.or]
  | some .yes => simp [Answer.or]
  | some .no => simp [Answer.or, hb]
  | some .fault => simp [Answer.or]

omit [DecidableEq C] in
theorem and_eq_fault_iff {a b : Option Answer} (ha : a = some .fault ↔ Faults ask qs)
    (hb : b = some .fault ↔ Faults ask qs') :
    Answer.and a b = some .fault ↔ Faults ask (qs ++ if a = some .yes then qs' else []) := by
  rw [faults_append, ← ha]
  match a with
  | none => simp [Answer.and]
  | some .yes => simp [Answer.and, hb]
  | some .no => simp [Answer.and]
  | some .fault => simp [Answer.and]

variable {α : Type*} {f : α → Option Answer} {asks : α → List (C × C)}

omit [DecidableEq C] in
theorem any_eq_fault_iff (h : ∀ x, f x = some .fault ↔ Faults ask (asks x)) (l : List α) :
    Answer.any f l = some .fault ↔ Faults ask (askedAny f asks l) := by
  induction l with
  | nil => simp [Answer.any, askedAny]
  | cons x xs ih => exact or_eq_fault_iff (h x) ih

omit [DecidableEq C] in
theorem all_eq_fault_iff (h : ∀ x, f x = some .fault ↔ Faults ask (asks x)) (l : List α) :
    Answer.all f l = some .fault ↔ Faults ask (askedAll f asks l) := by
  induction l with
  | nil => simp [Answer.all, askedAll]
  | cons x xs ih => exact and_eq_fault_iff (h x) ih

end

section

variable {T : ClassTable C} {ask : C → C → Option Answer}

theorem isArgumentAssignableFrom_eq_fault_iff (implementingClass type oType : C) (v : Variance) :
    isArgumentAssignableFrom T ask implementingClass v type oType = some .fault ↔
      Faults ask (argumentQuestions T v type oType) := by
  rw [isArgumentAssignableFrom, argumentQuestions]
  split
  · split
    · split
      · simp
      · simp
    · simp
  · split <;> simp

theorem isGenericClassAssignableFrom_eq_fault_iff {klass : C} (oklass implementingClass : C)
    (hgeneric : (T.klass klass).genericClass.isSome) :
    isGenericClassAssignableFrom T ask klass oklass implementingClass = some .fault ↔
      Faults ask (askedGeneric T ask klass oklass implementingClass) := by
  rw [isGenericClassAssignableFrom, askedGeneric, isGenericClassAssignableFromVariance]
  split
  · simp
  obtain ⟨genericClass, hg⟩ := Option.isSome_iff_exists.1 hgeneric
  rw [hg]
  cases (T.klass oklass).genericClass with
  | none => simp
  | some oGenericClass =>
    dsimp only
    split
    · simp
    · exact all_eq_fault_iff (fun x => isArgumentAssignableFrom_eq_fault_iff _ _ _ _) _

theorem hasParentUnsafe_eq_fault_iff {klass parent : C} (hklass : Constructed T klass)
    (hparent : Constructed T parent) :
    hasParentUnsafe T klass parent = .fault ↔
      (T.klass parent).typeHierarchyDepth ≤ (T.klass klass).typeHierarchyDepth ∧
        (T.klass klass).typeHierarchy = [] := by
  rw [hasParentUnsafe]
  split
  case isFalse hlt => simp [hlt]
  rename_i hle
  by_cases hnil : (T.klass klass).typeHierarchy = []
  · simp [hnil, hle]
  · have hset : HierarchySetUp T klass := by
      cases hklass with
      | setUp hset _ => exact hset
      | pointer _ _ _ h | genericParameter _ _ _ h => exact absurd h hnil
    have hlt : (T.klass parent).typeHierarchyDepth - 1 < (T.klass klass).typeHierarchy.length := by
      have := hparent.depth_pos
      rw [hset.2]
      omega
    rw [List.getElem?_eq_getElem hlt]
    simp [hnil]

end

section

variable (T : ConstructedTable C) {ask : C → C → Option Answer}

omit [DecidableEq C] in
theorem ReadsNull.shallow {klass oklass : C} (h : ReadsNull T.toGroundedTable klass oklass) :
    (T.klass klass).typeHierarchyDepth = 1 ∧ ((T.klass oklass).type = .ptr ∨
      (T.klass oklass).type = .var ∨ (T.klass oklass).type = .mvar) := by
  obtain ⟨hdepth, htype⟩ := (T.constructed oklass).of_nil h.noHierarchy
  have := h.depth
  have := (T.constructed klass).depth_pos
  exact ⟨by omega, htype⟩

omit [DecidableEq C] in
theorem not_readsNull_of_parent {klass p : C} (hp : (T.klass klass).parent = some p)
    (hi : isInterface T.toClassTable klass = false) (oklass : C) :
    ¬ ReadsNull T.toGroundedTable klass oklass := by
  intro h
  have hdepth := (h.shallow T).1
  cases T.constructed klass with
  | setUp _ hparent =>
    have := hparent p hp
    have := (T.constructed p).depth_pos
    omega
  | pointer _ hnone _ _ => simp [hnone] at hp
  | genericParameter htype _ _ _ =>
    rcases htype with htype | htype <;> simp [isInterface, htype] at hi

/-- **One question** faults where it reads NULL, or a question that it asks faults. -/
theorem isAssignableFromStep_eq_fault_iff (klass oklass : C) :
    isAssignableFromStep T.toGroundedTable ask klass oklass = some .fault ↔
      ReadsNull T.toGroundedTable klass oklass ∨
        Faults ask (asked T.toGroundedTable ask klass oklass) := by
  have hreads : hasParentUnsafe T.toClassTable oklass klass = .fault ↔ _ :=
    hasParentUnsafe_eq_fault_iff (T.constructed oklass) (T.constructed klass)
  simp only [isAssignableFromStep, asked]
  by_cases hne : klass = oklass
  · have hnot : ¬ ReadsNull T.toGroundedTable klass oklass := fun h => h.ne hne
    simp [if_pos hne, hnot]
  rw [if_neg hne, if_neg hne]
  cases hi : isInterface T.toClassTable klass with
  | false =>
    simp only [Bool.not_false, if_true]
    by_cases hrank : (T.klass klass).rank ≠ 0
    · have hnot : ¬ ReadsNull T.toGroundedTable klass oklass := fun h => hrank h.notArray
      rw [if_pos hrank, if_pos hrank]
      split
      · simp [hnot]
      · split <;> simp [hnot]
    rw [if_neg hrank, if_neg hrank]
    by_cases hobject : klass = T.defaults.objectClass
    · have hnot : ¬ ReadsNull T.toGroundedTable klass oklass := fun h => h.notObject hobject
      simp [if_pos hobject, hnot]
    rw [if_neg hobject, if_neg hobject]
    by_cases hnullable : isNullable T.toClassTable klass = true
    · have hnot : ¬ ReadsNull T.toGroundedTable klass oklass := fun h => by
        simp [h.notNullable] at hnullable
      simp [if_pos hnullable, hnot]
    rw [if_neg hnullable, if_neg hnullable]
    have hiff : ReadsNull T.toGroundedTable klass oklass ↔
        hasParentUnsafe T.toClassTable oklass klass = .fault :=
      ⟨fun h => hreads.2 ⟨h.depth, h.noHierarchy⟩, fun h =>
        ⟨hne, hi, not_not.1 hrank, hobject, by simpa using hnullable, (hreads.1 h).1,
          (hreads.1 h).2⟩⟩
    split
    · rename_i hdelegate
      have hnot := not_readsNull_of_parent T hdelegate.1 hi oklass
      have hsecond : some (hasParentUnsafe T.toClassTable oklass klass) = some .fault ↔
          Faults ask [] := by simpa [hiff] using hnot
      rw [or_eq_fault_iff
        (isGenericClassAssignableFrom_eq_fault_iff oklass oklass hdelegate.2) hsecond]
      simp [hnot]
    · simp [hiff, Answer.or]
  | true =>
    have hnot : ¬ ReadsNull T.toGroundedTable klass oklass := fun h => by
      simp [h.notInterface] at hi
    simp only [Bool.not_true, Bool.false_eq_true, if_false, hnot, false_or]
    split
    · rename_i hgeneric
      refine any_eq_fault_iff (fun iter => ?_) _
      refine or_eq_fault_iff (isGenericClassAssignableFrom_eq_fault_iff iter oklass hgeneric)
        (any_eq_fault_iff (fun itf => ?_) _)
      exact isGenericClassAssignableFrom_eq_fault_iff itf oklass hgeneric
    · simp

theorem isAssignableFrom_eq_fault_iff (fuel : ℕ) (klass oklass : C) :
    isAssignableFrom T.toGroundedTable fuel klass oklass = some .fault ↔
      ∃ q, ComesTo T.toGroundedTable fuel (klass, oklass) q ∧
        ReadsNull T.toGroundedTable q.1 q.2 := by
  induction fuel generalizing klass oklass with
  | zero =>
    refine ⟨nofun, ?_⟩
    rintro ⟨q, hq, -⟩
    cases hq
  | succ fuel ih =>
    rw [isAssignableFrom, isAssignableFromStep_eq_fault_iff]
    constructor
    · rintro (h | ⟨q, hq, hfault⟩)
      · exact ⟨_, .refl fuel _, h⟩
      · obtain ⟨q', hcomes, hreads⟩ := (ih q.1 q.2).1 hfault
        exact ⟨q', .step hq hcomes, hreads⟩
    · rintro ⟨q', hcomes, hreads⟩
      cases hcomes with
      | refl => exact .inl hreads
      | @step _ _ q _ hq hcomes => exact .inr ⟨q, hq, (ih q.1 q.2).2 ⟨q', hcomes, hreads⟩⟩

end

/-! ### Two pointer classes -/

namespace CastClass

/-- The table of the core library with pointers and arrays. -/
def constructedTable : ConstructedTable CastClass where
  toGroundedTable := grounded
  constructed := by
    intro c
    cases c with
    | pointer c => exact .pointer rfl rfl rfl rfl
    | object => exact .setUp ⟨Nat.one_pos, rfl⟩ nofun
    | valueType | array =>
      refine .setUp ⟨Nat.succ_pos _, rfl⟩ fun p hp => ?_
      cases hp
      rfl
    | sbyte | int16 | int32 | int64 =>
      refine .setUp ⟨Nat.succ_pos _, rfl⟩ fun p hp => ?_
      cases hp
      rfl
    | vector c | general c =>
      refine .setUp ⟨Nat.succ_pos _, rfl⟩ fun p hp => ?_
      cases hp
      rfl

end CastClass

end Il2Cpp
