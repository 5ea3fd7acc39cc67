import Il2Cpp.Class.ArrayMetadata

/-!
# Assignability

`Class::IsAssignableFrom` answers by cases on the target class.  For arrays, for nullable types and
for the variant arguments of generic interfaces and delegates it asks itself again.

* `isAssignableFromStep` : the function, with the recursive calls as a parameter.
* `isAssignableFrom` : its iteration; without enough fuel there is no answer.
* `questions` : the questions that a question can lead to (`isAssignableFromStep_isSome`).
-/

namespace Il2Cpp

variable {C : Type*}

/-- What a question ends with.  Pointer classes have no `typeHierarchy`, and reading it is a
fault. -/
inductive Answer where
  | yes | no | fault
  deriving DecidableEq, Repr

namespace Answer

/-- The answer of a test. -/
def ofBool (b : Bool) : Answer := if b then yes else no

/-- `a || b`, where `b` is asked only if `a` is false. -/
def or (a : Option Answer) (b : Option Answer) : Option Answer :=
  match a with
  | some no => b
  | _ => a

/-- `a && b`, where `b` is asked only if `a` is true. -/
def and (a : Option Answer) (b : Option Answer) : Option Answer :=
  match a with
  | some yes => b
  | _ => a

/-- Whether one of the elements passes the test. -/
def any {α : Type*} (f : α → Option Answer) : List α → Option Answer
  | [] => some no
  | x :: xs => or (f x) (any f xs)

/-- Whether all elements pass the test. -/
def all {α : Type*} (f : α → Option Answer) : List α → Option Answer
  | [] => some yes
  | x :: xs => and (f x) (all f xs)

end Answer

/-! ### The function -/

/-- `Class::IsInterface`. -/
def isInterface (T : ClassTable C) (c : C) : Bool :=
  (T.klass c).interfaceFlag || (T.klass c).type = .var || (T.klass c).type = .mvar

/-- `Class::IsNullable`. -/
def isNullable (T : ClassTable C) (c : C) : Bool :=
  (T.klass c).genericClass.isSome && (T.klass c).nullabletype

/-- The chain of classes from `c` over its bases, at most `n` of them. -/
def basesFrom (T : ClassTable C) : ℕ → C → List C
  | 0, _ => []
  | n + 1, c => c :: (T.klass c).parent.elim [] (basesFrom T n)

/-- A class and its bases. -/
def bases (T : GroundedTable C) (c : C) : List C :=
  basesFrom T.toClassTable (T.height c + 1) c

/-- The interfaces in the tables of one class. -/
def tableInterfaces (T : ClassTable C) (c : C) : List C :=
  (T.klass c).implementedInterfaces ++
    ((T.klass c).interfaceOffsets.take (T.klass c).interfaceOffsetsCount).map (·.interfaceType)

variable [DecidableEq C]

/-- `ClassInlines::HasParentUnsafe`. -/
def hasParentUnsafe (T : ClassTable C) (klass parent : C) : Answer :=
  if (T.klass parent).typeHierarchyDepth ≤ (T.klass klass).typeHierarchyDepth then
    match (T.klass klass).typeHierarchy[(T.klass parent).typeHierarchyDepth - 1]? with
    | none => .fault
    | some c => .ofBool (c = parent)
  else .no

section

variable (T : ClassTable C) (ask : C → C → Option Answer)

/-- The test of one type argument: `type` of the target's argument, `oType` of the source's. -/
def isArgumentAssignableFrom (implementingClass : C) (parameterVariance : Variance)
    (type oType : C) : Option Answer :=
  if parameterVariance = .nonVariant ∨ (T.klass type).valuetype ∨ (T.klass oType).valuetype then
    if type ≠ oType then
      -- arrays, and the enumerators of arrays, follow the variance of arrays
      if (T.klass implementingClass).rank ≠ 0 ∨
          (T.klass implementingClass).declaringType = some T.defaults.arrayClass then
        some (.ofBool (ArrayMetadata.getArrayVarianceReducedType T type =
          ArrayMetadata.getArrayVarianceReducedType T oType))
      else some .no
    else some .yes
  else if parameterVariance = .covariant then ask type oType
  else ask oType type

/-- `Class::IsGenericClassAssignableFromVariance`. -/
def isGenericClassAssignableFromVariance (klass oklass implementingClass : C) : Option Answer :=
  match (T.klass klass).genericClass, (T.klass oklass).genericClass with
  | _, none => some .no
  | none, some _ => some .fault
  | some genericClass, some oGenericClass =>
    if oGenericClass.type ≠ genericClass.type then some .no
    else
      Answer.all (fun (parameterVariance, type, oType) =>
          isArgumentAssignableFrom T ask implementingClass parameterVariance type oType)
        ((T.klass genericClass.type).variances.zip
          (genericClass.typeArgv.zip oGenericClass.typeArgv))

/-- `Class::IsGenericClassAssignableFrom`. -/
def isGenericClassAssignableFrom (klass oklass implementingClass : C) : Option Answer :=
  if klass = oklass then some .yes
  else isGenericClassAssignableFromVariance T ask klass oklass implementingClass

end

/-- `Class::IsAssignableFrom`, with `ask` for its recursive calls. -/
def isAssignableFromStep (T : GroundedTable C) (ask : C → C → Option Answer) (klass oklass : C) :
    Option Answer :=
  let k := T.klass klass
  let o := T.klass oklass
  if klass = oklass then some .yes
  else if !isInterface T.toClassTable klass then
    if k.rank ≠ 0 then
      if o.rank ≠ k.rank then some .no
      -- the elements of value types have to have one reduced type
      else if (T.klass o.castClass).valuetype then some (.ofBool (k.castClass = o.castClass))
      else ask k.castClass o.castClass
    else if klass = T.defaults.objectClass then some .yes
    else if isNullable T.toClassTable klass then ask k.elementClass oklass
    else
      Answer.or
        (if k.parent = some T.defaults.multicastdelegateClass ∧ k.genericClass.isSome then
          isGenericClassAssignableFrom T.toClassTable ask klass oklass oklass
        else some .no)
        (some (hasParentUnsafe T.toClassTable oklass klass))
  else if k.genericClass.isSome then
    Answer.any (fun iter =>
        Answer.or (isGenericClassAssignableFrom T.toClassTable ask klass iter oklass)
          (Answer.any (isGenericClassAssignableFrom T.toClassTable ask klass · oklass)
            (tableInterfaces T.toClassTable iter)))
      (bases T oklass)
  else
    some (.ofBool ((bases T oklass).any fun iter =>
      (tableInterfaces T.toClassTable iter).contains klass))

/-- `Class::IsAssignableFrom` with recursion of at most `fuel` levels. -/
def isAssignableFrom (T : GroundedTable C) : ℕ → C → C → Option Answer
  | 0 => fun _ _ => none
  | fuel + 1 => isAssignableFromStep T (isAssignableFrom T fuel)

/-! ### The questions that a question leads to -/

section

variable (T : ClassTable C)

/-- What the test of one type argument asks. -/
def argumentQuestions (parameterVariance : Variance) (type oType : C) : List (C × C) :=
  if parameterVariance = .nonVariant ∨ (T.klass type).valuetype ∨ (T.klass oType).valuetype then []
  else if parameterVariance = .covariant then [(type, oType)]
  else [(oType, type)]

/-- What the comparison of two generic instances asks. -/
def genericQuestions (klass oklass : C) : List (C × C) :=
  match (T.klass klass).genericClass, (T.klass oklass).genericClass with
  | some genericClass, some oGenericClass =>
    if oGenericClass.type ≠ genericClass.type then []
    else
      ((T.klass genericClass.type).variances.zip
        (genericClass.typeArgv.zip oGenericClass.typeArgv)).flatMap
          fun (parameterVariance, type, oType) =>
            argumentQuestions T parameterVariance type oType
  | _, _ => []

end

/-- What `IsAssignableFrom` may ask itself. -/
def questions (T : GroundedTable C) (klass oklass : C) : List (C × C) :=
  let k := T.klass klass
  let o := T.klass oklass
  if klass = oklass then []
  else if !isInterface T.toClassTable klass then
    if k.rank ≠ 0 then
      if o.rank ≠ k.rank then []
      else if (T.klass o.castClass).valuetype then []
      else [(k.castClass, o.castClass)]
    else if klass = T.defaults.objectClass then []
    else if isNullable T.toClassTable klass then [(k.elementClass, oklass)]
    else if k.parent = some T.defaults.multicastdelegateClass ∧ k.genericClass.isSome then
      genericQuestions T.toClassTable klass oklass
    else []
  else if k.genericClass.isSome then
    (bases T oklass).flatMap fun iter =>
      (iter :: tableInterfaces T.toClassTable iter).flatMap (genericQuestions T.toClassTable klass)
  else []

/-- The answer `a` is settled: a test that has ended, and not by a fault. -/
def Answer.Settled (a : Option Answer) : Prop := a = some .yes ∨ a = some .no

namespace Answer

theorem settled_ofBool (b : Bool) : Settled (some (ofBool b)) := by
  cases b
  · exact .inr rfl
  · exact .inl rfl

theorem Settled.or {a b : Option Answer} (ha : Settled a) (hb : Settled b) :
    Settled (Answer.or a b) := by
  rcases ha with rfl | rfl
  · exact .inl rfl
  · exact hb

theorem Settled.and {a b : Option Answer} (ha : Settled a) (hb : Settled b) :
    Settled (Answer.and a b) := by
  rcases ha with rfl | rfl
  · exact hb
  · exact .inr rfl

variable {α : Type*} {f g : α → Option Answer} {l : List α}

theorem settled_any (h : ∀ x ∈ l, Settled (f x)) : Settled (any f l) := by
  induction l with
  | nil => exact .inr rfl
  | cons x l ih =>
    exact (h x List.mem_cons_self).or (ih fun y hy => h y (List.mem_cons_of_mem _ hy))

theorem settled_all (h : ∀ x ∈ l, Settled (f x)) : Settled (all f l) := by
  induction l with
  | nil => exact .inl rfl
  | cons x l ih =>
    exact (h x List.mem_cons_self).and (ih fun y hy => h y (List.mem_cons_of_mem _ hy))

/-! Tests that have ended stay as they are when more tests end. -/

theorem or_mono {a a' b b' : Option Answer} (ha : ∀ v ∈ a, v ∈ a') (hb : ∀ v ∈ b, v ∈ b') :
    ∀ v ∈ or a b, v ∈ or a' b' := by
  intro v hv
  match a, ha, hv with
  | none, _, hv => cases hv
  | some .yes, ha, hv => rwa [show a' = some .yes from ha _ rfl]
  | some .no, ha, hv =>
    rw [show a' = some .no from ha _ rfl]
    exact hb v hv
  | some .fault, ha, hv => rwa [show a' = some .fault from ha _ rfl]

theorem and_mono {a a' b b' : Option Answer} (ha : ∀ v ∈ a, v ∈ a') (hb : ∀ v ∈ b, v ∈ b') :
    ∀ v ∈ and a b, v ∈ and a' b' := by
  intro v hv
  match a, ha, hv with
  | none, _, hv => cases hv
  | some .yes, ha, hv =>
    rw [show a' = some .yes from ha _ rfl]
    exact hb v hv
  | some .no, ha, hv => rwa [show a' = some .no from ha _ rfl]
  | some .fault, ha, hv => rwa [show a' = some .fault from ha _ rfl]

theorem any_mono (h : ∀ x, ∀ v ∈ f x, v ∈ g x) : ∀ v ∈ any f l, v ∈ any g l := by
  induction l with
  | nil => exact fun v hv => hv
  | cons x l ih => exact or_mono (h x) ih

theorem all_mono (h : ∀ x, ∀ v ∈ f x, v ∈ g x) : ∀ v ∈ all f l, v ∈ all g l := by
  induction l with
  | nil => exact fun v hv => hv
  | cons x l ih => exact and_mono (h x) ih

end Answer

/-! ### Steps -/

section

variable {T : ClassTable C} {ask ask' : C → C → Option Answer}

theorem isArgumentAssignableFrom_settled {implementingClass type oType : C} {v : Variance}
    (h : ∀ q ∈ argumentQuestions T v type oType, Answer.Settled (ask q.1 q.2)) :
    Answer.Settled (isArgumentAssignableFrom T ask implementingClass v type oType) := by
  rw [isArgumentAssignableFrom]
  rw [argumentQuestions] at h
  split at h
  · rw [if_pos ‹_›]
    split
    · split
      · exact Answer.settled_ofBool _
      · exact .inr rfl
    · exact .inl rfl
  · rw [if_neg ‹_›]
    split at h
    · rw [if_pos ‹_›]
      exact h _ List.mem_cons_self
    · rw [if_neg ‹_›]
      exact h _ List.mem_cons_self

theorem isGenericClassAssignableFrom_settled {klass oklass implementingClass : C}
    (hgeneric : (T.klass klass).genericClass.isSome)
    (h : ∀ q ∈ genericQuestions T klass oklass, Answer.Settled (ask q.1 q.2)) :
    Answer.Settled (isGenericClassAssignableFrom T ask klass oklass implementingClass) := by
  rw [isGenericClassAssignableFrom]
  split
  · exact .inl rfl
  rw [isGenericClassAssignableFromVariance]
  rw [genericQuestions] at h
  cases hg : (T.klass klass).genericClass with
  | none => simp [hg] at hgeneric
  | some genericClass =>
    cases ho : (T.klass oklass).genericClass with
    | none => exact .inr rfl
    | some oGenericClass =>
      rw [hg, ho] at h
      simp only at h ⊢
      split
      · exact .inr rfl
      · rw [if_neg ‹_›] at h
        refine Answer.settled_all fun x hx => isArgumentAssignableFrom_settled fun q hq => ?_
        exact h q (List.mem_flatMap.2 ⟨x, hx, hq⟩)

theorem isArgumentAssignableFrom_mono (h : ∀ k o, ∀ v ∈ ask k o, v ∈ ask' k o)
    (implementingClass type oType : C) (p : Variance) :
    ∀ v ∈ isArgumentAssignableFrom T ask implementingClass p type oType,
      v ∈ isArgumentAssignableFrom T ask' implementingClass p type oType := by
  intro v hv
  rw [isArgumentAssignableFrom] at hv ⊢
  split
  · rwa [if_pos ‹_›] at hv
  · rw [if_neg ‹_›] at hv
    split
    · rw [if_pos ‹_›] at hv
      exact h _ _ v hv
    · rw [if_neg ‹_›] at hv
      exact h _ _ v hv

theorem isGenericClassAssignableFrom_mono (h : ∀ k o, ∀ v ∈ ask k o, v ∈ ask' k o)
    (klass oklass implementingClass : C) :
    ∀ v ∈ isGenericClassAssignableFrom T ask klass oklass implementingClass,
      v ∈ isGenericClassAssignableFrom T ask' klass oklass implementingClass := by
  intro v hv
  rw [isGenericClassAssignableFrom] at hv ⊢
  split
  · rwa [if_pos ‹_›] at hv
  rw [if_neg ‹_›] at hv
  rw [isGenericClassAssignableFromVariance] at hv ⊢
  generalize (T.klass klass).genericClass = g at hv ⊢
  generalize (T.klass oklass).genericClass = og at hv ⊢
  cases g with
  | none => cases og <;> exact hv
  | some genericClass =>
    cases og with
    | none => exact hv
    | some oGenericClass =>
      dsimp only at hv ⊢
      split
      · rwa [if_pos ‹_›] at hv
      · rw [if_neg ‹_›] at hv
        exact Answer.all_mono (fun x => isArgumentAssignableFrom_mono h _ _ _ _) v hv

end

section

variable {T : GroundedTable C} {ask ask' : C → C → Option Answer}

/-- A class whose hierarchy has been set up, as `Class::Init` does. -/
def HierarchySetUp (T : ClassTable C) (c : C) : Prop :=
  0 < (T.klass c).typeHierarchyDepth ∧
    (T.klass c).typeHierarchy.length = (T.klass c).typeHierarchyDepth

theorem hasParentUnsafe_settled {T : ClassTable C} {klass parent : C}
    (hklass : HierarchySetUp T klass) (hparent : HierarchySetUp T parent) :
    Answer.Settled (some (hasParentUnsafe T klass parent)) := by
  rw [hasParentUnsafe]
  split
  · rename_i hle
    have hlt : (T.klass parent).typeHierarchyDepth - 1 < (T.klass klass).typeHierarchy.length := by
      have := hparent.1
      rw [hklass.2]
      omega
    rw [List.getElem?_eq_getElem hlt]
    exact Answer.settled_ofBool _
  · exact .inr rfl

theorem isAssignableFromStep_settled {klass oklass : C}
    (hklass : HierarchySetUp T.toClassTable klass)
    (hoklass : HierarchySetUp T.toClassTable oklass)
    (h : ∀ q ∈ questions T klass oklass, Answer.Settled (ask q.1 q.2)) :
    Answer.Settled (isAssignableFromStep T ask klass oklass) := by
  simp only [questions] at h
  simp only [isAssignableFromStep]
  split
  case isTrue => exact .inl rfl
  rw [if_neg ‹_›] at h
  split
  · rw [if_pos ‹_›] at h
    split
    · rw [if_pos ‹_›] at h
      split
      · exact .inr rfl
      rw [if_neg ‹_›] at h
      split
      · exact Answer.settled_ofBool _
      rw [if_neg ‹_›] at h
      exact h _ List.mem_cons_self
    rw [if_neg ‹_›] at h
    split
    · exact .inl rfl
    rw [if_neg ‹_›] at h
    split
    · rw [if_pos ‹_›] at h
      exact h _ List.mem_cons_self
    rw [if_neg ‹_›] at h
    refine Answer.Settled.or ?_ (hasParentUnsafe_settled hoklass hklass)
    split
    · rename_i hdelegate
      rw [if_pos hdelegate] at h
      exact isGenericClassAssignableFrom_settled hdelegate.2 h
    · exact .inr rfl
  · rw [if_neg ‹_›] at h
    split
    · rename_i hgeneric
      rw [if_pos hgeneric] at h
      refine Answer.settled_any fun iter hiter => Answer.Settled.or ?_ (Answer.settled_any ?_)
      · refine isGenericClassAssignableFrom_settled hgeneric fun q hq => h q ?_
        exact List.mem_flatMap.2 ⟨iter, hiter, List.mem_flatMap.2 ⟨_, List.mem_cons_self, hq⟩⟩
      · intro itf hitf
        refine isGenericClassAssignableFrom_settled hgeneric fun q hq => h q ?_
        exact List.mem_flatMap.2
          ⟨iter, hiter, List.mem_flatMap.2 ⟨itf, List.mem_cons_of_mem _ hitf, hq⟩⟩
    · exact Answer.settled_ofBool _

theorem isAssignableFromStep_mono (h : ∀ k o, ∀ v ∈ ask k o, v ∈ ask' k o) (klass oklass : C) :
    ∀ v ∈ isAssignableFromStep T ask klass oklass,
      v ∈ isAssignableFromStep T ask' klass oklass := by
  intro v hv
  simp only [isAssignableFromStep] at hv ⊢
  split
  · rwa [if_pos ‹_›] at hv
  rw [if_neg ‹_›] at hv
  split
  · rw [if_pos ‹_›] at hv
    split
    · rw [if_pos ‹_›] at hv
      split
      · rwa [if_pos ‹_›] at hv
      rw [if_neg ‹_›] at hv
      split
      · rwa [if_pos ‹_›] at hv
      rw [if_neg ‹_›] at hv
      exact h _ _ v hv
    rw [if_neg ‹_›] at hv
    split
    · rwa [if_pos ‹_›] at hv
    rw [if_neg ‹_›] at hv
    split
    · rw [if_pos ‹_›] at hv
      exact h _ _ v hv
    rw [if_neg ‹_›] at hv
    refine Answer.or_mono ?_ (fun _ hw => hw) v hv
    split
    · exact isGenericClassAssignableFrom_mono h _ _ _
    · exact fun _ hw => hw
  · rw [if_neg ‹_›] at hv
    split
    · rw [if_pos ‹_›] at hv
      refine Answer.any_mono (fun iter => Answer.or_mono
        (isGenericClassAssignableFrom_mono h _ _ _) (Answer.any_mono fun itf => ?_)) v hv
      exact isGenericClassAssignableFrom_mono h _ _ _
    · rwa [if_neg ‹_›] at hv

theorem isAssignableFrom_succ (fuel : ℕ) (klass oklass : C) :
    ∀ v ∈ isAssignableFrom T fuel klass oklass,
      v ∈ isAssignableFrom T (fuel + 1) klass oklass := by
  induction fuel generalizing klass oklass with
  | zero => nofun
  | succ fuel ih => exact isAssignableFromStep_mono ih klass oklass

theorem isAssignableFrom_mono {fuel fuel' : ℕ} (hle : fuel ≤ fuel') (klass oklass : C) :
    ∀ v ∈ isAssignableFrom T fuel klass oklass, v ∈ isAssignableFrom T fuel' klass oklass := by
  induction hle with
  | refl => exact fun v hv => hv
  | step _ ih => exact fun v hv => isAssignableFrom_succ _ _ _ v (ih v hv)

end

end Il2Cpp
