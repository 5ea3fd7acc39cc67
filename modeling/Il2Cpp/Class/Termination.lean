import Il2Cpp.Class.ArrayTables
import Il2Cpp.Class.IsAssignableFrom

/-!
# Termination of the assignability test

A question is settled where the questions that it leads to cannot go on forever
(`returns_of_acc`).  Types bound them in two cases: without contravariant parameters the target
becomes smaller with each question, and where no class has interfaces with larger variant arguments
than itself, target and source together do.

Otherwise they can go on: with `interface N<in T>` and `class C : N<N<C>>`, whether a `C` is an
`N<C>` depends on itself (`not_returns_contravariant`).
-/

namespace Il2Cpp

variable {C : Type*}

/-- A table of type definitions, generic instances and arrays of them: their hierarchies have been
set up, and the classes inside of a class are smaller types. -/
structure SizedTable (C : Type*) extends GroundedTable C where
  hierarchy : ∀ c, HierarchySetUp toClassTable c
  /-- The size of a class as a type. -/
  size : C → ℕ
  size_castClass : ∀ c, (klass c).rank ≠ 0 → size (klass c).castClass < size c
  size_nullable : ∀ c, isNullable toClassTable c → size (klass c).elementClass < size c
  size_argument : ∀ {c g}, (klass c).genericClass = some g → ∀ a ∈ g.typeArgv, size a < size c

/-- The arguments of a generic instance for its variant parameters. -/
def variantArguments (T : ClassTable C) (c : C) : List C :=
  match (T.klass c).genericClass with
  | none => []
  | some genericClass =>
    (((T.klass genericClass.type).variances.zip genericClass.typeArgv).filter
      (·.1 ≠ .nonVariant)).map Prod.snd

/-- No generic parameter is contravariant. -/
def NoContravariance (T : ClassTable C) : Prop :=
  ∀ c, Variance.contravariant ∉ (T.klass c).variances

/-- The variant arguments of the classes and interfaces that a class can be seen as are no larger
than the class. -/
def NotExpanding (T : SizedTable C) : Prop :=
  ∀ c, ∀ iter ∈ bases T.toGroundedTable c, ∀ itf ∈ iter :: tableInterfaces T.toClassTable iter,
    ∀ a ∈ variantArguments T.toClassTable itf, T.size a ≤ T.size c

section

variable [DecidableEq C]

/-- The second question can lead to the first. -/
def Asks (T : GroundedTable C) (q q' : C × C) : Prop :=
  q ∈ questions T q'.1 q'.2

/-- `IsAssignableFrom` returns. -/
def Returns (T : GroundedTable C) (klass oklass : C) : Prop :=
  ∃ fuel, Answer.Settled (isAssignableFrom T fuel klass oklass)

variable {T : GroundedTable C}

theorem Answer.Settled.mono {fuel fuel' : ℕ} {klass oklass : C} (hle : fuel ≤ fuel')
    (h : Answer.Settled (isAssignableFrom T fuel klass oklass)) :
    Answer.Settled (isAssignableFrom T fuel' klass oklass) :=
  h.imp (isAssignableFrom_mono hle klass oklass _) (isAssignableFrom_mono hle klass oklass _)

theorem exists_fuel {qs : List (C × C)} (h : ∀ q ∈ qs, Returns T q.1 q.2) :
    ∃ fuel, ∀ q ∈ qs, Answer.Settled (isAssignableFrom T fuel q.1 q.2) := by
  induction qs with
  | nil => exact ⟨0, nofun⟩
  | cons q qs ih =>
    obtain ⟨fuel, hfuel⟩ := ih fun q' hq' => h q' (List.mem_cons_of_mem _ hq')
    obtain ⟨fuel', hfuel'⟩ := h q List.mem_cons_self
    refine ⟨max fuel fuel', fun q' hq' => ?_⟩
    rcases List.mem_cons.1 hq' with rfl | hq'
    · exact hfuel'.mono (Nat.le_max_right _ _)
    · exact (hfuel q' hq').mono (Nat.le_max_left _ _)

theorem returns_of_acc (hT : ∀ c, HierarchySetUp T.toClassTable c) {q : C × C}
    (h : Acc (Asks T) q) : Returns T q.1 q.2 := by
  induction h with
  | intro q _ ih =>
    obtain ⟨fuel, hfuel⟩ := exists_fuel ih
    exact ⟨fuel + 1, isAssignableFromStep_settled (hT q.1) (hT q.2) hfuel⟩

/-! ### What a question can ask -/

omit [DecidableEq C] in
theorem mem_argumentQuestions {T : ClassTable C} {v : Variance} {type oType : C} {q : C × C}
    (h : q ∈ argumentQuestions T v type oType) :
    v = .covariant ∧ q = (type, oType) ∨ v = .contravariant ∧ q = (oType, type) := by
  rw [argumentQuestions] at h
  split at h
  · cases h
  · rename_i hv
    cases v with
    | nonVariant => exact absurd (.inl rfl) hv
    | covariant => exact .inl ⟨rfl, by simpa using h⟩
    | contravariant => exact .inr ⟨rfl, by simpa using h⟩

omit [DecidableEq C] in
theorem mem_variantArguments {T : ClassTable C} {c : C} {g : Il2CppGenericClass C}
    (hg : (T.klass c).genericClass = some g) {i : ℕ} {v : Variance} {a : C}
    (hv : (T.klass g.type).variances[i]? = some v) (ha : g.typeArgv[i]? = some a)
    (hvariant : v ≠ .nonVariant) : a ∈ variantArguments T c := by
  rw [variantArguments, hg]
  have hmem : (v, a) ∈ (T.klass g.type).variances.zip g.typeArgv :=
    List.mem_of_getElem? (i := i) (by rw [List.getElem?_zip_eq_some]; exact ⟨hv, ha⟩)
  exact List.mem_map.2 ⟨_, List.mem_filter.2 ⟨hmem, by simpa using hvariant⟩, rfl⟩

theorem mem_genericQuestions {T : ClassTable C} {klass oklass : C} {q : C × C}
    (h : q ∈ genericQuestions T klass oklass) :
    ∃ g, (T.klass klass).genericClass = some g ∧ ∃ a ∈ g.typeArgv,
      ∃ a' ∈ variantArguments T oklass,
        q = (a, a') ∨ q = (a', a) ∧ Variance.contravariant ∈ (T.klass g.type).variances := by
  rw [genericQuestions] at h
  cases hg : (T.klass klass).genericClass with
  | none => simp [hg] at h
  | some g =>
    cases hog : (T.klass oklass).genericClass with
    | none => simp [hg, hog] at h
    | some og =>
      rw [hg, hog] at h
      dsimp only at h
      split at h
      · cases h
      rename_i htype
      have htype : og.type = g.type := not_not.1 htype
      obtain ⟨⟨v, a, a'⟩, hmem, hq⟩ := List.mem_flatMap.1 h
      obtain ⟨i, hi⟩ := List.mem_iff_getElem?.1 hmem
      rw [List.getElem?_zip_eq_some, List.getElem?_zip_eq_some] at hi
      obtain ⟨hv, ha, ha'⟩ := hi
      have hvariant (hne : v ≠ .nonVariant) : a' ∈ variantArguments T oklass :=
        mem_variantArguments hog (htype ▸ hv) ha' hne
      rcases mem_argumentQuestions hq with ⟨heq, rfl⟩ | ⟨heq, rfl⟩
      · have heq : v = .covariant := heq
        exact ⟨g, rfl, a, List.mem_of_getElem? ha, a', hvariant (by simp [heq]), .inl rfl⟩
      · have heq : v = .contravariant := heq
        exact ⟨g, rfl, a, List.mem_of_getElem? ha, a', hvariant (by simp [heq]),
          .inr ⟨rfl, heq ▸ List.mem_of_getElem? hv⟩⟩

omit [DecidableEq C] in
theorem self_mem_bases (T : GroundedTable C) (c : C) : c ∈ bases T c :=
  List.mem_cons_self

theorem mem_questions {klass oklass : C} {q : C × C} (h : q ∈ questions T klass oklass) :
    (T.klass klass).rank ≠ 0 ∧ (T.klass oklass).rank ≠ 0 ∧
        q = ((T.klass klass).castClass, (T.klass oklass).castClass) ∨
      isNullable T.toClassTable klass ∧ q = ((T.klass klass).elementClass, oklass) ∨
      ∃ iter ∈ bases T oklass, ∃ itf ∈ iter :: tableInterfaces T.toClassTable iter,
        q ∈ genericQuestions T.toClassTable klass itf := by
  simp only [questions] at h
  split at h
  · cases h
  split at h
  · split at h
    · rename_i hrank
      split at h
      · cases h
      rename_i hrank'
      split at h
      · cases h
      exact .inl ⟨hrank, by rwa [not_not.1 hrank'], List.mem_singleton.1 h⟩
    split at h
    · cases h
    split at h
    · exact .inr (.inl ⟨‹_›, List.mem_singleton.1 h⟩)
    split at h
    · exact .inr (.inr ⟨oklass, self_mem_bases T oklass, oklass, List.mem_cons_self, h⟩)
    · cases h
  · split at h
    · obtain ⟨iter, hiter, h⟩ := List.mem_flatMap.1 h
      obtain ⟨itf, hitf, h⟩ := List.mem_flatMap.1 h
      exact .inr (.inr ⟨iter, hiter, itf, hitf, h⟩)
    · cases h

end

/-! ### Bounds on the questions -/

section

variable [DecidableEq C] {T : SizedTable C}

theorem NoContravariance.size_lt (hT : NoContravariance T.toClassTable) {q q' : C × C}
    (h : Asks T.toGroundedTable q q') : T.size q.1 < T.size q'.1 := by
  rcases mem_questions h with ⟨hrank, -, rfl⟩ | ⟨hnullable, rfl⟩ | ⟨iter, -, itf, -, hq⟩
  · exact T.size_castClass _ hrank
  · exact T.size_nullable _ hnullable
  · obtain ⟨g, hg, a, ha, a', -, rfl | ⟨-, hcontra⟩⟩ := mem_genericQuestions hq
    · exact T.size_argument hg a ha
    · exact absurd hcontra (hT g.type)

theorem NotExpanding.size_lt (hT : NotExpanding T) {q q' : C × C}
    (h : Asks T.toGroundedTable q q') :
    T.size q.1 + T.size q.2 < T.size q'.1 + T.size q'.2 := by
  rcases mem_questions h with ⟨hrank, horank, rfl⟩ | ⟨hnullable, rfl⟩ |
    ⟨iter, hiter, itf, hitf, hq⟩
  · exact Nat.add_lt_add (T.size_castClass _ hrank) (T.size_castClass _ horank)
  · exact Nat.add_lt_add_right (T.size_nullable _ hnullable) _
  · obtain ⟨g, hg, a, ha, a', ha', hq⟩ := mem_genericQuestions hq
    have hlt := T.size_argument hg a ha
    have hle := hT q'.2 iter hiter itf hitf a' ha'
    rcases hq with rfl | ⟨rfl, -⟩ <;> dsimp only <;> omega

/-- The test returns on every pair of classes from which its questions do not go on forever, and so
on all pairs if no parameter is contravariant, or if no class expands. -/
theorem isAssignableFrom_returns (T : SizedTable C) :
    (∀ klass oklass, Acc (Asks T.toGroundedTable) (klass, oklass) →
      Returns T.toGroundedTable klass oklass) ∧
    (NoContravariance T.toClassTable → ∀ klass oklass, Returns T.toGroundedTable klass oklass) ∧
    (NotExpanding T → ∀ klass oklass, Returns T.toGroundedTable klass oklass) := by
  have hacc (q : C × C) (h : Acc (Asks T.toGroundedTable) q) :
      Returns T.toGroundedTable q.1 q.2 := returns_of_acc T.hierarchy h
  refine ⟨fun klass oklass => hacc (klass, oklass), fun hT klass oklass => ?_,
    fun hT klass oklass => ?_⟩
  · have hwf : WellFounded (Asks T.toGroundedTable) :=
      Subrelation.wf (fun h => hT.size_lt h) (measure fun q : C × C => T.size q.1).wf
    exact hacc (klass, oklass) (hwf.apply _)
  · have hwf : WellFounded (Asks T.toGroundedTable) :=
      Subrelation.wf (fun h => hT.size_lt h) (measure fun q : C × C => T.size q.1 + T.size q.2).wf
    exact hacc (klass, oklass) (hwf.apply _)

end

/-! ### Vectors and their interfaces -/

namespace ArrayMetadata.CoreClass

/-- The size of a class as a type. -/
def size : CoreClass → ℕ
  | inflated _ c | vector c => c.size + 1
  | _ => 0

/-- The core library as a table of types. -/
def types : SizedTable CoreClass where
  toGroundedTable := coreLibrary.toGroundedTable
  hierarchy := by
    intro x
    cases x <;> exact ⟨Nat.succ_pos _, rfl⟩
  size := size
  size_castClass := by
    intro x h
    cases x with
    | vector c => exact Nat.lt_succ_self _
    | _ => exact absurd rfl h
  size_nullable := by
    intro x h
    cases x <;> cases h
  size_argument := by
    intro x g h a ha
    cases x <;> cases h
    rw [List.mem_singleton.1 ha]
    exact Nat.lt_succ_self _

theorem noContravariance : NoContravariance types.toClassTable := by
  rintro (_ | _ | _ | _ | _ | i | _ | _) h
  case definition => cases i <;> cases List.mem_singleton.1 h
  all_goals cases h

theorem variantArguments_eq (c : CoreClass) :
    ∀ a ∈ variantArguments types.toClassTable c, ∃ i, c = inflated i a := by
  intro a ha
  cases c with
  | inflated i c => cases i <;> simp_all [variantArguments, types, coreLibrary, table, klass]
  | _ => cases ha

theorem mem_tableInterfaces {i : VectorInterface} {a c : CoreClass}
    (h : inflated i a ∈ tableInterfaces types.toClassTable c) : c = vector a := by
  cases c <;> simp_all [tableInterfaces, types, coreLibrary, table, klass, Il2CppClass.blank]
  tauto

theorem mem_bases {c iter : CoreClass} (h : iter ∈ bases types.toGroundedTable c) :
    iter = c ∨ iter ∈ [object, valueType, array] := by
  cases c <;> simp_all [bases, basesFrom, types, coreLibrary, table, klass, height,
    Il2CppClass.blank]
  all_goals tauto

theorem notExpanding : NotExpanding types := by
  intro c iter hiter itf hitf a ha
  obtain ⟨i, rfl⟩ := variantArguments_eq itf a ha
  rcases List.mem_cons.1 hitf with heq | hitf
  · rcases mem_bases hiter with rfl | hbase
    · exact heq ▸ Nat.le_succ _
    · exact absurd (heq ▸ hbase) (by simp)
  · obtain rfl := mem_tableInterfaces hitf
    rcases mem_bases hiter with rfl | hbase
    · exact Nat.le_succ _
    · exact absurd hbase (by simp)

theorem isAssignableFrom_returns_vector :
    Returns types.toGroundedTable (inflated .enumerable object) (vector (vector object)) ∧
      Returns types.toGroundedTable (inflated .list object) (vector (vector object)) :=
  ⟨(isAssignableFrom_returns types).2.1 noContravariance _ _,
    (isAssignableFrom_returns types).2.2 notExpanding _ _⟩

end ArrayMetadata.CoreClass

/-! ### A contravariant interface that expands -/

/-- `class Object`, `class C : N<N<C>>`, `interface N<in T>` and its instances. -/
inductive ExpandingClass where
  | object | c | definition
  | n (argument : ExpandingClass)
  deriving DecidableEq

namespace ExpandingClass

/-- The class at an address. -/
def klass : ExpandingClass → Il2CppClass ExpandingClass
  | object => .blank (.simple .object) [] object
  | c => { Il2CppClass.blank .klass [object] c with implementedInterfaces := [n (n c)] }
  | definition =>
    { Il2CppClass.blank .klass [] definition with
      interfaceFlag := true
      variances := [.contravariant] }
  | n a =>
    { Il2CppClass.blank .genericinst [] (n a) with
      interfaceFlag := true
      genericClass := some ⟨definition, [a]⟩ }

/-- The size of a class as a type. -/
def size : ExpandingClass → ℕ
  | n a => a.size + 1
  | _ => 0

/-- The table of these classes. -/
def table : SizedTable ExpandingClass where
  klass := klass
  defaults :=
    { objectClass := object
      valueTypeClass := object
      enumClass := object
      arrayClass := object
      multicastdelegateClass := object
      sbyteClass := object
      int16Class := object
      int32Class := object
      int64Class := object
      genericIlistClass := object
      genericIcollectionClass := object
      genericIenumerableClass := object
      genericIreadonlylistClass := object
      genericIreadonlycollectionClass := object }
  getInflatedGenericInstanceClass := fun _ args => n (args.headD object)
  getMethod := fun method _ => method
  height := fun
    | object | definition => 0
    | c | n _ => 1
  height_parent := by
    intro x p h
    cases x <;> cases h
    exact Nat.zero_lt_one
  height_elementClass := by
    intro x h
    cases x <;> exact absurd rfl h
  height_underlying := by
    intro x h
    cases x <;> cases h
  height_definition := by
    intro x g h
    cases x <;> cases h
    exact Nat.zero_lt_one
  hierarchy := by
    intro x
    cases x <;> exact ⟨Nat.succ_pos _, rfl⟩
  size := size
  size_castClass := by
    intro x h
    cases x <;> exact absurd rfl h
  size_nullable := by
    intro x h
    cases x <;> cases h
  size_argument := by
    intro x g h a ha
    cases x <;> cases h
    rw [List.mem_singleton.1 ha]
    exact Nat.lt_succ_self _

theorem isAssignableFrom_expanding (fuel : ℕ) :
    isAssignableFrom table.toGroundedTable fuel (n c) c = none := by
  induction fuel with
  | zero => rfl
  | succ fuel ih =>
    have hstep (ask : ExpandingClass → ExpandingClass → Option Answer) (h : ask (n c) c = none) :
        isAssignableFromStep table.toGroundedTable ask (n c) c = none := by
      change Answer.or (some .no) (Answer.or (Answer.or (Answer.and (ask (n c) c) _) _) _) = _
      rw [h]
      rfl
    exact hstep _ ih

theorem not_returns_contravariant :
    ¬ ∀ klass oklass, Returns table.toGroundedTable klass oklass := by
  intro h
  obtain ⟨fuel, hsettled⟩ := h (n c) c
  rw [isAssignableFrom_expanding] at hsettled
  rcases hsettled with h | h <;> cases h

end ExpandingClass

end Il2Cpp
