import Il2Cpp.Class.ArrayCast
import Il2Cpp.Class.TypeHierarchy

/-!
# Subclasses

`Class::IsSubclassOf` looks for a class among the bases of another one.  An object that is assignable
to a class is assignable to all bases of the class: the bases of an array or of an instance of a
generic delegate are those of every other one that the test accepts for it.

* `isSubclassOf` : the function, where it does not look for interfaces.
* `HierarchyTable` : the classes, with their hierarchies.
* `Accepts.of_isSubclassOf` : what a class accepts, its bases accept.
-/

namespace Il2Cpp

variable {C : Type}

/-! ### Bases -/

/-- The classes with their parents. -/
def parents (T : GroundedTable C) : TypeHierarchy.Parents C where
  parent := fun c => (T.klass c).parent
  height := T.height
  height_lt := T.height_parent

section

variable {T : GroundedTable C} {c d p : C}

theorem basesFrom_eq_chain {n : ℕ} (h : T.height c < n) :
    basesFrom T.toClassTable n c = (parents T).chain c := by
  induction n generalizing c with
  | zero => cases h
  | succ n ih =>
    rw [basesFrom]
    cases hp : (T.klass c).parent with
    | none => rw [TypeHierarchy.Parents.chain_of_root hp, Option.elim]
    | some p =>
      have hlt : T.height p < n := by
        have := T.height_parent hp
        omega
      rw [TypeHierarchy.Parents.chain_of_parent hp, Option.elim, ih hlt]

theorem bases_eq_chain (T : GroundedTable C) (c : C) : bases T c = (parents T).chain c :=
  basesFrom_eq_chain (Nat.lt_succ_self _)

theorem bases_of_root (h : (T.klass c).parent = none) : bases T c = [c] := by
  rw [bases_eq_chain, TypeHierarchy.Parents.chain_of_root h]

theorem bases_of_parent (h : (T.klass c).parent = some p) : bases T c = c :: bases T p := by
  rw [bases_eq_chain, bases_eq_chain, TypeHierarchy.Parents.chain_of_parent h]

theorem exists_parent_of_mem_bases (h : d ∈ bases T c) (hne : d ≠ c) :
    ∃ c', (T.klass c').parent = some d := by
  rw [bases_eq_chain] at h
  induction c using (parents T).induction with
  | step c ih =>
    cases hp : (T.klass c).parent with
    | none =>
      rw [TypeHierarchy.Parents.chain_of_root hp] at h
      exact absurd (List.mem_singleton.1 h) hne
    | some p =>
      rw [TypeHierarchy.Parents.chain_of_parent hp] at h
      have h := (List.mem_cons.1 h).resolve_left hne
      by_cases heq : d = p
      · exact ⟨c, heq ▸ hp⟩
      · exact ih p hp h heq

end

/-! ### The function -/

section

variable [DecidableEq C] (T : GroundedTable C)

/-- `ClassInlines::HasParentUnsafe`, after `SetupTypeHierarchy` of both classes. -/
def hasParent (klass parent : C) : Bool :=
  (bases T parent).length ≤ (bases T klass).length &&
    (bases T klass).reverse[(bases T parent).length - 1]? = some parent

/-- `Class::IsSubclassOf`, where `check_interfaces` is false. -/
def isSubclassOf (klass klassc : C) : Bool :=
  !isInterface T.toClassTable klass && hasParent T klass klassc ||
    klassc = T.defaults.objectClass

variable {T} {c d : C}

theorem hasParent_iff : hasParent T c d = true ↔ d ∈ bases T c := by
  rw [hasParent, Bool.and_eq_true, decide_eq_true_iff, decide_eq_true_iff, bases_eq_chain,
    bases_eq_chain]
  exact TypeHierarchy.Parents.mem_chain_iff.symm

theorem isSubclassOf_iff : isSubclassOf T c d = true ↔
    isInterface T.toClassTable c = false ∧ d ∈ bases T c ∨ d = T.defaults.objectClass := by
  rw [isSubclassOf, Bool.or_eq_true, Bool.and_eq_true, Bool.not_eq_true', hasParent_iff,
    decide_eq_true_iff]

end

/-! ### Classes with their hierarchies -/

variable [DecidableEq C]

/-- A class table in which `SetupTypeHierarchy` has filled the hierarchies. -/
structure HierarchyTable (C : Type) [DecidableEq C] extends CastTable C where
  typeHierarchy_eq : ∀ c, (klass c).type ≠ .ptr →
    (klass c).typeHierarchy = (bases toGroundedTable c).reverse
  typeHierarchyDepth_eq : ∀ c, (klass c).type ≠ .ptr →
    (klass c).typeHierarchyDepth = (bases toGroundedTable c).length
  -- a base is a class that is not sealed, as arrays, pointers and delegates are
  parent_class : ∀ {c p}, (klass c).parent = some p → isInterface toClassTable p = false ∧
    ¬ isArray toClassTable p ∧ (klass p).type ≠ .ptr ∧
    (klass p).parent ≠ some defaults.multicastdelegateClass
  /-- The instances of a generic delegate are delegates. -/
  definition_parent : ∀ {c g}, (klass c).genericClass = some g →
    ((klass c).parent = some defaults.multicastdelegateClass ↔
      (klass g.type).parent = some defaults.multicastdelegateClass)
  objectClass_class : (klass defaults.objectClass).interfaceFlag = false ∧
    (klass defaults.objectClass).parent = none

variable {T : HierarchyTable C} {c d p x : C}

theorem type_ne_ptr_of_parent (h : (T.klass c).parent = some p) : (T.klass c).type ≠ .ptr := by
  intro htype
  rw [(T.pointer c htype).2.2.2.2.1] at h
  cases h

theorem valuetype_of_parent (h : (T.klass c).parent = some p) : (T.klass p).valuetype = false := by
  by_contra hvalue
  have hmem : p ∈ (T.klass c).typeHierarchy := by
    rw [T.typeHierarchy_eq c (type_ne_ptr_of_parent h), List.mem_reverse, bases_of_parent h]
    exact List.mem_cons_of_mem _ List.mem_cons_self
  have heq := T.valuetype_sealed p (eq_true_of_ne_false hvalue) c hmem
  exact (T.height_parent h).ne (by rw [heq])

theorem mem_bases_of_mem_typeHierarchy (h : d ∈ (T.klass x).typeHierarchy) :
    d ∈ bases T.toGroundedTable x := by
  by_cases htype : (T.klass x).type = .ptr
  · rw [(T.pointer x htype).2.2.2.2.2.1] at h
    cases h
  · rwa [T.typeHierarchy_eq x htype, List.mem_reverse] at h

theorem objectClass_isInterface : isInterface T.toClassTable T.defaults.objectClass = false :=
  isInterface_eq_false T.objectClass_class.1 (by rw [T.objectClass_type]; nofun)
    (by rw [T.objectClass_type]; nofun)

theorem objectClass_rank : (T.klass T.defaults.objectClass).rank = 0 :=
  T.rank_eq_zero _ (by rw [isArray, T.objectClass_type]; rintro (h | h) <;> cases h)

/-! ### Assignability to bases -/

theorem accepts_object (x : C) : Accepts T.toGroundedTable T.defaults.objectClass x := by
  refine ⟨1, ?_⟩
  change isAssignableFromStep T.toGroundedTable _ _ _ = _
  rw [isAssignableFromStep]
  split_ifs with heq hinterface hrank hobject
  · rfl
  · exact absurd objectClass_rank hrank
  · exact absurd objectClass_rank hrank
  · exact absurd objectClass_rank hrank
  · rfl
  all_goals simp_all [objectClass_isInterface]

theorem accepts_of_mem_bases (h : d ∈ bases T.toGroundedTable x) (hne : d ≠ x) :
    Accepts T.toGroundedTable d x := by
  by_cases hobject : d = T.defaults.objectClass
  · exact hobject ▸ accepts_object x
  obtain ⟨c, hparent⟩ := exists_parent_of_mem_bases h hne
  obtain ⟨hinterface, harray, hpointer, hdelegate⟩ := T.parent_class hparent
  have hrank : (T.klass d).rank = 0 := T.rank_eq_zero d harray
  have hnullable : ¬ isNullable T.toClassTable d = true := by
    intro hnullable
    have hvalue := (T.nullabletype d (Bool.and_eq_true_iff.1 hnullable).2).1
    rw [valuetype_of_parent hparent] at hvalue
    cases hvalue
  have hpointer' : (T.klass x).type ≠ .ptr := by
    intro htype
    rw [bases_of_root (T.pointer x htype).2.2.2.2.1] at h
    exact hne (List.mem_singleton.1 h)
  have hyes : hasParentUnsafe T.toClassTable x d = .yes := by
    rw [← hasParent_iff, hasParent, Bool.and_eq_true, decide_eq_true_iff, decide_eq_true_iff,
      ← T.typeHierarchy_eq x hpointer', ← T.typeHierarchyDepth_eq x hpointer',
      ← T.typeHierarchyDepth_eq d hpointer] at h
    rw [hasParentUnsafe, if_pos h.1, h.2]
    simp [Answer.ofBool]
  refine ⟨1, ?_⟩
  change isAssignableFromStep T.toGroundedTable _ _ _ = _
  rw [isAssignableFromStep, if_neg hne, if_pos (by simp [hinterface]),
    if_neg (not_not.2 hrank), if_neg hobject, if_neg hnullable, if_neg fun h => hdelegate h.1,
    hyes]
  rfl

theorem Answer.or_eq_yes {a b : Option Answer} (h : Answer.or a b = some .yes) :
    a = some .yes ∨ b = some .yes := by
  cases a with
  | none => cases h
  | some a =>
    cases a with
    | yes => exact .inl rfl
    | no => exact .inr h
    | fault => cases h

theorem type_of_isGenericClassAssignableFrom {T : ClassTable C} {ask : C → C → Option Answer}
    (h : isGenericClassAssignableFrom T ask c x d = some .yes) :
    c = x ∨ ∃ g g', (T.klass c).genericClass = some g ∧ (T.klass x).genericClass = some g' ∧
      g'.type = g.type := by
  rw [isGenericClassAssignableFrom] at h
  split at h
  · exact .inl ‹_›
  rw [isGenericClassAssignableFromVariance] at h
  split at h
  · cases h
  · cases h
  · rename_i g g' hg hg'
    split at h
    · cases h
    · exact .inr ⟨g, g', hg, hg', not_not.1 ‹_›⟩

theorem Accepts.mem_bases (h : Accepts T.toGroundedTable c x)
    (hinterface : isInterface T.toClassTable c = false) (hvalue : (T.klass c).valuetype = false)
    (hmem : d ∈ bases T.toGroundedTable c) (hne : d ≠ c) : d ∈ bases T.toGroundedTable x := by
  by_cases hcx : c = x
  · exact hcx ▸ hmem
  obtain ⟨p, hparent⟩ : ∃ p, (T.klass c).parent = some p := by
    refine Option.ne_none_iff_exists'.1 fun hroot => hne ?_
    rw [bases_of_root hroot] at hmem
    exact List.mem_singleton.1 hmem
  -- where the parent of `x` is the parent of `c`
  have hsibling (hx : (T.klass x).parent = some p) : d ∈ bases T.toGroundedTable x := by
    rw [bases_of_parent hparent] at hmem
    rw [bases_of_parent hx]
    exact List.mem_cons_of_mem _ ((List.mem_cons.1 hmem).resolve_left hne)
  by_cases harray : isArray T.toClassTable c
  · obtain ⟨hrank, -⟩ := (accepts_array harray h).resolve_left hcx
    have harray' : isArray T.toClassTable x := isArray_iff.2 (hrank ▸ isArray_iff.1 harray)
    obtain ⟨rank, bounded, -, -, heq⟩ := T.array c harray
    obtain ⟨rank', bounded', -, -, heq'⟩ := T.array x harray'
    exact hsibling (heq'.parent.trans (heq.parent.symm.trans hparent))
  have hobject : c ≠ T.defaults.objectClass := by
    rintro rfl
    rw [T.objectClass_class.2] at hparent
    cases hparent
  have hnullable : ¬ isNullable T.toClassTable c = true := by
    intro hnullable
    rw [(T.nullabletype c (Bool.and_eq_true_iff.1 hnullable).2).1] at hvalue
    cases hvalue
  obtain ⟨fuel, h⟩ := h.step
  rw [isAssignableFromStep, if_neg hcx, if_pos (by simp [hinterface]),
    if_neg (not_not.2 (T.rank_eq_zero c harray)), if_neg hobject, if_neg hnullable] at h
  rcases Answer.or_eq_yes h with h | h
  · split at h
    · rename_i hdelegate
      obtain ⟨g, g', hg, hg', htype⟩ :=
        (type_of_isGenericClassAssignableFrom h).resolve_left hcx
      refine hsibling ?_
      rw [hparent.symm.trans hdelegate.1]
      exact (T.definition_parent hg').2 (htype ▸ (T.definition_parent hg).1 hdelegate.1)
    · cases h
  · have hmem' := mem_bases_of_mem_typeHierarchy (mem_of_hasParentUnsafe (Option.some.inj h))
    rw [bases_eq_chain] at hmem hmem' ⊢
    exact (TypeHierarchy.Parents.chain_suffix hmem').subset hmem

theorem Accepts.of_isSubclassOf (h : Accepts T.toGroundedTable c x)
    (hvalue : (T.klass c).valuetype = false)
    (hsubclass : isSubclassOf T.toGroundedTable c d = true) : Accepts T.toGroundedTable d x := by
  rcases isSubclassOf_iff.1 hsubclass with ⟨hinterface, hmem⟩ | rfl
  · by_cases hdc : d = c
    · exact hdc ▸ h
    by_cases hdx : d = x
    · exact hdx ▸ ⟨1, by rw [isAssignableFrom, isAssignableFromStep, if_pos rfl]⟩
    · exact accepts_of_mem_bases (h.mem_bases hinterface hvalue hmem hdc) hdx
  · exact accepts_object x

end Il2Cpp
