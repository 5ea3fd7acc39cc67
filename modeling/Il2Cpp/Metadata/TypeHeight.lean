import Il2Cpp.Metadata.TypeSubst

/-!
# The height of types

How deep a type is nested, through arrays and pointers as well as through the arguments of generic
instances, and what inflating does to it.

* `Il2CppType.HeightLe` : a bound on the height; `heightLe_subst` : inflating adds the height of
  what it puts in.
* `Il2CppType.Over` : the type is made of given shapes.
* `Il2CppType.finite_heightLe` : finitely many types of a bounded height are made of finitely many
  shapes.
* `Il2CppType.length_sortKey_occurrence` : a part is smaller by the length of its path.
-/

namespace Il2Cpp

theorem finite_lists {α : Type*} {T : Set α} (hT : T.Finite) (n : ℕ) :
    {l : List α | l.length = n ∧ ∀ x ∈ l, x ∈ T}.Finite := by
  have : Finite T := hT
  refine ((List.finite_length_eq T n).image (List.map Subtype.val)).subset ?_
  rintro l ⟨rfl, hl⟩
  exact ⟨l.attach.map fun x => ⟨x.1, hl x.1 x.2⟩, by simp, by simp⟩

namespace Il2CppType

variable {H P : Type}

/-- The element type of a pointer or an array, and the arguments of a generic instance. -/
def children : Il2CppType H P → List (Il2CppType H P)
  | ptr _ e | szarray _ e | array _ e _ => [e]
  | genericinst _ _ (some i) => i
  | _ => []

theorem induction_children {motive : Il2CppType H P → Prop}
    (step : ∀ t, (∀ c ∈ t.children, motive c) → motive t) (t : Il2CppType H P) : motive t := by
  induction t using induction_args with
  | simple | valuetype | klass | genericNull | var | mvar => exact step _ (by simp [children])
  | ptr b e ih | szarray b e ih | array b e rank ih => exact step _ (by simpa [children] using ih)
  | genericinst b g i ih => exact step _ ih

@[simp] theorem children_withByref (b : Bool) (t : Il2CppType H P) :
    (t.withByref b).children = t.children := by
  cases t
  case genericinst i => cases i <;> rfl
  all_goals rfl

theorem exists_step {t c : Il2CppType H P} (h : c ∈ t.children) :
    ∃ step, ∀ path, t.occurrence (step :: path) = c.occurrence path := by
  cases t with
  | ptr b e | szarray b e | array b e rank =>
    obtain rfl := List.mem_singleton.1 h
    exact ⟨.element, fun path => rfl⟩
  | genericinst b g i =>
    cases i with
    | none => cases h
    | some i =>
      obtain ⟨n, hn⟩ := List.mem_iff_getElem?.1 h
      have hn : i[n]? = some c := hn
      exact ⟨.argument n, fun path => by simp [occurrence, hn]⟩
  | simple | valuetype | klass | var | mvar => cases h

theorem exists_child {t e : Il2CppType H P} {step : TypeStep} {path : List TypeStep}
    (h : t.occurrence (step :: path) = some e) :
    ∃ c ∈ t.children, c.occurrence path = some e := by
  cases t with
  | ptr b e' | szarray b e' | array b e' rank =>
    cases step with
    | element => exact ⟨e', List.mem_singleton_self e', h⟩
    | argument n => cases h
  | genericinst b g i =>
    cases i with
    | none => simp [occurrence] at h
    | some i =>
      cases step with
      | element => cases h
      | argument n =>
        obtain ⟨c, hc, h⟩ := Option.bind_eq_some_iff.1 h
        exact ⟨c, List.mem_of_getElem? hc, h⟩
  | simple | valuetype | klass | var | mvar => simp [occurrence] at h

theorem finite_occurrences (t : Il2CppType H P) :
    {e | ∃ path, t.occurrence path = some e}.Finite := by
  induction t using induction_children with
  | step t ih =>
    refine ((t.children.finite_toSet.biUnion ih).insert t).subset ?_
    rintro e ⟨path, h⟩
    cases path with
    | nil =>
      simp only [occurrence, Option.some.injEq] at h
      exact .inl h.symm
    | cons step path =>
      obtain ⟨c, hc, h⟩ := exists_child h
      exact .inr (Set.mem_biUnion hc ⟨path, h⟩)

/-! ### Parameters -/

/-- The parameter that a type is: of a type, or of a method. -/
def parameter? : Il2CppType H P → Option (P ⊕ P)
  | var _ p => some (.inl p)
  | mvar _ p => some (.inr p)
  | _ => none

end Il2CppType

/-- What a parameter of a type or of a method is replaced by. -/
def TypeSubst.get {H P : Type} (σ : TypeSubst H P) : P ⊕ P → Option (Il2CppType H P) :=
  Sum.elim σ.var σ.mvar

namespace Il2CppType

variable {H P : Type} {σ : TypeSubst H P} {t e : Il2CppType H P} {m n : ℕ}

theorem subst_of_parameter {q : P ⊕ P} (h : t.parameter? = some q) :
    t.subst σ = ((σ.get q).map (withByref t.byref)).getD t := by
  cases t with
  | var b p | mvar b p =>
    obtain rfl := Option.some.inj h
    rfl
  | simple | valuetype | klass | ptr | szarray | array | genericinst => cases h

theorem children_subst (h : t.parameter? = none) :
    (t.subst σ).children = t.children.map (subst σ) := by
  cases t with
  | simple | valuetype | klass | ptr | szarray | array => rfl
  | genericinst b g i =>
    cases i with
    | none => rfl
    | some i => exact substArgs_eq_map σ i
  | var | mvar => cases h

/-! ### The height -/

/-- The type is nested at most as deep. -/
def HeightLe : ℕ → Il2CppType H P → Prop
  | 0, t => t.children = []
  | n + 1, t => ∀ c ∈ t.children, HeightLe n c

theorem heightLe_of_children_eq_nil (h : t.children = []) : HeightLe n t := by
  cases n with
  | zero => exact h
  | succ n =>
    intro c hc
    rw [h] at hc
    cases hc

theorem HeightLe.mono (h : HeightLe m t) (hmn : m ≤ n) : HeightLe n t := by
  induction m generalizing n t with
  | zero => exact heightLe_of_children_eq_nil h
  | succ m ih =>
    obtain ⟨n, rfl⟩ := Nat.exists_eq_add_one.2 (Nat.zero_lt_of_lt hmn)
    exact fun c hc => ih (h c hc) (Nat.le_of_succ_le_succ hmn)

@[simp] theorem heightLe_withByref (b : Bool) : HeightLe n (t.withByref b) ↔ HeightLe n t := by
  cases n <;> simp [HeightLe]

theorem exists_heightLe_of_finite {T : Set (Il2CppType H P)} (hT : T.Finite)
    (h : ∀ t ∈ T, ∃ n, HeightLe n t) : ∃ n, ∀ t ∈ T, HeightLe n t := by
  choose! height hheight using h
  obtain ⟨n, hn⟩ := (hT.image height).bddAbove
  exact ⟨n, fun t ht => (hheight t ht).mono (hn (Set.mem_image_of_mem height ht))⟩

theorem exists_heightLe (t : Il2CppType H P) : ∃ n, HeightLe n t := by
  induction t using induction_children with
  | step t ih =>
    obtain ⟨n, hn⟩ := exists_heightLe_of_finite t.children.finite_toSet ih
    exact ⟨n + 1, hn⟩

theorem heightLe_subst_parameter {q : P ⊕ P} (hq : t.parameter? = some q)
    (hσ : ∀ a, σ.get q = some a → HeightLe m a) (h : HeightLe n t) :
    HeightLe (n + m) (t.subst σ) := by
  rw [subst_of_parameter hq]
  cases ha : σ.get q with
  | none => exact h.mono (Nat.le_add_right n m)
  | some a =>
    refine HeightLe.mono ?_ (Nat.le_add_left m n)
    exact (heightLe_withByref t.byref).2 (hσ a ha)

/-- **Inflating adds at most the height of what is put in.** -/
theorem heightLe_subst (hσ : ∀ path e q a, t.occurrence path = some e → e.parameter? = some q →
    σ.get q = some a → HeightLe m a) (h : HeightLe n t) : HeightLe (n + m) (t.subst σ) := by
  induction n generalizing t with
  | zero =>
    rcases hq : t.parameter? with - | q
    · refine heightLe_of_children_eq_nil ?_
      rw [children_subst hq, h, List.map_nil]
    · exact heightLe_subst_parameter hq (hσ [] t q · (by simp [occurrence]) hq) h
  | succ n ih =>
    rcases hq : t.parameter? with - | q
    · rw [Nat.succ_add]
      intro c hc
      rw [children_subst hq] at hc
      obtain ⟨c', hc', rfl⟩ := List.mem_map.1 hc
      obtain ⟨step, hstep⟩ := exists_step hc'
      exact ih (fun path e q a he => hσ (step :: path) e q a (by rw [hstep, he])) (h c' hc')
    · exact heightLe_subst_parameter hq (hσ [] t q · (by simp [occurrence]) hq) h

/-! ### Shapes -/

/-- What is left of a type without its flag and its children. -/
def shape : Il2CppType H P → Il2CppType H P
  | ptr _ _ => ptr false (simple false .end)
  | szarray _ _ => szarray false (simple false .end)
  | array _ _ rank => array false (simple false .end) rank
  | genericinst _ g (some i) =>
    genericinst false g (some (List.replicate i.length (simple false .end)))
  | t => t.withByref false

/-- A type of the shape, with a flag and children. -/
def withChildren (b : Bool) (cs : List (Il2CppType H P)) : Il2CppType H P → Il2CppType H P
  | ptr _ e => ptr b (cs.headD e)
  | szarray _ e => szarray b (cs.headD e)
  | array _ e rank => array b (cs.headD e) rank
  | genericinst _ g (some _) => genericinst b g (some cs)
  | t => t.withByref b

theorem withChildren_shape (t : Il2CppType H P) :
    t.shape.withChildren t.byref t.children = t := by
  cases t
  case genericinst i => cases i <;> rfl
  all_goals rfl

theorem length_children_shape (t : Il2CppType H P) :
    t.shape.children.length = t.children.length := by
  cases t
  case genericinst i => cases i <;> simp [shape, children, withByref]
  all_goals rfl

@[simp] theorem shape_withByref (b : Bool) (t : Il2CppType H P) :
    (t.withByref b).shape = t.shape := by
  cases t
  case genericinst i => cases i <;> rfl
  all_goals rfl

theorem shape_subst (h : t.parameter? = none) : (t.subst σ).shape = t.shape := by
  cases t with
  | simple | valuetype | klass | ptr | szarray | array => rfl
  | genericinst b g i =>
    cases i with
    | none => rfl
    | some i => simp [subst, shape, substArgs_eq_map]
  | var | mvar => cases h

/-- The type is made of the given shapes. -/
inductive Over (shapes : Set (Il2CppType H P)) : Il2CppType H P → Prop
  | mk {t : Il2CppType H P} (shape : t.shape ∈ shapes)
      (children : ∀ c ∈ t.children, Over shapes c) : Over shapes t

variable {shapes shapes' : Set (Il2CppType H P)}

theorem Over.mono (h : Over shapes t) (hs : shapes ⊆ shapes') : Over shapes' t := by
  induction h with
  | mk hshape _ ih => exact ⟨hs hshape, ih⟩

theorem Over.withByref (h : Over shapes t) (b : Bool) : Over shapes (t.withByref b) := by
  obtain ⟨hshape, hchildren⟩ := h
  exact ⟨by rwa [shape_withByref], by rwa [children_withByref]⟩

theorem Over.subst (h : Over shapes t) (hσ : ∀ q a, σ.get q = some a → Over shapes a) :
    Over shapes (t.subst σ) := by
  induction h with
  | @mk t hshape hchildren ih =>
    rcases hq : t.parameter? with - | q
    · refine ⟨by rwa [shape_subst hq], fun c hc => ?_⟩
      rw [children_subst hq] at hc
      obtain ⟨c', hc', rfl⟩ := List.mem_map.1 hc
      exact ih c' hc'
    · rw [subst_of_parameter hq]
      cases ha : σ.get q with
      | none => exact ⟨hshape, hchildren⟩
      | some a => exact (hσ q a ha).withByref t.byref

theorem exists_over_of_finite {T : Set (Il2CppType H P)} (hT : T.Finite)
    (h : ∀ t ∈ T, ∃ shapes : Set (Il2CppType H P), shapes.Finite ∧ Over shapes t) :
    ∃ shapes : Set (Il2CppType H P), shapes.Finite ∧ ∀ t ∈ T, Over shapes t := by
  choose! shapes hfinite hover using h
  exact ⟨⋃ t ∈ T, shapes t, hT.biUnion hfinite,
    fun t ht => (hover t ht).mono (Set.subset_biUnion_of_mem ht)⟩

theorem exists_over (t : Il2CppType H P) :
    ∃ shapes : Set (Il2CppType H P), shapes.Finite ∧ Over shapes t := by
  induction t using induction_children with
  | step t ih =>
    obtain ⟨shapes, hfinite, hover⟩ := exists_over_of_finite t.children.finite_toSet ih
    exact ⟨insert t.shape shapes, hfinite.insert _, Set.mem_insert _ _,
      fun c hc => (hover c hc).mono (Set.subset_insert _ _)⟩

theorem finite_of_children (hs : shapes.Finite) {T : Set (Il2CppType H P)} (hT : T.Finite) :
    {t : Il2CppType H P | t.shape ∈ shapes ∧ ∀ c ∈ t.children, c ∈ T}.Finite := by
  refine (hs.biUnion fun s _ => (Set.finite_univ (α := Bool)).biUnion fun b _ =>
    (finite_lists hT s.children.length).image fun cs => s.withChildren b cs).subset ?_
  rintro t ⟨hshape, hchildren⟩
  refine Set.mem_biUnion hshape (Set.mem_biUnion (Set.mem_univ t.byref) ⟨t.children, ?_, ?_⟩)
  · exact ⟨(length_children_shape t).symm, hchildren⟩
  · exact withChildren_shape t

/-- **Finitely many types of a bounded height** are made of finitely many shapes. -/
theorem finite_heightLe (hs : shapes.Finite) (n : ℕ) :
    {t : Il2CppType H P | HeightLe n t ∧ Over shapes t}.Finite := by
  induction n with
  | zero =>
    refine (finite_of_children hs Set.finite_empty).subset ?_
    rintro t ⟨hheight, hover⟩
    obtain ⟨hshape, -⟩ := hover
    refine ⟨hshape, fun c hc => ?_⟩
    rw [show t.children = [] from hheight] at hc
    cases hc
  | succ n ih =>
    refine (finite_of_children hs ih).subset ?_
    rintro t ⟨hheight, hover⟩
    obtain ⟨hshape, hchildren⟩ := hover
    exact ⟨hshape, fun c hc => ⟨hheight c hc, hchildren c hc⟩⟩

/-! ### The size of the keys -/

theorem length_sortKey_withByref (b : Bool) (t : Il2CppType H P) :
    (sortKey (t.withByref b)).length = (sortKey t).length := by
  obtain ⟨rest, h⟩ := sortKey_eq t
  rw [sortKey_withByref, h]
  rfl

theorem length_sortKey_le_sortKeys {c : Il2CppType H P} {as : List (Il2CppType H P)}
    (h : c ∈ as) : (sortKey c).length ≤ (sortKeys as).length := by
  induction as with
  | nil => cases h
  | cons a as ih =>
    rw [sortKeys, List.length_append]
    rcases List.mem_cons.1 h with rfl | h
    · exact Nat.le_add_right _ _
    · exact (ih h).trans (Nat.le_add_left _ _)

theorem length_sortKey_child {c : Il2CppType H P} (h : c ∈ t.children) :
    (sortKey c).length < (sortKey t).length := by
  rw [sortKey.eq_def t]
  cases t with
  | ptr b e | szarray b e | array b e rank =>
    obtain rfl := List.mem_singleton.1 h
    simp only [List.length_cons]
    omega
  | genericinst b g i =>
    cases i with
    | none => cases h
    | some i =>
      have h : c ∈ i := h
      have := length_sortKey_le_sortKeys h
      simp only [List.length_cons, List.length_append]
      omega
  | simple | valuetype | klass | var | mvar => cases h

/-- **A part is smaller** by the length of its path. -/
theorem length_sortKey_occurrence {path : List TypeStep} (h : t.occurrence path = some e) :
    path.length + (sortKey e).length ≤ (sortKey t).length := by
  induction path generalizing t with
  | nil =>
    simp only [occurrence, Option.some.injEq] at h
    simp [h]
  | cons step path ih =>
    obtain ⟨c, hc, h⟩ := exists_child h
    have := length_sortKey_child hc
    have := ih h
    rw [List.length_cons]
    omega

end Il2CppType

end Il2Cpp
