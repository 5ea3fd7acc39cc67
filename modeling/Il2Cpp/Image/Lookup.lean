import Il2Cpp.Image.NameTable

/-!
# The two lookups by name

* `TypeTable.fromTypeNameParseInfo_spec` : the search finds the type with the names.
* `TypeTable.lookupsAgree_iff` : `ClassFromName` and `FromTypeNameParseInfo` agree if and only if
  the nested types of all types are registered, and no exported type is NULL.
-/

namespace Il2Cpp

namespace Image

variable {T : Type} {md : Metadata T}

namespace TypeTable

variable {image : TypeTable md}

/-! ### The search finds all types -/

theorem classMatches_iff {t : T} {namespaze : List Char} {name : Name} :
    classMatches md t namespaze name = true ↔
      md.typeIsNested t = false ∧ md.namespaze t = namespaze ∧ md.name t = name := by
  rw [classMatches, Bool.and_eq_true, Bool.and_eq_true, Bool.not_eq_true', decide_eq_true_eq,
    decide_eq_true_eq]
  constructor
  · rintro ⟨⟨hnested, hname⟩, hns⟩
    exact ⟨hnested, hns.symm, hname.symm⟩
  · rintro ⟨hnested, hns, hname⟩
    exact ⟨⟨hnested, hname.symm⟩, hns.symm⟩

theorem findExported_spec {namespaze : List Char} {name : Name} {l : List (Option T)}
    (hl : none ∉ l) : ∃ found, findExported md namespaze name l = some found ∧
      (∀ t, found = some t → some t ∈ l ∧ classMatches md t namespaze name = true) ∧
      (found = none → ∀ t, some t ∈ l → classMatches md t namespaze name = false) := by
  induction l with
  | nil => exact ⟨none, rfl, by simp, by simp⟩
  | cons handle l ih =>
    cases handle with
    | none => exact absurd List.mem_cons_self hl
    | some t =>
      rw [findExported]
      split_ifs with hmatch
      · refine ⟨some t, rfl, ?_, by simp⟩
        rintro t' heq
        obtain rfl := Option.some.inj heq
        exact ⟨List.mem_cons_self, hmatch⟩
      · obtain ⟨found, heq, hsome, hnone⟩ := ih fun hmem => hl (List.mem_cons_of_mem _ hmem)
        refine ⟨found, heq, fun t' ht' => ?_, fun hfound t' ht' => ?_⟩
        · obtain ⟨hmem, hmatch'⟩ := hsome t' ht'
          exact ⟨List.mem_cons_of_mem _ hmem, hmatch'⟩
        · rcases List.mem_cons.1 ht' with heq' | hmem
          · cases heq'
            exact Bool.eq_false_iff.2 hmatch
          · exact hnone hfound t' hmem

theorem some_eq_iff_of_classMatches {t : T} {namespaze : List Char} {name : Name}
    (hmem : some t ∈ image.handles) (hmatch : classMatches md t namespaze name = true) (t' : T) :
    some t = some t' ↔ image.TopLevel t' ∧ md.namespaze t' = namespaze ∧ md.name t' = name := by
  obtain ⟨hnested, hns, hname⟩ := classMatches_iff.1 hmatch
  constructor
  · rintro ⟨⟩
    exact ⟨⟨hmem, hnested⟩, hns, hname⟩
  · rintro ⟨htop, hns', hname'⟩
    exact congrArg some
      (TopLevel.eq ⟨hmem, hnested⟩ htop (hns.trans hns'.symm) (hname.trans hname'.symm))

theorem findParent_spec (hnull : none ∉ image.exportedTypes) (namespaze : List Char)
    (name : Name) :
    ∃ found, findParent image namespaze name = some found ∧
      ∀ t, found = some t ↔ image.TopLevel t ∧ md.namespaze t = namespaze ∧ md.name t = name := by
  rw [findParent]
  cases hfind : findClassMatching image namespaze name with
  | some t =>
    have hmem : some t ∈ image.handles :=
      List.mem_append_left _ (List.mem_map_of_mem (List.mem_of_find?_eq_some hfind))
    have hmatch : classMatches md t namespaze name = true :=
      List.find?_some (p := fun t => classMatches md t namespaze name) hfind
    exact ⟨some t, rfl, some_eq_iff_of_classMatches hmem hmatch⟩
  | none =>
    obtain ⟨found, heq, hfound, hnone⟩ := @findExported_spec _ md namespaze name _ hnull
    refine ⟨found, heq, ?_⟩
    cases found with
    | some t =>
      obtain ⟨hmem, hmatch⟩ := hfound t rfl
      exact some_eq_iff_of_classMatches (List.mem_append_right _ hmem) hmatch
    | none =>
      intro t
      constructor
      · intro h
        cases h
      rintro ⟨⟨hmem, hnested⟩, hns, hname⟩
      have hmatch := classMatches_iff.2 ⟨hnested, hns, hname⟩
      rcases List.mem_append.1 hmem with hmem | hmem
      · obtain ⟨t', ht', heq'⟩ := List.mem_map.1 hmem
        cases heq'
        exact absurd hmatch (List.find?_eq_none.1 hfind t ht')
      · rw [hnone rfl t hmem] at hmatch
        cases hmatch

/-- **The search** finds the type with the names, if there is one. -/
theorem fromTypeNameParseInfo_spec (hnull : none ∉ image.exportedTypes) (namespaze : List Char)
    (name : Name) (nested : List Name) :
    ∃ klass, fromTypeNameParseInfo image namespaze name nested = some klass ∧
      ∀ x, klass = some x ↔ ∃ t, image.TopLevel t ∧ md.namespaze t = namespaze ∧
        md.name t = name ∧ descend md t nested = some x := by
  obtain ⟨found, heq, hfound⟩ := findParent_spec hnull namespaze name
  refine ⟨found.bind fun parentClass => descend md parentClass nested, ?_, fun x => ?_⟩
  · rw [fromTypeNameParseInfo, heq]
    rfl
  · rw [Option.bind_eq_some_iff]
    simp only [hfound, and_assoc]

/-! ### The two lookups -/

variable (image) in
/-- The two lookups agree, for names of any depth. -/
def LookupsAgree : Prop :=
  ∀ namespaze name nested, ∃ klass,
    classFromName image namespaze (joinNames name nested) = some klass ∧
      fromTypeNameParseInfo image namespaze name nested = some klass

variable (image) in
/-- No exported type is NULL; and in corlib a type that has nested types, and is not nested itself,
stands in front of the first nested type. -/
def NestedRegistered : Prop :=
  none ∉ image.exportedTypes ∧ (image.isCorlib = true → ∀ t, image.TopLevel t →
    md.nestedTypes t ≠ [] → some t ∈ image.beforeNested)

theorem exists_fresh_name (md : Metadata T) (l : List (Option T)) :
    ∃ name : Name, ∀ t, some t ∈ l → md.name t ≠ name := by
  obtain ⟨n, hn⟩ : ∃ n, ∀ t, some t ∈ l → (md.name t).chars.length < n := by
    induction l with
    | nil => exact ⟨0, by simp⟩
    | cons handle l ih =>
      obtain ⟨n, hn⟩ := ih
      refine ⟨max n ((handle.map fun t => (md.name t).chars.length + 1).getD 0), fun t ht => ?_⟩
      rcases List.mem_cons.1 ht with rfl | ht
      · simp
      · exact Nat.lt_of_lt_of_le (hn t ht) (Nat.le_max_left _ _)
  refine ⟨⟨List.replicate n 'a', by simp [List.mem_replicate]⟩, fun t ht heq => ?_⟩
  have hlt := hn t ht
  rw [heq, List.length_replicate] at hlt
  exact Nat.lt_irrefl n hlt

theorem findExported_null {namespaze : List Char} {name : Name} {l : List (Option T)}
    (hl : none ∈ l) (h : ∀ t, some t ∈ l → classMatches md t namespaze name = false) :
    findExported md namespaze name l = none := by
  induction l with
  | nil => cases hl
  | cons handle l ih =>
    cases handle with
    | none => rfl
    | some t =>
      rw [findExported, h t List.mem_cons_self]
      refine ih ?_ fun t' ht' => h t' (List.mem_cons_of_mem _ ht')
      rcases List.mem_cons.1 hl with heq | hmem
      · cases heq
      · exact hmem

theorem not_null_of_agree (h : image.LookupsAgree) : none ∉ image.exportedTypes := by
  intro hnull
  obtain ⟨name, hname⟩ := exists_fresh_name md image.handles
  have hmatch (t : T) (ht : some t ∈ image.handles) : classMatches md t [] name = false := by
    rw [Bool.eq_false_iff]
    intro hmatch
    exact hname t ht (classMatches_iff.1 hmatch).2.2
  have hfind : findClassMatching image [] name = none := by
    refine List.find?_eq_none.2 fun t ht => ?_
    rw [hmatch t (List.mem_append_left _ (List.mem_map_of_mem ht))]
    exact Bool.false_ne_true
  have hexported : findExported md [] name image.exportedTypes = none :=
    findExported_null hnull fun t ht => hmatch t (List.mem_append_right _ ht)
  obtain ⟨klass, -, hfrom⟩ := h [] name []
  rw [fromTypeNameParseInfo, findParent, hfind, hexported] at hfrom
  cases hfrom

/-- **The two lookups agree** if and only if all nested types are registered. -/
theorem lookupsAgree_iff (image : TypeTable md) :
    image.LookupsAgree ↔ image.NestedRegistered := by
  constructor
  · intro h
    have hnull := not_null_of_agree h
    refine ⟨hnull, fun hcorlib t ht hnested => ?_⟩
    -- a nested type of the type is looked up
    obtain ⟨c, hc⟩ := List.exists_mem_of_ne_nil _ hnested
    obtain ⟨klass, hclass, hfrom⟩ := h (md.namespaze t) (md.name t) [md.name c]
    obtain ⟨klass', hfrom', hklass'⟩ :=
      fromTypeNameParseInfo_spec hnull (md.namespaze t) (md.name t) [md.name c]
    obtain ⟨hashTable, hinit, htable⟩ := classFromName_spec hnull
    cases hfrom.symm.trans hfrom'
    have hdescend : descend md t [md.name c] = some c :=
      Option.bind_eq_some_iff.2 ⟨c, findNestedType_eq_some.2 ⟨hc, rfl⟩, rfl⟩
    have hsome : klass = some c := (hklass' c).2 ⟨t, ht, rfl, rfl, hdescend⟩
    rw [classFromName, hinit, Option.map_some, hsome] at hclass
    have hentry := (htable _ _).1 (Option.some.inj hclass)
    obtain ⟨t', path, ht', hk, -, hbefore⟩ := hentry
    obtain ⟨hns, hjoin⟩ := Prod.mk.inj hk
    obtain ⟨hname, rfl⟩ := joinNames_inj hjoin
    obtain rfl := ht.eq ht' hns hname
    exact hbefore (List.cons_ne_nil _ _) hcorlib
  · rintro ⟨hnull, hregistered⟩ namespaze name nested
    obtain ⟨klass, hfrom, hklass⟩ := fromTypeNameParseInfo_spec hnull namespaze name nested
    obtain ⟨hashTable, hinit, htable⟩ := classFromName_spec hnull
    refine ⟨klass, ?_, hfrom⟩
    rw [classFromName, hinit, Option.map_some, Option.some.injEq]
    refine Option.ext fun x => ?_
    rw [htable, hklass]
    constructor
    · rintro ⟨t, path, ht, hk, hx, -⟩
      obtain ⟨hns, hjoin⟩ := Prod.mk.inj hk
      obtain ⟨hname, rfl⟩ := joinNames_inj hjoin
      exact ⟨t, ht, hns.symm, hname.symm, hx⟩
    · rintro ⟨t, ht, rfl, rfl, hx⟩
      refine ⟨t, nested, ht, rfl, hx, fun hne hcorlib => hregistered hcorlib t ht ?_⟩
      -- the path goes to a nested type
      intro hnil
      cases nested with
      | nil => exact hne rfl
      | cons n nested =>
        obtain ⟨c, hc, -⟩ := Option.bind_eq_some_iff.1 hx
        have hmem := (findNestedType_eq_some.1 hc).1
        rw [hnil] at hmem
        cases hmem

end TypeTable

/-- Two types, each with a nested type. -/
inductive Sample
  | outer
  | inner
  | outer'
  | inner'

def sampleMetadata : Metadata Sample where
  namespaze _ := []
  name
    | .outer => ⟨['A'], by decide⟩
    | .inner => ⟨['B'], by decide⟩
    | .outer' => ⟨['C'], by decide⟩
    | .inner' => ⟨['D'], by decide⟩
  typeIsNested
    | .outer | .outer' => false
    | .inner | .inner' => true
  nestedTypes
    | .outer => [.inner]
    | .outer' => [.inner']
    | .inner | .inner' => []
  height
    | .outer | .outer' => 1
    | .inner | .inner' => 0
  height_lt t c hc := by cases t <;> cases c <;> simp at hc ⊢
  name_inj t c hc c' hc' h := by cases t <;> cases c <;> cases c' <;> simp at hc hc' ⊢

def sampleImage : TypeTable sampleMetadata where
  isCorlib := true
  types := [.outer, .inner, .outer', .inner']
  exportedTypes := []
  name_inj t t' _ _ hnested hnested' _ hname := by
    cases t <;> cases t' <;> simp [sampleMetadata] at hnested hnested' hname ⊢

/-- `C/D` is not in the table: the walk ends at the nested type `A/B`. -/
theorem lookups_disagree :
    classFromName sampleImage [] ['C', '/', 'D'] = some none ∧
      fromTypeNameParseInfo sampleImage [] ⟨['C'], by decide⟩ [⟨['D'], by decide⟩] =
        some (some .inner') :=
  ⟨rfl, rfl⟩

end Image

end Il2Cpp
