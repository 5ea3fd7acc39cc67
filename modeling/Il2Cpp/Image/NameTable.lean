import Il2Cpp.Image.ClassFromName

/-!
# The table from names to classes

* `Filled` : a table that has been filled with some entries; `insert` keeps what is there.
* `filled_addNestedType` : the walk over the nested types of a type comes to all of them.
* `initLoop_spec` : a loop of `InitNestedTypes` stops at the first nested type.
* `TypeTable.classFromName_spec` : the entries of the table, when the nested types have been
  initialised.
-/

namespace Il2Cpp

namespace Image

variable {T : Type} {md : Metadata T}

/-! ### What the table has -/

/-- The table has entries of the set, and one for each key that an entry of the set has. -/
structure Filled (hashTable : HashTable T) (S : Set (Key × T)) : Prop where
  sound : ∀ k x, hashTable k = some x → (k, x) ∈ S
  complete : ∀ e ∈ S, (hashTable e.1).isSome

theorem filled_empty : Filled (fun _ => none : HashTable T) ∅ := ⟨by simp, by simp⟩

theorem Filled.insert {hashTable : HashTable T} {S : Set (Key × T)} (h : Filled hashTable S)
    (e : Key × T) : Filled (hashTable.insert e) (Set.insert e S) := by
  rw [HashTable.insert]
  split_ifs with hnone
  · constructor
    · intro k x hx
      by_cases hk : k = e.1
      · subst hk
        rw [Function.update_self] at hx
        cases hx
        exact .inl rfl
      · rw [Function.update_of_ne hk] at hx
        exact .inr (h.sound k x hx)
    · intro e' he'
      by_cases hk : e'.1 = e.1
      · rw [hk, Function.update_self]
        rfl
      · rw [Function.update_of_ne hk]
        rcases he' with rfl | he'
        · exact absurd rfl hk
        · exact h.complete e' he'
  · constructor
    · exact fun k x hx => .inr (h.sound k x hx)
    · rintro e' (rfl | he')
      · rwa [Option.isNone_iff_eq_none, ← Option.not_isSome_iff_eq_none, not_not] at hnone
      · exact h.complete e' he'

theorem Filled.congr {hashTable : HashTable T} {S S' : Set (Key × T)} (h : Filled hashTable S)
    (hS : S = S') : Filled hashTable S' := hS ▸ h

theorem Filled.foldl {α : Type} {f : HashTable T → α → HashTable T} {S : α → Set (Key × T)}
    {l : List α} (hf : ∀ a ∈ l, ∀ hashTable S', Filled hashTable S' →
      Filled (f hashTable a) (S' ∪ S a))
    {hashTable : HashTable T} {S' : Set (Key × T)} (h : Filled hashTable S') :
    Filled (l.foldl f hashTable) (S' ∪ {e | ∃ a ∈ l, e ∈ S a}) := by
  induction l generalizing hashTable S' with
  | nil => exact h.congr (by simp)
  | cons a l ih =>
    obtain ⟨ha, hl⟩ := List.forall_mem_cons.1 hf
    refine (ih hl (ha _ _ h)).congr ?_
    ext e
    simp [or_assoc]

theorem Filled.eq_some_iff {hashTable : HashTable T} {S : Set (Key × T)} (h : Filled hashTable S)
    (hinj : ∀ k x x', (k, x) ∈ S → (k, x') ∈ S → x = x') (k : Key) (x : T) :
    hashTable k = some x ↔ (k, x) ∈ S := by
  refine ⟨h.sound k x, fun hx => ?_⟩
  obtain ⟨x', hx'⟩ := Option.isSome_iff_exists.1 (h.complete _ hx)
  rw [hx', hinj k x x' hx (h.sound k x' hx')]

/-! ### The entries of the nested types -/

theorem findNestedType_eq_some {t c : T} {name : Name} :
    findNestedType md t name = some c ↔ c ∈ md.nestedTypes t ∧ md.name c = name := by
  constructor
  · intro h
    have hname := List.find?_some h
    exact ⟨List.mem_of_find?_eq_some h, (of_decide_eq_true hname).symm⟩
  · rintro ⟨hc, rfl⟩
    cases hfind : findNestedType md t (md.name c) with
    | none =>
      have hnone := List.find?_eq_none.1 hfind c hc
      simp at hnone
    | some c' =>
      have hname : md.name c = md.name c' := by simpa using List.find?_some hfind
      rw [md.name_inj t c hc c' (List.mem_of_find?_eq_some hfind) hname]

variable (md) in
/-- The entries for the types at the end of the paths from a type. -/
def entriesBelow (namespaze parentName : List Char) (t : T) : Set (Key × T) :=
  {e | ∃ path, e.1 = (namespaze, parentName ++ path.flatMap fun n => '/' :: n.chars) ∧
    descend md t path = some e.2}

theorem mem_entriesBelow {namespaze parentName : List Char} {t : T} {e : Key × T} :
    e ∈ entriesBelow md namespaze parentName t ↔ e = ((namespaze, parentName), t) ∨
      ∃ c ∈ md.nestedTypes t,
        e ∈ entriesBelow md namespaze (parentName ++ '/' :: (md.name c).chars) c := by
  obtain ⟨k, x⟩ := e
  constructor
  · rintro ⟨path, hk, hx⟩
    simp only at hk hx
    cases path with
    | nil =>
      obtain rfl := Option.some.inj hx
      rw [List.flatMap_nil, List.append_nil] at hk
      exact .inl (by rw [hk])
    | cons n path =>
      obtain ⟨c, hc, hrest⟩ := Option.bind_eq_some_iff.1 hx
      obtain ⟨hmem, rfl⟩ := findNestedType_eq_some.1 hc
      exact .inr ⟨c, hmem, path, by simpa using hk, hrest⟩
  · rintro (heq | ⟨c, hc, path, hk, hx⟩)
    · cases heq
      exact ⟨[], by simp, rfl⟩
    · refine ⟨md.name c :: path, by simpa using hk, ?_⟩
      exact Option.bind_eq_some_iff.2 ⟨c, findNestedType_eq_some.2 ⟨hc, rfl⟩, hx⟩

/-- **The walk over the nested types** comes to all of them. -/
theorem filled_addNestedType (namespaze : List Char) (n : ℕ) (parentName : List Char) (t : T)
    (hn : md.height t < n) {hashTable : HashTable T} {S : Set (Key × T)} (h : Filled hashTable S) :
    Filled (addNestedType md namespaze n hashTable parentName t)
      (S ∪ entriesBelow md namespaze (parentName ++ '/' :: (md.name t).chars) t) := by
  induction n generalizing parentName t hashTable S with
  | zero => omega
  | succ n ih =>
    rw [addNestedType]
    have hchildren : ∀ c ∈ md.nestedTypes t, ∀ hashTable S', Filled hashTable S' →
        Filled (addNestedType md namespaze n hashTable (parentName ++ '/' :: (md.name t).chars) c)
          (S' ∪ entriesBelow md namespaze
            (parentName ++ '/' :: (md.name t).chars ++ '/' :: (md.name c).chars) c) := by
      intro c hc hashTable S' h
      have hheight := md.height_lt t c hc
      exact ih _ c (by omega) h
    refine ((h.insert _).foldl hchildren).congr ?_
    ext e
    rw [Set.mem_union, Set.mem_union, mem_entriesBelow]
    exact or_assoc.trans or_left_comm

variable (md) in
/-- The entries for the types that are nested in a type. -/
def nestedEntries (t : T) : Set (Key × T) :=
  {e | ∃ path ≠ [], e.1 = (md.namespaze t, joinNames (md.name t) path) ∧
    descend md t path = some e.2}

theorem filled_addNestedTypes (t : T) {hashTable : HashTable T} {S : Set (Key × T)}
    (h : Filled hashTable S) :
    Filled (addNestedTypes md hashTable t) (S ∪ nestedEntries md t) := by
  have hchildren : ∀ c ∈ md.nestedTypes t, ∀ hashTable S', Filled hashTable S' →
      Filled (addNestedType md (md.namespaze t) (md.height t) hashTable (md.name t).chars c)
        (S' ∪ entriesBelow md (md.namespaze t)
          ((md.name t).chars ++ '/' :: (md.name c).chars) c) :=
    fun c hc hashTable S' h => filled_addNestedType _ _ _ c (md.height_lt t c hc) h
  refine (h.foldl hchildren).congr ?_
  ext ⟨k, x⟩
  rw [Set.mem_union, Set.mem_union]
  refine or_congr_right ⟨?_, ?_⟩
  · rintro ⟨c, hc, path, hk, hx⟩
    refine ⟨md.name c :: path, List.cons_ne_nil _ _, by simpa [joinNames] using hk, ?_⟩
    exact Option.bind_eq_some_iff.2 ⟨c, findNestedType_eq_some.2 ⟨hc, rfl⟩, hx⟩
  · rintro ⟨path, hpath, hk, hx⟩
    cases path with
    | nil => exact absurd rfl hpath
    | cons n path =>
      obtain ⟨c, hc, hrest⟩ := Option.bind_eq_some_iff.1 hx
      obtain ⟨hmem, rfl⟩ := findNestedType_eq_some.1 hc
      exact ⟨c, hmem, path, by simpa [joinNames] using hk, hrest⟩

/-! ### The types of an image -/

namespace TypeTable

variable (image : TypeTable md)

/-- The type table and the exported types. -/
def handles : List (Option T) := image.types.map some ++ image.exportedTypes

/-- A type of the image that is not nested. -/
def TopLevel (t : T) : Prop := some t ∈ image.handles ∧ md.typeIsNested t = false

/-- The handles in front of the first nested type. -/
def beforeNested : List (Option T) :=
  image.handles.takeWhile fun handle => !handle.any md.typeIsNested

/-- The entries of the table when the nested types have been initialised. -/
def entries : Set (Key × T) :=
  {e | ∃ t path, image.TopLevel t ∧ e.1 = (md.namespaze t, joinNames (md.name t) path) ∧
    descend md t path = some e.2 ∧
    (path ≠ [] → image.isCorlib = true → some t ∈ image.beforeNested)}

variable {image}

theorem TopLevel.eq {t t' : T} (h : image.TopLevel t) (h' : image.TopLevel t')
    (hns : md.namespaze t = md.namespaze t') (hname : md.name t = md.name t') : t = t' :=
  image.name_inj t t' h.1 h'.1 h.2 h'.2 hns hname

theorem entries_inj {k : Key} {x x' : T} (h : (k, x) ∈ image.entries) (h' : (k, x') ∈ image.entries) :
    x = x' := by
  obtain ⟨t, path, ht, hk, hx, -⟩ := h
  obtain ⟨t', path', ht', hk', hx', -⟩ := h'
  simp only at hk hk' hx hx'
  obtain ⟨hns, hjoin⟩ := Prod.mk.inj (hk.symm.trans hk')
  obtain ⟨hname, rfl⟩ := joinNames_inj hjoin
  obtain rfl := ht.eq ht' hns hname
  exact Option.some.inj (hx.symm.trans hx')

theorem mem_entries_iff {e : Key × T} : e ∈ image.entries ↔ ∃ t, image.TopLevel t ∧
    (e = ((md.namespaze t, (md.name t).chars), t) ∨
      (image.isCorlib = true → some t ∈ image.beforeNested) ∧ e ∈ nestedEntries md t) := by
  obtain ⟨k, x⟩ := e
  constructor
  · rintro ⟨t, path, ht, hk, hx, hbefore⟩
    refine ⟨t, ht, ?_⟩
    cases path with
    | nil =>
      have htx : t = x := Option.some.inj hx
      rw [← htx]
      exact .inl (by simpa [joinNames] using hk)
    | cons n path =>
      have hne := List.cons_ne_nil n path
      exact .inr ⟨hbefore hne, n :: path, hne, hk, hx⟩
  · rintro ⟨t, ht, heq | ⟨hbefore, path, -, hk, hx⟩⟩
    · cases heq
      exact ⟨x, [], ht, by simp [joinNames], rfl, fun h => absurd rfl h⟩
    · exact ⟨t, path, ht, hk, hx, fun _ => hbefore⟩

theorem topLevel_of_mem_beforeNested {t : T} (h : some t ∈ image.beforeNested) :
    image.TopLevel t :=
  ⟨List.takeWhile_subset _ h, by simpa using List.mem_takeWhile_imp h⟩

variable (image) in
/-- The entries that `AddTypeToNametoClassHashTable` adds for a handle. -/
def typeEntries (handle : Option T) : Set (Key × T) :=
  {e | ∃ t, handle = some t ∧ md.typeIsNested t = false ∧
    (e = ((md.namespaze t, (md.name t).chars), t) ∨
      (image.isCorlib = false ∧ e ∈ nestedEntries md t))}

theorem filled_addType (handle : Option T) {hashTable : HashTable T} {S : Set (Key × T)}
    (h : Filled hashTable S) :
    Filled (addType md image.isCorlib hashTable handle) (S ∪ image.typeEntries handle) := by
  cases handle with
  | none => exact h.congr (by simp [typeEntries])
  | some t =>
    rw [addType]
    cases hnested : md.typeIsNested t with
    | true => exact h.congr (by simp [typeEntries, hnested])
    | false =>
      simp only [Bool.false_eq_true, if_false]
      cases hcorlib : image.isCorlib with
      | true =>
        refine (h.insert _).congr ?_
        ext e
        simp [typeEntries, hnested, hcorlib, Set.insert, or_comm]
      | false =>
        refine ((filled_addNestedTypes t h).insert _).congr ?_
        ext e
        simp [typeEntries, hnested, hcorlib, Set.insert, or_left_comm]

theorem filled_nameToClassHashTable :
    Filled image.nameToClassHashTable {e | ∃ handle ∈ image.handles, e ∈ image.typeEntries handle} := by
  have hfill : Filled image.nameToClassHashTable
      (∅ ∪ {e | ∃ handle ∈ image.handles, e ∈ image.typeEntries handle}) := by
    rw [nameToClassHashTable, ← List.foldl_append]
    exact filled_empty.foldl fun handle _ _ _ h => filled_addType handle h
  exact hfill.congr (Set.empty_union _)

end TypeTable

/-- **A loop of `InitNestedTypes`** stops at the first nested type. -/
theorem initLoop_spec {l : List (Option T)} (hl : none ∉ l) {hashTable : HashTable T}
    {S : Set (Key × T)} (h : Filled hashTable S) :
    ∃ hashTable', initLoop md l hashTable =
        some (hashTable', l.any fun handle => handle.any md.typeIsNested) ∧
      Filled hashTable' (S ∪ {e | ∃ t, some t ∈ l.takeWhile (fun handle =>
        !handle.any md.typeIsNested) ∧ e ∈ nestedEntries md t}) := by
  induction l generalizing hashTable S with
  | nil => exact ⟨hashTable, rfl, h.congr (by simp)⟩
  | cons handle l ih =>
    cases handle with
    | none => exact absurd List.mem_cons_self hl
    | some t =>
      rw [initLoop]
      cases hnested : md.typeIsNested t with
      | true => exact ⟨hashTable, by simp [hnested], h.congr (by simp [hnested])⟩
      | false =>
        obtain ⟨hashTable', heq, hfill⟩ :=
          ih (fun hmem => hl (List.mem_cons_of_mem _ hmem)) (filled_addNestedTypes t h)
        refine ⟨hashTable', by simpa [hnested] using heq, hfill.congr ?_⟩
        ext e
        simp [hnested, or_assoc]

theorem takeWhile_append_of_neg {α : Type} {p : α → Bool} {l₁ : List α} (l₂ : List α) {a : α}
    (ha : a ∈ l₁) (hp : ¬ p a) : (l₁ ++ l₂).takeWhile p = l₁.takeWhile p := by
  rw [List.takeWhile_append, if_neg]
  intro hlength
  rw [← (List.takeWhile_prefix p).eq_of_length hlength] at ha
  exact hp (List.mem_takeWhile_imp ha)

namespace TypeTable

variable {image : TypeTable md}

/-- **`InitNestedTypes`** comes to the types in front of the first nested one. -/
theorem initNestedTypes_spec (hnull : none ∉ image.exportedTypes) {hashTable : HashTable T}
    {S : Set (Key × T)} (h : Filled hashTable S) :
    ∃ hashTable', image.initNestedTypes hashTable = some hashTable' ∧
      Filled hashTable' (S ∪ {e | ∃ t, some t ∈ image.beforeNested ∧ e ∈ nestedEntries md t}) := by
  obtain ⟨hashTable₁, heq₁, hfill₁⟩ := initLoop_spec (l := image.types.map some) (by simp) h
  rw [initNestedTypes, heq₁, Option.bind_eq_bind, Option.bind_some]
  cases hany : (image.types.map some).any fun handle => handle.any md.typeIsNested with
  | true =>
    -- the second loop is not reached
    obtain ⟨handle, hmem, hnested⟩ := List.any_eq_true.1 hany
    have hbefore : image.beforeNested = (image.types.map some).takeWhile fun handle =>
        !handle.any md.typeIsNested :=
      takeWhile_append_of_neg image.exportedTypes hmem (by simp [hnested])
    rw [hbefore]
    exact ⟨hashTable₁, rfl, hfill₁⟩
  | false =>
    obtain ⟨hashTable₂, heq₂, hfill₂⟩ := @initLoop_spec _ md _ hnull _ _ hfill₁
    have hall : ∀ handle ∈ image.types.map some, (!handle.any md.typeIsNested) = true := by
      intro handle hmem
      have hnested := List.any_eq_false.1 hany handle hmem
      simpa using hnested
    have hbefore : image.beforeNested = image.types.map some ++
        image.exportedTypes.takeWhile fun handle => !handle.any md.typeIsNested :=
      List.takeWhile_append_of_pos hall
    refine ⟨hashTable₂, by simp [heq₂], hfill₂.congr ?_⟩
    rw [hbefore, List.takeWhile_eq_self_iff.2 hall]
    ext e
    simp only [List.mem_append, or_and_right, exists_or, Set.mem_union]
    exact or_assoc

/-- **The table** has exactly the entries. -/
theorem classFromName_spec (hnull : none ∉ image.exportedTypes) :
    ∃ hashTable, image.initialised = some hashTable ∧
      ∀ k x, hashTable k = some x ↔ (k, x) ∈ image.entries := by
  obtain ⟨hashTable, heq, hfill⟩ : ∃ hashTable, image.initialised = some hashTable ∧
      Filled hashTable image.entries := by
    have hfill := image.filled_nameToClassHashTable
    rw [initialised]
    cases hcorlib : image.isCorlib with
    | true =>
      obtain ⟨hashTable, heq, hfill'⟩ := initNestedTypes_spec hnull hfill
      refine ⟨hashTable, heq, hfill'.congr ?_⟩
      ext e
      rw [mem_entries_iff]
      constructor
      · rintro (⟨_, hmem, t, rfl, hnested, rfl | ⟨hfalse, -⟩⟩ | ⟨t, hbefore, he⟩)
        · exact ⟨t, ⟨hmem, hnested⟩, .inl rfl⟩
        · rw [hcorlib] at hfalse
          cases hfalse
        · exact ⟨t, topLevel_of_mem_beforeNested hbefore, .inr ⟨fun _ => hbefore, he⟩⟩
      · rintro ⟨t, ht, rfl | ⟨hbefore, he⟩⟩
        · exact .inl ⟨_, ht.1, t, rfl, ht.2, .inl rfl⟩
        · exact .inr ⟨t, hbefore hcorlib, he⟩
    | false =>
      refine ⟨_, rfl, hfill.congr ?_⟩
      ext e
      rw [mem_entries_iff]
      constructor
      · rintro ⟨_, hmem, t, rfl, hnested, rfl | ⟨-, he⟩⟩
        · exact ⟨t, ⟨hmem, hnested⟩, .inl rfl⟩
        · exact ⟨t, ⟨hmem, hnested⟩, .inr ⟨fun h => by simp [hcorlib] at h, he⟩⟩
      · rintro ⟨t, ht, rfl | ⟨-, he⟩⟩
        · exact ⟨_, ht.1, t, rfl, ht.2, .inl rfl⟩
        · exact ⟨_, ht.1, t, rfl, ht.2, .inr ⟨hcorlib, he⟩⟩
  exact ⟨hashTable, heq, fun k x => hfill.eq_some_iff (fun _ _ _ => entries_inj) k x⟩

end TypeTable

end Image

end Il2Cpp
