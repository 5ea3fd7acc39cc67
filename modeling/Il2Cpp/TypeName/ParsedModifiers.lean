import Il2Cpp.TypeName.Forward

/-!
# Applying parsed modifiers

`TypeNameParser` records the modifiers behind a class name in one flat list: -1 for a pointer, the
rank of an array, -2 in front of the rank for each `*` between the brackets, 0 for a reference.
`Class::GetType` walks over the list and builds the type.

* `getType` : the code.
* `Modifiers` : the modifiers as they stand in the text; `Modifiers.encode` is the flat list and
  `Modifiers.build` the type that they mean.

The loop keeps the bounded flag of one array for the arrays behind it, and a rank is stored in a
`uint8_t`; `getType_eq_build_iff` says when it builds what the text says.
-/

namespace Il2Cpp.ParsedModifiers

open Cursor

variable {K : Type}

/-! ### The code -/

/-- A class as its `byval_arg` describes it.  Equal descriptions are one class, as the runtime
interns pointer and array classes. -/
inductive BuiltClass (K : Type) where
  | named (klass : K)
  | ptr (element : BuiltClass K)
  | szarray (element : BuiltClass K)
  | array (element : BuiltClass K) (rank : ℕ)
  deriving DecidableEq, Repr

/-- An `Il2CppType*` into a class: `byval_arg`, or `this_arg` for a reference. -/
structure BuiltType (K : Type) where
  klass : BuiltClass K
  byref : Bool
  deriving DecidableEq, Repr

/-- `Class::GetBoundedArrayClass`.  The rank is passed as a `uint32_t` and stored as a `uint8_t`. -/
def getBoundedArrayClass (elementClass : BuiltClass K) (rank : ℤ) (bounded : Bool) :
    BuiltClass K :=
  let rank := (rank % 4294967296).toNat
  let bounded := if rank > 1 then false else bounded
  if rank > 1 ∨ bounded then .array elementClass (rank % 256) else .szarray elementClass

/-- The loop of `Class::GetType`.  A NULL class is `none`; the outer `none` is a fault. -/
def applyModifiers : Bool → Option (BuiltClass K) → List ℤ → Option (Option (BuiltType K))
  | _, klass, [] => some (klass.map (⟨·, false⟩))
  | bounded, klass, modifier :: modifiers =>
    if modifier = 0 then klass.map fun klass => some ⟨klass, true⟩
    else if modifier = -1 then
      klass.bind fun klass => applyModifiers bounded (some (.ptr klass)) modifiers
    else if modifier = -2 then applyModifiers true klass modifiers
    else
      klass.bind fun klass =>
        applyModifiers bounded (some (getBoundedArrayClass klass modifier bounded)) modifiers

section

variable (isGeneric : K → Bool) (resolveGenericInstanceType : K → TypeNameParseInfo → Option K)

/-- The class that the modifiers are applied to: a generic definition is instantiated first. -/
def baseClass (klass : K) (info : TypeNameParseInfo) : Option K :=
  if isGeneric klass then resolveGenericInstanceType klass info else some klass

/-- `Class::GetType` of a class and a parsed name. -/
def getType (klass : K) (info : TypeNameParseInfo) : Option (Option (BuiltType K)) :=
  applyModifiers false ((baseClass isGeneric resolveGenericInstanceType klass info).map .named)
    info.modifiers

end

/-! ### Modifiers in the text -/

/-- The modifiers of a type in the order of the text. -/
structure Modifiers where
  /-- How many `*` there are. -/
  pointers : ℕ
  /-- What stands between the brackets of each array. -/
  arrays : List (List Char)
  /-- A `&` at the end. -/
  byref : Bool
  brackets : ∀ b ∈ arrays, ∀ c ∈ b, c = ',' ∨ c = '*'

/-- The number of dimensions between two brackets. -/
def rank (b : List Char) : ℕ := b.count ',' + 1

/-- What is recorded for an array. -/
def encodeArray (b : List Char) : List ℤ := List.replicate (b.count '*') (-2) ++ [(rank b : ℤ)]

/-- The array that its own brackets mean: `[]` is single-dimensional and zero-based, a `*` without
a comma makes it bounded, and commas make it multi-dimensional. -/
def applyArray (element : BuiltClass K) (b : List Char) : BuiltClass K :=
  if rank b = 1 ∧ '*' ∉ b then .szarray element else .array element (rank b)

namespace Modifiers

variable (m : Modifiers)

/-- The text of the modifiers. -/
def text : List Char :=
  List.replicate m.pointers '*' ++ m.arrays.flatMap (fun b => '[' :: b ++ [']']) ++
    if m.byref then ['&'] else []

/-- What the parser records. -/
def encode : List ℤ :=
  List.replicate m.pointers (-1) ++ m.arrays.flatMap encodeArray ++ if m.byref then [0] else []

/-- The type that the modifiers mean, each array by its own brackets. -/
def build (klass : K) : BuiltType K :=
  ⟨m.arrays.foldl applyArray (BuiltClass.ptr^[m.pointers] (.named klass)), m.byref⟩

/-- No `[]` stands behind brackets with a `*`, and no array has more than 255 dimensions. -/
def Independent : Prop :=
  m.arrays.Pairwise (fun a b => '*' ∈ a → b ≠ []) ∧ ∀ b ∈ m.arrays, rank b ≤ 255

end Modifiers

/-! ### What the parser records -/

/-- The text without white space. -/
def noWhite (s : List Char) : List Char := s.filter fun c => !isWhite c

@[simp] theorem noWhite_append (s t : List Char) : noWhite (s ++ t) = noWhite s ++ noWhite t :=
  List.filter_append s t

theorem noWhite_dropWhile (s : List Char) : noWhite (s.dropWhile isWhite) = noWhite s := by
  induction s with
  | nil => rfl
  | cons c s ih =>
    cases hc : isWhite c with
    | true =>
      rw [List.dropWhile_cons_of_pos hc, ih, noWhite, noWhite,
        List.filter_cons_of_neg (by simp [hc])]
    | false => rw [List.dropWhile_cons_of_neg (by simp [hc])]

theorem noWhite_skipWhites (p : Cursor) : noWhite p.skipWhites.rest = noWhite p.rest :=
  noWhite_dropWhile p.rest

theorem noWhite_of_currentIs {p : Cursor} {v : Char} (h : p.currentIs v = true)
    (hv : isWhite v = false) : noWhite p.rest = v :: noWhite (p.next true).rest := by
  rcases p with ⟨_ | ⟨c, cs⟩, n⟩
  · cases h
  · obtain rfl : c = v := by simpa using h
    rw [noWhite, List.filter_cons_of_pos (by simp [hv])]
    exact congrArg (c :: ·) (noWhite_dropWhile cs).symm

theorem next_of_advance {p q : Cursor} {skip : Bool} (h : advance p skip = .done q) :
    p.next skip = q := by
  rw [advance] at h
  split at h
  · cases h
  · exact Outcome.done.inj h

theorem parsePointerModifiers_spec (n : ℕ) (modifiers : List ℤ) (p : Cursor) :
    ∃ k, (parsePointerModifiers n modifiers p).1 = modifiers ++ List.replicate k (-1) ∧
      noWhite p.rest =
        List.replicate k '*' ++ noWhite (parsePointerModifiers n modifiers p).2.rest := by
  induction n generalizing modifiers p with
  | zero => exact ⟨0, (List.append_nil _).symm, rfl⟩
  | succ n ih =>
    rw [parsePointerModifiers]
    split
    case isTrue hstar =>
      obtain ⟨k, hmodifiers, htext⟩ := ih (modifiers ++ [-1]) (p.next true)
      refine ⟨k + 1, ?_, ?_⟩
      · rw [hmodifiers, List.append_assoc, List.singleton_append, List.replicate_succ]
      · rw [noWhite_of_currentIs hstar rfl, htext, List.replicate_succ, List.cons_append]
    case isFalse => exact ⟨0, (List.append_nil _).symm, rfl⟩

theorem parseRank_spec {n : ℕ} {r : ℤ} {modifiers modifiers' : List ℤ} {p q : Cursor}
    (h : parseRank n r modifiers p = .done (modifiers', q)) :
    ∃ b : List Char, (∀ c ∈ b, c = ',' ∨ c = '*') ∧
      modifiers' = modifiers ++ List.replicate (b.count '*') (-2) ++ [r + b.count ','] ∧
      noWhite p.rest = b ++ ']' :: noWhite q.rest := by
  induction n generalizing r modifiers p with
  | zero => cases h
  | succ n ih =>
    rw [parseRank] at h
    split_ifs at h with hclose hcomma hstar
    · cases h
      exact ⟨[], by simp, by simp, noWhite_of_currentIs hclose rfl⟩
    · obtain ⟨p₁, h₁, h₂⟩ := Outcome.bind_eq_done_iff.1 h
      obtain ⟨b, hb, hmodifiers, htext⟩ := ih h₂
      refine ⟨',' :: b, List.forall_mem_cons.2 ⟨.inl rfl, hb⟩, ?_, ?_⟩
      · rw [hmodifiers, List.count_cons_of_ne (by decide), List.count_cons_self]
        push_cast
        rw [Int.add_assoc, Int.add_comm 1]
      · rw [noWhite_of_currentIs hcomma rfl, next_of_advance h₁, htext, List.cons_append]
    · obtain ⟨p₁, h₁, h₂⟩ := Outcome.bind_eq_done_iff.1 h
      obtain ⟨b, hb, hmodifiers, htext⟩ := ih h₂
      refine ⟨'*' :: b, List.forall_mem_cons.2 ⟨.inr rfl, hb⟩, ?_, ?_⟩
      · rw [hmodifiers, List.count_cons_self, List.replicate_succ,
          List.count_cons_of_ne (by decide)]
        simp
      · rw [noWhite_of_currentIs hstar rfl, next_of_advance h₁, htext, List.cons_append]

theorem parseArrayModifiers_spec {n : ℕ} {modifiers modifiers' : List ℤ} {p q : Cursor}
    (h : parseArrayModifiers n modifiers p = .done (modifiers', q)) :
    ∃ arrays : List (List Char), (∀ b ∈ arrays, ∀ c ∈ b, c = ',' ∨ c = '*') ∧
      modifiers' = modifiers ++ arrays.flatMap encodeArray ∧
      noWhite p.rest = arrays.flatMap (fun b => '[' :: b ++ [']']) ++ noWhite q.rest := by
  induction n generalizing modifiers p with
  | zero => cases h
  | succ n ih =>
    have hnone : (modifiers, p.skipWhites) = (modifiers', q) →
        ∃ arrays : List (List Char), (∀ b ∈ arrays, ∀ c ∈ b, c = ',' ∨ c = '*') ∧
          modifiers' = modifiers ++ arrays.flatMap encodeArray ∧
          noWhite p.rest = arrays.flatMap (fun b => '[' :: b ++ [']']) ++ noWhite q.rest := by
      rintro ⟨rfl, rfl⟩
      exact ⟨[], nofun, (List.append_nil _).symm, (noWhite_skipWhites p).symm⟩
    rw [parseArrayModifiers] at h
    split at h
    · exact hnone (Outcome.done.inj h)
    split at h
    · exact hnone (Outcome.done.inj h)
    split at h
    · exact hnone (Outcome.done.inj h)
    rename_i hopen _
    obtain ⟨p₁, h₁, h⟩ := Outcome.bind_eq_done_iff.1 h
    obtain ⟨⟨modifiers₂, p₂⟩, h₂, h₃⟩ := Outcome.bind_eq_done_iff.1 h
    obtain ⟨b, hb, hrank, hbtext⟩ := parseRank_spec h₂
    obtain ⟨arrays, hbrackets, hmodifiers, htext⟩ := ih h₃
    refine ⟨b :: arrays, List.forall_mem_cons.2 ⟨hb, hbrackets⟩, ?_, ?_⟩
    · rw [hmodifiers, hrank, List.flatMap_cons, encodeArray, rank]
      push_cast
      rw [Int.add_comm (1 : ℤ)]
      simp
    · rw [← noWhite_skipWhites, noWhite_of_currentIs (v := '[') (by simpa using hopen) rfl,
        next_of_advance h₁, hbtext, htext, List.flatMap_cons]
      simp

theorem parseInfo_modifiers {n : ℕ} {accept : Bool} {p q : Cursor} {info : TypeNameParseInfo}
    (h : parseInfo n accept p = .done (info, q)) :
    ∃ m : Modifiers, info.modifiers = m.encode ∧
      ∃ before behind, noWhite p.rest = before ++ m.text ++ behind := by
  cases n with
  | zero => cases h
  | succ n =>
    obtain ⟨s⟩ := parseInfo_steps h
    obtain ⟨before, hbefore⟩ := s.afterArguments_suffix fun h => (parse_suffix n).2 h
    obtain ⟨k, hpointers, hptext⟩ :=
      parsePointerModifiers_spec s.afterArguments.rest.length [] s.afterArguments
    rw [← parsePointerModifiersOptional, s.pointerModifiers] at hpointers hptext
    simp only [List.nil_append] at hpointers hptext
    obtain ⟨arrays, hbrackets, harrays, hatext⟩ := parseArrayModifiers_spec s.arrayModifiers
    obtain ⟨byref, hbyref, hrtext⟩ : ∃ byref : Bool,
        info.modifiers = s.arrays ++ (if byref then [0] else []) ∧
          noWhite s.afterArrays.rest =
            (if byref then ['&'] else []) ++ noWhite s.afterByRef.rest := by
      have href := s.byRefModifiers
      rw [parseByRefModifiersOptional] at href
      split at href
      case isTrue hamp =>
        split at href
        · cases href
        · obtain ⟨hmodifiers, hafter⟩ := Prod.mk.inj (Outcome.done.inj href)
          exact ⟨true, hmodifiers.symm, hafter ▸ noWhite_of_currentIs hamp rfl⟩
      case isFalse =>
        obtain ⟨hmodifiers, hafter⟩ := Prod.mk.inj (Outcome.done.inj href)
        exact ⟨false, by simpa using hmodifiers.symm, by rw [hafter]; rfl⟩
    refine ⟨⟨k, arrays, byref, hbrackets⟩, ?_, noWhite before, noWhite s.afterByRef.rest, ?_⟩
    · rw [hbyref, harrays, hpointers]
      rfl
    · rw [← hbefore, noWhite_append, hptext, hatext, hrtext, Modifiers.text]
      simp only [List.append_assoc]

/-! ### What the loop builds -/

theorem applyModifiers_pointers (k : ℕ) (bounded : Bool) (klass : BuiltClass K) (ms : List ℤ) :
    applyModifiers bounded (some klass) (List.replicate k (-1) ++ ms) =
      applyModifiers bounded (some (BuiltClass.ptr^[k] klass)) ms := by
  induction k generalizing klass with
  | zero => rfl
  | succ k ih =>
    rw [List.replicate_succ, List.cons_append, applyModifiers, if_neg (by decide), if_pos rfl,
      Option.bind_some, ih, Function.iterate_succ_apply]

theorem applyModifiers_stars (k : ℕ) (bounded : Bool) (klass : Option (BuiltClass K))
    (ms : List ℤ) :
    applyModifiers bounded klass (List.replicate k (-2) ++ ms) =
      applyModifiers (bounded || 0 < k) klass ms := by
  induction k generalizing bounded with
  | zero => simp
  | succ k ih =>
    rw [List.replicate_succ, List.cons_append, applyModifiers, if_neg (by decide),
      if_neg (by decide), if_pos rfl, ih]
    simp

theorem applyModifiers_array (b : List Char) (bounded : Bool) (klass : BuiltClass K) (ms : List ℤ) :
    applyModifiers bounded (some klass) (encodeArray b ++ ms) =
      applyModifiers (bounded || '*' ∈ b)
        (some (getBoundedArrayClass klass (rank b) (bounded || '*' ∈ b))) ms := by
  have hpos : (0 : ℤ) < rank b := by
    rw [rank]
    omega
  have hstar : decide (0 < b.count '*') = decide ('*' ∈ b) := decide_eq_decide.2 List.count_pos_iff
  rw [encodeArray, List.append_assoc, applyModifiers_stars, hstar, List.singleton_append,
    applyModifiers, if_neg (by omega), if_neg (by omega), if_neg (by omega), Option.bind_some]

/-- The code's array is the one that the brackets mean, unless the flag is up without a `*` or the
rank does not fit. -/
theorem getBoundedArrayClass_eq_applyArray_iff {b : List Char} (hb : ∀ c ∈ b, c = ',' ∨ c = '*')
    (bounded : Bool) (klass klass' : BuiltClass K) :
    getBoundedArrayClass klass (rank b) (bounded || '*' ∈ b) = applyArray klass' b ↔
      klass = klass' ∧ (bounded = true → b ≠ []) ∧ rank b ≤ 255 := by
  have hcast : ((rank b : ℤ) % 4294967296).toNat = rank b % 4294967296 := by omega
  simp only [getBoundedArrayClass, applyArray, hcast]
  rcases Nat.lt_or_ge 255 (rank b) with hbig | hsmall
  · -- the stored rank is below 256
    rw [if_neg (c := rank b = 1 ∧ _) (by omega)]
    refine iff_of_false (fun h => ?_) (by omega)
    split_ifs at h
    all_goals exact absurd (BuiltClass.array.inj h).2 (by omega)
  rw [Nat.mod_eq_of_lt (b := 4294967296) (by omega), Nat.mod_eq_of_lt (b := 256) (by omega)]
  by_cases hone : rank b = 1
  · -- without a comma, brackets are empty or hold a `*`
    have hstar : '*' ∈ b ↔ b ≠ [] := by
      constructor
      · rintro h rfl
        cases h
      · intro hne
        obtain ⟨c, hc⟩ := List.exists_mem_of_ne_nil b hne
        rcases hb c hc with rfl | rfl
        · have hcount := List.count_pos_iff.2 hc
          rw [rank] at hone
          omega
        · exact hc
    by_cases hnil : b = []
    · subst hnil
      cases bounded <;> simp [rank]
    · cases bounded <;> simp [hone, hstar, hnil]
  · have hnil : b ≠ [] := by
      rintro rfl
      exact hone rfl
    have hlt : 1 < rank b := by
      rw [rank] at hone ⊢
      omega
    simp [hone, hlt, hnil, hsmall]

/-- The arrays as the loop builds them. -/
def loopArrays : Bool → BuiltClass K → List (List Char) → BuiltClass K
  | _, klass, [] => klass
  | bounded, klass, b :: arrays =>
    loopArrays (bounded || '*' ∈ b) (getBoundedArrayClass klass (rank b) (bounded || '*' ∈ b))
      arrays

theorem applyModifiers_arrays (arrays : List (List Char)) (byref bounded : Bool)
    (klass : BuiltClass K) :
    applyModifiers bounded (some klass) (arrays.flatMap encodeArray ++ if byref then [0] else []) =
      some (some ⟨loopArrays bounded klass arrays, byref⟩) := by
  induction arrays generalizing bounded klass with
  | nil => cases byref <;> rfl
  | cons b arrays ih =>
    rw [List.flatMap_cons, List.append_assoc, applyModifiers_array, ih, loopArrays]

theorem loopArrays_eq_foldl_iff {arrays : List (List Char)}
    (hb : ∀ b ∈ arrays, ∀ c ∈ b, c = ',' ∨ c = '*') (bounded : Bool) (klass klass' : BuiltClass K) :
    loopArrays bounded klass arrays = arrays.foldl applyArray klass' ↔
      klass = klass' ∧ (bounded = true → ∀ b ∈ arrays, b ≠ []) ∧
        arrays.Pairwise (fun a b => '*' ∈ a → b ≠ []) ∧ ∀ b ∈ arrays, rank b ≤ 255 := by
  induction arrays generalizing bounded klass klass' with
  | nil => simp [loopArrays]
  | cons b arrays ih =>
    obtain ⟨hhead, htail⟩ := List.forall_mem_cons.1 hb
    rw [loopArrays, List.foldl_cons, ih htail, getBoundedArrayClass_eq_applyArray_iff hhead]
    simp only [List.forall_mem_cons, List.pairwise_cons, Bool.or_eq_true, decide_eq_true_eq]
    constructor
    · rintro ⟨⟨hk, hne, hle⟩, hflag, hpair, hrank⟩
      exact ⟨hk, fun h => ⟨hne h, hflag (.inl h)⟩, ⟨fun a ha hs => hflag (.inr hs) a ha, hpair⟩,
        hle, hrank⟩
    · rintro ⟨hk, hflag, ⟨hstar, hpair⟩, hle, hrank⟩
      refine ⟨⟨hk, fun h => (hflag h).1, hle⟩, ?_, hpair, hrank⟩
      rintro (h | h)
      · exact (hflag h).2
      · exact fun a ha => hstar a ha h

theorem applyModifiers_null (m : Modifiers) :
    applyModifiers false (none : Option (BuiltClass K)) m.encode = some none ↔ m.encode = [] := by
  obtain ⟨pointers, arrays, byref, hb⟩ := m
  simp only [Modifiers.encode]
  rcases pointers with _ | k
  · rcases arrays with _ | ⟨b, arrays⟩
    · cases byref <;> simp [applyModifiers]
    · have hfault : ∀ ms,
          applyModifiers false (none : Option (BuiltClass K)) (encodeArray b ++ ms) = none := by
        intro ms
        rw [encodeArray, List.append_assoc, applyModifiers_stars, List.singleton_append,
          applyModifiers, rank, if_neg (by omega), if_neg (by omega), if_neg (by omega)]
        rfl
      rw [List.flatMap_cons, List.replicate_zero, List.nil_append, List.append_assoc, hfault]
      simp [encodeArray]
  · simp [List.replicate_succ, applyModifiers]

/-- **`Class::GetType` on parsed modifiers.**  The modifiers of an accepted type are those in its
text, and `GetType` applies them in order, each array by its own brackets, if and only if no `[]`
stands behind brackets with a `*`, no array has more than 255 dimensions, and there is a class that
they can be applied to. -/
theorem getType_eq_build_iff (isGeneric : K → Bool)
    (resolveGenericInstanceType : K → TypeNameParseInfo → Option K) (klass : K) {n : ℕ}
    {accept : Bool} {p q : Cursor} {info : TypeNameParseInfo}
    (h : parseInfo n accept p = .done (info, q)) :
    ∃ m : Modifiers, info.modifiers = m.encode ∧
      (∃ before behind, noWhite p.rest = before ++ m.text ++ behind) ∧
      (getType isGeneric resolveGenericInstanceType klass info =
          some ((baseClass isGeneric resolveGenericInstanceType klass info).map m.build) ↔
        m.Independent ∧ ((baseClass isGeneric resolveGenericInstanceType klass info).isSome ∨
          info.modifiers = [])) := by
  obtain ⟨m, hencode, htext⟩ := parseInfo_modifiers h
  refine ⟨m, hencode, htext, ?_⟩
  rw [getType, hencode]
  cases baseClass isGeneric resolveGenericInstanceType klass info with
  | none =>
    rw [Option.map_none, Option.map_none, applyModifiers_null]
    simp only [Option.isSome_none, Bool.false_eq_true, false_or]
    constructor
    · intro hnil
      refine ⟨?_, hnil⟩
      rw [Modifiers.encode] at hnil
      have harrays : m.arrays = [] := by
        cases ha : m.arrays with
        | nil => rfl
        | cons b arrays => simp [ha, encodeArray] at hnil
      rw [Modifiers.Independent, harrays]
      exact ⟨.nil, nofun⟩
    · exact fun h => h.2
  | some base =>
    rw [Option.map_some, Option.map_some, Modifiers.encode, List.append_assoc,
      applyModifiers_pointers, applyModifiers_arrays, Modifiers.build]
    simp only [Option.some.injEq, BuiltType.mk.injEq, and_true, Option.isSome_some, true_or]
    rw [loopArrays_eq_foldl_iff m.brackets]
    simp [Modifiers.Independent]

/-- An array of two-dimensional arrays. -/
theorem getType_eq_build_iff_jagged :
    ∃ m : Modifiers, ([1, 2] : List ℤ) = m.encode ∧
      (∃ before behind, noWhite "T[][,]".toList = before ++ m.text ++ behind) ∧
      (getType (fun _ : ℕ => false) (fun _ _ => none) 0 { name := ['T'], modifiers := [1, 2] } =
          some ((baseClass (fun _ : ℕ => false) (fun _ _ => none) 0
            { name := ['T'], modifiers := [1, 2] }).map m.build) ↔
        m.Independent ∧ ((baseClass (fun _ : ℕ => false) (fun _ _ => none) 0
          { name := ['T'], modifiers := [1, 2] }).isSome ∨ ([1, 2] : List ℤ) = [])) :=
  getType_eq_build_iff (fun _ => false) (fun _ _ => none) 0
    (show parseInfo 7 true ⟨"T[][,]".toList, 0⟩ =
      .done ({ name := ['T'], modifiers := [1, 2] }, ⟨[], 0⟩) from rfl)

/-- In `T[*][]` the outer array becomes bounded as the inner one is. -/
theorem getType_keeps_bounded :
    ∃ (info : TypeNameParseInfo) (m : Modifiers), parse "T[*][]".toList = .done info ∧
      noWhite "T[*][]".toList = 'T' :: m.text ∧ info.modifiers = m.encode ∧
      getType (fun _ : ℕ => false) (fun _ _ => none) 0 info ≠ some (some (m.build 0)) :=
  ⟨{ name := ['T'], modifiers := [-2, 1, 1] }, ⟨0, [['*'], []], false, by decide⟩, rfl, rfl, rfl,
    by decide⟩

end Il2Cpp.ParsedModifiers
