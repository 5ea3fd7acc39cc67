import Il2Cpp.TypeName.ParsePrinted

/-!
# Round trip of type names

What the parser makes of a printed type name.

* `TypeShape.Valid` : the types whose names have no reserved characters.
* `TypeShape.info` : what is to be read of a type.
* `TypeShape.Readable` : what the parser reads.
-/

namespace Il2Cpp

open Cursor Il2CppTypeNameFormat

/-! ### Types as a class, its arguments and modifiers -/

namespace TypeShape

/-- The modifiers of a type, from the inside. -/
def modifiers : TypeShape → List Modifier
  | ptr t => t.modifiers ++ [.ptr]
  | szarray t => t.modifiers ++ [.szarray]
  | array t rank => t.modifiers ++ [.array rank]
  | _ => []

/-- The generic arguments of the class below all modifiers. -/
def arguments : TypeShape → List (Bool × TypeShape)
  | ptr t | szarray t | array t _ => t.arguments
  | genericinst _ typeArgv => typeArgv
  | _ => []

/-- The name of the class below all modifiers. -/
def className : TypeShape → Option ClassName
  | ptr t | szarray t | array t _ => t.className
  | klass definition | genericinst definition _ => some definition.className
  | _ => none

end TypeShape

/-- The names of an assembly have no reserved characters. -/
def Il2CppAssemblyName.Valid (aname : Il2CppAssemblyName) : Prop :=
  Unreserved aname.name.chars ∧ ∀ c ∈ aname.culture, Unreserved c.chars

mutual

/-- A type built from named types, generic instances, pointers and arrays: its names have no
reserved characters, and the arity in the name of a generic instance counts its arguments. -/
def TypeShape.Valid : TypeShape → Prop
  | .klass definition => (∃ k, definition.className.Valid k) ∧ definition.assembly.Valid
  | .genericinst definition typeArgv =>
    definition.className.Valid typeArgv.length ∧ typeArgv ≠ [] ∧ definition.assembly.Valid ∧
      AllValid typeArgv
  | .ptr t | .szarray t => t.Valid
  | .array t rank => t.Valid ∧ 1 ≤ rank
  | .var _ | .mvar _ => False

/-- `TypeShape.Valid` for all arguments. -/
def AllValid : List (Bool × TypeShape) → Prop
  | [] => True
  | (_, t) :: typeArgv => t.Valid ∧ AllValid typeArgv

end

/-- The parser reads the assembly to its end: it gives up at `Retargetable`, so that nothing may
be printed behind that. -/
def Il2CppAssemblyName.Readable (aname : Il2CppAssemblyName) : Prop :=
  ¬ (retargetable aname.flags ∧ isWindowsRuntimeMetadata aname.name.chars)

mutual

/-- The parser reads the arguments of the type. -/
def TypeShape.ArgumentsReadable : TypeShape → Prop
  | .genericinst _ typeArgv => typeArgv.length < 2 ^ 31 ∧ AllReadable typeArgv
  | .ptr t | .szarray t | .array t _ => t.ArgumentsReadable
  | .klass _ | .var _ | .mvar _ => True

/-- The parser reads all arguments, which are printed with their assembly. -/
def AllReadable : List (Bool × TypeShape) → Prop
  | [] => True
  | (_, t) :: typeArgv =>
    (pointersFirst t.modifiers ∧ t.ArgumentsReadable ∧ t.assembly.Readable) ∧ AllReadable typeArgv

end

/-- **What the parser can read**: no pointer stands behind an array, and no assembly that is printed
is both retargetable and named `WindowsRuntimeMetadata`, in the type and in its arguments. -/
def TypeShape.Readable (format : Il2CppTypeNameFormat) (t : TypeShape) : Prop :=
  pointersFirst t.modifiers ∧ t.ArgumentsReadable ∧
    (format = assemblyQualified → t.assembly.Readable)

/-- What is to be read of a class name. -/
def ClassName.info (c : ClassName) : TypeNameParseInfo where
  namespaze := c.outermost.1.chars
  name := c.outermost.2.chars
  nested := c.nestedNames

mutual

/-- What is to be read of a type: the namespace, the name, the nesting, the arguments and the
modifiers. -/
def TypeShape.info : TypeShape → TypeNameParseInfo
  | .klass definition => definition.className.info
  | .genericinst definition typeArgv =>
    { definition.className.info with typeArguments := argumentsInfo typeArgv }
  | .ptr t => { t.info with modifiers := t.info.modifiers ++ Modifier.ptr.values }
  | .szarray t => { t.info with modifiers := t.info.modifiers ++ Modifier.szarray.values }
  | .array t rank => { t.info with modifiers := t.info.modifiers ++ (Modifier.array rank).values }
  | .var _ | .mvar _ => {}

/-- What is to be read of the arguments; a `byref` flag is the modifier 0. -/
def argumentsInfo : List (Bool × TypeShape) → List TypeNameParseInfo
  | [] => []
  | (byref, t) :: typeArgv =>
    { t.info with modifiers := t.info.modifiers ++ if byref then [0] else [] } ::
      argumentsInfo typeArgv

end

/-- What is to be read of a type with the given flag. -/
def RuntimeType.info (type : RuntimeType) : TypeNameParseInfo :=
  { type.shape.info with
    modifiers := type.shape.info.modifiers ++ if type.byref then [0] else [] }

mutual

/-- The result of the parser without the assembly names. -/
def TypeNameParseInfo.withoutAssembly : TypeNameParseInfo → TypeNameParseInfo
  | ⟨namespaze, name, _, modifiers, typeArguments, nested⟩ =>
    ⟨namespaze, name, {}, modifiers, withoutAssemblies typeArguments, nested⟩

/-- The results of the parser without the assembly names. -/
def withoutAssemblies : List TypeNameParseInfo → List TypeNameParseInfo
  | [] => []
  | info :: infos => info.withoutAssembly :: withoutAssemblies infos

end

/-! ### The text of a type -/

/-- The generic arguments as they are printed in a full name. -/
def argumentsText (typeArgv : List (Bool × TypeShape)) : List Char :=
  if typeArgv = [] then [] else '[' :: genericArgumentsText assemblyQualified true typeArgv ++ [']']

/-- A valid type, as the name `c` of a class with `k` generic parameters, its arguments and its
modifiers. -/
structure NamedForm (t : TypeShape) (c : ClassName) (k : ℕ) : Prop where
  valid : c.Valid k
  arity : t.arguments ≠ [] → k = t.arguments.length
  assembly : t.assembly.Valid
  modifiers : ∀ m ∈ t.modifiers, m.Valid
  arguments : AllValid t.arguments
  text : getNameInternal fullName false t =
    classNameText fullName c ++ (argumentsText t.arguments ++ modifiersText t.modifiers)
  info : t.info = { c.info with
    typeArguments := argumentsInfo t.arguments, modifiers := modifierValues t.modifiers }
  readable : t.ArgumentsReadable ↔ t.arguments.length < 2 ^ 31 ∧ AllReadable t.arguments

theorem namedForm_modifier {t t' : TypeShape} {c : ClassName} {k : ℕ} {m : Modifier}
    (h : NamedForm t c k) (hm : m.Valid) (hassembly : t'.assembly = t.assembly)
    (hmodifiers : t'.modifiers = t.modifiers ++ [m]) (harguments : t'.arguments = t.arguments)
    (htext : getNameInternal fullName false t' = getNameInternal fullName false t ++ m.text)
    (hinfo : t'.info = { t.info with modifiers := t.info.modifiers ++ m.values })
    (hreadable : t'.ArgumentsReadable ↔ t.ArgumentsReadable) : NamedForm t' c k where
  valid := h.valid
  arity := harguments ▸ h.arity
  assembly := hassembly ▸ h.assembly
  modifiers := by
    rw [hmodifiers]
    intro x hx
    rcases List.mem_append.1 hx with hx | hx
    · exact h.modifiers x hx
    · exact List.mem_singleton.1 hx ▸ hm
  arguments := harguments ▸ h.arguments
  text := by simp [htext, h.text, harguments, hmodifiers, modifiersText]
  info := by simp [hinfo, h.info, harguments, hmodifiers, modifierValues]
  readable := by rw [hreadable, h.readable, harguments]

theorem TypeShape.Valid.namedForm : {t : TypeShape} → t.Valid → ∃ c k, NamedForm t c k
  | .klass definition, h => by
    simp only [TypeShape.Valid] at h
    obtain ⟨⟨k, hk⟩, hassembly⟩ := h
    refine ⟨definition.className, k, hk, fun h => absurd rfl h, hassembly, List.forall_mem_nil _, ?_, ?_, ?_, ?_⟩
    · simp only [TypeShape.arguments, AllValid]
    · cases hg : definition.genericContainer <;>
        simp [getNameInternal, genericParametersText, hg, byrefSuffix, assemblySuffix,
          argumentsText, TypeShape.arguments, TypeShape.modifiers, modifiersText]
    · simp [TypeShape.info, ClassName.info, TypeShape.arguments, argumentsInfo,
        TypeShape.modifiers, modifierValues]
    · simp [TypeShape.ArgumentsReadable, TypeShape.arguments, AllReadable]
  | .genericinst definition typeArgv, h => by
    simp only [TypeShape.Valid] at h
    obtain ⟨hname, hne, hassembly, hargs⟩ := h
    refine ⟨definition.className, _, hname, fun _ => rfl, hassembly, List.forall_mem_nil _, hargs, ?_, ?_, ?_⟩
    · simp [getNameInternal, openBracket, closeBracket, Il2CppTypeNameFormat.nested, byrefSuffix,
        assemblySuffix, argumentsText, hne, TypeShape.arguments, TypeShape.modifiers, modifiersText]
    · simp [TypeShape.info, ClassName.info, TypeShape.arguments, TypeShape.modifiers,
        modifierValues]
    · simp only [TypeShape.ArgumentsReadable, TypeShape.arguments]
  | .ptr t, h => by
    simp only [TypeShape.Valid] at h
    obtain ⟨c, k, hform⟩ := h.namedForm
    exact ⟨c, k, namedForm_modifier (m := .ptr) hform trivial rfl rfl rfl
      (by simp [getNameInternal, element, byrefSuffix, assemblySuffix, Modifier.text]) rfl Iff.rfl⟩
  | .szarray t, h => by
    simp only [TypeShape.Valid] at h
    obtain ⟨c, k, hform⟩ := h.namedForm
    exact ⟨c, k, namedForm_modifier (m := .szarray) hform trivial rfl rfl rfl
      (by simp [getNameInternal, element, byrefSuffix, assemblySuffix, Modifier.text]) rfl Iff.rfl⟩
  | .array t rank, h => by
    simp only [TypeShape.Valid] at h
    obtain ⟨c, k, hform⟩ := h.1.namedForm
    exact ⟨c, k, namedForm_modifier (m := .array rank) hform h.2 rfl rfl rfl
      (by simp [getNameInternal, element, byrefSuffix, assemblySuffix, Modifier.text]) rfl Iff.rfl⟩
  | .var _, h => by simp only [TypeShape.Valid] at h
  | .mvar _, h => by simp only [TypeShape.Valid] at h

theorem getNameInternal_eq {format : Il2CppTypeNameFormat}
    (hf : format = fullName ∨ format = assemblyQualified) (byref : Bool) {t : TypeShape}
    (ht : t.Valid) :
    getNameInternal format byref t = getNameInternal fullName false t ++
      (byrefSuffix byref ++ assemblySuffix format t.assembly) := by
  cases t <;> rcases hf with rfl | rfl <;>
    simp_all [TypeShape.Valid, getNameInternal, Il2CppTypeNameFormat.element,
      Il2CppTypeNameFormat.nested, byrefSuffix, assemblySuffix, TypeShape.assembly,
      genericParametersText, classNameText_eq, openBracket, closeBracket]

/-! ### Reading a type -/

/-- The parser reads `info` up to `tail` where the text is readable; and where it is not, it
returns false or stops in front of a `*` or a `,`. -/
def ReadsTo (r : Outcome (TypeNameParseInfo × Cursor)) (readable : Prop) (info : TypeNameParseInfo)
    (tail : List Char) : Prop :=
  (readable → ∃ i, r = .done (i, ⟨tail, 0⟩) ∧ i.withoutAssembly = info) ∧
  (¬ readable → ∀ i p, r = .done (i, p) → ∃ c rest, p = ⟨c :: rest, 0⟩ ∧ (c = '*' ∨ c = ','))

/-- The loop over type arguments reads the arguments up to the bracket behind them where they are
readable, and returns false where they are not. -/
def ReadsArguments (typeArgv : List (Bool × TypeShape)) : Prop :=
  ∀ n infos tail, (genericArgumentsText assemblyQualified true typeArgv).length < n →
    let r := parseTypeArguments n infos
      ⟨genericArgumentsText assemblyQualified true typeArgv ++ ']' :: tail, 0⟩
    (AllReadable typeArgv → ∃ more, r = .done (infos ++ more, ⟨']' :: tail, 0⟩) ∧
      withoutAssemblies more = argumentsInfo typeArgv) ∧
    (¬ AllReadable typeArgv → ∀ x, r ≠ .done x)

theorem endsModifiers_suffix (format : Il2CppTypeNameFormat) (byref : Bool)
    (aname : Il2CppAssemblyName) {tail : List Char} (ht : EndsName tail) :
    EndsModifiers (byrefSuffix byref ++ (assemblySuffix format aname ++ tail)) := by
  cases byref
  · unfold assemblySuffix
    split_ifs
    · simp [EndsModifiers, byrefSuffix]
    · intro c hc
      simp [ht c hc]
  · simp [EndsModifiers, byrefSuffix]

theorem parseByRef_printed (format : Il2CppTypeNameFormat) (byref : Bool)
    (aname : Il2CppAssemblyName) {tail : List Char} (ht : EndsName tail) {modifiers : List ℤ}
    (h0 : (0 : ℤ) ∉ modifiers) :
    parseByRefModifiersOptional modifiers
        ⟨byrefSuffix byref ++ (assemblySuffix format aname ++ tail), 0⟩ =
      .done (modifiers ++ (if byref then [0] else []), ⟨assemblySuffix format aname ++ tail, 0⟩) := by
  have hends := endsModifiers_suffix format false aname ht
  cases byref
  · have hamp : Cursor.currentIs ⟨assemblySuffix format aname ++ tail, 0⟩ '&' = false := by
      unfold assemblySuffix
      split_ifs
      · simp
      · rcases tail with _ | ⟨c, cs⟩
        · rfl
        · obtain rfl : c = ']' := ht c rfl
          rfl
    simp [parseByRefModifiersOptional, byrefSuffix, hamp]
  · have hwhite : NoLeadingWhite (assemblySuffix format aname ++ tail) := by
      intro c hc
      have hmem : ∀ c ∈ ['&', ',', ']'], isWhite c = false := by decide
      exact hmem c (hends c hc)
    simp [parseByRefModifiersOptional, byrefSuffix, h0, next_skip_cons hwhite]

theorem parseAssemblyNameOptional_printed (format : Il2CppTypeNameFormat)
    {aname : Il2CppAssemblyName} (ha : aname.Valid) {tail : List Char} (ht : EndsName tail) :
    ∃ a, parseAssemblyNameOptional true ⟨assemblySuffix format aname ++ tail, 0⟩ =
      .done (a, ⟨(if format = assemblyQualified then unparsed aname else []) ++ tail, 0⟩) := by
  unfold assemblySuffix
  split_ifs
  · have hskip : ∀ s : List Char, skipWhites ⟨' ' :: s, 0⟩ = skipWhites ⟨s, 0⟩ := fun s => by
      simp [skipWhites, isWhite]
    refine ⟨parsedAs (aname.name.chars.dropWhile isWhite) aname, ?_⟩
    have hparse := parseAssemblyName_skipWhites ha.1 ha.2 ht
    have hadv : advance ⟨", ".toList ++ assemblyNameToString aname ++ tail, 0⟩ =
        .done ⟨' ' :: (assemblyNameToString aname ++ tail), 0⟩ := rfl
    have hcomma : Cursor.currentIs ⟨", ".toList ++ assemblyNameToString aname ++ tail, 0⟩ ',' =
        true := rfl
    simp only [parseAssemblyNameOptional, Bool.not_true, Bool.false_eq_true, if_false, hcomma, hadv,
      Outcome.done_bind, hskip, hparse, Outcome.pure_eq]
  · refine ⟨{}, ?_⟩
    have hcomma : Cursor.currentIs ⟨tail, 0⟩ ',' = false := by
      rcases tail with _ | ⟨c, cs⟩
      · rfl
      · obtain rfl : c = ']' := ht c rfl
        rfl
    simp [parseAssemblyNameOptional, hcomma]

theorem EndsModifiers.endsClass {tail : List Char} (h : EndsModifiers tail) : EndsClass tail := by
  intro c hc
  have hmem : ∀ c ∈ ['&', ',', ']'], c ∈ ['[', '*', '&', ',', ']'] := by decide
  exact hmem c (h c hc)

theorem parseTypeArgumentsOptional_none
    (parseArguments : Cursor → Outcome (List TypeNameParseInfo × Cursor)) (arity : Int32)
    {ms : List Modifier} (hms : ∀ m ∈ ms, m.Valid) {tail : List Char} (ht : EndsModifiers tail) :
    parseTypeArgumentsOptional parseArguments arity ⟨modifiersText ms ++ tail, 0⟩ =
      .done ([], ⟨modifiersText ms ++ tail, 0⟩) := by
  have hskip := skipWhites_of_noLeadingWhite (n := 0)
    (modifiersText_endsClass ms ht.endsClass).endsClassName.noLeadingWhite
  -- no `[`, or one that opens an array
  have hopen : Cursor.currentIs ⟨modifiersText ms ++ tail, 0⟩ '[' = false ∨
      opensArray ⟨modifiersText ms ++ tail, 0⟩ = true := by
    rcases ms with _ | ⟨m, ms⟩
    · left
      rcases tail with _ | ⟨c, cs⟩
      · rfl
      · have hmem : ∀ c ∈ ['&', ',', ']'], (c == '[') = false := by decide
        exact hmem c (ht c rfl)
    · have hm := hms m List.mem_cons_self
      cases m with
      | ptr => exact .inl rfl
      | szarray => exact .inr (opensArray_cons (by decide))
      | array rank =>
        obtain ⟨k, rfl⟩ : ∃ k, rank = k + 1 := ⟨rank - 1, by simp [Modifier.Valid] at hm; omega⟩
        cases k with
        | zero => exact .inr (opensArray_cons (by decide))
        | succ k => exact .inr (opensArray_cons (by decide))
  simp only [parseTypeArgumentsOptional, hskip]
  rcases hopen with h | h <;> simp [h]

theorem genericArgumentsText_cons {t : TypeShape} (ht : t.Valid) (first byref : Bool)
    (typeArgv : List (Bool × TypeShape)) :
    genericArgumentsText assemblyQualified first ((byref, t) :: typeArgv) =
      (if first then [] else [',']) ++ ('[' :: (getNameInternal assemblyQualified byref t ++
        ']' :: genericArgumentsText assemblyQualified false typeArgv)) := by
  have hvar : t.isVar = false := by
    cases t with
    | var => simp only [TypeShape.Valid] at ht
    | _ => rfl
  simp [genericArgumentsText, hvar]

theorem parseTypeArgumentsOptional_some
    (parseArguments : Cursor → Outcome (List TypeNameParseInfo × Cursor)) (arity : Int32)
    {typeArgv : List (Bool × TypeShape)} (hne : typeArgv ≠ []) (hv : AllValid typeArgv)
    (tail : List Char) :
    parseTypeArgumentsOptional parseArguments arity
        ⟨'[' :: (genericArgumentsText assemblyQualified true typeArgv ++ ']' :: tail), 0⟩ =
      if arity.toInt < 0 then .lengthError
      else do
        let (typeArguments, p) ← parseArguments
          ⟨genericArgumentsText assemblyQualified true typeArgv ++ ']' :: tail, 0⟩
        if (typeArguments.length : ℤ) ≠ arity.toInt then .reject
        else return (typeArguments, p.next true) := by
  obtain ⟨⟨byref, t⟩, typeArgv, rfl⟩ := List.exists_cons_of_ne_nil hne
  simp only [AllValid] at hv
  rw [genericArgumentsText_cons hv.1, if_pos rfl, List.nil_append, List.cons_append]
  unfold parseTypeArgumentsOptional
  rw [skipWhites_of_noLeadingWhite (by simp [isWhite])]
  simp only [isEOL_cons, Bool.false_eq_true, if_false, currentIs_cons, beq_self_eq_true,
    Bool.not_true]
  have hopen : ∀ s, opensArray ⟨'[' :: '[' :: s, 0⟩ = false := fun s => by
    simp [opensArray, nextWillBe, isWhite]
  rw [hopen, advance_skip_cons (by decide)]
  rfl

theorem withoutAssemblies_length (infos : List TypeNameParseInfo) :
    (withoutAssemblies infos).length = infos.length := by
  induction infos with
  | nil => rfl
  | cons info infos ih => simp [withoutAssemblies, ih]

theorem argumentsInfo_length (typeArgv : List (Bool × TypeShape)) :
    (argumentsInfo typeArgv).length = typeArgv.length := by
  induction typeArgv with
  | nil => rfl
  | cons a typeArgv ih => simp [argumentsInfo, ih]

theorem reads_arguments {typeArgv : List (Bool × TypeShape)} (hv : AllValid typeArgv)
    (hargs : typeArgv ≠ [] → ReadsArguments typeArgv) {ms : List Modifier}
    (hms : ∀ m ∈ ms, m.Valid) {tail : List Char} (ht : EndsModifiers tail) {k : ℕ} {arity : Int32}
    (hk : typeArgv ≠ [] → k = typeArgv.length) (harity : k < 2 ^ 31 → arity.toInt = k) {n : ℕ}
    (hn : (argumentsText typeArgv).length ≤ n) :
    let r := parseTypeArgumentsOptional (parseTypeArguments n []) arity
      ⟨argumentsText typeArgv ++ (modifiersText ms ++ tail), 0⟩
    (typeArgv.length < 2 ^ 31 ∧ AllReadable typeArgv → ∃ infos,
      r = .done (infos, ⟨modifiersText ms ++ tail, 0⟩) ∧
        withoutAssemblies infos = argumentsInfo typeArgv) ∧
    (¬ (typeArgv.length < 2 ^ 31 ∧ AllReadable typeArgv) → ∀ x, r ≠ .done x) := by
  by_cases hne : typeArgv = []
  · subst hne
    have hnone := parseTypeArgumentsOptional_none (parseTypeArguments n []) arity hms ht
    refine ⟨fun _ => ⟨[], hnone, rfl⟩, fun h => ?_⟩
    simp [AllReadable] at h
  have hwhite := (modifiersText_endsClass ms ht.endsClass).endsClassName.noLeadingWhite
  rw [argumentsText, if_neg hne] at hn ⊢
  simp only [List.cons_append, List.append_assoc, List.nil_append,
    parseTypeArgumentsOptional_some _ _ hne hv]
  simp only [List.length_append, List.length_cons, List.length_nil] at hn
  obtain ⟨hread, hnot⟩ := hargs hne n [] (modifiersText ms ++ tail) (by omega)
  have hkl := hk hne
  refine ⟨fun ⟨hlen, hall⟩ => ?_, fun h x => ?_⟩
  · obtain ⟨infos, hdone, hinfos⟩ := hread hall
    have hcount : infos.length = typeArgv.length := by
      rw [← withoutAssemblies_length, hinfos, argumentsInfo_length]
    have hval := harity (by omega)
    refine ⟨infos, ?_, hinfos⟩
    rw [hdone, if_neg (by omega)]
    simp [hval, hcount, hkl, next_skip_cons hwhite]
  · split_ifs
    · nofun
    · intro hx
      obtain ⟨⟨infos, p⟩, hdone, hrest⟩ := Outcome.bind_eq_done_iff.1 hx
      by_cases hall : AllReadable typeArgv
      · -- too many arguments for an `int32_t`
        obtain ⟨infos', hdone', hinfos⟩ := hread hall
        have heq : infos = infos' := (Prod.mk.inj (Outcome.done.inj (hdone.symm.trans hdone'))).1
        have hcount : infos.length = typeArgv.length := by
          rw [heq, ← withoutAssemblies_length, hinfos, argumentsInfo_length]
        have hlen : ¬ typeArgv.length < 2 ^ 31 := fun hlen => h ⟨hlen, hall⟩
        have harity := arity.toInt_lt
        have hne' : (infos.length : ℤ) ≠ arity.toInt := by omega
        simp only [if_pos hne'] at hrest
        cases hrest
      · exact hnot hall _ hdone

theorem zero_notMem_modifierValues {ms : List Modifier} (hms : ∀ m ∈ ms, m.Valid) :
    (0 : ℤ) ∉ modifierValues ms := by
  intro h
  obtain ⟨m, hm, h⟩ := List.mem_flatMap.1 h
  have hv := hms m hm
  cases m with
  | ptr => simp [Modifier.values] at h
  | szarray => simp [Modifier.values] at h
  | array rank =>
    simp only [Modifier.Valid] at hv
    simp only [Modifier.values] at h
    split_ifs at h <;> simp at h <;> omega

theorem classNameText_head {c : ClassName} {k : ℕ} (h : c.Valid k) :
    ∃ d ds, classNameText fullName c = d :: ds ∧ isWhite d = false := by
  induction h with
  | @topLevel namespaze name k _ hwhite hname =>
    have hsimple : simpleName fullName name = name.chars := rfl
    rw [classNameText, hsimple]
    by_cases hempty : namespaze.chars = []
    · obtain ⟨d, ds, hd⟩ := List.exists_cons_of_ne_nil hname.ne_nil
      exact ⟨d, ds, by simp [hempty, hd], hname.head_not_white (by simp [hd])⟩
    · obtain ⟨d, ds, hd⟩ := List.exists_cons_of_ne_nil hempty
      exact ⟨d, ds ++ '.' :: name.chars, by simp [hd], noLeadingWhite_cons.1 (hd ▸ hwhite)⟩
  | nested _ _ ih =>
    obtain ⟨d, ds, hd, hwhite⟩ := ih
    rw [classNameText, hd]
    exact ⟨d, _, rfl, hwhite⟩

theorem unparsed_eq_nil {aname : Il2CppAssemblyName} (h : aname.Readable) : unparsed aname = [] :=
  if_neg (by simpa [Il2CppAssemblyName.Readable] using h)

theorem unparsed_eq {aname : Il2CppAssemblyName} (h : ¬ aname.Readable) :
    unparsed aname = contentTypeText :=
  if_pos (by simpa [Il2CppAssemblyName.Readable] using h)

theorem reads_type {format : Il2CppTypeNameFormat}
    (hf : format = fullName ∨ format = assemblyQualified) {t : TypeShape} (ht : t.Valid)
    (hargs : t.arguments ≠ [] → ReadsArguments t.arguments) (byref : Bool) {n : ℕ}
    (hn : (getNameInternal format byref t).length < n) {tail : List Char} (htail : EndsName tail) :
    ReadsTo (parseInfo n true ⟨getNameInternal format byref t ++ tail, 0⟩) (t.Readable format)
      { t.info with modifiers := t.info.modifiers ++ if byref then [0] else [] } tail := by
  obtain ⟨c, k, hform⟩ := ht.namedForm
  obtain ⟨n, rfl⟩ : ∃ m, n = m + 1 := ⟨n - 1, by omega⟩
  have hends := endsModifiers_suffix format byref t.assembly htail
  have hX : EndsClass (argumentsText t.arguments ++ (modifiersText t.modifiers ++
      (byrefSuffix byref ++ (assemblySuffix format t.assembly ++ tail)))) := by
    unfold argumentsText
    split_ifs
    · exact modifiersText_endsClass _ hends.endsClass
    · simp [EndsClass]
  have htext : getNameInternal format byref t ++ tail = classNameText fullName c ++
      (argumentsText t.arguments ++ (modifiersText t.modifiers ++
        (byrefSuffix byref ++ (assemblySuffix format t.assembly ++ tail)))) := by
    simp [getNameInternal_eq hf byref ht, hform.text]
  obtain ⟨a, arity, p, hname, hnested, harity⟩ :=
    parse_className (show fullName ≠ il by decide) hform.valid hX
  have hn' : (argumentsText t.arguments).length ≤ n := by
    rw [getNameInternal_eq hf byref ht, hform.text] at hn
    simp only [List.length_append] at hn
    omega
  obtain ⟨hread, hnot⟩ := reads_arguments hform.arguments hargs hform.modifiers hends hform.arity
    harity hn'
  have hmods := parse_modifiers hform.modifiers hends
  have hbyref := parseByRef_printed format byref t.assembly htail
    (zero_notMem_modifierValues hform.modifiers)
  obtain ⟨asm, hasm⟩ := parseAssemblyNameOptional_printed format hform.assembly htail
  obtain ⟨d, ds, hd, hwhite⟩ := classNameText_head hform.valid
  have hskip : skipWhites ⟨getNameInternal format byref t ++ tail, 0⟩ =
      ⟨getNameInternal format byref t ++ tail, 0⟩ := by
    rw [htext, hd]
    exact skipWhites_of_noLeadingWhite (by simpa using hwhite)
  have heol : Cursor.isEOL ⟨getNameInternal format byref t ++ tail, 0⟩ = false := by
    rw [htext, hd]
    rfl
  rw [parseInfo]
  simp only [hskip, heol, Bool.false_eq_true, if_false]
  simp only [htext, hname, Outcome.done_bind, hnested]
  constructor
  · rintro ⟨hfirst, hargsReadable, hasmReadable⟩
    obtain ⟨infos, hdone, hinfos⟩ := hread (hform.readable.1 hargsReadable)
    rw [if_pos hfirst] at hmods
    simp only [hdone, Outcome.done_bind, hmods, hbyref, hasm, Outcome.pure_eq]
    have hnil : (if format = assemblyQualified then unparsed t.assembly else []) = [] := by
      split_ifs with hf
      · exact unparsed_eq_nil (hasmReadable hf)
      · rfl
    refine ⟨_, by rw [hnil, List.nil_append], ?_⟩
    simp [TypeNameParseInfo.withoutAssembly, hform.info, hinfos, ClassName.info]
  · intro h i q hq
    by_cases hargsReadable : t.ArgumentsReadable
    · obtain ⟨infos, hdone, hinfos⟩ := hread (hform.readable.1 hargsReadable)
      simp only [hdone, Outcome.done_bind] at hq
      by_cases hfirst : pointersFirst t.modifiers = true
      · rw [if_pos hfirst] at hmods
        simp only [Outcome.done_bind, hmods, hbyref, hasm, Outcome.pure_eq] at hq
        obtain ⟨-, rfl⟩ := Prod.mk.inj (Outcome.done.inj hq)
        have hasmReadable : ¬ (format = assemblyQualified → t.assembly.Readable) :=
          fun hr => h ⟨hfirst, hargsReadable, hr⟩
        rw [Classical.not_imp] at hasmReadable
        rw [if_pos hasmReadable.1, unparsed_eq hasmReadable.2]
        exact ⟨',', _, rfl, .inr rfl⟩
      · rw [if_neg hfirst] at hmods
        obtain ⟨values, rest, hmods⟩ := hmods
        have hbyref : parseByRefModifiersOptional values ⟨'*' :: rest, 0⟩ =
            .done (values, ⟨'*' :: rest, 0⟩) := rfl
        have hasm : parseAssemblyNameOptional true ⟨'*' :: rest, 0⟩ =
            .done ({}, ⟨'*' :: rest, 0⟩) := rfl
        simp only [hmods, hbyref, hasm, Outcome.done_bind, Outcome.pure_eq] at hq
        obtain ⟨-, rfl⟩ := Prod.mk.inj (Outcome.done.inj hq)
        exact ⟨'*', rest, rfl, .inl rfl⟩
    · obtain ⟨x, hx, -⟩ := Outcome.bind_eq_done_iff.1 hq
      exact absurd hx (hnot (fun hr => hargsReadable (hform.readable.2 hr)) x)

/-! ### Reading all arguments -/

theorem getNameInternal_head {format : Il2CppTypeNameFormat}
    (hf : format = fullName ∨ format = assemblyQualified) (byref : Bool) {t : TypeShape}
    (ht : t.Valid) : ∃ d ds, getNameInternal format byref t = d :: ds ∧ isWhite d = false := by
  obtain ⟨c, k, hform⟩ := ht.namedForm
  obtain ⟨d, ds, hd, hwhite⟩ := classNameText_head hform.valid
  rw [getNameInternal_eq hf byref ht, hform.text, hd]
  exact ⟨d, _, rfl, hwhite⟩

theorem genericArgumentsText_false {typeArgv : List (Bool × TypeShape)} (hne : typeArgv ≠ [])
    (hv : AllValid typeArgv) : genericArgumentsText assemblyQualified false typeArgv =
      ',' :: genericArgumentsText assemblyQualified true typeArgv := by
  obtain ⟨⟨byref, t⟩, typeArgv, rfl⟩ := List.exists_cons_of_ne_nil hne
  simp only [AllValid] at hv
  rw [genericArgumentsText_cons hv.1, genericArgumentsText_cons hv.1]
  rfl

theorem parseTypeArguments_argument {t : TypeShape} (ht : t.Valid) (byref : Bool) (n : ℕ)
    (infos : List TypeNameParseInfo) (tail : List Char) :
    parseTypeArguments (n + 1) infos
        ⟨'[' :: (getNameInternal assemblyQualified byref t ++ tail), 0⟩ = (do
      let (info, p) ← parseInfo n true ⟨getNameInternal assemblyQualified byref t ++ tail, 0⟩
      let p := p.skipWhites
      if p.isEOL then .reject
      else
        let p ← if p.currentIs ']' then advance p true else .reject
        if p.currentIs ']' then return (infos ++ [info], p)
        else if p.currentIs ',' then parseTypeArguments n (infos ++ [info]) (← advance p true)
        else .reject) := by
  obtain ⟨d, ds, hd, hwhite⟩ := getNameInternal_head (.inr rfl) byref ht
  rw [parseTypeArguments, hd]
  simp only [currentIs_cons, beq_self_eq_true, if_true, List.cons_append,
    advance_skip_cons hwhite, Outcome.done_bind]

theorem readsArguments_cons {t : TypeShape} (ht : t.Valid)
    (hargs : t.arguments ≠ [] → ReadsArguments t.arguments) (byref : Bool)
    {typeArgv : List (Bool × TypeShape)} (hv : AllValid typeArgv)
    (ih : typeArgv ≠ [] → ReadsArguments typeArgv) : ReadsArguments ((byref, t) :: typeArgv) := by
  intro n infos tail hn
  obtain ⟨n, rfl⟩ : ∃ m, n = m + 1 := ⟨n - 1, by omega⟩
  simp only [genericArgumentsText_cons ht, if_true, List.nil_append, List.length_cons,
    List.length_append, List.cons_append, List.append_assoc] at hn ⊢
  set next := genericArgumentsText assemblyQualified false typeArgv ++ ']' :: tail with hnext
  obtain ⟨hread, hnot⟩ := reads_type (.inr rfl) ht hargs byref (n := n) (by omega)
    (endsName_bracket next)
  rw [parseTypeArguments_argument ht]
  have hreadable : AllReadable ((byref, t) :: typeArgv) ↔
      t.Readable assemblyQualified ∧ AllReadable typeArgv := by
    simp only [AllReadable, TypeShape.Readable, true_imp_iff]
  by_cases hr : t.Readable assemblyQualified
  · obtain ⟨info, hdone, hinfo⟩ := hread hr
    have hbracket : NoLeadingWhite (']' :: next) := by simp [isWhite]
    simp only [hdone, Outcome.done_bind, skipWhites_of_noLeadingWhite hbracket, isEOL_cons,
      Bool.false_eq_true, if_false, currentIs_cons, beq_self_eq_true, if_true]
    by_cases hne : typeArgv = []
    · subst hne
      have hadv : advance ⟨']' :: next, 0⟩ true = .done ⟨']' :: tail, 0⟩ :=
        advance_skip_cons (by decide)
      simp only [hadv, Outcome.done_bind, currentIs_cons, beq_self_eq_true, if_true]
      refine ⟨fun _ => ⟨[info], rfl, ?_⟩, fun h => ?_⟩
      · simp [withoutAssemblies, argumentsInfo, hinfo]
      · exact absurd (hreadable.2 ⟨hr, by simp only [AllReadable]⟩) h
    · rw [genericArgumentsText_false hne hv, List.cons_append] at hnext
      simp only [genericArgumentsText_false hne hv, List.length_cons] at hn
      obtain ⟨hrest, hrestnot⟩ := ih hne n (infos ++ [info]) tail (by omega)
      have hadv : advance ⟨']' :: next, 0⟩ true = .done ⟨next, 0⟩ :=
        hnext ▸ advance_skip_cons (by decide)
      have hadv' : advance ⟨next, 0⟩ true =
          .done ⟨genericArgumentsText assemblyQualified true typeArgv ++ ']' :: tail, 0⟩ := by
        obtain ⟨⟨byref', t'⟩, typeArgv, rfl⟩ := List.exists_cons_of_ne_nil hne
        simp only [AllValid] at hv
        rw [hnext, genericArgumentsText_cons hv.1]
        exact advance_skip_cons (by decide)
      have hclose : Cursor.currentIs ⟨next, 0⟩ ']' = false := hnext ▸ rfl
      have hcomma : Cursor.currentIs ⟨next, 0⟩ ',' = true := hnext ▸ rfl
      simp only [hadv, Outcome.done_bind, hclose, Bool.false_eq_true, if_false, hcomma, if_true,
        hadv']
      refine ⟨fun h => ?_, fun h => hrestnot fun hall => h (hreadable.2 ⟨hr, hall⟩)⟩
      obtain ⟨more, hmore, hinfos⟩ := hrest (hreadable.1 h).2
      refine ⟨info :: more, by rw [hmore, List.append_assoc]; rfl, ?_⟩
      simp [withoutAssemblies, argumentsInfo, hinfo, hinfos]
  · refine ⟨fun h => absurd (hreadable.1 h).1 hr, fun _ x hx => ?_⟩
    obtain ⟨⟨info, p⟩, hdone, hrest⟩ := Outcome.bind_eq_done_iff.1 hx
    obtain ⟨c, rest, rfl, hc⟩ := hnot hr info p hdone
    have hwhite : isWhite c = false := by rcases hc with rfl | rfl <;> rfl
    have hbracket : (c == ']') = false := by rcases hc with rfl | rfl <;> rfl
    simp only [skipWhites_of_noLeadingWhite (noLeadingWhite_cons.2 hwhite), isEOL_cons,
      currentIs_cons, hbracket, Bool.false_eq_true, if_false] at hrest
    cases hrest

mutual

theorem TypeShape.Valid.readsArguments : (t : TypeShape) → t.Valid → t.arguments ≠ [] →
    ReadsArguments t.arguments
  | .ptr t, h => by
    simp only [TypeShape.Valid] at h
    exact TypeShape.Valid.readsArguments t h
  | .szarray t, h => by
    simp only [TypeShape.Valid] at h
    exact TypeShape.Valid.readsArguments t h
  | .array t rank, h => by
    simp only [TypeShape.Valid] at h
    exact TypeShape.Valid.readsArguments t h.1
  | .genericinst definition typeArgv, h => by
    simp only [TypeShape.Valid] at h
    exact AllValid.readsArguments typeArgv h.2.2.2
  | .klass _, _ => fun hne => absurd rfl hne
  | .var _, _ => fun hne => absurd rfl hne
  | .mvar _, _ => fun hne => absurd rfl hne

theorem AllValid.readsArguments : (typeArgv : List (Bool × TypeShape)) → AllValid typeArgv →
    typeArgv ≠ [] → ReadsArguments typeArgv
  | [], _ => fun hne => absurd rfl hne
  | (byref, t) :: typeArgv, h => fun _ => by
    simp only [AllValid] at h
    exact readsArguments_cons h.1 (TypeShape.Valid.readsArguments t h.1) byref h.2
      (AllValid.readsArguments typeArgv h.2)

end

/-! ### The round trip -/

/-- The parser consumes the whole name of a type and reads what the type is. -/
def RoundTrips (type : RuntimeType) (format : Il2CppTypeNameFormat) : Prop :=
  ∃ info, parse (getName type format) = .done info ∧ info.withoutAssembly = type.info

/-- **A type name survives the round trip exactly if** the parser can read it: no pointer stands
behind an array, and no printed assembly is both retargetable and named `WindowsRuntimeMetadata`. -/
theorem roundTrips_iff_readable (type : RuntimeType) (format : Il2CppTypeNameFormat)
    (hf : format = fullName ∨ format = assemblyQualified) (hv : type.shape.Valid) :
    RoundTrips type format ↔ type.shape.Readable format := by
  obtain ⟨hread, hnot⟩ := reads_type hf hv (hv.readsArguments type.shape) type.byref
    (n := (getName type format).length + 1) (Nat.lt_succ_self _) endsName_nil
  simp only [List.append_nil] at hread hnot
  constructor
  · rintro ⟨info, hparse, -⟩
    by_contra hr
    obtain ⟨⟨i, p⟩, hdone, hrest⟩ := Outcome.bind_eq_done_iff.1 hparse
    obtain ⟨c, rest, rfl, -⟩ := hnot hr i p hdone
    simp at hrest
  · intro hr
    obtain ⟨info, hdone, hinfo⟩ := hread hr
    refine ⟨info, ?_, hinfo⟩
    rw [getName] at hdone
    rw [parse, getName, hdone]
    rfl

theorem stringShape_valid : stringShape.Valid := by
  have hname : (ClassName.topLevel ⟨"System".toList, by decide⟩ ⟨"String".toList, by decide⟩).Valid 0 :=
    .topLevel (by decide) (by decide) (.plain (by decide))
  simp only [stringShape, TypeShape.Valid]
  exact ⟨⟨0, hname⟩, by decide, by simp⟩

theorem roundTrips_string_pointer_array :
    RoundTrips ⟨true, .array (.ptr stringShape) 2⟩ fullName :=
  (roundTrips_iff_readable ⟨true, .array (.ptr stringShape) 2⟩ fullName (.inl rfl)
    (by simpa only [TypeShape.Valid] using ⟨stringShape_valid, by decide⟩)).2
    ⟨rfl, by simp only [TypeShape.ArgumentsReadable, stringShape], nofun⟩

/-- A pointer to an array is printed `System.String[]*`, which the parser rejects. -/
theorem pointer_to_array_rejected :
    (TypeShape.ptr (.szarray stringShape)).Valid ∧
      ¬ RoundTrips ⟨false, .ptr (.szarray stringShape)⟩ fullName := by
  refine ⟨by simpa only [TypeShape.Valid] using stringShape_valid, ?_⟩
  rintro ⟨info, hparse, -⟩
  have hreject : parse (getName ⟨false, .ptr (.szarray stringShape)⟩ fullName) = .reject := rfl
  rw [hreject] at hparse
  cases hparse

end Il2Cpp
