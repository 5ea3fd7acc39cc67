import Il2Cpp.WindowsRuntime.Reading

/-!
# Reading type names inside of their bounds

`GetClassFromMetadataTypeName` and `GetGenericInstanceClassFromMetadataTypeName` with every access
checked: a character of a name that is behind its end is not read, and no argument is stored behind
the array that was allocated for the declared number of arguments.

* `checkedMetadataTypeName` : the parser, which stops at the first access that is out of bounds.
* `eq_of_checked` : where it does not stop it finds what the unchecked parser finds.
* `Reached` : the names that the parser gets to, and `Fine` : what it needs of each of them.
* `inBounds_iff` : the names for which all accesses are in bounds.
-/

namespace Il2Cpp

namespace WindowsRuntime

variable {H P : Type}

/-- An access out of bounds. -/
inductive Fault
  | read | store
  deriving DecidableEq

/-- `StringView::operator[]`. -/
def charAt (typeName : List Char) (index : ℕ) : Except Fault Char :=
  match typeName[index]? with
  | some c => .ok c
  | none => .error .read

namespace Metadata

variable (md : Metadata H P)

/-! ### The checked parser -/

section Checked

-- `GetClassFromMetadataTypeName` on the parts of the name
variable (read : List Char → Except Fault (Option (Il2CppType H P)))

/-- `GetClassFromPrimitiveOrMetadataTypeName`. -/
def checkedPart (typeName : List Char) : Except Fault (Option (Il2CppType H P)) :=
  match md.classFromPrimitiveTypeName typeName with
  | some klass => .ok klass
  | none => read typeName

/-- The name of the elements of an array, or of a boxed value. -/
def referencedName (typeName : List Char) : Option (List Char) :=
  if startsWith typeName kArrayTypeOrIReferencePrefix then
    let rest := typeName.drop kArrayTypeOrIReferencePrefix.length
    if startsWith rest kArrayTypePostprefix then
      some ((typeName.drop kArrayTypePrefix.length).take
        (typeName.length - (kArrayTypePrefix.length + 1)))
    else if startsWith rest kIReferencePostprefix then
      some ((typeName.drop kIReferencePrefix.length).take
        (typeName.length - (kIReferencePrefix.length + 1)))
    else none
  else none

/-- The class that refers to such elements or to such a value. -/
def referenceClass (typeName : List Char) (klass : Il2CppType H P) : Il2CppType H P :=
  if startsWith (typeName.drop kArrayTypeOrIReferencePrefix.length) kArrayTypePostprefix then
    .szarray false klass
  else .genericinst false (.valuetype false md.genericNullableClass) (some [klass])

/-- The class of an array or of a boxed value. -/
def checkedReferenceName (typeName : List Char) : Except Fault (Option (Il2CppType H P)) :=
  match referencedName typeName with
  | none => .ok none
  | some partName =>
    match md.checkedPart read partName with
    | .error fault => .error fault
    | .ok klass => .ok (klass.map (md.referenceClass typeName))

/-- Where the arguments of a generic instance begin, and how many are declared. -/
def genericHeader (typeName : List Char) : Option (ℕ × ℤ) := do
  let backtickIndex ← find typeName '\x60' 0
  let genericArgumentStartIndex ← find typeName '<' (backtickIndex + 1)
  let genericArgumentCountStr :=
    (typeName.drop (backtickIndex + 1)).take (genericArgumentStartIndex - backtickIndex - 1)
  let genericArgumentCount ←
    (StringView.tryParseAsInt (genericArgumentCountStr.map fun c => (c.toNat : ℤ))).value
  guard (1 ≤ genericArgumentCount)
  return (genericArgumentStartIndex, genericArgumentCount)

/-- The loop over the arguments: the characters that are left, the `genericArgumentsPtr`, the
`genericDepth`, the `currentGenericArgumentStart` and the `genericArguments`. -/
def argumentLoop (typeName : List Char) (genericArgumentCount : ℤ) :
    ℕ → ℕ → ℤ → ℕ → List (Il2CppType H P) → Except Fault (Option (List (Il2CppType H P)))
  | 0, _, _, _, genericArguments => .ok genericArguments
  | left + 1, ptr, genericDepth, start, genericArguments =>
    match charAt typeName ptr with
    | .error fault => .error fault
    | .ok currentChar =>
      if currentChar = '<' then
        argumentLoop typeName genericArgumentCount left (ptr + 1) (genericDepth + 1) start
          genericArguments
      else if currentChar = '>' ∧ left ≠ 0 then
        argumentLoop typeName genericArgumentCount left (ptr + 1) (genericDepth - 1) start
          genericArguments
      else if (currentChar = '>' ∨ currentChar = ',') ∧ genericDepth = 0 then
        match md.checkedPart read ((typeName.drop start).take (ptr - start)) with
        | .error fault => .error fault
        | .ok none => .ok none
        | .ok (some genericArgumentClass) =>
          if genericArguments.length < genericArgumentCount then
            argumentLoop typeName genericArgumentCount left (ptr + 1) genericDepth (ptr + 1)
              (genericArguments ++ [genericArgumentClass])
          else .error .store
      else
        argumentLoop typeName genericArgumentCount left (ptr + 1) genericDepth start
          genericArguments

/-- `GetGenericInstanceClassFromMetadataTypeName`. -/
def checkedGenericInstance (typeName : List Char) : Except Fault (Option (Il2CppType H P)) :=
  match genericHeader typeName with
  | none => .ok none
  | some (start, genericArgumentCount) =>
    match read (typeName.take start) with
    | .error fault => .error fault
    | .ok none => .ok none
    | .ok (some classDefinition) =>
      if md.isGeneric classDefinition then
        match md.argumentLoop read typeName genericArgumentCount
            (typeName.length - (start + 1)) (start + 1) 0 (start + 1) [] with
        | .error fault => .error fault
        | .ok none => .ok none
        | .ok (some genericArguments) =>
          if (genericArguments.length : ℤ) = genericArgumentCount then
            .ok (some (.genericinst false classDefinition (some genericArguments)))
          else .ok none
      else .ok none

end Checked

/-- `GetClassFromMetadataTypeName` without the exceptions. -/
def checkedMetadataTypeName : ℕ → List Char → Except Fault (Option (Il2CppType H P))
  | 0, _ => .ok none
  | fuel + 1, typeName =>
    match charAt typeName (typeName.length - 1) with
    | .error fault => .error fault
    | .ok lastChar =>
      if lastChar = '>' then
        match md.checkedReferenceName (checkedMetadataTypeName fuel) typeName with
        | .error fault => .error fault
        | .ok (some klass) => .ok (some klass)
        | .ok none =>
          match md.checkedGenericInstance (checkedMetadataTypeName fuel) typeName with
          | .error fault => .error fault
          | .ok (some klass) => .ok (some klass)
          | .ok none => .ok (md.classFromFullName typeName)
      else .ok (md.classFromFullName typeName)

/-! ### The unchecked parser in the same steps -/

variable {md} {unchecked : List Char → Option (Il2CppType H P)}
  {read : List Char → Except Fault (Option (Il2CppType H P))} {n m : List Char}
  {result : Option (Il2CppType H P)} {fuel : ℕ}

theorem classFromReferenceName_eq : md.classFromReferenceName unchecked n =
    (referencedName n).bind fun partName =>
      (md.classFromPartName unchecked partName).map (md.referenceClass n) := by
  rw [classFromReferenceName, referencedName]
  unfold referenceClass
  dsimp only
  split_ifs <;> rfl

theorem genericInstanceClass_eq : md.genericInstanceClass unchecked n =
    (genericHeader n).bind fun (start, count) =>
      (unchecked (n.take start)).bind fun classDefinition =>
        if md.isGeneric classDefinition then
          ((splitArguments 0 [] (n.drop (start + 1))).mapM (md.classFromPartName unchecked)).bind
            fun genericArguments =>
              if (genericArguments.length : ℤ) = count then
                some (.genericinst false classDefinition (some genericArguments))
              else none
        else none := by
  rw [genericInstanceClass, genericHeader]
  simp only [Option.bind_eq_bind, Option.bind_assoc]
  refine Option.bind_congr fun i _ => Option.bind_congr fun start _ =>
    Option.bind_congr fun count _ => Option.bind_congr fun _ _ => ?_
  change _ = (unchecked (n.take start)).bind _
  refine Option.bind_congr fun classDefinition _ => ?_
  by_cases hgeneric : md.isGeneric classDefinition = true
  · rw [if_pos hgeneric, guard, if_pos hgeneric]
    change ((splitArguments 0 [] (n.drop (start + 1))).mapM (md.classFromPartName unchecked)).bind
      _ = ((splitArguments 0 [] (n.drop (start + 1))).mapM (md.classFromPartName unchecked)).bind _
    refine Option.bind_congr fun genericArguments _ => ?_
    by_cases hcount : (genericArguments.length : ℤ) = count
    · rw [guard, if_pos hcount, if_pos hcount]
      rfl
    · rw [guard, if_neg hcount, if_neg hcount]
      rfl
  · rw [if_neg hgeneric, guard, if_neg hgeneric]
    rfl

variable (md) in
theorem classFromMetadataTypeName_eq (n : List Char) : md.classFromMetadataTypeName n =
    (if n.getLast? = some '>' then
      (md.classFromReferenceName md.classFromMetadataTypeName n).or
        (md.genericInstanceClass md.classFromMetadataTypeName n)
    else none).or (md.classFromFullName n) := by
  have hparts (m : List Char) (hm : m.length < n.length) :
      md.readMetadataTypeName n.length m = md.classFromMetadataTypeName m :=
    md.readMetadataTypeName_eq hm (Nat.lt_succ_self _)
  by_cases hlast : n.getLast? = some '>'
  · have hne : n ≠ [] := by
      rintro rfl
      cases hlast
    rw [classFromMetadataTypeName, readMetadataTypeName,
      md.classFromReferenceName_congr hne hparts, md.genericInstanceClass_congr hparts]
  · rw [classFromMetadataTypeName, md.readMetadataTypeName_of_getLast?_ne hlast, if_neg hlast]
    rfl

/-! ### What a run of the checked parser says -/

/-- The run has no access out of bounds. -/
def Succeeds {α : Type} (c : Except Fault α) : Prop := ∃ a, c = .ok a

@[simp] theorem succeeds_ok {α : Type} (a : α) : Succeeds (.ok a : Except Fault α) := ⟨a, rfl⟩

@[simp] theorem not_succeeds_error {α : Type} (fault : Fault) :
    ¬Succeeds (.error fault : Except Fault α) :=
  fun ⟨_, h⟩ => nomatch h

variable (md) in
/-- The class that a part of a name names. -/
def resolve (partName : List Char) : Option (Il2CppType H P) :=
  md.classFromPartName md.classFromMetadataTypeName partName

variable (md) in
/-- On a name, the checked parser finds what the unchecked one finds. -/
def Agrees (read : List Char → Except Fault (Option (Il2CppType H P))) (n : List Char) : Prop :=
  ∀ result, read n = .ok result → result = md.classFromMetadataTypeName n

theorem eq_of_checkedPart (hread : md.Agrees read n) (h : md.checkedPart read n = .ok result) :
    result = md.resolve n := by
  rw [checkedPart] at h
  rw [resolve, classFromPartName]
  cases hprimitive : md.classFromPrimitiveTypeName n with
  | some klass =>
    rw [hprimitive] at h
    exact (Except.ok.inj h).symm
  | none =>
    rw [hprimitive] at h
    exact hread result h

theorem succeeds_checkedPart_iff : Succeeds (md.checkedPart read n) ↔
    (md.classFromPrimitiveTypeName n = none → Succeeds (read n)) := by
  rw [checkedPart]
  cases hprimitive : md.classFromPrimitiveTypeName n with
  | some klass => simp
  | none => simp

/-! ### The arguments -/

variable {parts : List (List Char)} {count : ℤ} {genericArguments : List (Il2CppType H P)}

variable (md read) in
/-- The arguments are stored one after the other. -/
def storeAll (count : ℤ) : List (Il2CppType H P) → List (List Char) →
    Except Fault (Option (List (Il2CppType H P)))
  | genericArguments, [] => .ok genericArguments
  | genericArguments, part :: parts =>
    match md.checkedPart read part with
    | .error fault => .error fault
    | .ok none => .ok none
    | .ok (some klass) =>
      if genericArguments.length < count then
        storeAll count (genericArguments ++ [klass]) parts
      else .error .store

theorem argumentLoop_eq {left ptr start : ℕ} {genericDepth : ℤ} (hleft : left = n.length - ptr)
    (hstart : start ≤ ptr) :
    md.argumentLoop read n count left ptr genericDepth start genericArguments =
      md.storeAll read count genericArguments
        (splitArguments genericDepth ((n.drop start).take (ptr - start)) (n.drop ptr)) := by
  induction left generalizing ptr genericDepth start genericArguments with
  | zero =>
    rw [List.drop_eq_nil_of_le (by omega : n.length ≤ ptr)]
    rfl
  | succ left ih =>
    have hptr : ptr < n.length := by omega
    have hchar : charAt n ptr = .ok n[ptr] := by
      rw [charAt, List.getElem?_eq_getElem hptr]
    have hrest : n.drop (ptr + 1) ≠ [] ↔ left ≠ 0 := by
      rw [ne_eq, List.drop_eq_nil_iff]
      omega
    have hargument : (n.drop start).take (ptr - start) ++ [n[ptr]] =
        (n.drop start).take (ptr + 1 - start) := by
      have hplace : ptr - start < (n.drop start).length := by
        rw [List.length_drop]
        omega
      have hchar : (n.drop start)[ptr - start] = n[ptr] := by
        rw [List.getElem_drop]
        congr 1
        omega
      rw [Nat.sub_add_comm hstart, List.take_succ_eq_append_getElem hplace, hchar]
    have hempty : (n.drop (ptr + 1)).take (ptr + 1 - (ptr + 1)) = [] := by
      rw [Nat.sub_self, List.take_zero]
    rw [argumentLoop, hchar, List.drop_eq_getElem_cons hptr, splitArguments]
    dsimp only
    simp only [hrest, hargument]
    by_cases hopen : n[ptr] = '<'
    · rw [if_pos hopen, if_pos hopen]
      exact ih (by omega) (by omega)
    rw [if_neg hopen, if_neg hopen]
    by_cases hclose : n[ptr] = '>' ∧ left ≠ 0
    · rw [if_pos hclose, if_pos hclose]
      exact ih (by omega) (by omega)
    rw [if_neg hclose, if_neg hclose]
    by_cases hcut : (n[ptr] = '>' ∨ n[ptr] = ',') ∧ genericDepth = 0
    · rw [if_pos hcut, if_pos hcut, storeAll]
      cases md.checkedPart read ((n.drop start).take (ptr - start)) with
      | error fault => rfl
      | ok klass =>
        cases klass with
        | none => rfl
        | some klass =>
          dsimp only
          rw [ih (by omega) (Nat.le_refl (ptr + 1)), hempty]
    · rw [if_neg hcut, if_neg hcut]
      exact ih (by omega) (by omega)

theorem eq_of_storeAll (hread : ∀ m ∈ parts, md.Agrees read m)
    {result : Option (List (Il2CppType H P))}
    (h : md.storeAll read count genericArguments parts = .ok result) :
    result = (parts.mapM md.resolve).map (genericArguments ++ ·) := by
  induction parts generalizing genericArguments with
  | nil =>
    rw [← Except.ok.inj h, List.mapM_nil]
    simp
  | cons part parts ih =>
    rw [List.forall_mem_cons] at hread
    rw [storeAll] at h
    rw [List.mapM_cons]
    cases hpart : md.checkedPart read part with
    | error fault =>
      rw [hpart] at h
      cases h
    | ok klass =>
      rw [hpart] at h
      rw [← eq_of_checkedPart hread.1 hpart]
      cases klass with
      | none => exact (Except.ok.inj h).symm
      | some klass =>
        dsimp only at h
        split_ifs at h
        rw [ih hread.2 h]
        cases parts.mapM md.resolve with
        | none => rfl
        | some rest => simp

theorem succeeds_storeAll_iff (hread : ∀ m ∈ parts, md.Agrees read m) :
    Succeeds (md.storeAll read count genericArguments parts) ↔
      ∀ before part after, parts = before ++ part :: after →
        (∀ m ∈ before, (md.resolve m).isSome) → Succeeds (md.checkedPart read part) ∧
          ((md.resolve part).isSome → (genericArguments.length + before.length : ℤ) < count) := by
  induction parts generalizing genericArguments with
  | nil =>
    refine iff_of_true (succeeds_ok _) fun before part after h => ?_
    exact absurd h.symm (List.append_ne_nil_of_right_ne_nil _ (List.cons_ne_nil _ _))
  | cons part parts ih =>
    rw [List.forall_mem_cons] at hread
    rw [storeAll]
    cases hpart : md.checkedPart read part with
    | error fault =>
      refine iff_of_false (not_succeeds_error fault) fun h => ?_
      have hfirst := (h [] part parts rfl fun m hm => absurd hm List.not_mem_nil).1
      rw [hpart] at hfirst
      exact not_succeeds_error fault hfirst
    | ok klass =>
      have hklass := eq_of_checkedPart hread.1 hpart
      have hsucceeds : Succeeds (md.checkedPart read part) := ⟨klass, hpart⟩
      cases klass with
      | none =>
        refine iff_of_true (succeeds_ok _) fun before part' after h hbefore => ?_
        cases before with
        | nil =>
          obtain ⟨rfl, rfl⟩ := List.cons.inj h
          exact ⟨hsucceeds, fun hsome => absurd hsome (by simp [← hklass])⟩
        | cons first before =>
          obtain ⟨rfl, -⟩ := List.cons.inj h
          exact absurd (hbefore part List.mem_cons_self) (by simp [← hklass])
      | some klass =>
        have hsome : (md.resolve part).isSome := by simp [← hklass]
        dsimp only
        split_ifs with hroom
        · rw [ih hread.2, List.length_append, List.length_singleton]
          constructor
          · intro h before part' after hparts hbefore
            cases before with
            | nil =>
              obtain ⟨rfl, rfl⟩ := List.cons.inj hparts
              exact ⟨hsucceeds, fun _ => by simpa using hroom⟩
            | cons first before =>
              obtain ⟨rfl, hrest⟩ := List.cons.inj hparts
              obtain ⟨hread', hroom'⟩ :=
                h before part' after hrest fun m hm => hbefore m (List.mem_cons_of_mem _ hm)
              refine ⟨hread', fun hresolves => ?_⟩
              have hlt := hroom' hresolves
              rw [List.length_cons]
              omega
          · intro h before part' after hparts hbefore
            obtain ⟨hread', hroom'⟩ := h (part :: before) part' after (by rw [hparts]; rfl)
              (List.forall_mem_cons.2 ⟨hsome, hbefore⟩)
            refine ⟨hread', fun hresolves => ?_⟩
            have hlt := hroom' hresolves
            rw [List.length_cons] at hlt
            omega
        · refine iff_of_false (not_succeeds_error _) fun h => hroom ?_
          have hfirst := (h [] part parts rfl fun m hm => absurd hm List.not_mem_nil).2 hsome
          simpa using hfirst

/-! ### Agreement -/

variable {partName : List Char} {start : ℕ} {klass classDefinition : Il2CppType H P}

theorem length_referencedName (hne : n ≠ []) (h : referencedName n = some partName) :
    partName.length < n.length := by
  have hpos := List.length_pos_of_ne_nil hne
  have hpart (k : ℕ) : ((n.drop k).take (n.length - (k + 1))).length < n.length := by
    rw [List.length_take]
    omega
  rw [referencedName] at h
  dsimp only at h
  split_ifs at h
  · exact Option.some.inj h ▸ hpart _
  · exact Option.some.inj h ▸ hpart _

theorem start_lt (h : genericHeader n = some (start, count)) : start < n.length := by
  simp only [genericHeader, Option.bind_eq_bind] at h
  obtain ⟨i, -, h⟩ := Option.bind_eq_some_iff.1 h
  obtain ⟨j, hj, h⟩ := Option.bind_eq_some_iff.1 h
  obtain ⟨c, -, h⟩ := Option.bind_eq_some_iff.1 h
  obtain ⟨_, -, h⟩ := Option.bind_eq_some_iff.1 h
  cases h
  exact find_lt hj

theorem length_argument (h : genericHeader n = some (start, count))
    (hm : m ∈ splitArguments 0 [] (n.drop (start + 1))) : m.length < n.length := by
  have hlt := start_lt h
  have hle := length_le_of_mem_splitArguments hm
  rw [List.length_nil, List.length_drop] at hle
  omega

theorem eq_of_checkedReferenceName (hread : ∀ m, m.length < n.length → md.Agrees read m)
    (hne : n ≠ []) (h : md.checkedReferenceName read n = .ok result) :
    result = md.classFromReferenceName md.classFromMetadataTypeName n := by
  rw [checkedReferenceName] at h
  rw [classFromReferenceName_eq]
  cases hpart : referencedName n with
  | none =>
    rw [hpart] at h
    exact (Except.ok.inj h).symm
  | some partName =>
    rw [hpart] at h
    dsimp only at h
    cases hchecked : md.checkedPart read partName with
    | error fault =>
      rw [hchecked] at h
      cases h
    | ok klass =>
      rw [hchecked] at h
      have hklass := eq_of_checkedPart (hread _ (length_referencedName hne hpart)) hchecked
      rw [Option.bind_some, ← resolve, ← hklass]
      exact (Except.ok.inj h).symm

theorem eq_of_checkedGenericInstance (hread : ∀ m, m.length < n.length → md.Agrees read m)
    (h : md.checkedGenericInstance read n = .ok result) :
    result = md.genericInstanceClass md.classFromMetadataTypeName n := by
  rw [checkedGenericInstance] at h
  rw [genericInstanceClass_eq]
  cases hheader : genericHeader n with
  | none =>
    rw [hheader] at h
    exact (Except.ok.inj h).symm
  | some header =>
    obtain ⟨start, count⟩ := header
    rw [hheader] at h
    dsimp only at h
    rw [Option.bind_some]
    dsimp only
    cases hdefinition : read (n.take start) with
    | error fault =>
      rw [hdefinition] at h
      cases h
    | ok classDefinition =>
      rw [hdefinition] at h
      have hlt := start_lt hheader
      rw [← hread _ (by rw [List.length_take]; omega) _ hdefinition]
      cases classDefinition with
      | none => exact (Except.ok.inj h).symm
      | some classDefinition =>
        dsimp only at h
        rw [Option.bind_some]
        split_ifs at h ⊢ with hgeneric
        · rw [argumentLoop_eq rfl (Nat.le_refl _), Nat.sub_self, List.take_zero] at h
          cases hstore : md.storeAll read count [] (splitArguments 0 [] (n.drop (start + 1))) with
          | error fault =>
            rw [hstore] at h
            cases h
          | ok genericArguments =>
            rw [hstore] at h
            have harguments := eq_of_storeAll (fun m hm => hread m (length_argument hheader hm))
              hstore
            simp only [List.nil_append, Option.map_id'] at harguments
            change result = ((splitArguments 0 [] (n.drop (start + 1))).mapM md.resolve).bind _
            rw [← harguments]
            cases genericArguments with
            | none => exact (Except.ok.inj h).symm
            | some genericArguments =>
              dsimp only at h
              rw [Option.bind_some]
              split_ifs at h ⊢
              · exact (Except.ok.inj h).symm
              · exact (Except.ok.inj h).symm
        · exact (Except.ok.inj h).symm

theorem charAt_last (n : List Char) : charAt n (n.length - 1) =
    match n.getLast? with
    | some c => .ok c
    | none => .error .read := by
  rw [charAt, List.getLast?_eq_getElem?]

/-- A run without an access out of bounds finds what the unchecked parser finds. -/
theorem eq_of_checked (hfuel : n.length < fuel)
    (h : md.checkedMetadataTypeName fuel n = .ok result) :
    result = md.classFromMetadataTypeName n := by
  induction fuel generalizing n result with
  | zero => exact absurd hfuel (Nat.not_lt_zero _)
  | succ fuel ih =>
    have hread (m : List Char) (hm : m.length < n.length) :
        md.Agrees (md.checkedMetadataTypeName fuel) m :=
      fun result hresult => ih (by omega) hresult
    rw [checkedMetadataTypeName, charAt_last] at h
    rw [classFromMetadataTypeName_eq]
    cases hlast : n.getLast? with
    | none =>
      rw [hlast] at h
      cases h
    | some lastChar =>
      have hne : n ≠ [] := by
        rintro rfl
        cases hlast
      rw [hlast] at h
      dsimp only at h
      split_ifs at h with hclose
      · rw [if_pos (congrArg some hclose)]
        cases hreference : md.checkedReferenceName (md.checkedMetadataTypeName fuel) n with
        | error fault =>
          rw [hreference] at h
          cases h
        | ok reference =>
          rw [hreference] at h
          rw [← eq_of_checkedReferenceName hread hne hreference]
          cases reference with
          | some klass => exact (Except.ok.inj h).symm
          | none =>
            dsimp only at h
            cases hgeneric : md.checkedGenericInstance (md.checkedMetadataTypeName fuel) n with
            | error fault =>
              rw [hgeneric] at h
              cases h
            | ok instance_ =>
              rw [hgeneric] at h
              rw [← eq_of_checkedGenericInstance hread hgeneric]
              cases instance_ with
              | some klass => exact (Except.ok.inj h).symm
              | none => exact (Except.ok.inj h).symm
      · rw [if_neg fun hsome => hclose (Option.some.inj hsome)]
        exact (Except.ok.inj h).symm

/-! ### The names that are reached -/

variable (md) in
/-- A name is tried as a generic instance with its arguments from `start + 1` on. -/
def TriesInstance (n : List Char) (start : ℕ) (count : ℤ) : Prop :=
  n.getLast? = some '>' ∧ md.classFromReferenceName md.classFromMetadataTypeName n = none ∧
    genericHeader n = some (start, count)

variable (md) in
/-- A name is tried as an instance of a generic class, and all arguments before one resolve. -/
def TriesArgument (n : List Char) (count : ℤ) (before : List (List Char)) (part : List Char) :
    Prop :=
  ∃ start classDefinition after, md.TriesInstance n start count ∧
    md.classFromMetadataTypeName (n.take start) = some classDefinition ∧
    md.isGeneric classDefinition = true ∧
    splitArguments 0 [] (n.drop (start + 1)) = before ++ part :: after ∧
    ∀ m ∈ before, (md.resolve m).isSome

variable (md) in
/-- The parser is entered with a part when it reads a name: a part that is not the name of a
primitive type, and the name of a generic definition. -/
inductive Reached : List Char → List Char → Prop
  | self (n : List Char) : Reached n n
  | reference {n partName p} : n.getLast? = some '>' → referencedName n = some partName →
      md.classFromPrimitiveTypeName partName = none → Reached partName p → Reached n p
  | definition {n start count p} : md.TriesInstance n start count → Reached (n.take start) p →
      Reached n p
  | argument {n count before part p} : md.TriesArgument n count before part →
      md.classFromPrimitiveTypeName part = none → Reached part p → Reached n p

variable (md) in
/-- There is a character to look at, and every argument that resolves has room. -/
def Fine (n : List Char) : Prop :=
  n ≠ [] ∧ ∀ count before part, md.TriesArgument n count before part → (md.resolve part).isSome →
    (before.length : ℤ) < count

theorem succeeds_checkedReferenceName_iff : Succeeds (md.checkedReferenceName read n) ↔
    ∀ partName, referencedName n = some partName →
      md.classFromPrimitiveTypeName partName = none → Succeeds (read partName) := by
  rw [checkedReferenceName]
  cases hpart : referencedName n with
  | none => exact iff_of_true (succeeds_ok _) fun partName h => nomatch h
  | some partName =>
    have hsucceeds : Succeeds (md.checkedPart read partName) ↔ _ := succeeds_checkedPart_iff
    dsimp only
    cases hchecked : md.checkedPart read partName with
    | error fault =>
      rw [hchecked] at hsucceeds
      refine iff_of_false (not_succeeds_error fault) fun h => ?_
      exact not_succeeds_error fault (hsucceeds.2 (h partName rfl))
    | ok klass =>
      rw [hchecked] at hsucceeds
      refine iff_of_true (succeeds_ok _) fun partName' h => ?_
      rw [← Option.some.inj h]
      exact hsucceeds.1 (succeeds_ok klass)

theorem succeeds_checkedGenericInstance_iff
    (hread : ∀ m, m.length < n.length → md.Agrees read m) (hlast : n.getLast? = some '>')
    (hreference : md.classFromReferenceName md.classFromMetadataTypeName n = none) :
    Succeeds (md.checkedGenericInstance read n) ↔
      (∀ start count, md.TriesInstance n start count → Succeeds (read (n.take start))) ∧
      ∀ count before part, md.TriesArgument n count before part →
        Succeeds (md.checkedPart read part) ∧
          ((md.resolve part).isSome → (before.length : ℤ) < count) := by
  rw [checkedGenericInstance]
  cases hheader : genericHeader n with
  | none =>
    refine iff_of_true (succeeds_ok _) ⟨fun start count h => ?_, fun count before part h => ?_⟩
    · exact nomatch hheader.symm.trans h.2.2
    · obtain ⟨start, classDefinition, after, h, -⟩ := h
      exact nomatch hheader.symm.trans h.2.2
  | some header =>
    obtain ⟨start, count⟩ := header
    have htries : md.TriesInstance n start count := ⟨hlast, hreference, hheader⟩
    have hunique {start' : ℕ} {count' : ℤ} (h : md.TriesInstance n start' count') :
        start' = start ∧ count' = count := by
      have heq := Option.some.inj (h.2.2.symm.trans hheader)
      exact ⟨congrArg Prod.fst heq, congrArg Prod.snd heq⟩
    have hlt := start_lt hheader
    have hagrees := hread (n.take start) (by rw [List.length_take]; omega)
    dsimp only
    cases hdefinition : read (n.take start) with
    | error fault =>
      refine iff_of_false (not_succeeds_error fault) fun h => ?_
      have hsucceeds := h.1 start count htries
      rw [hdefinition] at hsucceeds
      exact not_succeeds_error fault hsucceeds
    | ok classDefinition =>
      have hclass := hagrees classDefinition hdefinition
      have hdefinitions : ∀ start' count', md.TriesInstance n start' count' →
          Succeeds (read (n.take start')) := by
        intro start' count' h
        rw [(hunique h).1, hdefinition]
        exact succeeds_ok classDefinition
      refine Iff.trans ?_ (and_iff_right hdefinitions).symm
      cases classDefinition with
      | none =>
        refine iff_of_true (succeeds_ok _) fun count' before part h => ?_
        obtain ⟨start', classDefinition, after, htries', hclass', -⟩ := h
        rw [(hunique htries').1, ← hclass] at hclass'
        exact nomatch hclass'
      | some classDefinition =>
        dsimp only
        by_cases hgeneric : md.isGeneric classDefinition = true
        · have hstored : Succeeds (md.storeAll read count []
              (splitArguments 0 [] (n.drop (start + 1)))) ↔ _ :=
            succeeds_storeAll_iff fun m hm => hread m (length_argument hheader hm)
          rw [if_pos hgeneric, argumentLoop_eq rfl (Nat.le_refl _), Nat.sub_self, List.take_zero]
          refine Iff.trans ?_ (hstored.trans ?_)
          · cases md.storeAll read count [] (splitArguments 0 [] (n.drop (start + 1))) with
            | error fault =>
              exact iff_of_false (not_succeeds_error fault) (not_succeeds_error fault)
            | ok genericArguments =>
              refine iff_of_true ?_ (succeeds_ok _)
              cases genericArguments with
              | none => exact succeeds_ok _
              | some genericArguments =>
                dsimp only
                split_ifs
                · exact succeeds_ok _
                · exact succeeds_ok _
          · constructor
            · rintro h count' before part
                ⟨start', classDefinition', after, htries', -, -, hparts, hbefore⟩
              obtain ⟨rfl, rfl⟩ := hunique htries'
              simpa using h before part after hparts hbefore
            · intro h before part after hparts hbefore
              simpa using h count before part
                ⟨start, classDefinition, after, htries, hclass.symm, hgeneric, hparts, hbefore⟩
        · rw [if_neg hgeneric]
          refine iff_of_true (succeeds_ok _) fun count' before part h => ?_
          obtain ⟨start', classDefinition', after, htries', hclass', hgeneric', -⟩ := h
          rw [(hunique htries').1, ← hclass] at hclass'
          exact absurd (Option.some.inj hclass' ▸ hgeneric') hgeneric

theorem succeeds_checked_succ_iff (hfuel : n.length ≤ fuel) :
    Succeeds (md.checkedMetadataTypeName (fuel + 1) n) ↔ md.Fine n ∧
      (∀ partName, n.getLast? = some '>' → referencedName n = some partName →
        md.classFromPrimitiveTypeName partName = none →
          Succeeds (md.checkedMetadataTypeName fuel partName)) ∧
      (∀ start count, md.TriesInstance n start count →
        Succeeds (md.checkedMetadataTypeName fuel (n.take start))) ∧
      ∀ count before part, md.TriesArgument n count before part →
        md.classFromPrimitiveTypeName part = none →
          Succeeds (md.checkedMetadataTypeName fuel part) := by
  rw [checkedMetadataTypeName, charAt_last]
  cases hlast : n.getLast? with
  | none =>
    refine iff_of_false (not_succeeds_error _) fun h => h.1.1 ?_
    exact List.getLast?_eq_none_iff.1 hlast
  | some lastChar =>
    have hne : n ≠ [] := by
      rintro rfl
      cases hlast
    dsimp only
    by_cases hclose : lastChar = '>'
    · have hlast' : n.getLast? = some '>' := hclose ▸ hlast
      have hread (m : List Char) (hm : m.length < n.length) :
          md.Agrees (md.checkedMetadataTypeName fuel) m :=
        fun result h => eq_of_checked (by omega) h
      have hreferences :
          Succeeds (md.checkedReferenceName (md.checkedMetadataTypeName fuel) n) ↔ _ :=
        succeeds_checkedReferenceName_iff
      rw [if_pos hclose]
      cases hreference : md.checkedReferenceName (md.checkedMetadataTypeName fuel) n with
      | error fault =>
        rw [hreference] at hreferences
        refine iff_of_false (not_succeeds_error fault) fun h => ?_
        exact not_succeeds_error fault
          (hreferences.2 fun partName => h.2.1 partName (congrArg some hclose))
      | ok reference =>
        rw [hreference] at hreferences
        have hreferences' := hreferences.1 (succeeds_ok reference)
        have heq := eq_of_checkedReferenceName hread hne hreference
        cases reference with
        | some klass =>
          have htries {start : ℕ} {count : ℤ} (h : md.TriesInstance n start count) : False :=
            nomatch heq.trans h.2.1
          have hargument {count : ℤ} {before : List (List Char)} {part : List Char}
              (h : md.TriesArgument n count before part) : False := by
            obtain ⟨start, classDefinition, after, h, -⟩ := h
            exact htries h
          exact iff_of_true (succeeds_ok _) ⟨⟨hne, fun count before part h => (hargument h).elim⟩,
            fun partName _ => hreferences' partName, fun start count h => (htries h).elim,
            fun count before part h => (hargument h).elim⟩
        | none =>
          have hinstance := succeeds_checkedGenericInstance_iff hread hlast' heq.symm
          have hmatch : Succeeds (match
              md.checkedGenericInstance (md.checkedMetadataTypeName fuel) n with
                | .error fault => .error fault
                | .ok (some klass) => .ok (some klass)
                | .ok none => .ok (md.classFromFullName n) :
                  Except Fault (Option (Il2CppType H P))) ↔
              Succeeds (md.checkedGenericInstance (md.checkedMetadataTypeName fuel) n) := by
            cases md.checkedGenericInstance (md.checkedMetadataTypeName fuel) n with
            | error fault => exact Iff.rfl
            | ok klass =>
              refine iff_of_true ?_ (succeeds_ok klass)
              cases klass with
              | none => exact succeeds_ok _
              | some klass => exact succeeds_ok _
          refine hmatch.trans (hinstance.trans ⟨?_, ?_⟩)
          · rintro ⟨hdefinitions, harguments⟩
            exact ⟨⟨hne, fun count before part h => (harguments count before part h).2⟩,
              fun partName _ => hreferences' partName, hdefinitions,
              fun count before part h =>
                succeeds_checkedPart_iff.1 (harguments count before part h).1⟩
          · rintro ⟨⟨-, hroom⟩, -, hdefinitions, harguments⟩
            exact ⟨hdefinitions, fun count before part h =>
              ⟨succeeds_checkedPart_iff.2 (harguments count before part h),
                hroom count before part h⟩⟩
    · have hnot : n.getLast? ≠ some '>' := fun h =>
        hclose (Option.some.inj (hlast.symm.trans h))
      have hargument {count : ℤ} {before : List (List Char)} {part : List Char}
          (h : md.TriesArgument n count before part) : False := by
        obtain ⟨start, classDefinition, after, htries, -⟩ := h
        exact hnot htries.1
      rw [if_neg hclose]
      refine iff_of_true (succeeds_ok _) ⟨⟨hne, fun count before part h => (hargument h).elim⟩,
        fun partName h => ?_, fun start count h => absurd h.1 hnot,
        fun count before part h => (hargument h).elim⟩
      exact absurd (Option.some.inj h) hclose

theorem succeeds_checked_iff (hfuel : n.length < fuel) :
    Succeeds (md.checkedMetadataTypeName fuel n) ↔ ∀ p, md.Reached n p → md.Fine p := by
  induction fuel generalizing n with
  | zero => exact absurd hfuel (Nat.not_lt_zero _)
  | succ fuel ih =>
    have hreference {partName : List Char} (hlast : n.getLast? = some '>')
        (h : referencedName n = some partName) : partName.length < fuel := by
      have hne : n ≠ [] := by
        rintro rfl
        cases hlast
      have hlt := length_referencedName hne h
      omega
    have hdefinition {start : ℕ} {count : ℤ} (h : md.TriesInstance n start count) :
        (n.take start).length < fuel := by
      have hlt := start_lt h.2.2
      rw [List.length_take]
      omega
    have hargument {count : ℤ} {before : List (List Char)} {part : List Char}
        (h : md.TriesArgument n count before part) : part.length < fuel := by
      obtain ⟨start, classDefinition, after, htries, -, -, hparts, -⟩ := h
      have hmem : part ∈ splitArguments 0 [] (n.drop (start + 1)) := by
        rw [hparts]
        exact List.mem_append_right _ List.mem_cons_self
      have hlt := length_argument htries.2.2 hmem
      omega
    rw [succeeds_checked_succ_iff (Nat.le_of_lt_succ hfuel)]
    constructor
    · rintro ⟨hfine, hreferences, hdefinitions, harguments⟩ p hp
      cases hp with
      | self => exact hfine
      | reference hlast hpart hprimitive hp =>
        exact (ih (hreference hlast hpart)).1 (hreferences _ hlast hpart hprimitive) p hp
      | definition htries hp => exact (ih (hdefinition htries)).1 (hdefinitions _ _ htries) p hp
      | argument htries hprimitive hp =>
        exact (ih (hargument htries)).1 (harguments _ _ _ htries hprimitive) p hp
    · intro h
      refine ⟨h n (.self n), fun partName hlast hpart hprimitive => ?_,
        fun start count htries => ?_,
        fun count before part htries hprimitive => ?_⟩
      · exact (ih (hreference hlast hpart)).2 fun p hp => h p (.reference hlast hpart hprimitive hp)
      · exact (ih (hdefinition htries)).2 fun p hp => h p (.definition htries hp)
      · exact (ih (hargument htries)).2 fun p hp => h p (.argument htries hprimitive hp)

theorem length_of_storeAll {stored : List (Il2CppType H P)}
    (h : md.storeAll read count genericArguments parts = .ok (some stored)) :
    stored.length = genericArguments.length + parts.length := by
  induction parts generalizing genericArguments with
  | nil => rw [← Option.some.inj (Except.ok.inj h)]; rfl
  | cons part parts ih =>
    rw [storeAll] at h
    split at h
    · cases h
    · cases h
    · split_ifs at h
      rw [ih h, List.length_append, List.length_singleton, List.length_cons]
      omega

theorem counts_of_checkedGenericInstance
    (h : md.checkedGenericInstance read n = .ok (some klass)) : ∃ start count,
      genericHeader n = some (start, count) ∧
        ((splitArguments 0 [] (n.drop (start + 1))).length : ℤ) = count := by
  rw [checkedGenericInstance] at h
  cases hheader : genericHeader n with
  | none =>
    rw [hheader] at h
    cases h
  | some header =>
    obtain ⟨start, count⟩ := header
    refine ⟨start, count, rfl, ?_⟩
    rw [hheader] at h
    dsimp only at h
    cases hdefinition : read (n.take start) with
    | error fault =>
      rw [hdefinition] at h
      cases h
    | ok classDefinition =>
      rw [hdefinition, argumentLoop_eq rfl (Nat.le_refl _), Nat.sub_self, List.take_zero] at h
      cases classDefinition with
      | none => cases h
      | some classDefinition =>
        dsimp only at h
        cases hstore : md.storeAll read count [] (splitArguments 0 [] (n.drop (start + 1))) with
        | error fault =>
          rw [hstore] at h
          split_ifs at h
          cases h
        | ok genericArguments =>
          rw [hstore] at h
          cases genericArguments with
          | none => split_ifs at h <;> cases h
          | some genericArguments =>
            have hlength := length_of_storeAll hstore
            rw [List.length_nil, Nat.zero_add] at hlength
            dsimp only at h
            split_ifs at h with hgeneric hcount
            · rw [← hlength]
              exact hcount
            all_goals cases h

variable (md) in
/-- Characters are read and arguments are stored only where there are some, and a generic instance
has as many arguments in its brackets as its name declares. -/
structure InBounds (n : List Char) : Prop where
  bounds : Succeeds (md.checkedMetadataTypeName (n.length + 1) n)
  counts : ∀ klass,
    md.checkedGenericInstance (md.checkedMetadataTypeName n.length) n = .ok (some klass) →
      ∃ start count, genericHeader n = some (start, count) ∧
        ((splitArguments 0 [] (n.drop (start + 1))).length : ℤ) = count

theorem inBounds_iff (md : Metadata H P) (n : List Char) :
    md.InBounds n ↔ ∀ p, md.Reached n p → md.Fine p :=
  ⟨fun h => (succeeds_checked_iff (Nat.lt_succ_self _)).1 h.bounds, fun h =>
    ⟨(succeeds_checked_iff (Nat.lt_succ_self _)).2 h, fun _ => counts_of_checkedGenericInstance⟩⟩

/-- One generic class with one parameter, and no other class. -/
def oneGeneric : Metadata Unit Unit where
  namespaze _ := []
  name _ := []
  imageName _ := []
  isGeneric _ := true
  systemGuidClass := ()
  genericNullableClass := ()
  windowsRuntimeClass typeName :=
    if typeName = ['A', '\x60', '1'] then some (.klass false ()) else none
  windowsRuntimeClassName _ := none
  classFromName _ _ := none
  customTypeName _ := []
  typeFromCustomTypeName _ := none

/-- Two arguments are stored where one is declared. -/
theorem not_inBounds_two : ¬oneGeneric.InBounds "A`1<Int32,Int32>".toList := by
  intro h
  obtain ⟨klass, hklass⟩ := h.bounds
  have hstore :
      oneGeneric.checkedMetadataTypeName 17 "A`1<Int32,Int32>".toList = .error .store := by
    rfl
  exact nomatch hstore.symm.trans hklass

end Metadata

end WindowsRuntime

end Il2Cpp
