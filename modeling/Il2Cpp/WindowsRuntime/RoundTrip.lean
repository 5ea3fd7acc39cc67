import Il2Cpp.WindowsRuntime.Reading

/-!
# Reading the Windows Runtime name of a type

`MarshalTypeFromNative` after `MarshalTypeToNative`.

* `WellFormed` : what the two functions rely on.  The tables of names are mutually inverse, the
  classes of the Windows Runtime components are found by their names, and the names of generic
  instances are made of the names of their parts.
* `Representable` : the types that a name can stand for.  They are made of classes with names by
  arrays with one dimension and lower bound zero and by generic instances.
* `denotes_partName` : the name that is written for such a type denotes it.
* `marshalType_roundTrip` : it is read as that very type.

The other types are read as another one: the name of an array does not have its rank, a name does
not say that a type is a reference, and an instance of the interface `IReference` has the name of a
nullable type.
-/

namespace Il2Cpp

namespace WindowsRuntime

variable {H P : Type}

/-- The classes with a name of their own. -/
inductive IsNamed : Il2CppType H P → Prop
  | simple {tag} (h : tag ≠ .fnptr) : IsNamed (.simple false tag)
  | valuetype (h) : IsNamed (.valuetype false h)
  | klass (h) : IsNamed (.klass false h)

theorem IsNamed.fromIl2CppType_eq {c : Il2CppType H P} (hc : IsNamed c) : fromIl2CppType c = c := by
  cases hc with
  | simple h => rw [fromIl2CppType, if_neg h]
  | valuetype | klass => rfl

theorem IsNamed.definition_eq {c : Il2CppType H P} (hc : IsNamed c) : definition c = c := by
  cases hc <;> rfl

namespace Metadata

variable [DecidableEq H] (md : Metadata H P)

/-- `Class::IsNullable`. -/
def isNullable : Il2CppType H P → Bool
  | .genericinst _ (.valuetype _ h) (some _) => h = md.genericNullableClass
  | _ => false

/-- The generic type definition of the nullable types. -/
def nullableDefinition : Il2CppType H P := .valuetype false md.genericNullableClass

/-- The Windows Runtime name of a class that is no array and no generic instance. -/
def definitionName (c : Il2CppType H P) : List Char :=
  (md.windowsRuntimeClassName c).getD (md.fullName c)

/-- The name of a type as a part of the name of another one. -/
def partName (t : Il2CppType H P) : List Char :=
  if md.isPrimitive t then primitiveTypeName t else md.metadataTypeName t

/-- What the names rely on. -/
structure WellFormed : Prop where
  /-- The two tables are inverse to each other.  A nullable type is in one of them only, since an
  instance of `IReference` has its name. -/
  inverse {n c} : md.windowsRuntimeClass n = some c ↔
    md.windowsRuntimeClassName c = some n ∧ md.isNullable c = false
  /-- The names in the tables are full names. -/
  listed {n c} : IsNamed c → md.windowsRuntimeClassName c = some n → IsFullName n
  /-- The name of a generic instance in the tables is made of those of its parts. -/
  listedInstance {n g args} : md.windowsRuntimeClassName (.genericinst false g (some args)) = some n →
    n = instanceName (if md.isNullable (.genericinst false g (some args)) then iReferenceName
      else md.definitionName g) (args.map md.partName) ∧
    (∀ a ∈ args, md.typeKind a ≠ .custom) ∧
    (md.isNullable (.genericinst false g (some args)) = false →
      md.isListed g ∨ md.isWindowsRuntimeMetadata g)
  /-- A class of a Windows Runtime component has a full name. -/
  component {c} : IsNamed c → md.isWindowsRuntimeMetadata c →
    IsFullName (md.fullName c) ∧ '.' ∉ md.name c
  /-- It is found by its namespace and its name. -/
  found {c} : IsNamed c → md.isWindowsRuntimeMetadata c →
    md.classFromName (md.namespaze c) (md.name c) = some c
  /-- It has that name in the tables, if any, and no other class has it. -/
  own {c} : IsNamed c → md.isWindowsRuntimeMetadata c →
    (∀ n, md.windowsRuntimeClassName c = some n → n = md.fullName c) ∧
      ∀ d, md.windowsRuntimeClass (md.fullName c) = some d → d = c
  /-- The nullable types are those of the core library. -/
  nullable : md.isWindowsRuntimeMetadata md.nullableDefinition = false

/-- The types that a name can stand for.  They are no references, and neither are their parts; their
arrays are vectors; and they have no instance of the interfaces that the names of arrays and of
boxed values are made of. -/
inductive Representable : Il2CppType H P → Prop
  | named {c} (hc : IsNamed c) : Representable c
  | szarray {e} (h : Representable e) : Representable (.szarray false e)
  | nullable {a} (h : Representable a) :
      Representable (.genericinst false md.nullableDefinition (some [a]))
  | genericinst {g args} (hg : IsNamed g) (hnullable : g ≠ md.nullableDefinition)
      (hgeneric : md.isGeneric g) (hne : args ≠ [])
      (harity : HasArity (md.definitionName g) args.length)
      (harray : md.definitionName g ≠ iReferenceArrayName)
      (hboxed : md.definitionName g ≠ iReferenceName) (h : ∀ a ∈ args, Representable a) :
      Representable (.genericinst false g (some args))

/-! ### The names of the parts -/

theorem argumentNames_eq (args : List (Il2CppType H P)) :
    md.argumentNames args = args.map md.partName := by
  induction args with
  | nil => rfl
  | cons a args ih => rw [argumentNames, ih, List.map_cons, partName]

theorem noCustomArgument_iff (args : List (Il2CppType H P)) :
    md.noCustomArgument args ↔ ∀ a ∈ args, md.typeKind a ≠ .custom := by
  induction args with
  | nil => simp [noCustomArgument]
  | cons a args ih =>
    rw [noCustomArgument, List.forall_mem_cons, ← ih]
    split_ifs with h <;> simp [h]

theorem typeKind_of_primitive {t : Il2CppType H P} (h : md.isPrimitive t) :
    md.typeKind t = .primitive := by
  rw [typeKind.eq_def, if_pos h]

theorem typeKind_ne_primitive {t : Il2CppType H P} (h : md.isPrimitive t = false) :
    md.typeKind t ≠ .primitive := by
  rw [typeKind.eq_def, h, if_neg Bool.false_ne_true]
  split <;> split_ifs <;> rintro ⟨⟩

theorem partName_of_primitive {t : Il2CppType H P} (h : md.isPrimitive t) :
    md.partName t = primitiveTypeName t := if_pos h

theorem partName_of_metadata {t : Il2CppType H P} (h : md.isPrimitive t = false) :
    md.partName t = md.metadataTypeName t := by
  rw [partName, h, if_neg Bool.false_ne_true]

variable {md}

theorem typeKind_named {c : Il2CppType H P} (hc : IsNamed c) (h : md.isPrimitive c = false) :
    md.typeKind c =
      if md.isListed c ∨ md.isWindowsRuntimeMetadata c then .metadata else .custom := by
  rw [typeKind.eq_def, h, if_neg Bool.false_ne_true]
  cases hc <;> rfl

theorem metadataTypeName_named {c : Il2CppType H P} (hc : IsNamed c) :
    md.metadataTypeName c = md.definitionName c := by
  have hclass := hc.fromIl2CppType_eq
  rw [metadataTypeName.eq_def, definitionName]
  cases hc with
  | simple | valuetype | klass =>
    simp only [hclass]
    cases md.windowsRuntimeClassName _ <;> rfl

omit [DecidableEq H] in
theorem classFromPrimitiveTypeName_simple {tag : SimpleType} (md : Metadata H P)
    (h : tag ∈ [.boolean, .char, .u1, .i2, .u2, .i4, .u4, .i8, .u8, .r4, .r8, .object, .string]) :
    md.classFromPrimitiveTypeName (primitiveTypeName (.simple false tag : Il2CppType H P)) =
      some (.simple false tag) := by
  simp only [List.mem_cons, List.not_mem_nil, or_false] at h
  rcases h with rfl | rfl | rfl | rfl | rfl | rfl | rfl | rfl | rfl | rfl | rfl | rfl | rfl <;> rfl

theorem classFromPrimitiveTypeName_named {c : Il2CppType H P} (hc : IsNamed c)
    (h : md.isPrimitive c) :
    md.classFromPrimitiveTypeName (primitiveTypeName c) = some c := by
  cases hc with
  | simple => exact md.classFromPrimitiveTypeName_simple (of_decide_eq_true h)
  | valuetype d =>
    obtain rfl : d = md.systemGuidClass := of_decide_eq_true h
    rfl
  | klass => cases h

theorem isNullable_named {c : Il2CppType H P} (hc : IsNamed c) : md.isNullable c = false := by
  cases hc <;> rfl

theorem isNullable_genericinst {g : Il2CppType H P} (hg : IsNamed g)
    (args : List (Il2CppType H P)) :
    md.isNullable (.genericinst false g (some args)) ↔ g = md.nullableDefinition := by
  cases hg <;> simp [isNullable, nullableDefinition]

/-! ### The name of a definition -/

theorem classFromFullName_component (hmd : md.WellFormed) {c : Il2CppType H P} (hc : IsNamed c)
    (h : md.isWindowsRuntimeMetadata c) : md.classFromFullName (md.fullName c) = some c := by
  rw [classFromFullName]
  cases hlisted : md.windowsRuntimeClass (md.fullName c) with
  | some d => rw [(hmd.own hc h).2 d hlisted]
  | none =>
    have hsplit : rfind (md.fullName c) '.' = some (md.namespaze c).length := by
      rw [fullName, hc.definition_eq, rfind_append (hmd.component hc h).2]
    have htake : (md.fullName c).take (md.namespaze c).length = md.namespaze c := by
      rw [fullName, hc.definition_eq, List.take_left]
    have hdrop : (md.fullName c).drop ((md.namespaze c).length + 1) = md.name c := by
      rw [fullName, hc.definition_eq, ← List.drop_drop, List.drop_left, List.drop_one,
        List.tail_cons]
    simp only [hsplit, htake, hdrop, hmd.found hc h]

theorem classFromFullName_definitionName (hmd : md.WellFormed) {c : Il2CppType H P}
    (hc : IsNamed c) (h : md.isListed c ∨ md.isWindowsRuntimeMetadata c) :
    IsFullName (md.definitionName c) ∧
      md.classFromFullName (md.definitionName c) = some c := by
  rw [definitionName]
  cases hname : md.windowsRuntimeClassName c with
  | some n =>
    have hclass := hmd.inverse.2 ⟨hname, isNullable_named hc⟩
    exact ⟨hmd.listed hc hname, by rw [Option.getD_some, classFromFullName, hclass]⟩
  | none =>
    have hcomponent : md.isWindowsRuntimeMetadata c := by
      rcases h with h | h
      · rw [isListed, hc.fromIl2CppType_eq, hname] at h
        cases h
      · exact h
    exact ⟨(hmd.component hc hcomponent).1, classFromFullName_component hmd hc hcomponent⟩

theorem definitionName_component (hmd : md.WellFormed) {c : Il2CppType H P} (hc : IsNamed c)
    (h : md.isWindowsRuntimeMetadata c) : md.definitionName c = md.fullName c := by
  rw [definitionName]
  cases hname : md.windowsRuntimeClassName c with
  | some n => exact (hmd.own hc h).1 n hname
  | none => rfl

/-! ### What the written name denotes -/

theorem denotes_named (hmd : md.WellFormed) {c : Il2CppType H P} (hc : IsNamed c)
    (hkind : md.typeKind c ≠ .custom) : md.Denotes (md.typeKind c) (md.partName c) c := by
  cases hprimitive : md.isPrimitive c with
  | true =>
    rw [md.typeKind_of_primitive hprimitive, md.partName_of_primitive hprimitive]
    exact .primitive (classFromPrimitiveTypeName_named hc hprimitive)
  | false =>
    rw [typeKind_named hc hprimitive] at hkind ⊢
    split_ifs at hkind ⊢ with h
    · rw [md.partName_of_metadata hprimitive, metadataTypeName_named hc]
      obtain ⟨hname, hclass⟩ := classFromFullName_definitionName hmd hc h
      exact .full hname hclass
    · exact absurd rfl hkind

theorem typeKind_szarray (b : Bool) (e : Il2CppType H P) :
    md.typeKind (.szarray b e) = if md.typeKind e ≠ .custom then .metadata else .custom := by
  rw [typeKind.eq_def]
  rfl

theorem typeKind_genericinst {g : Il2CppType H P} {args : List (Il2CppType H P)}
    (h : md.typeKind (.genericinst false g (some args)) ≠ .custom) :
    md.typeKind (.genericinst false g (some args)) = .metadata ∧
      (md.isListed (.genericinst false g (some args)) = false →
        md.imageName g = "WindowsRuntimeMetadata".toList ∧ ∀ a ∈ args, md.typeKind a ≠ .custom) := by
  have hkind : md.typeKind (.genericinst false g (some args)) =
      if md.isListed (.genericinst false g (some args)) then .metadata
      else if md.isWindowsRuntimeMetadata (.genericinst false g (some args)) then
        if md.noCustomArgument args then .metadata else .custom
      else .custom := by
    rw [typeKind.eq_def]
    rfl
  rw [hkind] at h ⊢
  split_ifs at h ⊢ with hlisted hcomponent hargs
  · exact ⟨rfl, fun hnot => absurd (hnot.symm.trans hlisted) Bool.false_ne_true⟩
  · exact ⟨rfl, fun _ => ⟨of_decide_eq_true hcomponent, (md.noCustomArgument_iff args).1 hargs⟩⟩
  · exact absurd rfl h
  · exact absurd rfl h

theorem metadataTypeName_genericinst (hmd : md.WellFormed) {g : Il2CppType H P} (hg : IsNamed g)
    {args : List (Il2CppType H P)}
    (h : md.typeKind (.genericinst false g (some args)) ≠ .custom) :
    md.metadataTypeName (.genericinst false g (some args)) =
        instanceName (if md.isNullable (.genericinst false g (some args)) then iReferenceName
          else md.definitionName g) (args.map md.partName) ∧
      (∀ a ∈ args, md.typeKind a ≠ .custom) ∧
      (md.isNullable (.genericinst false g (some args)) = false →
        md.isListed g ∨ md.isWindowsRuntimeMetadata g) := by
  rw [metadataTypeName, fromIl2CppType]
  cases hname : md.windowsRuntimeClassName (.genericinst false g (some args)) with
  | some n => exact hmd.listedInstance hname
  | none =>
    obtain ⟨himage, hargs⟩ := (typeKind_genericinst h).2 (by
      rw [isListed, fromIl2CppType, hname, Option.isSome_none])
    have hcomponent : md.isWindowsRuntimeMetadata g = true := by
      rw [isWindowsRuntimeMetadata, hg.fromIl2CppType_eq, hg.definition_eq, himage]
      exact decide_eq_true rfl
    have hnullable : md.isNullable (.genericinst false g (some args)) = false := by
      rw [← Bool.not_eq_true, isNullable_genericinst hg]
      rintro rfl
      rw [hmd.nullable] at hcomponent
      cases hcomponent
    rw [hnullable, if_neg Bool.false_ne_true, definitionName_component hmd hg hcomponent,
      argumentNames_eq]
    exact ⟨rfl, hargs, fun _ => .inr hcomponent⟩

/-- **Writing a name**: it denotes the type. -/
theorem denotes_partName (hmd : md.WellFormed) {t : Il2CppType H P} (ht : md.Representable t)
    (hkind : md.typeKind t ≠ .custom) : md.Denotes (md.typeKind t) (md.partName t) t := by
  induction ht with
  | named hc => exact denotes_named hmd hc hkind
  | @szarray e h ih =>
    rw [typeKind_szarray] at hkind ⊢
    split_ifs at hkind ⊢ with helement
    · rw [md.partName_of_metadata rfl, metadataTypeName]
      exact .array (ih helement)
    · exact absurd rfl hkind
  | @nullable a h ih =>
    have hg : IsNamed (md.nullableDefinition : Il2CppType H P) := .valuetype _
    obtain ⟨hname, hargs, -⟩ := metadataTypeName_genericinst hmd hg hkind
    rw [(isNullable_genericinst hg [a]).2 rfl, if_pos rfl, List.map_singleton] at hname
    have hbrackets : instanceName iReferenceName [md.partName a] =
        kIReferencePrefix ++ md.partName a ++ ['>'] := by
      rw [instanceName, List.intercalate_singleton, kIReferencePrefix_eq_name, List.append_assoc,
        List.append_assoc]
      rfl
    rw [(typeKind_genericinst hkind).1, md.partName_of_metadata rfl, hname, hbrackets]
    exact .boxed (ih (hargs a List.mem_cons_self))
  | @genericinst g args hg hnullable hgeneric hne harity harray hboxed h ih =>
    obtain ⟨hname, hargs, hdefinition⟩ := metadataTypeName_genericinst hmd hg hkind
    have hnot : md.isNullable (.genericinst false g (some args)) = false := by
      rwa [← Bool.not_eq_true, isNullable_genericinst hg]
    rw [hnot, if_neg Bool.false_ne_true] at hname
    obtain ⟨hfull, hclass⟩ := classFromFullName_definitionName hmd hg (hdefinition hnot)
    -- the arguments with their kinds and their names
    let part (a : Il2CppType H P) : Part H P := ⟨md.typeKind a, md.partName a, a⟩
    have hnames : (args.map part).map Part.name = args.map md.partName := by
      rw [List.map_map]
      rfl
    have htypes : (args.map part).map Part.type = args := by
      rw [List.map_map]
      exact List.map_id args
    have hparts : ∀ p ∈ args.map part, md.Denotes p.kind p.name p.type := fun p hp => by
      obtain ⟨a, ha, rfl⟩ := List.mem_map.1 hp
      exact ih a ha (hargs a ha)
    have hdenotes := Denotes.genericInstance (by simpa using hne) hfull harray hboxed
      (by simpa using harity) hclass hgeneric hparts
    rw [hnames, htypes] at hdenotes
    rwa [(typeKind_genericinst hkind).1, md.partName_of_metadata rfl, hname]

/-- A type that a name can stand for is read as itself. -/
theorem marshalType_roundTrip (hmd : md.WellFormed) {t : Il2CppType H P} (ht : md.Representable t)
    (hkind : md.typeKind t ≠ .custom) :
    md.marshalTypeFromNative (md.marshalTypeToNative (some t)) = .ok (some t) := by
  have h := denotes_partName hmd ht hkind
  rw [marshalTypeToNative]
  cases hprimitive : md.isPrimitive t with
  | true =>
    rw [md.typeKind_of_primitive hprimitive, md.partName_of_primitive hprimitive] at h
    simp only [md.typeKind_of_primitive hprimitive, marshalTypeFromNative,
      h.classFromPrimitiveTypeName_eq]
  | false =>
    have hmetadata : md.typeKind t = .metadata := by
      cases hk : md.typeKind t with
      | primitive => exact absurd hk (md.typeKind_ne_primitive hprimitive)
      | metadata => rfl
      | custom => exact absurd hk hkind
    rw [hmetadata, md.partName_of_metadata hprimitive] at h
    simp only [hmetadata, marshalTypeFromNative, h.classFromMetadataTypeName_eq]

end Metadata

/-! ### Some types -/

/-- A component with the interfaces `IReference` and `IVectorView` and the structure `Point`, and
the table entry of the class `System.Uri`. -/
def foundationMetadata : Metadata ℕ ℕ where
  namespaze := fun
    | .klass _ 2 | .klass _ 3 | .valuetype _ 4 => "Windows.Foundation".toList
    | _ => "System".toList
  name := fun
    | .klass _ 2 => "IReference`1".toList
    | .klass _ 3 => "IVectorView`1".toList
    | .valuetype _ 4 => "Point".toList
    | .ptr _ (.valuetype _ 4) => "Point*".toList
    | .klass _ 5 => "Uri".toList
    | _ => []
  imageName := fun
    | .klass _ 2 | .klass _ 3 | .valuetype _ 4 => "WindowsRuntimeMetadata".toList
    | _ => "mscorlib.dll".toList
  isGeneric := fun
    | .klass _ 2 | .klass _ 3 | .valuetype _ 1 => true
    | _ => false
  systemGuidClass := 0
  genericNullableClass := 1
  windowsRuntimeClass := fun n =>
    if n = "Windows.Foundation.Uri".toList then some (.klass false 5) else none
  windowsRuntimeClassName := fun
    | .klass false 5 => some "Windows.Foundation.Uri".toList
    | _ => none
  classFromName := fun namespaze name =>
    if namespaze = "Windows.Foundation".toList then
      if name = "IReference`1".toList then some (.klass false 2)
      else if name = "IVectorView`1".toList then some (.klass false 3)
      else if name = "Point".toList then some (.valuetype false 4)
      else none
    else none
  customTypeName := fun _ => []
  typeFromCustomTypeName := fun _ => none

theorem foundationMetadata_listed {c : Il2CppType ℕ ℕ} {n : List Char}
    (h : foundationMetadata.windowsRuntimeClassName c = some n) :
    c = .klass false 5 ∧ n = "Windows.Foundation.Uri".toList := by
  simp only [foundationMetadata] at h
  split at h
  · exact ⟨rfl, (Option.some.inj h).symm⟩
  · cases h

theorem foundationMetadata_component {c : Il2CppType ℕ ℕ} (hc : IsNamed c)
    (h : foundationMetadata.isWindowsRuntimeMetadata c) :
    c = .klass false 2 ∨ c = .klass false 3 ∨ c = .valuetype false 4 := by
  rw [Metadata.isWindowsRuntimeMetadata, hc.fromIl2CppType_eq, hc.definition_eq] at h
  have h := of_decide_eq_true h
  simp only [foundationMetadata] at h
  split at h
  · cases hc
    exact .inl rfl
  · cases hc
    exact .inr (.inl rfl)
  · cases hc
    exact .inr (.inr rfl)
  · exact absurd h (by decide)

theorem foundationMetadata_wellFormed : foundationMetadata.WellFormed where
  inverse := by
    intro n c
    constructor
    · intro h
      obtain ⟨rfl, h⟩ := Option.ite_none_right_eq_some.1 h
      obtain rfl := Option.some.inj h
      exact ⟨rfl, rfl⟩
    · rintro ⟨h, -⟩
      obtain ⟨rfl, rfl⟩ := foundationMetadata_listed h
      rfl
  listed := by
    intro n c hc h
    obtain ⟨rfl, rfl⟩ := foundationMetadata_listed h
    constructor <;> decide
  listedInstance := by
    intro n g args h
    cases (foundationMetadata_listed h).1
  component := by
    intro c hc h
    obtain rfl | rfl | rfl := foundationMetadata_component hc h
    all_goals exact ⟨by constructor <;> decide, by decide⟩
  found := by
    intro c hc h
    obtain rfl | rfl | rfl := foundationMetadata_component hc h <;> rfl
  own := by
    intro c hc h
    have hname : ∀ d, foundationMetadata.windowsRuntimeClass (foundationMetadata.fullName c) =
        some d → d = c := by
      obtain rfl | rfl | rfl := foundationMetadata_component hc h <;> exact nofun
    refine ⟨fun n hn => ?_, hname⟩
    obtain ⟨rfl, -⟩ := foundationMetadata_listed hn
    obtain h | h | h := foundationMetadata_component hc h <;> cases h
  nullable := rfl

/-- A vector of read-only lists of vectors of points is read as itself. -/
theorem marshalType_roundTrip_points :
    foundationMetadata.marshalTypeFromNative (foundationMetadata.marshalTypeToNative
        (some (.szarray false (.genericinst false (.klass false 3)
          (some [.szarray false (.valuetype false 4)]))))) =
      .ok (some (.szarray false (.genericinst false (.klass false 3)
        (some [.szarray false (.valuetype false 4)])))) := by
  refine Metadata.marshalType_roundTrip foundationMetadata_wellFormed (.szarray
    (.genericinst (.klass 3) nofun rfl (List.cons_ne_nil _ _) ?_ (by decide)
      (by decide) fun a ha => ?_)) (by decide)
  · exact ⟨"Windows.Foundation.IVectorView".toList, "1".toList, by decide,
      by decide, by decide, [49], by decide, by decide, .inl ⟨rfl, rfl⟩⟩
  · obtain rfl := List.mem_singleton.1 ha
    exact .szarray (.named (.valuetype 4))

/-- An array with two dimensions, a reference and an instance of `IReference` are read as other
types. -/
theorem marshalType_not_roundTrip :
    foundationMetadata.WellFormed ∧
      ∀ t ∈ ([.array false (.simple false .i4) 2, .simple true .i4,
          .genericinst false (.klass false 2) (some [.simple false .i4])] : List (Il2CppType ℕ ℕ)),
        foundationMetadata.typeKind t ≠ .custom ∧
          foundationMetadata.marshalTypeFromNative (foundationMetadata.marshalTypeToNative (some t))
            ≠ .ok (some t) := by
  refine ⟨foundationMetadata_wellFormed, fun t ht => ?_⟩
  have harray : foundationMetadata.marshalTypeFromNative (foundationMetadata.marshalTypeToNative
      (some (.array false (.simple false .i4) 2))) =
        .ok (some (.szarray false (.simple false .i4))) := rfl
  have hbyref : foundationMetadata.marshalTypeFromNative (foundationMetadata.marshalTypeToNative
      (some (.simple true .i4))) = .ok (some (.simple false .i4)) := rfl
  have hreference : foundationMetadata.marshalTypeFromNative
      (foundationMetadata.marshalTypeToNative
        (some (.genericinst false (.klass false 2) (some [.simple false .i4])))) =
      .ok (some (.genericinst false (.valuetype false 1) (some [.simple false .i4]))) := rfl
  simp only [List.mem_cons, List.not_mem_nil, or_false] at ht
  obtain rfl | rfl | rfl := ht
  · exact ⟨by decide, by rw [harray]; rintro ⟨⟩⟩
  · exact ⟨by decide, by rw [hbyref]; rintro ⟨⟩⟩
  · exact ⟨by decide, by rw [hreference]; rintro ⟨⟩⟩

end WindowsRuntime

end Il2Cpp
