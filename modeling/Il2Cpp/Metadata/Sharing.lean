import Il2Cpp.Metadata.Inflate

/-!
# Shared generic instances

`GetSharedInst` maps the arguments of a generic instance to those whose code it shares: a reference
type to `object`, an enum to the shared enum of its underlying type, and the arguments of a generic
value type recursively.

* `SharingEnv.share` : the representative of a type; `share_share` : it is its own.
* `Agree` : types that share code; `Agree.sortKey_share` : they have equal representatives.
* `getSharedInst_spec` : `GetSharedInst` interns the representatives.
* `getSharedInst_canonical` : sharing twice is sharing once, and instances whose arguments agree
  have one shared instance.
-/

namespace Il2Cpp

variable {M H P : Type}

namespace Sharing

/-- The underlying types of the shared enums. -/
inductive SharedEnum where
  | sbyte | int16 | int32 | int64 | byte | uint16 | uint32 | uint64
  deriving DecidableEq

/-- The tag of the underlying type. -/
def SharedEnum.tag : SharedEnum → SimpleType
  | sbyte => .i1 | int16 => .i2 | int32 => .i4 | int64 => .i8
  | byte => .u1 | uint16 => .u2 | uint32 => .u4 | uint64 => .u8

/-- What `GetSharedInst` reads besides its argument. -/
structure SharingEnv (H P : Type) where
  /-- `s_Il2CppCodeGenOptions->enablePrimitiveValueTypeGenericSharing`. -/
  enablePrimitiveValueTypeGenericSharing : Bool
  /-- `GetEnumBaseType` of the type definitions whose `enumtype` is set. -/
  enumBaseType : H → Option (Il2CppType H P)
  /-- `il2cpp_defaults.sbyte_shared_enum` and so on. -/
  sharedEnum : SharedEnum → H
  /-- `System.SByteEnum` is an enum over `sbyte`, and so on. -/
  enumBaseType_sharedEnum : ∀ k, enumBaseType (sharedEnum k) = some (.simple false k.tag)

/-- The handle of the type definition that a description stands for. -/
def typeHandle : Il2CppType H P → Option H
  | .valuetype _ h | .klass _ h => some h
  | _ => none

/-- `Type::IsReference` ; the definition of a generic class is described by `type`. -/
def isReference : Il2CppType H P → Bool
  | .simple _ .string | .simple _ .object | .klass .. | .szarray .. | .array .. => true
  | .genericinst _ (.valuetype ..) _ => false
  | .genericinst .. => true
  | _ => false

namespace SharingEnv

variable (env : SharingEnv H P)

/-- `Type::IsEnum`. -/
def isEnum : Il2CppType H P → Bool
  | .valuetype _ h => (env.enumBaseType h).isSome
  | _ => false

/-- `IsShareableEnum`. -/
def isShareableEnum : Il2CppType H P → Bool
  | .genericinst _ g _ => isShareableEnum g
  | type => env.isEnum type

/-- `Type::GetUnderlyingType`. -/
def getUnderlyingType : Il2CppType H P → Il2CppType H P
  | type@(.valuetype byref h) =>
    if !byref then (env.enumBaseType h).getD type else type
  | type@(.genericinst byref g _) =>
    if !byref then ((typeHandle g).bind env.enumBaseType).getD type else type
  | type => type

/-- The `switch` over the underlying type of an enum; other underlying types are asserted not to
occur, and leave the type as it is. -/
def switchUnderlying : Il2CppType H P → Option SharedEnum
  | .simple _ .i1 => some .sbyte
  | .simple _ .i2 => some .int16
  | .simple _ .i4 => some .int32
  | .simple _ .i8 => some .int64
  | .simple _ .u1 => some .byte
  | .simple _ .u2 => some .uint16
  | .simple _ .u4 => some .uint32
  | .simple _ .u8 => some .uint64
  | _ => none

/-- The shared enum that takes the place of a type. -/
def sharedEnumOf (type : Il2CppType H P) : Option SharedEnum :=
  if env.enablePrimitiveValueTypeGenericSharing then
    if env.isShareableEnum type then switchUnderlying (env.getUnderlyingType type) else none
  else none

end SharingEnv

/-! ### The code -/

section

variable [DecidableEq M] [LinearOrder H] [LinearOrder P] {addr : H → UInt64} {token : M → UInt64}
  (tables : InternEnv P addr token) (env : SharingEnv H P)

mutual

/-- The loop body of `GetSharedInst`.  An instance that is cut off stays cut off, and hashing the
arguments dereferences its NULL. -/
def sharedType (s : Tables M H P) : TypeRef H P → Option (TypeRef H P × Tables M H P)
  | type@(.genericinst _ _ d _ argv) =>
    -- `&il2cpp_defaults.object_class->byval_arg`
    if isReference type.erase then some (.simple {} .object, s)
    else match env.sharedEnumOf type.erase with
      | some k => some (.valuetype {} (env.sharedEnum k), s)
      | none => do
        let (types, s) ← sharedTypes s argv
        let (sharedInst, s) ← getGenericInst tables types s
        let (gklass, s) ← getGenericClass tables d sharedInst s
        -- the `byval_arg` of its class
        some (.genericinst {} gklass.addr gklass.key.type gklass.key.classInst.addr
          gklass.key.classInst.key, s)
  | type@(.genericinstNull ..) =>
    if isReference type.erase then some (.simple {} .object, s)
    else match env.sharedEnumOf type.erase with
      | some k => some (.valuetype {} (env.sharedEnum k), s)
      | none => none
  | type =>
    if isReference type.erase then some (.simple {} .object, s)
    else match env.sharedEnumOf type.erase with
      | some k => some (.valuetype {} (env.sharedEnum k), s)
      | none => some (type, s)

/-- The loop of `GetSharedInst`. -/
def sharedTypes (s : Tables M H P) :
    List (TypeRef H P) → Option (List (TypeRef H P) × Tables M H P)
  | [] => some ([], s)
  | a :: as => do
    let (type, s) ← sharedType s a
    let (types, s) ← sharedTypes s as
    some (type :: types, s)

end

/-- `GetSharedInst`. -/
def getSharedInst (inst : Option (GenericInst H P)) (s : Tables M H P) :
    Option (Option (GenericInst H P) × Tables M H P) :=
  match inst with
  | none => some (none, s)
  | some inst => do
    let (types, s) ← sharedTypes tables env s inst.key
    let (sharedInst, s) ← getGenericInst tables types s
    some (some sharedInst, s)

end

/-! ### Representatives -/

namespace SharingEnv

variable (env : SharingEnv H P)

mutual

/-- The type whose code a type shares. -/
def share : Il2CppType H P → Il2CppType H P
  | type@(.genericinst _ g (some argv)) =>
    if isReference type then .simple false .object
    else match env.sharedEnumOf type with
      | some k => .valuetype false (env.sharedEnum k)
      | none => .genericinst false g (some (shareArgs argv))
  | type =>
    if isReference type then .simple false .object
    else match env.sharedEnumOf type with
      | some k => .valuetype false (env.sharedEnum k)
      | none => type

/-- `share` on every type of a list. -/
def shareArgs : List (Il2CppType H P) → List (Il2CppType H P)
  | [] => []
  | a :: as => share a :: shareArgs as

end

theorem shareArgs_eq_map (as : List (Il2CppType H P)) : env.shareArgs as = as.map env.share := by
  induction as with
  | nil => rfl
  | cons a as ih => rw [shareArgs, ih, List.map_cons]

theorem share_eq (t : Il2CppType H P) : env.share t =
    if isReference t then .simple false .object
    else match env.sharedEnumOf t with
      | some k => .valuetype false (env.sharedEnum k)
      | none => match t with
        | .genericinst _ g (some argv) => .genericinst false g (some (argv.map env.share))
        | _ => t := by
  unfold share
  split
  · rw [shareArgs_eq_map]
  · rename_i h
    split <;> try rfl
    split <;> try rfl
    split
    · exact absurd rfl (h _ _ _)
    · rfl


@[simp] theorem share_object : env.share (.simple false .object) = .simple false .object := by
  simp [share_eq, isReference]

@[simp] theorem share_sharedEnum (k : SharedEnum) :
    env.share (.valuetype false (env.sharedEnum k)) = .valuetype false (env.sharedEnum k) := by
  have hunder : switchUnderlying (env.getUnderlyingType (.valuetype false (env.sharedEnum k))) =
      some k := by
    simp only [getUnderlyingType, env.enumBaseType_sharedEnum k, Bool.not_false, if_true,
      Option.getD_some]
    cases k <;> rfl
  have henum : env.isShareableEnum (.valuetype false (env.sharedEnum k)) = true := by
    simp [isShareableEnum, isEnum, env.enumBaseType_sharedEnum k]
  rw [share_eq]
  cases hgate : env.enablePrimitiveValueTypeGenericSharing <;>
    simp [isReference, sharedEnumOf, henum, hunder, hgate]

theorem sharedEnumOf_genericinst (b : Bool) (g : Il2CppType H P)
    (i i' : Option (List (Il2CppType H P))) :
    env.sharedEnumOf (.genericinst b g i) = env.sharedEnumOf (.genericinst b g i') := by
  have hunder : switchUnderlying (env.getUnderlyingType (.genericinst b g i)) =
      switchUnderlying (env.getUnderlyingType (.genericinst b g i')) := by
    cases b with
    | true => rfl
    | false =>
      simp only [getUnderlyingType, Bool.not_false, if_true]
      cases (typeHandle g).bind env.enumBaseType <;> rfl
  rw [sharedEnumOf, sharedEnumOf, hunder]
  rfl

theorem isReference_genericinst (b b' : Bool) (g : Il2CppType H P)
    (i i' : Option (List (Il2CppType H P))) :
    isReference (.genericinst b g i) = isReference (.genericinst b' g i') := by
  cases g <;> rfl

theorem share_genericinst {b : Bool} {g : Il2CppType H P} {argv : List (Il2CppType H P)}
    (hr : isReference (.genericinst b g (some argv)) = false)
    (he : env.sharedEnumOf (.genericinst b g (some argv)) = none) :
    env.share (.genericinst b g (some argv)) =
      .genericinst false g (some (argv.map env.share)) := by
  rw [share_eq, he]
  simp [hr]

end SharingEnv

/-! ### Type arguments -/

mutual

/-- Neither the type nor the type arguments in it are by reference. -/
def ByVal : TypeRef H P → Prop
  | .genericinst f _ _ _ argv => f.byref = false ∧ ByValArgs argv
  | type => type.flags.byref = false

/-- `ByVal` for every type of a list. -/
def ByValArgs : List (TypeRef H P) → Prop
  | [] => True
  | a :: as => ByVal a ∧ ByValArgs as

end

theorem byValArgs_iff {as : List (TypeRef H P)} : ByValArgs as ↔ ∀ a ∈ as, ByVal a := by
  induction as with
  | nil => simp [ByValArgs]
  | cons a as ih => simp [ByValArgs, ih]

namespace SharingEnv

variable (env : SharingEnv H P)

theorem share_of_isReference {t : Il2CppType H P} (h : isReference t = true) :
    env.share t = .simple false .object := by
  rw [share_eq]
  simp [h]

theorem share_of_sharedEnumOf {t : Il2CppType H P} {k : SharedEnum}
    (hr : isReference t = false) (he : env.sharedEnumOf t = some k) :
    env.share t = .valuetype false (env.sharedEnum k) := by
  rw [share_eq, he]
  simp [hr]

theorem share_eq_self {t : Il2CppType H P} (ht : ∀ b g argv, t ≠ .genericinst b g (some argv))
    (hr : isReference t = false) (he : env.sharedEnumOf t = none) : env.share t = t := by
  rw [share_eq, hr, he]
  cases t with
  | genericinst b g i =>
    cases i with
    | none => rfl
    | some argv => exact absurd rfl (ht b g argv)
  | _ => rfl

theorem share_share_of_cases {t : Il2CppType H P}
    (h : isReference t = false → env.sharedEnumOf t = none →
      env.share (env.share t) = env.share t) : env.share (env.share t) = env.share t := by
  cases hr : isReference t with
  | true => simp [env.share_of_isReference hr]
  | false =>
    cases he : env.sharedEnumOf t with
    | some k => simp [env.share_of_sharedEnumOf hr he]
    | none => exact h hr he

/-- **Sharing twice is sharing once.** -/
theorem share_share (t : TypeRef H P) (h : ByVal t) :
    env.share (env.share t.erase) = env.share t.erase := by
  refine env.share_share_of_cases fun hr he => ?_
  induction t using TypeRef.induction_args with
  | genericinst f gc d ci argv ih =>
    obtain ⟨hf, hargs⟩ := h
    simp only [TypeRef.erase, hf] at hr he ⊢
    have hfix : (TypeRef.eraseArgs argv).map (env.share ∘ env.share) =
        (TypeRef.eraseArgs argv).map env.share := by
      rw [TypeRef.eraseArgs_eq_map, List.map_map, List.map_map]
      exact List.map_congr_left fun a ha =>
        env.share_share_of_cases (ih a ha (byValArgs_iff.1 hargs a ha))
    rw [env.share_genericinst hr he, env.share_genericinst, List.map_map, hfix]
    · rw [← hr]
      exact isReference_genericinst ..
    · rw [← he]
      exact env.sharedEnumOf_genericinst ..
  | _ =>
    have hself := env.share_eq_self (by simp [TypeRef.erase]) hr he
    rw [hself, hself]

variable [LinearOrder H] [LinearOrder P]

theorem eq_erase_of_compare {d : GenericTypeDefinition H} {g : Il2CppType H P}
    (h : Il2CppType.compare d.erase g = .eq) : g = d.erase := by
  have hm := Il2CppType.matches_of_compare h
  revert hm
  unfold GenericTypeDefinition.erase
  split <;> rintro ⟨⟩ <;> rfl

/-- **Equal types share the same code.** -/
theorem sortKey_share_congr (t : TypeRef H P) (ht : t.erase.instantiated = true)
    {u : Il2CppType H P} (h : t.erase.sortKey = u.sortKey) :
    (env.share t.erase).sortKey = (env.share u).sortKey := by
  induction t using TypeRef.induction_args generalizing u with
  | simple | valuetype | klass | var | mvar =>
    have hm := Il2CppType.matches_of_sortKey_eq h
    simp only [TypeRef.erase] at hm ⊢
    cases hm
    rfl
  | ptr f e ih =>
    have hm := Il2CppType.matches_of_sortKey_eq h
    simp only [TypeRef.erase] at hm h ⊢
    cases hm
    have hself : ∀ e : Il2CppType H P, env.share (.ptr f.byref e) = .ptr f.byref e := fun e =>
      env.share_eq_self (by rintro _ _ _ ⟨⟩) rfl (by simp [sharedEnumOf, isShareableEnum, isEnum])
    rw [hself, hself, h]
  | szarray f e ih | array f e rank ih =>
    have hm := Il2CppType.matches_of_sortKey_eq h
    simp only [TypeRef.erase] at hm ⊢
    cases hm
    simp [share_eq, isReference]
  | genericinst f gc d ci argv ih =>
    have hm := Il2CppType.matches_of_sortKey_eq h
    simp only [TypeRef.erase] at hm ht ⊢
    cases hm with
    | @genericinst _ _ _ _ i2 hl hg hi =>
      obtain rfl := eq_erase_of_compare hg
      have hkeys := Il2CppType.map_sortKey_eq_of_compareArgs hl hi
      have hargs : ((TypeRef.eraseArgs argv).map env.share).map Il2CppType.sortKey =
          (i2.map env.share).map Il2CppType.sortKey := by
        rw [List.map_map, List.map_map]
        refine Il2CppType.map_congr_of_map_sortKey hkeys fun a ha b hab => ?_
        rw [TypeRef.eraseArgs_eq_map] at ha
        obtain ⟨a, hmem, rfl⟩ := List.mem_map.1 ha
        simp only [Il2CppType.instantiated, Bool.and_eq_true] at ht
        exact ih a hmem (TypeRef.hashable_iff.1 ht.2 a hmem) hab
      have hr := isReference_genericinst f.byref f.byref d.erase
        (some (TypeRef.eraseArgs argv)) (some i2)
      have he := env.sharedEnumOf_genericinst f.byref d.erase
        (some (TypeRef.eraseArgs argv)) (some i2)
      rw [share_eq, share_eq, ← hr, ← he]
      split_ifs
      · rfl
      · cases env.sharedEnumOf (.genericinst f.byref d.erase (some (TypeRef.eraseArgs argv))) with
        | some k => rfl
        | none => exact Il2CppType.sortKey_genericinst_congr false rfl hargs
  | genericinstNull f gc d => simp [TypeRef.erase, Il2CppType.instantiated] at ht

end SharingEnv

/-! ### Types that share code -/

/-- An enum by value, or an enum nested in a generic type, over the underlying type of a shared
enum. -/
inductive EnumOver (env : SharingEnv H P) (k : SharedEnum) : TypeRef H P → Prop
  | valuetype {f : TypeFlags} {h : H} {b : Bool} :
      f.byref = false → env.enumBaseType h = some (.simple b k.tag) →
      EnumOver env k (.valuetype f h)
  | genericinst {f : TypeFlags} {gc ci : ℕ} {h : H} {b : Bool} {argv : List (TypeRef H P)} :
      f.byref = false → env.enumBaseType h = some (.simple b k.tag) →
      EnumOver env k (.genericinst f gc ⟨true, h⟩ ci argv)

mutual

/-- Two types share code. -/
inductive Agree (env : SharingEnv H P) : TypeRef H P → TypeRef H P → Prop
  /-- Two reference types. -/
  | reference {t u : TypeRef H P} :
      isReference t.erase = true → isReference u.erase = true → Agree env t u
  /-- Two enums over one underlying type. -/
  | enum {t u : TypeRef H P} (k : SharedEnum) : env.enablePrimitiveValueTypeGenericSharing = true →
      EnumOver env k t → EnumOver env k u → Agree env t u
  /-- Two equal types. -/
  | equal {t u : TypeRef H P} : t.SameKey u → Agree env t u
  /-- Two instances of one generic value type whose arguments agree. -/
  | genericinst {f f' : TypeFlags} {gc gc' ci ci' : ℕ} {h : H} {argv argv' : List (TypeRef H P)} :
      f.byref = f'.byref → AgreeArgs env argv argv' →
      Agree env (.genericinst f gc ⟨true, h⟩ ci argv) (.genericinst f' gc' ⟨true, h⟩ ci' argv')

/-- Two lists of types agree position by position. -/
inductive AgreeArgs (env : SharingEnv H P) : List (TypeRef H P) → List (TypeRef H P) → Prop
  | nil : AgreeArgs env [] []
  | cons {a b : TypeRef H P} {as bs : List (TypeRef H P)} :
      Agree env a b → AgreeArgs env as bs → AgreeArgs env (a :: as) (b :: bs)

end

section

variable (env : SharingEnv H P)

theorem switchUnderlying_eq_some_iff {t : Il2CppType H P} {k : SharedEnum} :
    SharingEnv.switchUnderlying t = some k ↔ ∃ b, t = .simple b k.tag := by
  constructor
  · intro h
    unfold SharingEnv.switchUnderlying at h
    split at h <;> cases h <;> exact ⟨_, rfl⟩
  · rintro ⟨b, rfl⟩
    cases k <;> rfl

theorem sharedEnumOf_eq_some_iff {t : TypeRef H P} (ht : t.erase.instantiated = true)
    {k : SharedEnum} : env.sharedEnumOf t.erase = some k ↔
      env.enablePrimitiveValueTypeGenericSharing = true ∧ EnumOver env k t := by
  constructor
  · intro h
    rw [SharingEnv.sharedEnumOf] at h
    split_ifs at h with hgate henum
    refine ⟨hgate, ?_⟩
    obtain ⟨b, h⟩ := switchUnderlying_eq_some_iff.1 h
    cases t with
    | valuetype f h' =>
      simp only [TypeRef.erase, SharingEnv.getUnderlyingType] at h
      obtain ⟨base, hbase⟩ := Option.isSome_iff_exists.1 henum
      cases hf : f.byref with
      | true => simp [hf] at h
      | false => exact .valuetype hf (by simpa [hf, hbase] using h)
    | genericinst f gc d ci argv =>
      obtain ⟨valuetype, h'⟩ := d
      cases valuetype with
      | false => simp [TypeRef.erase, GenericTypeDefinition.erase, SharingEnv.isShareableEnum,
          SharingEnv.isEnum] at henum
      | true =>
        simp only [TypeRef.erase, SharingEnv.getUnderlyingType, GenericTypeDefinition.erase,
          if_true, typeHandle, Option.bind_some] at h
        obtain ⟨base, hbase⟩ := Option.isSome_iff_exists.1 henum
        cases hf : f.byref with
        | true => simp [hf] at h
        | false => exact .genericinst hf (by simpa [hf, hbase] using h)
    | genericinstNull f gc d => simp [TypeRef.erase, Il2CppType.instantiated] at ht
    | _ => simp [TypeRef.erase, SharingEnv.isShareableEnum, SharingEnv.isEnum] at henum
  · rintro ⟨hgate, hf, hbase⟩ <;>
      simp only [SharingEnv.sharedEnumOf, TypeRef.erase, GenericTypeDefinition.erase,
        SharingEnv.isShareableEnum, SharingEnv.isEnum, SharingEnv.getUnderlyingType, *,
        if_true, typeHandle, Option.bind_some, Bool.not_false, Option.isSome_some,
        Option.getD_some] <;>
      exact switchUnderlying_eq_some_iff.2 ⟨_, rfl⟩

theorem isReference_genericinst_erase (b : Bool) (d : GenericTypeDefinition H)
    (i : Option (List (Il2CppType H P))) :
    isReference (.genericinst b d.erase i) = !d.valuetype := by
  obtain ⟨_ | _, h⟩ := d <;> rfl

theorem EnumOver.isReference_eq_false {k : SharedEnum} {t : TypeRef H P} (h : EnumOver env k t) :
    isReference t.erase = false := by
  cases h with
  | valuetype => rfl
  | genericinst => exact isReference_genericinst_erase _ _ _

theorem share_of_enumOver {t : TypeRef H P} (ht : t.erase.instantiated = true) {k : SharedEnum}
    (hgate : env.enablePrimitiveValueTypeGenericSharing = true) (h : EnumOver env k t) :
    env.share t.erase = .valuetype false (env.sharedEnum k) :=
  env.share_of_sharedEnumOf (h.isReference_eq_false env)
    ((sharedEnumOf_eq_some_iff env ht).2 ⟨hgate, h⟩)

variable [LinearOrder H] [LinearOrder P]

theorem Agree.sortKey_share {t u : TypeRef H P} (h : Agree env t u)
    (ht : t.erase.instantiated = true) (hu : u.erase.instantiated = true) :
    (env.share t.erase).sortKey = (env.share u.erase).sortKey := by
  induction h using Agree.rec (motive_2 := fun as bs _ =>
    Hashable as → Hashable bs → ((TypeRef.eraseArgs as).map env.share).map Il2CppType.sortKey =
      ((TypeRef.eraseArgs bs).map env.share).map Il2CppType.sortKey) with
  | reference ht' hu' => rw [env.share_of_isReference ht', env.share_of_isReference hu']
  | enum k hgate ht' hu' =>
    rw [share_of_enumOver env ht hgate ht', share_of_enumOver env hu hgate hu']
  | equal h => exact env.sortKey_share_congr _ ht h
  | @genericinst f f' gc gc' ci ci' h argv argv' hf hargs ih =>
    simp only [TypeRef.erase, hf] at ht hu ⊢
    have hargs := ih (Bool.and_eq_true _ _ ▸ ht).2 (Bool.and_eq_true _ _ ▸ hu).2
    have hr (i : Option (List (Il2CppType H P))) :
        isReference (.genericinst f'.byref (GenericTypeDefinition.erase ⟨true, h⟩) i) = false :=
      isReference_genericinst_erase ..
    have he := env.sharedEnumOf_genericinst f'.byref (GenericTypeDefinition.erase ⟨true, h⟩)
      (some (TypeRef.eraseArgs argv)) (some (TypeRef.eraseArgs argv'))
    cases hnone : env.sharedEnumOf (.genericinst f'.byref (GenericTypeDefinition.erase ⟨true, h⟩)
        (some (TypeRef.eraseArgs argv))) with
    | some k =>
      rw [env.share_of_sharedEnumOf (hr _) hnone, env.share_of_sharedEnumOf (hr _) (he ▸ hnone)]
    | none =>
      rw [env.share_genericinst (hr _) hnone, env.share_genericinst (hr _) (he ▸ hnone)]
      exact Il2CppType.sortKey_genericinst_congr false rfl hargs
  | nil => rfl
  | cons h hs ih ihs =>
    rename_i has hbs
    obtain ⟨ha, has⟩ := List.forall_mem_cons.1 (TypeRef.hashable_iff.1 has)
    obtain ⟨hb, hbs⟩ := List.forall_mem_cons.1 (TypeRef.hashable_iff.1 hbs)
    have htail := ihs (TypeRef.hashable_iff.2 has) (TypeRef.hashable_iff.2 hbs)
    simp only [TypeRef.eraseArgs, List.map_cons, ih ha hb, htail]

end

/-! ### What the code returns -/

section

variable [DecidableEq M] [LinearOrder H] [LinearOrder P] {addr : H → UInt64} {token : M → UInt64}
  {tables : InternEnv P addr token} {env : SharingEnv H P}

/-- `u` is what the loop body makes of `t`, the tables going from `s` to `s'`. -/
structure Shares (env : SharingEnv H P) (s : Tables M H P) (t u : TypeRef H P)
    (s' : Tables M H P) : Prop where
  canonical : s'.Canonical
  le : s.Le s'
  instantiated : u.erase.instantiated = true
  key : u.erase.sortKey = (env.share t.erase).sortKey

/-- `types` are what the loop makes of the arguments `as`. -/
structure SharesArgs (env : SharingEnv H P) (s : Tables M H P) (as types : List (TypeRef H P))
    (s' : Tables M H P) : Prop where
  canonical : s'.Canonical
  le : s.Le s'
  hashable : Hashable types
  keys : TypeRef.keys types = as.map fun a => (env.share a.erase).sortKey

/-- A type that the loop body replaces without looking further, or leaves alone. -/
theorem Shares.self {s : Tables M H P} (hs : s.Canonical) {t u : TypeRef H P}
    (hu : u.erase.instantiated = true) (h : env.share t.erase = u.erase) : Shares env s t u s :=
  ⟨hs, .refl s, hu, by rw [h]⟩

variable (tables env) in
theorem sharedTypes_spec {as : List (TypeRef H P)}
    (ih : ∀ a ∈ as, ∀ s : Tables M H P, s.Canonical → a.erase.instantiated = true →
      ∃ u s', sharedType tables env s a = some (u, s') ∧ Shares env s a u s')
    (s : Tables M H P) (hs : s.Canonical) (has : Hashable as) :
    ∃ types s', sharedTypes tables env s as = some (types, s') ∧
      SharesArgs env s as types s' := by
  induction as generalizing s with
  | nil => exact ⟨[], s, rfl, hs, .refl s, rfl, rfl⟩
  | cons a as ihas =>
    obtain ⟨ha, has⟩ := List.forall_mem_cons.1 (TypeRef.hashable_iff.1 has)
    obtain ⟨u, s₁, hu, h⟩ := ih a List.mem_cons_self s hs ha
    obtain ⟨types, s₂, htypes, hr⟩ := ihas (fun b hb => ih b (List.mem_cons_of_mem _ hb)) s₁
      h.canonical (TypeRef.hashable_iff.2 has)
    refine ⟨u :: types, s₂, by simp [sharedTypes, hu, htypes], hr.canonical, h.le.trans hr.le,
      ?_, ?_⟩
    · exact TypeRef.hashable_iff.2
        (List.forall_mem_cons.2 ⟨h.instantiated, TypeRef.hashable_iff.1 hr.hashable⟩)
    · rw [List.map_cons, ← hr.keys, ← h.key]
      rfl

theorem sharedType_genericinst_spec {f : TypeFlags} {gc ci : ℕ} {d : GenericTypeDefinition H}
    {argv types : List (TypeRef H P)} {s s₁ : Tables M H P}
    (hr : isReference (TypeRef.genericinst f gc d ci argv).erase = false)
    (he : env.sharedEnumOf (TypeRef.genericinst f gc d ci argv).erase = none)
    (htypes : sharedTypes tables env s argv = some (types, s₁))
    (h : SharesArgs env s argv types s₁) :
    ∃ u s', sharedType tables env s (.genericinst f gc d ci argv) = some (u, s') ∧
      Shares env s (.genericinst f gc d ci argv) u s' := by
  obtain ⟨inst, s₂, hinst⟩ := getGenericInst_isSome tables s₁ h.hashable
  obtain ⟨hs₂, hle₂, hmem, hequal, -⟩ := getGenericInst_spec h.canonical h.hashable hinst
  obtain ⟨c, s₃, hclass⟩ := getGenericClass_isSome tables hs₂ d hmem
  obtain ⟨hs₃, hle₃, hc, hequal', -⟩ := getGenericClass_spec hs₂ hmem hclass
  obtain ⟨hd, hequal'⟩ := classEqual_iff.1 hequal'
  have hd : d = c.key.type := hd
  have hhash : Hashable c.key.classInst.key := hs₃.insts.mem _ (hs₃.classes.mem c hc)
  have hkeys : TypeRef.keys c.key.classInst.key =
      argv.map fun a => (env.share a.erase).sortKey := by
    rw [← h.keys, instEqual_iff.1 hequal, ← instEqual_iff.1 hequal']
  refine ⟨.genericinst {} c.addr c.key.type c.key.classInst.addr c.key.classInst.key, s₃, ?_,
    hs₃, h.le.trans (hle₂.trans hle₃), ?_, ?_⟩
  · simp [sharedType, hr, he, htypes, hinst, hclass]
  · have hdef : (c.key.type.erase : Il2CppType H P).instantiated = true := by
      unfold GenericTypeDefinition.erase
      split <;> rfl
    simp only [TypeRef.erase, Il2CppType.instantiated, hdef, Bool.true_and]
    exact hhash
  · simp only [TypeRef.erase] at hr he ⊢
    rw [env.share_genericinst hr he, ← hd]
    refine Il2CppType.sortKey_genericinst_congr false rfl ?_
    rw [TypeRef.map_sortKey_eraseArgs, hkeys, TypeRef.eraseArgs_eq_map, List.map_map, List.map_map]
    rfl

theorem sharedType_cases {t : TypeRef H P} {s : Tables M H P} (hs : s.Canonical)
    {rest : Option (TypeRef H P × Tables M H P)}
    (heq : sharedType tables env s t = if isReference t.erase then some (.simple {} .object, s)
      else match env.sharedEnumOf t.erase with
        | some k => some (.valuetype {} (env.sharedEnum k), s)
        | none => rest)
    (hrest : isReference t.erase = false → env.sharedEnumOf t.erase = none →
      ∃ u s', rest = some (u, s') ∧ Shares env s t u s') :
    ∃ u s', sharedType tables env s t = some (u, s') ∧ Shares env s t u s' := by
  rw [heq]
  cases hr : isReference t.erase with
  | true => exact ⟨.simple {} .object, s, by simp, .self hs rfl (env.share_of_isReference hr)⟩
  | false =>
    cases he : env.sharedEnumOf t.erase with
    | some k =>
      exact ⟨.valuetype {} (env.sharedEnum k), s, by simp,
        .self hs rfl (env.share_of_sharedEnumOf hr he)⟩
    | none => simpa using hrest hr he

variable (tables env) in
/-- **The loop body returns the representative.** -/
theorem sharedType_spec (t : TypeRef H P) (s : Tables M H P) (hs : s.Canonical)
    (ht : t.erase.instantiated = true) :
    ∃ u s', sharedType tables env s t = some (u, s') ∧ Shares env s t u s' := by
  induction t using TypeRef.induction_args generalizing s with
  | genericinst f gc d ci argv ih =>
    refine sharedType_cases hs rfl fun hr he => ?_
    simp only [TypeRef.erase, Il2CppType.instantiated, Bool.and_eq_true] at ht
    obtain ⟨types, s₁, htypes, h⟩ := sharedTypes_spec tables env ih s hs ht.2
    obtain ⟨u, s', hu, h⟩ := sharedType_genericinst_spec hr he htypes h
    refine ⟨u, s', ?_, h⟩
    rw [← hu]
    simp [sharedType, hr, he]
  | genericinstNull f gc d => simp [TypeRef.erase, Il2CppType.instantiated] at ht
  | _ =>
    exact sharedType_cases hs rfl fun hr he =>
      ⟨_, s, rfl, .self hs ht (env.share_eq_self (by simp [TypeRef.erase]) hr he)⟩

variable (tables env) in
/-- **`GetSharedInst` interns the representatives of the arguments.** -/
theorem getSharedInst_spec {s : Tables M H P} (hs : s.Canonical) {inst : GenericInst H P}
    (hi : Hashable inst.key) :
    ∃ j s', getSharedInst tables env (some inst) s = some (some j, s') ∧ s'.Canonical ∧
      s.Le s' ∧ j ∈ s'.insts.entries ∧
      TypeRef.keys j.key = inst.key.map fun a => (env.share a.erase).sortKey := by
  obtain ⟨types, s₁, htypes, h⟩ := sharedTypes_spec tables env
    (fun a _ s hs ha => sharedType_spec tables env a s hs ha) s hs hi
  obtain ⟨j, s₂, hj⟩ := getGenericInst_isSome tables s₁ h.hashable
  obtain ⟨hs₂, hle, hmem, hequal, -⟩ := getGenericInst_spec h.canonical h.hashable hj
  exact ⟨j, s₂, by simp [getSharedInst, htypes, hj], hs₂, h.le.trans hle, hmem,
    by rw [← instEqual_iff.1 hequal, h.keys]⟩

theorem getSharedInst_eq_of_share_eq {s s₁ s₂ : Tables M H P} (hs : s.Canonical)
    {inst inst' j : GenericInst H P} (hi : Hashable inst.key) (hi' : Hashable inst'.key)
    (heq : (inst.key.map fun a => (env.share a.erase).sortKey) =
      inst'.key.map fun a => (env.share a.erase).sortKey)
    (hj : getSharedInst tables env (some inst) s = some (some j, s₁))
    (hs₂ : s₂.Canonical) (hle : s₁.Le s₂) :
    ∃ s₃, getSharedInst tables env (some inst') s₂ = some (some j, s₃) := by
  obtain ⟨_, _, hj', -, -, hmem, hkeys⟩ := getSharedInst_spec tables env hs hi
  cases hj.symm.trans hj'
  obtain ⟨j', s₃, hj₃, hs₃, hle₃, hmem', hkeys'⟩ :=
    getSharedInst_spec tables env hs₂ hi'
  have hkey : instEqual j.key j'.key = true := by
    rw [instEqual_iff, hkeys, hkeys', heq]
  rw [hs₃.insts.unique j (hle₃.insts (hle.insts hmem)) j' hmem' hkey]
  exact ⟨s₃, hj₃⟩

theorem AgreeArgs.share_eq {as bs : List (TypeRef H P)} (h : AgreeArgs env as bs)
    (has : Hashable as) (hbs : Hashable bs) :
    (as.map fun a => (env.share a.erase).sortKey) =
      bs.map fun b => (env.share b.erase).sortKey := by
  induction as generalizing bs with
  | nil => cases h; rfl
  | cons a as ih =>
    cases h with
    | cons hab hs =>
      obtain ⟨ha, has⟩ := List.forall_mem_cons.1 (TypeRef.hashable_iff.1 has)
      obtain ⟨hb, hbs⟩ := List.forall_mem_cons.1 (TypeRef.hashable_iff.1 hbs)
      simp only [List.map_cons, hab.sortKey_share env ha hb,
        ih hs (TypeRef.hashable_iff.2 has) (TypeRef.hashable_iff.2 hbs)]

variable (env) in
theorem share_eq_of_keys {as bs : List (TypeRef H P)} (has : ByValArgs as) (hbs : Hashable bs)
    (h : TypeRef.keys bs = as.map fun a => (env.share a.erase).sortKey) :
    (as.map fun a => (env.share a.erase).sortKey) =
      bs.map fun b => (env.share b.erase).sortKey := by
  induction as generalizing bs with
  | nil => cases bs <;> simp_all [TypeRef.keys]
  | cons a as ih =>
    cases bs with
    | nil => simp [TypeRef.keys] at h
    | cons b bs =>
      obtain ⟨hb, hbs⟩ := List.forall_mem_cons.1 (TypeRef.hashable_iff.1 hbs)
      simp only [TypeRef.keys, List.map_cons, List.cons.injEq] at h ⊢
      obtain ⟨hkey, hkeys⟩ := h
      exact ⟨by rw [env.sortKey_share_congr b hb hkey, env.share_share a has.1],
        ih has.2 (TypeRef.hashable_iff.2 hbs) hkeys⟩

variable (tables env) in
/-- **Sharing is canonical.**  From canonical tables `GetSharedInst` returns a shared instance for
every instance of the table.  At any later time it maps the shared instance to itself if the type
arguments are by value, and maps every instance whose arguments agree to the same object. -/
theorem getSharedInst_canonical {s : Tables M H P} (hs : s.Canonical) {inst : GenericInst H P}
    (hi : inst ∈ s.insts.entries) :
    ∃ shared s₁, getSharedInst tables env (some inst) s = some (some shared, s₁) ∧
      s₁.Canonical ∧ s.Le s₁ ∧ shared ∈ s₁.insts.entries ∧
      ∀ s₂ : Tables M H P, s₂.Canonical → s₁.Le s₂ →
        (ByValArgs inst.key →
          ∃ s₃, getSharedInst tables env (some shared) s₂ = some (some shared, s₃)) ∧
        ∀ inst' ∈ s₂.insts.entries, AgreeArgs env inst.key inst'.key →
          ∃ s₃, getSharedInst tables env (some inst') s₂ = some (some shared, s₃) := by
  have hhash : Hashable inst.key := hs.insts.mem _ hi
  obtain ⟨shared, s₁, hj, hs₁, hle, hmem, hkeys⟩ := getSharedInst_spec tables env hs hhash
  refine ⟨shared, s₁, hj, hs₁, hle, hmem, fun s₂ hs₂ hle₂ => ⟨fun hval => ?_, ?_⟩⟩
  · have hshared : Hashable shared.key := hs₁.insts.mem _ hmem
    exact getSharedInst_eq_of_share_eq hs hhash hshared (share_eq_of_keys env hval hshared hkeys)
      hj hs₂ hle₂
  · intro inst' hi' hagree
    have hhash' : Hashable inst'.key := hs₂.insts.mem _ hi'
    exact getSharedInst_eq_of_share_eq hs hhash hhash' (hagree.share_eq hhash hhash') hj hs₂ hle₂

end

/-! ### Concrete enums -/

/-- The place of a shared enum in `il2cpp_defaults`. -/
def SharedEnum.handle : SharedEnum → ℕ
  | sbyte => 0 | int16 => 1 | int32 => 2 | int64 => 3
  | byte => 4 | uint16 => 5 | uint32 => 6 | uint64 => 7

/-- Besides the shared enums there are two enums over `int` and two over `char`. -/
def enums (gate : Bool) : SharingEnv ℕ ℕ where
  enablePrimitiveValueTypeGenericSharing := gate
  enumBaseType
    | 0 => some (.simple false .i1)
    | 1 => some (.simple false .i2)
    | 2 => some (.simple false .i4)
    | 3 => some (.simple false .i8)
    | 4 => some (.simple false .u1)
    | 5 => some (.simple false .u2)
    | 6 => some (.simple false .u4)
    | 7 => some (.simple false .u8)
    | 8 | 9 => some (.simple false .i4)
    | 10 | 11 => some (.simple false .char)
    | _ => none
  sharedEnum := SharedEnum.handle
  enumBaseType_sharedEnum k := by cases k <;> rfl

/-- The instances `[E]` and `[F]` of two enums over `int`, made in this order. -/
def twoEnums : Tables ℕ ℕ ℕ where
  insts := ⟨[⟨1, [.valuetype {} 9]⟩, ⟨0, [.valuetype {} 8]⟩], 2⟩
  classes := .empty
  methods := .empty

theorem twoEnums_canonical : twoEnums.Canonical := by
  have h₀ : Hashable (H := ℕ) (P := ℕ) [.valuetype {} 8] := rfl
  have h₁ : Hashable (H := ℕ) (P := ℕ) [.valuetype {} 9] := rfl
  have hinit := Tables.init_canonical (M := ℕ) (H := ℕ) (P := ℕ)
  have hfirst := (getGenericInst_spec hinit h₀
    (rfl : getGenericInst InternEnv.byHash [.valuetype {} 8] .init = _)).1
  exact (getGenericInst_spec hfirst h₁
    (rfl : getGenericInst InternEnv.byHash [.valuetype {} 9] _ = _)).1

/-- `[E]` and `[F]` share the code of `[Int32Enum]`. -/
theorem getSharedInst_canonical_enums :
    ∃ (shared : GenericInst ℕ ℕ) (s₁ s₂ s₃ : Tables ℕ ℕ ℕ),
      getSharedInst .byHash (enums true) (some ⟨0, [.valuetype {} 8]⟩) twoEnums =
        some (some shared, s₁) ∧
      getSharedInst .byHash (enums true) (some ⟨1, [.valuetype {} 9]⟩) s₁ =
        some (some shared, s₂) ∧
      getSharedInst .byHash (enums true) (some shared) s₁ = some (some shared, s₃) := by
  have hfirst : (⟨0, [.valuetype {} 8]⟩ : GenericInst ℕ ℕ) ∈ twoEnums.insts.entries :=
    .tail _ (.head _)
  have hsecond : (⟨1, [.valuetype {} 9]⟩ : GenericInst ℕ ℕ) ∈ twoEnums.insts.entries := .head _
  obtain ⟨shared, s₁, h, hs₁, hle, -, hlater⟩ :=
    getSharedInst_canonical .byHash (enums true) twoEnums_canonical hfirst
  obtain ⟨hself, hagree⟩ := hlater s₁ hs₁ (.refl s₁)
  obtain ⟨s₃, h₃⟩ := hself ⟨rfl, trivial⟩
  obtain ⟨s₂, h₂⟩ := hagree _ (hle.insts hsecond)
    (.cons (.enum .int32 rfl (.valuetype rfl rfl) (.valuetype rfl rfl)) .nil)
  exact ⟨shared, s₁, s₂, s₃, h, h₂, h₃⟩

/-- The addresses of the shared instances of two instances that are made first. -/
def sharedAddrs (env : SharingEnv ℕ ℕ) (as bs : List (TypeRef ℕ ℕ)) : Option (ℕ × ℕ) := do
  let (inst, s) ← getGenericInst (M := ℕ) InternEnv.byHash as .init
  let (inst', s) ← getGenericInst .byHash bs s
  let (shared, s) ← getSharedInst .byHash env (some inst) s
  let (shared', _) ← getSharedInst .byHash env (some inst') s
  some ((← shared).addr, (← shared').addr)

/-- The addresses of the shared instance of an instance and of the shared instance of that. -/
def sharedTwice (env : SharingEnv ℕ ℕ) (as : List (TypeRef ℕ ℕ)) : Option (ℕ × ℕ) := do
  let (inst, s) ← getGenericInst (M := ℕ) InternEnv.byHash as .init
  let (shared, s) ← getSharedInst .byHash env (some inst) s
  let (shared', _) ← getSharedInst .byHash env shared s
  some ((← shared).addr, (← shared').addr)

/-- Two enums over `int` have two shared instances when the option is off, two enums over `char` in
any case, and the shared instance of a generic enum by reference is shared further. -/
theorem getSharedInst_not_canonical :
    (EnumOver (enums false) .int32 (.valuetype {} 8) ∧
      EnumOver (enums false) .int32 (.valuetype {} 9) ∧
      sharedAddrs (enums false) [.valuetype {} 8] [.valuetype {} 9] = some (0, 1)) ∧
    ((enums true).enumBaseType 10 = (enums true).enumBaseType 11 ∧
      sharedAddrs (enums true) [.valuetype {} 10] [.valuetype {} 11] = some (0, 1)) ∧
    sharedTwice (enums true) [.genericinst ⟨0, true⟩ 0 ⟨true, 8⟩ 0 [.simple {} .i4]] =
      some (2, 3) :=
  ⟨⟨.valuetype rfl rfl, .valuetype rfl rfl, rfl⟩, ⟨rfl, rfl⟩, rfl⟩

end Sharing

end Il2Cpp
