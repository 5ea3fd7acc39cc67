import Il2Cpp.Metadata.Inflate
import Il2Cpp.Metadata.GenericDepth

/-!
# Inflating runtime generic contexts

An entry of a runtime generic context is described by an `Il2CppRGCTXDefinition` of a generic method
or class, and inflated with the context of an instance of it.

* `inflateRGCTXDefinition` : what both `InflateRGCTXLocked` and `InflateOneRGCTXLocked` do for one
  definition; `inflateRGCTXLocked` inflates them all.
* `inflateIfNeeded_eq_existing_iff` : when `InflateIfNeeded` returns an object that exists.
* `inflateRGCTXDefinition_spec` : inflating a definition gives the same every time, up to the
  addresses of what it allocates.
-/

namespace Il2Cpp

/-- What the comparison sees of a type. -/
abbrev TypeKey (H P : Type) := List (Il2CppType.SortToken H P)

/-- A generic method up to structural equality. -/
structure InflatedMethod (M H P : Type) where
  methodDefinition : M
  classInst : Option (List (TypeKey H P))
  methodInst : Option (List (TypeKey H P))

/-- The method of a constrained call: a `MethodInfo` that is not inflated, or the generic method of
one that is. -/
inductive ConstrainedMethod (M H P I : Type) where
  | definition (method : I)
  | inflated (genericMethod : MethodKey M H P)

/-- `Il2CppRGCTXDefinition`, by its `type` field. -/
inductive RGCTXDefinition (M H P I : Type) where
  | type (type : TypeRef H P)
  | klass (type : TypeRef H P)
  | method (method : MethodKey M H P)
  | constrained (type : TypeRef H P) (method : ConstrainedMethod M H P I)

/-- A value of `Il2CppRGCTXData` that is not NULL. -/
inductive RGCTXData (H P K I : Type) where
  /-- A type: the existing object, or one that was allocated. -/
  | type (copy : Option ℕ) (key : TypeKey H P)
  | klass (klass : K)
  | method (method : I)
  /-- A `MethodInfo` that was allocated for a method beyond the maximum depth. -/
  | tooDeeplyNested (copy : ℕ)

/-- What an entry holds, up to structural equality. -/
inductive RGCTXContent (H P K I : Type) where
  | type (key : TypeKey H P)
  | klass (klass : K)
  | method (method : I)
  | tooDeeplyNested

variable {M H P K I : Type}

namespace RGCTXData

def content : RGCTXData H P K I → RGCTXContent H P K I
  | type _ key => .type key
  | klass k => .klass k
  | method m => .method m
  | tooDeeplyNested _ => .tooDeeplyNested

/-- The number of the object, if it was allocated for the entry. -/
def copy? : RGCTXData H P K I → Option ℕ
  | type copy _ => copy
  | tooDeeplyNested n => some n
  | _ => none

theorem eq_of_content {v w : RGCTXData H P K I} (h : v.content = w.content)
    (hc : v.copy? = w.copy?) : v = w := by
  cases v <;> cases w <;> simp_all [content, copy?]

end RGCTXData

/-- The rest of the runtime that inflating an entry goes through.  Classes and methods are
canonical: the caches have one for each key. -/
structure RGCTXEnv (M H P K I : Type) where
  /-- `Class::FromIl2CppType`. -/
  fromIl2CppType : TypeKey H P → K
  /-- `GenericMethod::GetMethod` ; NULL if the class cannot be inflated. -/
  getMethod : InflatedMethod M H P → Option I
  /-- The `valuetype` field of a type. -/
  valuetype : TypeKey H P → Bool
  /-- `Class::GetVirtualMethod`. -/
  getVirtualMethod : K → I → Option I
  /-- `Runtime::IsLazyRGCTXInflationEnabled`. -/
  lazyRGCTXInflation : Bool
  /-- `GenericMetadata::GetMaximumRuntimeGenericDepth`. -/
  maximumRuntimeGenericDepth : ℕ

/-- The interning tables, and the number of the next object that is allocated. -/
structure Metadata (M H P : Type) where
  tables : Tables M H P
  next : ℕ

/-- A generic method up to structural equality. -/
def MethodKey.inflated (k : MethodKey M H P) : InflatedMethod M H P where
  methodDefinition := k.methodDefinition
  classInst := k.classInst.map (TypeRef.keys ∘ Obj.key)
  methodInst := k.methodInst.map (TypeRef.keys ∘ Obj.key)

/-- The types of an instance, for `RecursiveGenericDepthFor`. -/
def instTypes (inst : Option (GenericInst H P)) : Option (List (Il2CppType H P)) :=
  inst.map fun i => i.key.map TypeRef.erase

section

variable [DecidableEq M] [LinearOrder H] [LinearOrder P] {addr : H → UInt64} {token : M → UInt64}
  (env : InternEnv P addr token) (num : P → ℕ) (rg : RGCTXEnv M H P K I)
  (context : GenericContext H P)

/-- Whether `InflateIfNeeded` returns a new description: the argument of a parameter is copied when
its flags differ, another type when inflating changes it. -/
def copies (type : TypeRef H P) : Bool :=
  match type with
  | .var _ p => (context.classArg num p).any fun a => decide (a.flags ≠ type.flags)
  | .mvar _ p => (context.methodArg num p).any fun a => decide (a.flags ≠ type.flags)
  | _ => !(type.erase.subst (context.subst num)).areEqual type.erase

/-- The depth test of `GenericMetadata::Inflate`. -/
def tooDeep (classInst methodInst : Option (List (Il2CppType H P))) : Bool :=
  !rg.lazyRGCTXInflation &&
    (decide (Il2CppType.instDepth classInst > rg.maximumRuntimeGenericDepth) ||
      decide (Il2CppType.instDepth methodInst > rg.maximumRuntimeGenericDepth))

/-- `GenericMetadata::Inflate` ; the result is NULL beyond the maximum depth. -/
def inflateMethod (genericMethod : MethodKey M H P) (s : Tables M H P) :
    Option (Option (Obj (MethodKey M H P)) × Tables M H P) := do
  let (classInst, s) ← getInflatedGenericIntance env num context genericMethod.classInst s
  let (methodInst, s) ← getInflatedGenericIntance env num context genericMethod.methodInst s
  if tooDeep rg (instTypes classInst) (instTypes methodInst) then some (none, s)
  else do
    let (method, s) ← getGenericMethod env genericMethod.methodDefinition classInst methodInst s
    some (some method, s)

/-- `GenericMethod::GetMethod(Inflate(genericMethod, context))`. -/
def getInflatedMethod (genericMethod : MethodKey M H P) (s : Metadata M H P) :
    Option (Option (RGCTXData H P K I) × Metadata M H P) := do
  let (gmethod, tables) ← inflateMethod env num rg context genericMethod s.tables
  match gmethod with
  | none => some (some (.tooDeeplyNested s.next), ⟨tables, s.next + 1⟩)
  | some gmethod => some ((rg.getMethod gmethod.key.inflated).map .method, ⟨tables, s.next⟩)

/-- The method of a constrained call, before it is resolved on a value type. -/
def getConstrainedMethod (s : Metadata M H P) :
    ConstrainedMethod M H P I → Option (Option (RGCTXData H P K I) × Metadata M H P)
  | .definition method => some (some (.method method), s)
  | .inflated genericMethod => getInflatedMethod env num rg context genericMethod s

/-- What `InflateRGCTXLocked` and `InflateOneRGCTXLocked` store for a definition. -/
def inflateRGCTXDefinition (s : Metadata M H P) :
    RGCTXDefinition M H P I → Option (Option (RGCTXData H P K I) × Metadata M H P)
  | .type type => do
    let (inflated, tables) ← inflateIfNeeded env num context s.tables type
    match inflated with
    | none => some (none, ⟨tables, s.next⟩)
    | some inflated =>
      if copies num context type then
        some (some (.type (some s.next) inflated.erase.sortKey), ⟨tables, s.next + 1⟩)
      else some (some (.type none inflated.erase.sortKey), ⟨tables, s.next⟩)
  | .klass type => do
    let (inflated, tables) ← inflateIfNeeded env num context s.tables type
    let inflated ← inflated
    some (some (.klass (rg.fromIl2CppType inflated.erase.sortKey)), ⟨tables, s.next⟩)
  | .method method => getInflatedMethod env num rg context method s
  | .constrained type method => do
    let (inflated, tables) ← inflateIfNeeded env num context s.tables type
    let inflatedType ← inflated
    let (method, s) ← getConstrainedMethod env num rg context ⟨tables, s.next⟩ method
    if rg.valuetype inflatedType.erase.sortKey then
      match method with
      | some (.method method) =>
        some ((rg.getVirtualMethod (rg.fromIl2CppType inflatedType.erase.sortKey) method).map
          .method, s)
      -- `method->klass` of a method that is NULL or beyond the maximum depth
      | _ => none
    else some (method, s)

/-- `GenericMetadata::InflateRGCTXLocked` : the loop over the definitions of a collection. -/
def inflateRGCTXLocked (s : Metadata M H P) :
    List (RGCTXDefinition M H P I) → Option (List (Option (RGCTXData H P K I)) × Metadata M H P)
  | [] => some ([], s)
  | definition :: items => do
    let (value, s) ← inflateRGCTXDefinition env num rg context s definition
    let (dataValues, s) ← inflateRGCTXLocked s items
    some (value :: dataValues, s)

end

/-! ### Returning an existing object -/

section

variable [DecidableEq M] [LinearOrder H] [LinearOrder P] {addr : H → UInt64} {token : M → UInt64}
  {env : InternEnv P addr token} {num : P → ℕ} {rg : RGCTXEnv M H P K I}
  {context : GenericContext H P}

variable (num context) in
/-- The object that `InflateIfNeeded` returns if it does not allocate one. -/
def existing (type : TypeRef H P) : TypeRef H P :=
  match type with
  | .var _ p => (context.classArg num p).getD type
  | .mvar _ p => (context.methodArg num p).getD type
  | _ => type

omit [DecidableEq M] [LinearOrder H] [LinearOrder P] in
theorem withFlags_eq_iff {a : TypeRef H P} {f : TypeFlags} : a.withFlags f = a ↔ a.flags = f := by
  constructor
  · intro h
    rw [← h, TypeRef.flags_withFlags]
  · rintro rfl
    exact a.withFlags_self

theorem Inflates.of_eq {s s' : Tables M H P} (hs : s.WellFormed) (hc : context.WellFormed s)
    {t : TypeRef H P} (ht : t.Interned s) (hb : context.Binds num t) {o : Option (TypeRef H P)}
    (h : inflateIfNeeded env num context s t = some (o, s')) :
    ∃ u, o = some u ∧ Inflates num context s t u s' := by
  obtain ⟨u, s₁, hu, hinf⟩ : ∃ u s₁, inflateIfNeeded env num context s t = some (some u, s₁) ∧
      Inflates num context s t u s₁ := inflateIfNeeded_spec s hs hc t ht hb
  rw [hu] at h
  cases h
  exact ⟨u, rfl, hinf⟩

theorem inflateIfNeeded_container_eq_iff (k : Container) (f : TypeFlags) {e u : TypeRef H P}
    {s s' : Tables M H P} (hs : s.WellFormed) (hc : context.WellFormed s) (he : e.Interned s)
    (hb : context.Binds num e)
    (h : inflateIfNeeded env num context s (k.of f e) = some (some u, s')) :
    u = k.of f e ↔
      (((k.of f e).erase.subst (context.subst num)).areEqual (k.of f e).erase) = true := by
  rw [inflateIfNeeded_container] at h
  obtain ⟨⟨o, s₁⟩, hw, h⟩ := Option.bind_eq_some_iff.1 h
  obtain ⟨w, rfl, hinf⟩ := Inflates.of_eq hs hc he hb hw
  have hsub : (((k.of f e).erase.subst (context.subst num)).areEqual (k.of f e).erase) = true ↔
      w.erase.areEqual e.erase = true := by
    rw [Il2CppType.areEqual_iff_sortKey, Il2CppType.areEqual_iff_sortKey, hinf.key]
    cases k <;> simp [Container.of, TypeRef.erase, Il2CppType.subst, Il2CppType.sortKey,
      Il2CppType.type, Il2CppType.byref]
  rw [hsub]
  cases heq : w.erase.areEqual e.erase with
  | true =>
    simp only [heq, Option.bind_some, Bool.not_true, Bool.false_eq_true, if_false,
      Option.some_inj, Prod.mk.injEq] at h
    simp [h.1]
  | false =>
    simp only [heq, Option.bind_some, Bool.not_false, if_true, Option.some_inj,
      Prod.mk.injEq] at h
    rw [← h.1]
    have hne : w ≠ e := by
      rintro rfl
      rw [Il2CppType.areEqual_iff_sortKey.2 rfl] at heq
      cases heq
    cases k <;> simp [Container.of, hne]

theorem inflateIfNeeded_genericinst_eq_iff {f : TypeFlags} {gc ci : ℕ}
    {d : GenericTypeDefinition H} {argv : List (TypeRef H P)} {u : TypeRef H P}
    {s s' : Tables M H P} (ht : (TypeRef.genericinst f gc d ci argv).Interned s)
    (h : Inflates num context s (.genericinst f gc d ci argv) u s') :
    u = .genericinst f gc d ci argv ↔
      ((TypeRef.genericinst f gc d ci argv).erase.subst (context.subst num)).areEqual
        (TypeRef.genericinst f gc d ci argv).erase = true := by
  rw [Il2CppType.areEqual_iff_sortKey, ← h.key]
  constructor
  · rintro rfl
    rfl
  · intro hkey
    obtain ⟨e', he', hflags⟩ := h.flags [] _ nofun rfl
    obtain rfl : u = e' := by simpa [TypeRef.occurrence] using he'
    cases u with
    | genericinst f' gc' d' ci' argv' =>
      obtain rfl : f' = f := hflags
      cases Il2CppType.matches_of_sortKey_eq hkey with
      | genericinst _ hl hg hi =>
        have hd : d' = d := (GenericTypeDefinition.areEqual_iff (P := P)).1
          (Il2CppType.areEqual_iff_sortKey.2 (Il2CppType.sortKey_eq_of_compare hg))
        have hargs : TypeRef.keys argv' = TypeRef.keys argv := by
          rw [← TypeRef.map_sortKey_eraseArgs, ← TypeRef.map_sortKey_eraseArgs]
          exact Il2CppType.map_sortKey_eq_of_compareArgs hl hi
        -- the two classes are equal, so they are one object of the table
        have hobj := h.wf.canonical.classes.unique _ h.interned.2.1 _ (h.le.classes ht.2.1)
          (classEqual_iff.2 ⟨hd, instEqual_iff.2 hargs⟩)
        cases hobj
        rfl
    | simple f' | valuetype f' | klass f' | ptr f' | szarray f' | array f' | genericinstNull f'
    | var f' | mvar f' =>
      obtain rfl : f' = f := hflags
      cases Il2CppType.matches_of_sortKey_eq hkey

/-- **`InflateIfNeeded` returns an existing object** unless it copies the type. -/
theorem inflateIfNeeded_eq_existing_iff {s s' : Tables M H P} (hs : s.WellFormed)
    (hc : context.WellFormed s) {t u : TypeRef H P} (ht : t.Interned s)
    (hb : context.Binds num t) (h : inflateIfNeeded env num context s t = some (some u, s')) :
    u = existing num context t ↔ copies num context t = false := by
  cases t with
  | simple f tag | valuetype f k | klass f k =>
    cases h
    simp [existing, copies, TypeRef.erase, Il2CppType.subst, Il2CppType.areEqual_iff_sortKey]
  | ptr f e =>
    refine (inflateIfNeeded_container_eq_iff (e := e) .ptr f hs hc ht hb h).trans ?_
    simp [copies, Container.of]
  | szarray f e =>
    refine (inflateIfNeeded_container_eq_iff (e := e) .szarray f hs hc ht hb h).trans ?_
    simp [copies, Container.of]
  | array f e rank =>
    refine (inflateIfNeeded_container_eq_iff (e := e) (.array rank) f hs hc ht hb h).trans ?_
    simp [copies, Container.of]
  | genericinst f gc d ci argv =>
    obtain ⟨w, hw, hinf⟩ := Inflates.of_eq hs hc ht hb h
    cases hw
    refine (inflateIfNeeded_genericinst_eq_iff ht hinf).trans ?_
    simp [copies]
  | genericinstNull f gc d => exact hb.elim
  | var f p =>
    obtain ⟨a, ha⟩ := Option.isSome_iff_exists.1 (hb : context.BindsVar num p)
    have ha' : (context.classInst.bind fun i => i.key[num p]?) = some a := ha
    simp only [inflateIfNeeded, inflateGenericParameterIfNeeded_eq, ha', Option.map_some,
      Option.bind_eq_bind, Option.bind_some, Option.some_inj, Prod.mk.injEq] at h
    rw [← h.1]
    simp [existing, copies, ha, withFlags_eq_iff]
  | mvar f p =>
    cases hm : context.methodInst with
    | none =>
      simp only [inflateIfNeeded, hm, Option.some_inj, Prod.mk.injEq] at h
      simp [existing, copies, GenericContext.methodArg, hm, ← h.1]
    | some i =>
      obtain ⟨a, ha⟩ := Option.isSome_iff_exists.1
        ((hb : context.BindsMvar num p) (by simp [hm]))
      have ha' : (context.methodInst.bind fun i => i.key[num p]?) = some a := ha
      rw [hm] at ha'
      simp only [inflateIfNeeded, hm, inflateGenericParameterIfNeeded_eq, ha', Option.map_some,
        Option.bind_eq_bind, Option.bind_some, Option.some_inj, Prod.mk.injEq] at h
      rw [← h.1]
      simp [existing, copies, ha, withFlags_eq_iff]

end

/-- `T := int`. -/
def intContext : GenericContext ℕ ℕ := ⟨some ⟨0, [.simple {} .i4]⟩, none⟩

theorem intContext_wellFormed (s : Tables ℕ ℕ ℕ) : intContext.WellFormed s := by
  have harg (a : TypeRef ℕ ℕ) (ha : intContext.Arg a) : a = .simple {} .i4 := by
    obtain ⟨_, ⟨⟩, ha⟩ | ⟨_, ⟨⟩, _⟩ := ha
    exact List.mem_singleton.1 ha
  exact ⟨fun a ha => harg a ha ▸ trivial, fun a ha => harg a ha ▸ trivial⟩

theorem inflateIfNeeded_eq_existing_iff_szarray : ∃ u s',
    inflateIfNeeded .byHash id intContext (.init : Tables ℕ ℕ ℕ) (.szarray {} (.var {} 0)) =
      some (some u, s') ∧
    (u = existing id intContext (.szarray {} (.var {} 0)) ↔
      copies id intContext (.szarray {} (.var {} 0)) = false) := by
  obtain ⟨u, s', hu⟩ : ∃ u s', inflateIfNeeded .byHash id intContext (.init : Tables ℕ ℕ ℕ)
      (.szarray {} (.var {} 0)) = some (some u, s') := ⟨_, _, rfl⟩
  exact ⟨u, s', hu, inflateIfNeeded_eq_existing_iff Tables.init_wellFormed
    (intContext_wellFormed _) trivial rfl hu⟩

/-! ### What is stored -/

section

variable [DecidableEq M] [LinearOrder H] [LinearOrder P] {addr : H → UInt64} {token : M → UInt64}
  (num : P → ℕ) (rg : RGCTXEnv M H P K I) (context : GenericContext H P)

/-- The key of an inflated type. -/
def substKey (type : TypeRef H P) : TypeKey H P :=
  (type.erase.subst (context.subst num)).sortKey

/-- The types of an inflated instance. -/
def substInst (inst : Option (GenericInst H P)) : Option (List (Il2CppType H P)) :=
  inst.map fun i => i.key.map fun a => a.erase.subst (context.subst num)

/-- The inflated method is beyond the maximum depth. -/
def MethodKey.tooDeep (method : MethodKey M H P) : Bool :=
  Il2Cpp.tooDeep rg (substInst num context method.classInst)
    (substInst num context method.methodInst)

/-- What is stored for a method. -/
def MethodKey.content (method : MethodKey M H P) : Option (RGCTXContent H P K I) :=
  if method.tooDeep num rg context then some .tooDeeplyNested
  else (rg.getMethod ⟨method.methodDefinition,
    (substInst num context method.classInst).map (List.map Il2CppType.sortKey),
    (substInst num context method.methodInst).map (List.map Il2CppType.sortKey)⟩).map .method

namespace ConstrainedMethod

def content : ConstrainedMethod M H P I → Option (RGCTXContent H P K I)
  | .definition m => some (.method m)
  | .inflated g => g.content num rg context

def tooDeep : ConstrainedMethod M H P I → Bool
  | .definition _ => false
  | .inflated g => g.tooDeep num rg context

end ConstrainedMethod

namespace RGCTXDefinition

/-- What is stored for a definition, up to structural equality; `none` if inflating it faults. -/
def content : RGCTXDefinition M H P I → Option (Option (RGCTXContent H P K I))
  | .type t => some (some (.type (substKey num context t)))
  | .klass t => some (some (.klass (rg.fromIl2CppType (substKey num context t))))
  | .method m => some (m.content num rg context)
  | .constrained t m =>
    if rg.valuetype (substKey num context t) then
      match m.content num rg context with
      | some (.method m) =>
        some ((rg.getVirtualMethod (rg.fromIl2CppType (substKey num context t)) m).map .method)
      | _ => none
    else some (m.content num rg context)

/-- What is stored for a definition is allocated for it. -/
def allocates : RGCTXDefinition M H P I → Bool
  | .type t => copies num context t
  | .klass _ => false
  | .method m => m.tooDeep num rg context
  | .constrained t m => !rg.valuetype (substKey num context t) && m.tooDeep num rg context

end RGCTXDefinition

variable (s : Tables M H P)

/-- A type of a definition: its generic classes are in the tables, and the context has arguments
for its parameters. -/
def TypeProper (t : TypeRef H P) : Prop := t.Interned s ∧ context.Binds num t

def MethodProper (method : MethodKey M H P) : Prop :=
  (∀ i ∈ method.classInst, ∀ a ∈ i.key, TypeProper num context s a) ∧
    ∀ i ∈ method.methodInst, ∀ a ∈ i.key, TypeProper num context s a

def ConstrainedMethod.Proper : ConstrainedMethod M H P I → Prop
  | .definition _ => True
  | .inflated g => MethodProper num context s g

/-- The types of a definition are as the metadata has them. -/
def RGCTXDefinition.Proper : RGCTXDefinition M H P I → Prop
  | .type t | .klass t => TypeProper num context s t
  | .method m => MethodProper num context s m
  | .constrained t m => TypeProper num context s t ∧ m.Proper num context s

variable {num rg context s} {s' : Tables M H P} {env : InternEnv P addr token}

omit [DecidableEq M] [LinearOrder H] [LinearOrder P] in
theorem TypeProper.mono (hle : s.Le s') {type : TypeRef H P} (h : TypeProper num context s type) :
    TypeProper num context s' type :=
  ⟨h.1.mono hle, h.2⟩

omit [DecidableEq M] [LinearOrder H] [LinearOrder P] in
theorem MethodProper.mono (hle : s.Le s') {method : MethodKey M H P}
    (h : MethodProper num context s method) : MethodProper num context s' method :=
  ⟨fun i hi a ha => (h.1 i hi a ha).mono hle, fun i hi a ha => (h.2 i hi a ha).mono hle⟩

omit [DecidableEq M] [LinearOrder H] [LinearOrder P] in
theorem ConstrainedMethod.Proper.mono (hle : s.Le s') {m : ConstrainedMethod M H P I}
    (h : m.Proper num context s) : m.Proper num context s' := by
  cases m with
  | definition => trivial
  | inflated => exact MethodProper.mono hle h

omit [DecidableEq M] [LinearOrder H] [LinearOrder P] in
theorem RGCTXDefinition.Proper.mono (hle : s.Le s') {d : RGCTXDefinition M H P I}
    (h : d.Proper num context s) : d.Proper num context s' := by
  cases d with
  | type | klass => exact TypeProper.mono hle h
  | method => exact MethodProper.mono hle h
  | constrained => exact ⟨h.1.mono hle, h.2.mono hle⟩

theorem getInflatedGenericIntance_types (hs : s.WellFormed) (hc : context.WellFormed s)
    {inst j : Option (GenericInst H P)}
    (hi : ∀ i ∈ inst, ∀ a ∈ i.key, TypeProper num context s a)
    (h : getInflatedGenericIntance env num context inst s = some (j, s')) :
    s'.WellFormed ∧ s.Le s' ∧ (∀ i ∈ j, i ∈ s'.insts.entries) ∧
      j.map (TypeRef.keys ∘ Obj.key) =
        (substInst num context inst).map (List.map Il2CppType.sortKey) := by
  cases inst with
  | none =>
    cases h
    exact ⟨hs, .refl s, nofun, rfl⟩
  | some i =>
    have hi := hi i rfl
    obtain ⟨args, s₁, hargs, hinf⟩ :
        ∃ args s₁, inflateArgs env num context s i.key = some (args, s₁) ∧
          InflatesArgs num context s i.key args s₁ :=
      inflateArgs_spec (fun a _ s hs hc hi hb => inflateIfNeeded_spec s hs hc a hi hb) s hs hc
        (fun a ha => (hi a ha).1) fun a ha => (hi a ha).2
    obtain ⟨o, s₂, ho, hs₂, hle, hmem, hkeys⟩ := hinf.getGenericInst env
    simp only [getInflatedGenericIntance, Option.bind_eq_bind, hargs, ho, Option.bind_some,
      Option.some_inj, Prod.mk.injEq] at h
    obtain ⟨rfl, rfl⟩ := h
    refine ⟨hs₂, hinf.le.trans hle, ?_, ?_⟩
    · rintro _ ⟨⟩
      exact hmem
    · simp [substInst, ← hkeys, hinf.keys]

omit [DecidableEq M] in
theorem instDepth_instTypes {inst j : Option (GenericInst H P)}
    (h : j.map (TypeRef.keys ∘ Obj.key) =
      (substInst num context inst).map (List.map Il2CppType.sortKey)) :
    Il2CppType.instDepth (instTypes j) = Il2CppType.instDepth (substInst num context inst) := by
  cases j with
  | none =>
    cases inst with
    | none => rfl
    | some => cases h
  | some j =>
    cases inst with
    | none => cases h
    | some i =>
      refine Il2CppType.instDepth_congr ?_
      simpa [substInst, TypeRef.keys, Function.comp_def] using h

theorem Tables.WellFormed.getGenericMethod {m : M} {ci mi : Option (GenericInst H P)}
    {o : Obj (MethodKey M H P)} (hs : s.WellFormed) (hk : MethodKey.Interned s.insts ⟨m, ci, mi⟩)
    (h : Il2Cpp.getGenericMethod env m ci mi s = some (o, s')) :
    s'.WellFormed ∧ s.Le s' ∧ o.key.inflated = MethodKey.inflated ⟨m, ci, mi⟩ := by
  obtain ⟨hcan, hle, hmem, hequal⟩ := getGenericMethod_spec hs.canonical hk h
  have hinsts : s'.insts = s.insts := by
    simp only [getGenericMethod_eq, Option.map_eq_some_iff, Prod.mk.injEq] at h
    obtain ⟨r, _, _, rfl⟩ := h
    rfl
  obtain ⟨hdef, hclass, hmethod⟩ := methodEqual_iff.1 hequal
  have hm := hcan.methods.mem o hmem
  rw [hinsts] at hm
  refine ⟨⟨hcan, fun e he a ha => (hs.interned e (hinsts ▸ he) a ha).mono hle⟩, hle, ?_⟩
  simp only [MethodKey.inflated, ← (map_addr_eq_iff hs.canonical.insts hk.1 hm.1).1 hclass,
    ← (map_addr_eq_iff hs.canonical.insts hk.2 hm.2).1 hmethod, ← hdef]

theorem inflateMethod_spec (hs : s.WellFormed) (hc : context.WellFormed s) {m : MethodKey M H P}
    (hm : MethodProper num context s m) {o : Option (Obj (MethodKey M H P))}
    (h : inflateMethod env num rg context m s = some (o, s')) :
    s'.WellFormed ∧ s.Le s' ∧ o.map (fun o => o.key.inflated) =
      if m.tooDeep num rg context then none
      else some ⟨m.methodDefinition,
        (substInst num context m.classInst).map (List.map Il2CppType.sortKey),
        (substInst num context m.methodInst).map (List.map Il2CppType.sortKey)⟩ := by
  simp only [inflateMethod, Option.bind_eq_bind, Option.bind_eq_some_iff, Prod.exists] at h
  obtain ⟨ci, s₁, hci, mi, s₂, hmi, h⟩ := h
  obtain ⟨hs₁, hle₁, hmem₁, hkeys₁⟩ := getInflatedGenericIntance_types hs hc hm.1 hci
  obtain ⟨hs₂, hle₂, hmem₂, hkeys₂⟩ := getInflatedGenericIntance_types hs₁ (hc.mono hle₁)
    (hm.mono hle₁).2 hmi
  have hle := hle₁.trans hle₂
  have hdeep : tooDeep rg (instTypes ci) (instTypes mi) =
      m.tooDeep num rg context := by
    rw [MethodKey.tooDeep, tooDeep, tooDeep, instDepth_instTypes hkeys₁,
      instDepth_instTypes hkeys₂]
  rw [hdeep] at h
  split_ifs at h ⊢ with hd
  · cases h
    exact ⟨hs₂, hle, rfl⟩
  · obtain ⟨⟨g, s₃⟩, hg, h⟩ := Option.bind_eq_some_iff.1 h
    cases h
    obtain ⟨hs₃, hle₃, hinf⟩ := hs₂.getGenericMethod
      ⟨fun i hi => hle₂.insts (hmem₁ i hi), hmem₂⟩ hg
    refine ⟨hs₃, hle.trans hle₃, ?_⟩
    rw [Option.map_some, hinf]
    simp only [MethodKey.inflated, hkeys₁, hkeys₂]

/-- What inflating an entry does: the value has a content, and is allocated or not. -/
structure Stores (s : Metadata M H P) (content : Option (RGCTXContent H P K I)) (allocates : Bool)
    (v : Option (RGCTXData H P K I)) (s' : Metadata M H P) : Prop where
  wf : s'.tables.WellFormed
  le : s.tables.Le s'.tables
  content_eq : v.map RGCTXData.content = content
  copy : v.bind RGCTXData.copy? = if allocates then some s.next else none
  next : s'.next = s.next + allocates.toNat

theorem getInflatedMethod_spec {s s' : Metadata M H P} (hs : s.tables.WellFormed)
    (hc : context.WellFormed s.tables) {m : MethodKey M H P}
    (hm : MethodProper num context s.tables m) {v : Option (RGCTXData H P K I)}
    (h : getInflatedMethod env num rg context m s = some (v, s')) :
    Stores s (m.content num rg context) (m.tooDeep num rg context) v s' := by
  simp only [getInflatedMethod, Option.bind_eq_bind, Option.bind_eq_some_iff, Prod.exists] at h
  obtain ⟨o, t, ho, h⟩ := h
  obtain ⟨hwf, hle, hkey⟩ := inflateMethod_spec hs hc hm ho
  rw [MethodKey.content]
  cases o with
  | none =>
    cases h
    split_ifs at hkey with hd
    · rw [if_pos hd, hd]
      exact ⟨hwf, hle, rfl, rfl, rfl⟩
    · cases hkey
  | some o =>
    cases h
    split_ifs at hkey with hd
    · cases hkey
    · rw [Option.map_some, Option.some_inj] at hkey
      rw [if_neg hd, Bool.eq_false_iff.2 hd, hkey]
      refine ⟨hwf, hle, ?_, ?_, rfl⟩
      · rw [Option.map_map]
        rfl
      · cases rg.getMethod _ <;> rfl

omit [DecidableEq M] [LinearOrder H] [LinearOrder P] in
theorem ConstrainedMethod.tooDeep_of_content {m : ConstrainedMethod M H P I} {i : I}
    (h : m.content num rg context = some (.method i)) : m.tooDeep num rg context = false := by
  cases m with
  | definition => rfl
  | inflated g =>
    rw [content, MethodKey.content] at h
    split_ifs at h with hdeep
    · cases h
    · exact Bool.eq_false_iff.2 hdeep

theorem getConstrainedMethod_spec {s s' : Metadata M H P} (hs : s.tables.WellFormed)
    (hc : context.WellFormed s.tables) {m : ConstrainedMethod M H P I}
    (hm : m.Proper num context s.tables) {v : Option (RGCTXData H P K I)}
    (h : getConstrainedMethod env num rg context s m = some (v, s')) :
    Stores s (m.content num rg context) (m.tooDeep num rg context) v s' := by
  cases m with
  | definition i =>
    cases h
    exact ⟨hs, .refl _, rfl, rfl, rfl⟩
  | inflated g => exact getInflatedMethod_spec hs hc hm h

/-- **Inflating a definition** stores the same every time, up to what it allocates. -/
theorem inflateRGCTXDefinition_spec {s s' : Metadata M H P} (hs : s.tables.WellFormed)
    (hc : context.WellFormed s.tables) {d : RGCTXDefinition M H P I}
    (hd : d.Proper num context s.tables) {v : Option (RGCTXData H P K I)}
    (h : inflateRGCTXDefinition env num rg context s d = some (v, s')) :
    ∃ c, d.content num rg context = some c ∧ Stores s c (d.allocates num rg context) v s' := by
  -- inflating the type of a definition
  have htype {t : TypeRef H P} (ht : TypeProper num context s.tables t)
      {o : Option (TypeRef H P)} {tables : Tables M H P}
      (h : inflateIfNeeded env num context s.tables t = some (o, tables)) :
      ∃ u, o = some u ∧ tables.WellFormed ∧ s.tables.Le tables ∧
        u.erase.sortKey = substKey num context t := by
    obtain ⟨u, rfl, hinf⟩ := Inflates.of_eq hs hc ht.1 ht.2 h
    exact ⟨u, rfl, hinf.wf, hinf.le, hinf.key⟩
  cases d with
  | type t =>
    simp only [inflateRGCTXDefinition, Option.bind_eq_bind, Option.bind_eq_some_iff,
      Prod.exists] at h
    obtain ⟨o, tables, ho, h⟩ := h
    obtain ⟨u, rfl, hwf, hle, hkey⟩ := htype hd ho
    refine ⟨_, rfl, ?_⟩
    rw [RGCTXDefinition.allocates]
    simp only [hkey] at h
    split_ifs at h with hcopy
    · cases h
      exact ⟨hwf, hle, rfl, by rw [hcopy]; rfl, by rw [hcopy]; rfl⟩
    · cases h
      rw [Bool.not_eq_true] at hcopy
      exact ⟨hwf, hle, rfl, by rw [hcopy]; rfl, by rw [hcopy]; rfl⟩
  | klass t =>
    simp only [inflateRGCTXDefinition, Option.bind_eq_bind, Option.bind_eq_some_iff,
      Prod.exists] at h
    obtain ⟨o, tables, ho, u', hu', h⟩ := h
    obtain ⟨u, rfl, hwf, hle, hkey⟩ := htype hd ho
    cases hu'
    cases h
    exact ⟨_, rfl, hwf, hle, by rw [← hkey]; rfl, rfl, rfl⟩
  | method m =>
    exact ⟨_, rfl, getInflatedMethod_spec hs hc hd h⟩
  | constrained t m =>
    simp only [inflateRGCTXDefinition, Option.bind_eq_bind, Option.bind_eq_some_iff,
      Prod.exists] at h
    obtain ⟨o, tables, ho, u', hu', method, s₁, hm, h⟩ := h
    obtain ⟨u, rfl, hwf, hle, hkey⟩ := htype hd.1 ho
    cases hu'
    rw [hkey] at h
    have hst := getConstrainedMethod_spec hwf (hc.mono hle) (hd.2.mono hle) hm
    rw [RGCTXDefinition.content, RGCTXDefinition.allocates]
    cases hv : rg.valuetype (substKey num context t) with
    | false =>
      simp only [hv, Bool.false_eq_true, if_false, Option.some_inj, Prod.mk.injEq] at h
      obtain ⟨rfl, rfl⟩ := h
      exact ⟨_, rfl, hst.wf, hle.trans hst.le, hst.content_eq, hst.copy, hst.next⟩
    | true =>
      -- the method is resolved on the value type
      simp only [hv, if_true] at h
      cases method with
      | none => cases h
      | some w =>
        cases w with
        | type | klass | tooDeeplyNested => cases h
        | method i =>
          cases h
          have hci : m.content num rg context = some (.method i) := hst.content_eq.symm
          rw [hci]
          refine ⟨_, rfl, hst.wf, hle.trans hst.le, ?_, ?_, ?_⟩
          · rw [Option.map_map]
            rfl
          · cases rg.getVirtualMethod _ i <;> rfl
          · rw [hst.next, ConstrainedMethod.tooDeep_of_content hci]
            rfl

omit [DecidableEq M] [LinearOrder H] [LinearOrder P] in
theorem MethodKey.content_ne_klass (m : MethodKey M H P) (k : K) :
    m.content num rg context ≠ some (.klass k) := by
  intro h
  rw [content] at h
  split_ifs at h
  · cases h
  · cases hi : rg.getMethod _ <;> rw [hi] at h <;> cases h

omit [DecidableEq M] [LinearOrder H] [LinearOrder P] in
theorem ConstrainedMethod.content_ne_klass (m : ConstrainedMethod M H P I) (k : K) :
    m.content num rg context ≠ some (.klass k) := by
  cases m with
  | definition => nofun
  | inflated g => exact g.content_ne_klass k

omit [DecidableEq M] [LinearOrder H] [LinearOrder P] in
theorem RGCTXDefinition.eq_klass_of_content {d : RGCTXDefinition M H P I} {k : K}
    (h : d.content num rg context = some (some (.klass k))) : ∃ t, d = .klass t := by
  cases d with
  | klass t => exact ⟨t, rfl⟩
  | type => cases h
  | method m => exact absurd (Option.some_inj.1 h) (m.content_ne_klass k)
  | constrained t m =>
    rw [content] at h
    split_ifs at h with hv
    · cases hm : m.content num rg context with
      | none =>
        rw [hm] at h
        cases h
      | some c =>
        rw [hm] at h
        cases c with
        | method i => simp at h
        | type | klass | tooDeeplyNested => cases h
    · exact absurd (Option.some_inj.1 h) (m.content_ne_klass k)

theorem inflateRGCTXLocked_spec {s s' : Metadata M H P} (hs : s.tables.WellFormed)
    (hc : context.WellFormed s.tables) {items : List (RGCTXDefinition M H P I)}
    (hd : ∀ d ∈ items, d.Proper num context s.tables) {values : List (Option (RGCTXData H P K I))}
    (h : inflateRGCTXLocked env num rg context s items = some (values, s')) {index : ℕ}
    {d : RGCTXDefinition M H P I} (hi : items[index]? = some d) :
    ∃ v, values[index]? = some v ∧
      d.content num rg context = some (v.map RGCTXData.content) := by
  induction items generalizing s values index with
  | nil => cases hi
  | cons item items ih =>
    simp only [inflateRGCTXLocked, Option.bind_eq_bind, Option.bind_eq_some_iff,
      Prod.exists] at h
    obtain ⟨v, s₁, hv, values', s₂, hvalues, h⟩ := h
    cases h
    obtain ⟨c, hcontent, hst⟩ := inflateRGCTXDefinition_spec hs hc (hd item List.mem_cons_self) hv
    cases index with
    | zero =>
      cases hi
      exact ⟨v, rfl, by rw [hcontent, hst.content_eq]⟩
    | succ index =>
      exact ih hst.wf (hc.mono hst.le)
        (fun d hd' => (hd d (List.mem_cons_of_mem _ hd')).mono hst.le) hvalues hi

end

end Il2Cpp
