import Il2Cpp.LTS.Basic
import Il2Cpp.LTS.Walk
import Il2Cpp.Metadata.RGCTX
import Il2Cpp.Metadata.TypeHeight

/-!
# The expansion of generic methods

Inflating the entries of a generic method's runtime generic context requests other generic methods,
whose entries request more.  `GenericMetadata::Inflate` cuts this off by the depth of the generic
instances, into which arrays and pointers do not count.

* `inflate` : `GenericMetadata::Inflate` on instantiations up to structural equality;
  `inflateMethod_eq_inflate` connects it with the tables.
* `Definitions.Reaches` : the generic methods that inflating entries creates.
* `Il2CppType.blank` : forgets what arrays and pointers contain, which the depth guard does not see.
* `Definitions.Expands` : along requests that lead back to the same instantiation, up to what arrays
  and pointers contain, an argument grows into itself.
-/

namespace Il2Cpp

namespace Il2CppType

variable {H P : Type}

mutual

/-- Forget what arrays and pointers contain. -/
def blank : Il2CppType H P → Il2CppType H P
  | .ptr b _ | .szarray b _ | .array b _ _ => .simple b .end
  | .genericinst b g (some i) => .genericinst b g (some (blankArgs i))
  | t => t

/-- `blank` on every type of a list. -/
def blankArgs : List (Il2CppType H P) → List (Il2CppType H P)
  | [] => []
  | a :: as => blank a :: blankArgs as

end

theorem blankArgs_eq_map (as : List (Il2CppType H P)) : blankArgs as = as.map blank := by
  induction as with
  | nil => rfl
  | cons a as ih => rw [blankArgs, ih, List.map_cons]

theorem blank_withByref (b : Bool) (t : Il2CppType H P) :
    (t.withByref b).blank = t.blank.withByref b := by
  cases t with
  | genericinst b' g i => cases i <;> rfl
  | simple | valuetype | klass | ptr | szarray | array | var | mvar => rfl

theorem blank_blank (t : Il2CppType H P) : t.blank.blank = t.blank := by
  induction t using induction_args with
  | simple | valuetype | klass | ptr | szarray | array | genericNull | var | mvar => rfl
  | genericinst b g i ih =>
    simp only [blank, blankArgs_eq_map, List.map_map, Function.comp_def, List.map_congr_left ih]

theorem recursiveGenericDepthFor_blank (t : Il2CppType H P) :
    recursiveGenericDepthFor t.blank = recursiveGenericDepthFor t := by
  induction t using induction_args with
  | simple | valuetype | klass | ptr | szarray | array | genericNull | var | mvar => rfl
  | genericinst b g i ih =>
    have hi : i.map (recursiveGenericDepthFor ∘ blank) = i.map recursiveGenericDepthFor :=
      List.map_congr_left ih
    rw [blank, recursiveGenericDepthFor, recursiveGenericDepthFor, maximumDepth_eq,
      maximumDepth_eq, blankArgs_eq_map, List.map_map, hi]

theorem instDepth_blank (inst : Option (List (Il2CppType H P))) :
    instDepth (inst.map (List.map blank)) = instDepth inst := by
  cases inst with
  | none => rfl
  | some i =>
    simp only [instDepth, Option.map_some, Option.elim_some, maximumDepth_eq, List.map_map,
      Function.comp_def, recursiveGenericDepthFor_blank]

theorem recursiveGenericDepthFor_le_maximumDepth {a : Il2CppType H P}
    {as : List (Il2CppType H P)} (h : a ∈ as) : recursiveGenericDepthFor a ≤ maximumDepth as := by
  induction as with
  | nil => cases h
  | cons b as ih =>
    rw [maximumDepth]
    rcases List.mem_cons.1 h with rfl | h
    · exact le_max_left _ _
    · exact (ih h).trans (le_max_right _ _)

theorem heightLe_blank {t : Il2CppType H P} {n : ℕ} (h : recursiveGenericDepthFor t ≤ n) :
    HeightLe n t.blank := by
  induction t using induction_args generalizing n with
  | simple | valuetype | klass | ptr | szarray | array | genericNull | var | mvar =>
    exact heightLe_of_children_eq_nil rfl
  | genericinst b g i ih =>
    rw [recursiveGenericDepthFor] at h
    obtain ⟨n, rfl⟩ := Nat.exists_eq_add_one.2 (Nat.zero_lt_of_lt h)
    rw [blank, blankArgs_eq_map]
    intro c hc
    obtain ⟨a, ha, rfl⟩ := List.mem_map.1 hc
    exact ih a ha ((recursiveGenericDepthFor_le_maximumDepth ha).trans
      (Nat.le_of_succ_le_succ h))

theorem Over.blank {shapes : Set (Il2CppType H P)} {t : Il2CppType H P} (h : Over shapes t) :
    Over (insert (.simple false .end) shapes) t.blank := by
  induction t using induction_args with
  | simple | valuetype | klass | genericNull | var | mvar => exact h.mono (Set.subset_insert _ _)
  | ptr | szarray | array => exact ⟨Set.mem_insert _ _, by simp [Il2CppType.blank, children]⟩
  | genericinst b g i ih =>
    obtain ⟨hshape, hchildren⟩ := h
    rw [Il2CppType.blank, blankArgs_eq_map]
    refine ⟨Set.mem_insert_of_mem _ (by simpa [shape] using hshape), fun c hc => ?_⟩
    obtain ⟨a, ha, rfl⟩ := List.mem_map.1 hc
    exact ih a ha (hchildren a ha)

end Il2CppType

/-- The substitution of the types with arrays and pointers forgotten. -/
def TypeSubst.blank {H P : Type} (σ : TypeSubst H P) : TypeSubst H P where
  var p := (σ.var p).map Il2CppType.blank
  mvar p := (σ.mvar p).map Il2CppType.blank

theorem Il2CppType.blank_subst {H P : Type} (σ : TypeSubst H P) (t : Il2CppType H P) :
    (t.subst σ).blank = t.blank.subst σ.blank := by
  induction t using induction_args with
  | simple | valuetype | klass | ptr | szarray | array | genericNull => rfl
  | genericinst b g i ih =>
    simp only [subst, blank, substArgs_eq_map, blankArgs_eq_map, List.map_map,
      Function.comp_def, List.map_congr_left ih]
  | var b p =>
    simp only [subst, TypeSubst.blank, blank]
    cases σ.var p with
    | none => rfl
    | some a => exact blank_withByref b a
  | mvar b p =>
    simp only [subst, TypeSubst.blank, blank]
    cases σ.mvar p with
    | none => rfl
    | some a => exact blank_withByref b a

namespace Expansion

variable {M H P : Type}

/-- A generic method with its arguments: `Il2CppGenericMethod` up to structural equality. -/
structure Instantiation (M H P : Type) where
  methodDefinition : M
  classInst : Option (List (Il2CppType H P))
  methodInst : Option (List (Il2CppType H P))

/-- A generic parameter of the class or of the method, by its number. -/
inductive Slot where
  | cls (n : ℕ)
  | mth (n : ℕ)
  deriving DecidableEq

/-- `Il2CppRGCTXDefinition`, by its `type` field.  The method of a constrained call is `none` if it
is not inflated. -/
inductive Entry (M H P : Type) where
  | type (type : Il2CppType H P)
  | klass (type : Il2CppType H P)
  | method (method : Instantiation M H P)
  | constrained (type : Il2CppType H P) (method : Option (Instantiation M H P))

namespace Instantiation

variable (s : Instantiation M H P)

/-- The argument for a parameter. -/
def arg : Slot → Option (Il2CppType H P)
  | .cls n => s.classInst.bind fun i => i[n]?
  | .mth n => s.methodInst.bind fun i => i[n]?

/-- What inflating replaces the parameters by; `num` is the number of a parameter. -/
def subst (num : P → ℕ) : TypeSubst H P where
  var p := s.arg (.cls (num p))
  mvar p := s.arg (.mth (num p))

/-- The same method with other types. -/
def map (f : Il2CppType H P → Il2CppType H P) : Instantiation M H P :=
  ⟨s.methodDefinition, s.classInst.map (List.map f), s.methodInst.map (List.map f)⟩

/-- All arguments. -/
def args : List (Il2CppType H P) := s.classInst.getD [] ++ s.methodInst.getD []

/-- The instantiation up to the comparison of types. -/
def key : InflatedMethod M H P :=
  ⟨s.methodDefinition, s.classInst.map (List.map Il2CppType.sortKey),
    s.methodInst.map (List.map Il2CppType.sortKey)⟩

/-- Forget what the arrays and the pointers contain. -/
def blank : Instantiation M H P := s.map Il2CppType.blank

end Instantiation

/-- The depth test of `GenericMetadata::Inflate` passes. -/
def Shallow (maximumDepth : ℕ) (s : Instantiation M H P) : Prop :=
  Il2CppType.instDepth s.classInst ≤ maximumDepth ∧
    Il2CppType.instDepth s.methodInst ≤ maximumDepth

instance (maximumDepth : ℕ) (s : Instantiation M H P) : Decidable (Shallow maximumDepth s) :=
  inferInstanceAs (Decidable (_ ∧ _))

/-- `GenericMetadata::Inflate` with the arguments of `s`, inflation not being lazy. -/
def inflate (num : P → ℕ) (maximumDepth : ℕ) (s genericMethod : Instantiation M H P) :
    Option (Instantiation M H P) :=
  let method := genericMethod.map (Il2CppType.subst (s.subst num))
  if Shallow maximumDepth method then some method else none

/-- The generic methods of the metadata, with the definitions of their entries. -/
structure Definitions (M H P : Type) where
  rgctxs : M → List (Entry M H P)
  /-- The class that declares a method. -/
  declaringType : M → GenericTypeDefinition H
  /-- The number of a parameter. -/
  num : P → ℕ

/-- The generic method that an entry inflates. -/
def Entry.request : Entry M H P → Option (Instantiation M H P)
  | .method m => some m
  | .constrained _ m => m
  | .type _ | .klass _ => none

/-- The types that an entry inflates. -/
def Entry.types : Entry M H P → List (Il2CppType H P)
  | .type t | .klass t => [t]
  | .method m => m.args
  | .constrained t m => t :: m.elim [] Instantiation.args

/-- The parameter, of the class or of the method. -/
def slotOf (num : P → ℕ) : P ⊕ P → Slot
  | .inl p => .cls (num p)
  | .inr p => .mth (num p)

/-- The argument for `i` goes into the argument for `j` of a request, which is larger if it
`grows`. -/
def Goes (num : P → ℕ) (r : Instantiation M H P) (i : Slot) (grows : Bool) (j : Slot) : Prop :=
  ∃ t path e q, r.arg j = some t ∧ t.occurrence path = some e ∧ e.parameter? = some q ∧
    slotOf num q = i ∧ grows = !path.isEmpty

namespace Definitions

variable (md : Definitions M H P) (maximumDepth : ℕ)

/-- What inflating the entries of a method requests. -/
def requests (m : M) : List (Instantiation M H P) := (md.rgctxs m).filterMap Entry.request

/-- Inflating an entry of a generic method creates another one. -/
def lts : LTS (Instantiation M H P) (Instantiation M H P) where
  step s r t := r ∈ md.requests s.methodDefinition ∧ inflate md.num maximumDepth s r = some t

/-- The generic methods that inflating entries creates. -/
def Reaches (start s : Instantiation M H P) : Prop := (md.lts maximumDepth).Reachable start s

/-- The class that declares a generic method, as a type. -/
def declaringClass (s : Instantiation M H P) : Option (Il2CppType H P) :=
  s.classInst.map fun i => .genericinst false (md.declaringType s.methodDefinition).erase (some i)

/-- The types that are made for a generic method: of its entries and of its declaring class. -/
def types (s : Instantiation M H P) : List (Il2CppType H P) :=
  (md.rgctxs s.methodDefinition).flatMap (fun entry =>
    entry.types.map (Il2CppType.subst (s.subst md.num))) ++ (md.declaringClass s).toList

/-- **The generic methods** created from one by inflating entries. -/
def createdMethods (start : Instantiation M H P) : Set (InflatedMethod M H P) :=
  Instantiation.key '' {s | md.Reaches maximumDepth start s}

/-- **The generic classes** created by inflating entries: all generic instances in the types. -/
def createdClasses (start : Instantiation M H P) : Set (TypeKey H P) :=
  {k | ∃ s, md.Reaches maximumDepth start s ∧ ∃ t ∈ md.types s, ∃ path b g i,
    t.occurrence path = some (.genericinst b g i) ∧
      (Il2CppType.genericinst b g i).sortKey = k}

/-- Inflating entries, with what arrays and pointers contain forgotten. -/
def blankLts : LTS (Instantiation M H P) (Instantiation M H P) where
  step s r t := r ∈ md.requests s.methodDefinition ∧
    (inflate md.num maximumDepth s r).map Instantiation.blank = some t

/-- A request takes an argument of an instantiation into one of the next. -/
def Flow (u : Instantiation M H P × Slot) (grows : Bool) (v : Instantiation M H P × Slot) : Prop :=
  ∃ r, (md.blankLts maximumDepth).step u.1 r v.1 ∧ Goes md.num r u.2 grows v.2

/-- **An expanding cycle**: requests that lead back to the same method with the same arguments, up
to what arrays and pointers contain, along which an argument goes into itself and grows. -/
def Expands (start : Instantiation M H P) : Prop :=
  ∃ s, (md.blankLts maximumDepth).Reachable start.blank s ∧
    ∃ i n, 0 < n ∧ Walk (md.Flow maximumDepth) (s, i) n (s, i)

end Definitions

/-! ### The tables -/

section

variable {K I : Type} [DecidableEq M] [LinearOrder H] [LinearOrder P] {addr : H → UInt64}
  {token : M → UInt64} {env : InternEnv P addr token} {num : P → ℕ} {rg : RGCTXEnv M H P K I}
  {context : GenericContext H P} {s s' : Tables M H P}

/-- A generic method without the addresses of its instances. -/
def ofMethodKey (k : MethodKey M H P) : Instantiation M H P :=
  ⟨k.methodDefinition, instTypes k.classInst, instTypes k.methodInst⟩

/-- A generic method in whose context entries are inflated. -/
def ofContext (m : M) (context : GenericContext H P) : Instantiation M H P :=
  ⟨m, instTypes context.classInst, instTypes context.methodInst⟩

omit [DecidableEq M] [LinearOrder H] [LinearOrder P] in
theorem subst_ofContext (m : M) : (ofContext m context).subst num = context.subst num := by
  have harg (inst : Option (GenericInst H P)) (n : ℕ) :
      ((instTypes inst).bind fun i => i[n]?) =
        (inst.bind fun i => i.key[n]?).map TypeRef.erase := by
    cases inst <;> simp [instTypes]
  simp only [Instantiation.subst, GenericContext.subst, Instantiation.arg, ofContext, harg,
    GenericContext.classArg, GenericContext.methodArg]

omit [DecidableEq M] [LinearOrder H] [LinearOrder P] in
theorem map_arg_congr {x y : Instantiation M H P} (h : x.key = y.key) (i : Slot) :
    (x.arg i).map Il2CppType.sortKey = (y.arg i).map Il2CppType.sortKey := by
  have hinst {a b : Option (List (Il2CppType H P))} (h : a.map (List.map Il2CppType.sortKey) =
      b.map (List.map Il2CppType.sortKey)) (n : ℕ) :
      (a.bind fun i => i[n]?).map Il2CppType.sortKey =
        (b.bind fun i => i[n]?).map Il2CppType.sortKey := by
    cases a with
    | none =>
      cases b with
      | none => rfl
      | some b => cases h
    | some a =>
      cases b with
      | none => cases h
      | some b =>
        have h : a.map Il2CppType.sortKey = b.map Il2CppType.sortKey := Option.some.inj h
        simp only [Option.bind_some, ← List.getElem?_map, h]
  obtain ⟨-, hclass, hmethod⟩ := InflatedMethod.mk.inj h
  cases i with
  | cls n => exact hinst hclass n
  | mth n => exact hinst hmethod n

omit [DecidableEq M] in
theorem instDepth_congr_of_keys {a b : Option (List (Il2CppType H P))}
    (h : a.map (List.map Il2CppType.sortKey) = b.map (List.map Il2CppType.sortKey)) :
    Il2CppType.instDepth a = Il2CppType.instDepth b := by
  cases a with
  | none =>
    cases b with
    | none => rfl
    | some b => cases h
  | some a =>
    cases b with
    | none => cases h
    | some b => exact Il2CppType.instDepth_congr (Option.some.inj h)

/-- **`GenericMetadata::Inflate`** with the arguments of a generic method gives the object for the
instantiation, or NULL. -/
theorem inflateMethod_eq_inflate (hlazy : rg.lazyRGCTXInflation = false) (hs : s.WellFormed)
    (hc : context.WellFormed s) {m : MethodKey M H P} (hm : MethodProper num context s m)
    {o : Option (Obj (MethodKey M H P))}
    (h : inflateMethod env num rg context m s = some (o, s')) {caller : M}
    {x : Instantiation M H P} (hx : x.key = (ofContext caller context).key) :
    o.map (fun o => o.key.inflated) =
      (inflate num rg.maximumRuntimeGenericDepth x (ofMethodKey m)).map Instantiation.key := by
  obtain ⟨-, -, ho⟩ := inflateMethod_spec hs hc hm h
  -- equal arguments are put in for the parameters
  have htype {a : TypeRef H P} (ha : TypeProper num context s a) :
      (a.erase.subst (x.subst num)).sortKey = (a.erase.subst (context.subst num)).sortKey := by
    rw [← subst_ofContext caller]
    exact Il2CppType.subst_congr (fun p _ => map_arg_congr hx (.cls (num p)))
      (fun p _ => map_arg_congr hx (.mth (num p))) _ ha.2
  have hinst {inst : Option (GenericInst H P)}
      (hi : ∀ i ∈ inst, ∀ a ∈ i.key, TypeProper num context s a) :
      ((instTypes inst).map (List.map (Il2CppType.subst (x.subst num)))).map
          (List.map Il2CppType.sortKey) =
        (substInst num context inst).map (List.map Il2CppType.sortKey) := by
    cases inst with
    | none => rfl
    | some i =>
      simp only [instTypes, substInst, Option.map_some, List.map_map, Option.some.injEq]
      exact List.map_congr_left fun a ha => htype (hi i rfl a ha)
  have hdeep : m.tooDeep num rg context = false ↔ Shallow rg.maximumRuntimeGenericDepth
      ((ofMethodKey m).map (Il2CppType.subst (x.subst num))) := by
    simp [MethodKey.tooDeep, tooDeep, hlazy, Shallow, Instantiation.map, ofMethodKey,
      instDepth_congr_of_keys (hinst hm.1), instDepth_congr_of_keys (hinst hm.2)]
  rw [ho, inflate]
  cases h : m.tooDeep num rg context with
  | true =>
    rw [if_pos rfl, if_neg fun hshallow => by simp [hdeep.2 hshallow] at h]
    rfl
  | false =>
    rw [if_neg Bool.false_ne_true, if_pos (hdeep.1 h), Option.map_some, Instantiation.key,
      Instantiation.map, ofMethodKey, hinst hm.1, hinst hm.2]

end

/-- A generic method of `T`. -/
def genericMethod : MethodKey ℕ ℕ ℕ := ⟨7, none, some ⟨0, [.var {} 0]⟩⟩

/-- Methods are inflated up to a depth of 5. -/
def depthEnv : RGCTXEnv ℕ ℕ ℕ ℕ ℕ :=
  ⟨fun _ => 0, fun _ => none, fun _ => false, fun _ _ => none, false, 5⟩

theorem inflateMethod_eq_inflate_int : ∃ o s',
    inflateMethod .byHash id depthEnv intContext genericMethod .init = some (o, s') ∧
    o.map (fun o => o.key.inflated) =
      (inflate id 5 (ofContext 3 intContext) (ofMethodKey genericMethod)).map Instantiation.key := by
  have hm : MethodProper id intContext (.init : Tables ℕ ℕ ℕ) genericMethod := by
    refine ⟨nofun, fun i hi a ha => ?_⟩
    obtain rfl := Option.some.inj hi
    obtain rfl := List.mem_singleton.1 ha
    exact ⟨trivial, rfl⟩
  obtain ⟨o, s', h⟩ : ∃ o s', inflateMethod .byHash id depthEnv intContext genericMethod .init =
      some (o, s') := ⟨_, _, rfl⟩
  exact ⟨o, s', h, inflateMethod_eq_inflate rfl Tables.init_wellFormed (intContext_wellFormed _) hm
    h rfl⟩

/-! ### Forgetting arrays and pointers -/

namespace Instantiation

theorem arg_map (s : Instantiation M H P) (f : Il2CppType H P → Il2CppType H P) (i : Slot) :
    (s.map f).arg i = (s.arg i).map f := by
  obtain ⟨m, ci, mi⟩ := s
  cases i with
  | cls n => cases ci <;> simp [arg, map]
  | mth n => cases mi <;> simp [arg, map]

theorem map_map (s : Instantiation M H P) (f g : Il2CppType H P → Il2CppType H P) :
    (s.map f).map g = s.map (g ∘ f) := by
  simp [map, Function.comp_def]

theorem subst_blank (s : Instantiation M H P) (num : P → ℕ) :
    s.blank.subst num = (s.subst num).blank := by
  simp only [subst, TypeSubst.blank, blank, arg_map]

theorem blank_blank (s : Instantiation M H P) : s.blank.blank = s.blank := by
  have hblank : (Il2CppType.blank ∘ Il2CppType.blank : Il2CppType H P → Il2CppType H P) =
      Il2CppType.blank := funext Il2CppType.blank_blank
  rw [blank, blank, map_map, hblank]

theorem get_subst (s : Instantiation M H P) (num : P → ℕ) (q : P ⊕ P) :
    (s.subst num).get q = s.arg (slotOf num q) := by
  cases q <;> rfl

theorem mem_args {s : Instantiation M H P} {a : Il2CppType H P} :
    a ∈ s.args ↔ ∃ i, s.arg i = some a := by
  have hinst (inst : Option (List (Il2CppType H P))) :
      a ∈ inst.getD [] ↔ ∃ n : ℕ, (inst.bind fun i => i[n]?) = some a := by
    cases inst <;> simp [List.mem_iff_getElem?]
  rw [args, List.mem_append, hinst, hinst]
  constructor
  · rintro (⟨n, h⟩ | ⟨n, h⟩)
    · exact ⟨.cls n, h⟩
    · exact ⟨.mth n, h⟩
  · rintro ⟨n | n, h⟩
    · exact .inl ⟨n, h⟩
    · exact .inr ⟨n, h⟩

end Instantiation

theorem shallow_blank {maximumDepth : ℕ} {s : Instantiation M H P} :
    Shallow maximumDepth s.blank ↔ Shallow maximumDepth s := by
  simp only [Shallow, Instantiation.blank, Instantiation.map, Il2CppType.instDepth_blank]

theorem inflate_eq_some {num : P → ℕ} {maximumDepth : ℕ} {s r t : Instantiation M H P}
    (h : inflate num maximumDepth s r = some t) :
    r.map (Il2CppType.subst (s.subst num)) = t ∧ Shallow maximumDepth t := by
  rw [inflate, Option.ite_none_right_eq_some] at h
  obtain ⟨hshallow, ht⟩ := h
  obtain rfl := Option.some.inj ht
  exact ⟨rfl, hshallow⟩

/-- What a request becomes, up to what arrays and pointers contain, does not depend on what they
contain. -/
theorem inflate_blank_congr {num : P → ℕ} {maximumDepth : ℕ} {s t : Instantiation M H P}
    (h : s.blank = t.blank) (r : Instantiation M H P) :
    (inflate num maximumDepth s r).map Instantiation.blank =
      (inflate num maximumDepth t r).map Instantiation.blank := by
  have hσ : (s.subst num).blank = (t.subst num).blank := by
    rw [← s.subst_blank, h, t.subst_blank]
  have hm : (r.map (Il2CppType.subst (s.subst num))).blank =
      (r.map (Il2CppType.subst (t.subst num))).blank := by
    simp only [Instantiation.blank, Instantiation.map_map, Function.comp_def,
      Il2CppType.blank_subst, hσ]
  have hd : Shallow maximumDepth (r.map (Il2CppType.subst (s.subst num))) ↔
      Shallow maximumDepth (r.map (Il2CppType.subst (t.subst num))) := by
    rw [← shallow_blank, hm, shallow_blank]
  simp only [inflate]
  by_cases hs : Shallow maximumDepth (r.map (Il2CppType.subst (s.subst num)))
  · rw [if_pos hs, if_pos (hd.1 hs), Option.map_some, Option.map_some, hm]
  · rw [if_neg hs, if_neg (hs ∘ hd.2)]

section

variable {md : Definitions M H P} {maximumDepth : ℕ} {s t start B : Instantiation M H P}
  {r : Instantiation M H P}

theorem blank_step (h : (md.lts maximumDepth).step s r t) :
    (md.blankLts maximumDepth).step s.blank r t.blank :=
  ⟨h.1, by rw [inflate_blank_congr s.blank_blank, h.2, Option.map_some]⟩

/-- A request of what is left of an instantiation can be made of the instantiation itself. -/
theorem exists_step_of_blank (h : (md.blankLts maximumDepth).step s.blank r t) :
    ∃ t', (md.lts maximumDepth).step s r t' ∧ t'.blank = t := by
  obtain ⟨hr, ht⟩ := h
  rw [inflate_blank_congr s.blank_blank] at ht
  obtain ⟨t', ht', rfl⟩ := Option.map_eq_some_iff.1 ht
  exact ⟨t', ⟨hr, ht'⟩, rfl⟩

theorem blank_reachable (h : md.Reaches maximumDepth start s) :
    (md.blankLts maximumDepth).Reachable start.blank s.blank := by
  induction h with
  | init => exact .init
  | step _ _ hst ih => exact .step ih trivial (blank_step hst)

theorem exists_of_blank_reachable (h : (md.blankLts maximumDepth).Reachable start.blank B) :
    ∃ s, md.Reaches maximumDepth start s ∧ s.blank = B := by
  induction h with
  | init => exact ⟨start, .init, rfl⟩
  | step _ _ hst ih =>
    obtain ⟨s, hs, rfl⟩ := ih
    obtain ⟨t, ht, hblank⟩ := exists_step_of_blank hst
    exact ⟨t, .step hs trivial ht, hblank⟩

end

end Expansion

end Il2Cpp
