import Il2Cpp.Metadata.Inflate

/-!
# Types at the depth limit

A generic instance that is too deeply nested is generated without its `class_inst`: the NULL stands
inside an otherwise valid type, and the functions that walk over types may meet it.

* `Il2CppType.compareDeref` : the comparison, with each read of a `class_inst` as a step that may
  fault; it never does (`compareDeref_eq`).
* `TypeRef.Inflatable` : when inflating a type meets no NULL: no instance that is cut off is an
  element type, and none comes to be where the arguments of an instance are hashed.
* `depthLimit_iff` : `InflateIfNeeded`, `GetInflatedGenericIntance`, `Hash` and the comparison.
-/

namespace Il2Cpp

variable {M H P : Type}

/-! ### The comparison -/

namespace Il2CppType

section

variable [LinearOrder H] [LinearOrder P]

mutual

/-- `Compare` on types, `none` where it dereferences a NULL `class_inst`. -/
def compareDeref (t1 t2 : Il2CppType H P) : Option Ordering :=
  match compareValue t1.type t2.type with
  | .eq =>
    match compareValue t1.byref t2.byref with
    | .eq =>
      match t1, t2 with
      | valuetype _ h1, valuetype _ h2 | klass _ h1, klass _ h2 => some (compareValue h1 h2)
      | ptr _ e1, ptr _ e2 | szarray _ e1, szarray _ e2 => compareDeref e1 e2
      | array _ e1 r1, array _ e2 r2 =>
        match compareValue r1 r2 with
        | .eq => compareDeref e1 e2
        | result => some result
      | genericinst _ g1 i1, genericinst _ g2 i2 =>
        -- this happens when maximum generic recursion is hit
        if i1.isNone || i2.isNone then
          some (if i1.isNone && i2.isNone then .eq else if i1.isNone then .lt else .gt)
        else
          match i1, i2 with
          | some argv1, some argv2 =>
            match compareValue argv1.length argv2.length with
            | .eq =>
              match compareDeref g1 g2 with
              | some .eq => compareArgsDeref argv1 argv2
              | result => result
            | result => some result
          -- `i1->type_argc` with a NULL among the two
          | _, _ => none
      | var _ p1, var _ p2 | mvar _ p1, mvar _ p2 => some (compareValue p1 p2)
      | _, _ => some .eq
    | result => some result
  | result => some result

/-- The loop over the type arguments of two instances with the same `type_argc`. -/
def compareArgsDeref : List (Il2CppType H P) → List (Il2CppType H P) → Option Ordering
  | a :: as, b :: bs =>
    match compareDeref a b with
    | some .eq => compareArgsDeref as bs
    | result => result
  | _, _ => some .eq

end

mutual

theorem compareDeref_eq (t1 t2 : Il2CppType H P) : compareDeref t1 t2 = some (compare t1 t2) := by
  unfold compareDeref compare
  cases htype : compareValue t1.type t2.type with
  | lt => rfl
  | gt => rfl
  | eq =>
    cases compareValue t1.byref t2.byref with
    | lt => rfl
    | gt => rfl
    | eq =>
      cases sameKind_of_type_eq (compareValue_eq_iff.1 htype) with
      | simple | valuetype | klass | var | mvar => rfl
      | ptr _ _ e1 e2 => exact compareDeref_eq e1 e2
      | szarray _ _ e1 e2 => exact compareDeref_eq e1 e2
      | array _ _ e1 e2 r1 r2 =>
        dsimp only
        cases compareValue r1 r2 with
        | lt => rfl
        | gt => rfl
        | eq => exact compareDeref_eq e1 e2
      | genericinst _ _ g1 g2 i1 i2 =>
        match i1, i2 with
        | none, none | none, some _ | some _, none => rfl
        | some argv1, some argv2 =>
          dsimp only [Option.isNone, Bool.or_self]
          rw [if_neg Bool.false_ne_true]
          cases compareValue argv1.length argv2.length with
          | lt => rfl
          | gt => rfl
          | eq =>
            dsimp only
            rw [compareDeref_eq g1 g2]
            cases compare g1 g2 with
            | lt => rfl
            | gt => rfl
            | eq => exact compareArgsDeref_eq argv1 argv2

theorem compareArgsDeref_eq (as bs : List (Il2CppType H P)) :
    compareArgsDeref as bs = some (compareArgs as bs) := by
  cases as with
  | nil => rfl
  | cons a as =>
    cases bs with
    | nil => rfl
    | cons b bs =>
      rw [compareArgsDeref, compareArgs, compareDeref_eq a b]
      cases compare a b with
      | eq => exact compareArgsDeref_eq as bs
      | lt => rfl
      | gt => rfl

end

end

end Il2CppType

/-! ### Inflating -/

namespace Il2CppType

theorem instantiated_congr [LinearOrder H] [LinearOrder P] {t u : Il2CppType H P}
    (h : t.sortKey = u.sortKey) : t.instantiated = u.instantiated := by
  have heq : compare t u = .eq := by simpa [areEqual] using areEqual_iff_sortKey.2 h
  rw [← hash_isSome_iff (fun _ => 0), ← hash_isSome_iff (fun _ => 0), hash_eq_of_compare _ heq]

end Il2CppType

namespace TypeRef

/-- The instance was cut off: its `class_inst` is NULL. -/
def cutOff : TypeRef H P → Bool
  | genericinstNull .. => true
  | _ => false

section

variable (num : P → ℕ) (context : GenericContext H P)

mutual

/-- Inflating the type meets no NULL.  The parameters are bound, an element type is not cut off
itself, and with the parameters replaced the arguments of an instance have a hash. -/
def Inflatable : TypeRef H P → Prop
  | var _ p => context.BindsVar num p
  | mvar _ p => context.BindsMvar num p
  | ptr _ e | szarray _ e | array _ e _ => Inflatable e ∧ e.cutOff = false
  | genericinst _ _ _ _ argv => InflatableArgs argv
  | _ => True

/-- Inflating and hashing a list of type arguments meets no NULL. -/
def InflatableArgs : List (TypeRef H P) → Prop
  | [] => True
  | a :: as => (Inflatable a ∧ (a.erase.subst (context.subst num)).instantiated = true) ∧
      InflatableArgs as

end

end

theorem inflatableArgs_iff {num : P → ℕ} {context : GenericContext H P} {as : List (TypeRef H P)} :
    InflatableArgs num context as ↔
      ∀ a ∈ as, Inflatable num context a ∧
        (a.erase.subst (context.subst num)).instantiated = true := by
  induction as with
  | nil => simp [InflatableArgs]
  | cons a as ih => simp [InflatableArgs, ih]

mutual

/-- The addresses in the description are those of its own objects: a class of the table at the
address of one of its classes is that class. -/
def Placed (s : Tables M H P) : TypeRef H P → Prop
  | ptr _ e | szarray _ e | array _ e _ => Placed s e
  | genericinst _ gc d ci argv =>
    (gc < s.classes.next ∧ ∀ c ∈ s.classes.entries, c.addr = gc → c.key = ⟨d, ⟨ci, argv⟩⟩) ∧
      PlacedArgs s argv
  | _ => True

/-- `Placed` for every type of a list. -/
def PlacedArgs (s : Tables M H P) : List (TypeRef H P) → Prop
  | [] => True
  | a :: as => Placed s a ∧ PlacedArgs s as

end

theorem placedArgs_iff {s : Tables M H P} {as : List (TypeRef H P)} :
    PlacedArgs s as ↔ ∀ a ∈ as, Placed s a := by
  induction as with
  | nil => simp [PlacedArgs]
  | cons a as ih => simp [PlacedArgs, ih]

end TypeRef

/-- The classes that the tables have gained are at new addresses. -/
structure Tables.Grows (s s' : Tables M H P) : Prop where
  next : s.classes.next ≤ s'.classes.next
  fresh : ∀ c ∈ s'.classes.entries, c ∈ s.classes.entries ∨ s.classes.next ≤ c.addr

theorem Tables.Grows.refl (s : Tables M H P) : s.Grows s := ⟨le_rfl, fun _ h => .inl h⟩

theorem Tables.Grows.trans {s s' s'' : Tables M H P} (h : s.Grows s') (h' : s'.Grows s'') :
    s.Grows s'' where
  next := h.next.trans h'.next
  fresh c hc := by
    rcases h'.fresh c hc with hc | hc
    · exact h.fresh c hc
    · exact .inr (h.next.trans hc)

theorem TypeRef.Placed.mono {s s' : Tables M H P} (hg : s.Grows s') (t : TypeRef H P)
    (h : t.Placed s) : t.Placed s' := by
  induction t using induction_args with
  | simple | valuetype | klass | genericinstNull | var | mvar => trivial
  | ptr f e ih | szarray f e ih | array f e rank ih => exact ih h
  | genericinst f gc d ci argv ih =>
    simp only [Placed, placedArgs_iff] at h ⊢
    obtain ⟨⟨hlt, hclass⟩, hargs⟩ := h
    refine ⟨⟨hlt.trans_le hg.next, fun c hc haddr => ?_⟩, fun a ha => ih a ha (hargs a ha)⟩
    rcases hg.fresh c hc with hc | hc
    · exact hclass c hc haddr
    · omega

section

variable [DecidableEq M] [LinearOrder H] [LinearOrder P] {addr : H → UInt64} {token : M → UInt64}
  {env : InternEnv P addr token} {num : P → ℕ} {context : GenericContext H P}

theorem getGenericInst_defined (env : InternEnv P addr token) (s : Tables M H P)
    (types : List (TypeRef H P)) :
    ((getGenericInst env types s).isSome ↔ Hashable types) ∧
      ∀ i s', getGenericInst env types s = some (i, s') →
        s'.classes = s.classes ∧ TypeRef.keys types = TypeRef.keys i.key := by
  rw [getGenericInst_eq]
  constructor
  · rw [Option.isSome_map, InternTable.intern, Option.isSome_map, instHash_isSome]
  · intro i s' h
    obtain ⟨⟨e, insts⟩, hintern, heq⟩ := Option.map_eq_some_iff.1 h
    cases heq
    exact ⟨rfl, instEqual_iff.1 (InternTable.intern_equal (instEqual_iff.2 rfl) hintern)⟩

theorem getGenericClass_defined (env : InternEnv P addr token) (d : GenericTypeDefinition H)
    (i : GenericInst H P) (s : Tables M H P) :
    ∃ c s', getGenericClass env d i s = some (c, s') ∧ s.Grows s' ∧ c ∈ s'.classes.entries ∧
      c.key.type = d ∧ TypeRef.keys c.key.classInst.key = TypeRef.keys i.key := by
  have hhash : (classHash addr (⟨d, i⟩ : ClassKey H P)).isSome = true := by
    obtain ⟨v, h⟩ := d
    cases v <;> simp [classHash, GenericTypeDefinition.erase, Il2CppType.hash]
  obtain ⟨c, classes, hintern⟩ := InternTable.intern_isSome env.classes s.classes hhash
  have hequal := InternTable.intern_equal (classEqual_iff.2 ⟨rfl, instEqual_iff.2 rfl⟩) hintern
  obtain ⟨htype, hinst⟩ := classEqual_iff.1 hequal
  refine ⟨c, { s with classes }, ?_, ?_, InternTable.mem_entries hintern, htype.symm,
    (instEqual_iff.1 hinst).symm⟩
  · rw [getGenericClass_eq, hintern]
    rfl
  · rcases InternTable.intern_cases hintern with ⟨-, rfl⟩ | ⟨-, hinsert⟩
    · exact .refl s
    · cases hinsert
      refine ⟨Nat.le_succ _, fun c hc => ?_⟩
      rcases List.mem_cons.1 hc with rfl | hc
      · exact .inr le_rfl
      · exact .inl hc

/-- What inflating a type returns, when it does: NULL for a type that is cut off, and else the
substitution instance. -/
structure InflatesTo (num : P → ℕ) (context : GenericContext H P) (s : Tables M H P)
    (t : TypeRef H P) (r : Option (TypeRef H P)) (s' : Tables M H P) : Prop where
  grows : s.Grows s'
  null : r = none ↔ t.cutOff = true
  key : ∀ u ∈ r, u.erase.sortKey = (t.erase.subst (context.subst num)).sortKey

/-- Inflating a type faults unless the type is inflatable, and returns what it should. -/
def Defined (env : InternEnv P addr token) (num : P → ℕ) (context : GenericContext H P)
    (t : TypeRef H P) : Prop :=
  ∀ s : Tables M H P, t.Placed s →
    ((inflateIfNeeded env num context s t).isSome ↔ t.Inflatable num context) ∧
      ∀ r s', inflateIfNeeded env num context s t = some (r, s') → InflatesTo num context s t r s'

omit [DecidableEq M] [LinearOrder H] [LinearOrder P] in
theorem InflatesTo.self {s : Tables M H P} {t : TypeRef H P} (hnull : t.cutOff = false)
    (hk : t.erase.sortKey = (t.erase.subst (context.subst num)).sortKey) :
    InflatesTo num context s t (some t) s where
  grows := .refl s
  null := by simp [hnull]
  key := by
    rintro _ ⟨⟩
    exact hk

theorem Defined.leaf {t : TypeRef H P}
    (hinflate : ∀ s : Tables M H P, inflateIfNeeded env num context s t = some (some t, s))
    (hinflatable : t.Inflatable num context) (hnull : t.cutOff = false)
    (hk : t.erase.sortKey = (t.erase.subst (context.subst num)).sortKey) :
    Defined env num context t := by
  intro s _
  rw [hinflate s]
  refine ⟨iff_of_true rfl hinflatable, fun r s' h => ?_⟩
  cases h
  exact .self hnull hk

theorem Defined.parameter {t : TypeRef H P} (arg : Option (TypeRef H P))
    (hinflate : ∀ s : Tables M H P, inflateIfNeeded env num context s t =
      arg.map fun a => (some (a.withFlags t.flags), s))
    (hinflatable : t.Inflatable num context ↔ arg.isSome = true) (hnull : t.cutOff = false)
    (hk : ∀ a ∈ arg, t.erase.subst (context.subst num) = a.erase.withByref t.flags.byref) :
    Defined env num context t := by
  intro s _
  rw [hinflate s, hinflatable, Option.isSome_map]
  refine ⟨Iff.rfl, fun r s' h => ?_⟩
  obtain ⟨a, ha, heq⟩ := Option.map_eq_some_iff.1 h
  cases heq
  refine ⟨.refl s, by simp [hnull], ?_⟩
  rintro _ ⟨⟩
  rw [hk a ha, TypeRef.erase_withFlags]

theorem Defined.container (k : Container) (f : TypeFlags) {e : TypeRef H P}
    (h : Defined env num context e) : Defined env num context (k.of f e) := by
  intro s ht
  have he : e.Placed s := by cases k <;> exact ht
  have hinflatable : (k.of f e).Inflatable num context ↔
      e.Inflatable num context ∧ e.cutOff = false := by cases k <;> rfl
  obtain ⟨hdefined, hreturns⟩ := h s he
  rw [inflateIfNeeded_container, hinflatable, ← hdefined]
  cases hinflate : inflateIfNeeded env num context s e with
  | none => simp
  | some r =>
    obtain ⟨r, s₁⟩ := r
    obtain ⟨hgrows, hnull, hkey⟩ := hreturns r s₁ hinflate
    cases r with
    | none => simp [hnull.1 rfl]
    | some u =>
      have hcut : e.cutOff = false := by simpa using hnull
      have hukey := hkey u rfl
      have hself : ∀ {v : TypeRef H P},
          v.erase.sortKey = (e.erase.subst (context.subst num)).sortKey →
          InflatesTo num context s (k.of f e) (some (k.of f v)) s₁ := by
        intro v hv
        refine ⟨hgrows, by cases k <;> simp [Container.of, TypeRef.cutOff], ?_⟩
        rintro _ ⟨⟩
        cases k <;> simp [Container.of, TypeRef.erase, Il2CppType.subst, Il2CppType.sortKey,
          Il2CppType.type, Il2CppType.byref, hv]
      simp only [Option.bind_some]
      cases heq : u.erase.areEqual e.erase with
      | false =>
        refine ⟨by simp [hcut], fun r s' h => ?_⟩
        cases h
        exact hself hukey
      | true =>
        refine ⟨by simp [hcut], fun r s' h => ?_⟩
        cases h
        exact hself ((Il2CppType.areEqual_iff_sortKey.1 heq).symm.trans hukey)

theorem inflateArgs_defined {as : List (TypeRef H P)}
    (h : ∀ a ∈ as, Defined env num context a) (s : Tables M H P)
    (hp : ∀ a ∈ as, a.Placed s) :
    ((inflateArgs env num context s as).isSome ↔
        ∀ a ∈ as, a.Inflatable num context ∧ a.cutOff = false) ∧
      ∀ args s', inflateArgs env num context s as = some (args, s') → s.Grows s' ∧
        TypeRef.keys args = as.map fun a => (a.erase.subst (context.subst num)).sortKey := by
  induction as generalizing s with
  | nil =>
    refine ⟨iff_of_true rfl nofun, fun args s' h => ?_⟩
    cases h
    exact ⟨.refl s, rfl⟩
  | cons a as ih =>
    obtain ⟨ha, has⟩ := List.forall_mem_cons.1 h
    obtain ⟨hpa, hpas⟩ := List.forall_mem_cons.1 hp
    obtain ⟨hdefined, hreturns⟩ := ha s hpa
    rw [inflateArgs, List.forall_mem_cons, ← hdefined]
    cases hinflate : inflateIfNeeded env num context s a with
    | none => simp
    | some r =>
      obtain ⟨r, s₁⟩ := r
      obtain ⟨hgrows, hnull, hkey⟩ := hreturns r s₁ hinflate
      cases r with
      | none => simp [hnull.1 rfl]
      | some u =>
        have hcut : a.cutOff = false := by simpa using hnull
        obtain ⟨hdefined', hargs⟩ := ih has s₁ fun b hb => (hpas b hb).mono hgrows
        simp only [Option.bind_eq_bind, Option.bind_some, Option.isSome_some, hcut, ← hdefined']
        cases hrest : inflateArgs env num context s₁ as with
        | none => simp
        | some rest =>
          obtain ⟨args, s₂⟩ := rest
          obtain ⟨hgrows', hkeys⟩ := hargs args s₂ hrest
          refine ⟨by simp, fun args' s' h => ?_⟩
          cases h
          refine ⟨hgrows.trans hgrows', ?_⟩
          rw [List.map_cons, ← hkeys, ← hkey u rfl]
          rfl

omit [DecidableEq M] in
theorem hashable_of_keys {as args : List (TypeRef H P)}
    (h : TypeRef.keys args = as.map fun a => (a.erase.subst (context.subst num)).sortKey) :
    Hashable args ↔ ∀ a ∈ as, (a.erase.subst (context.subst num)).instantiated = true := by
  rw [TypeRef.hashable_iff]
  induction as generalizing args with
  | nil =>
    cases args with
    | nil => simp
    | cons u args => cases h
  | cons a as ih =>
    cases args with
    | nil => cases h
    | cons u args =>
      obtain ⟨hhead, htail⟩ := List.cons.inj h
      rw [List.forall_mem_cons, List.forall_mem_cons, ih htail, Il2CppType.instantiated_congr hhead]

omit [LinearOrder H] [LinearOrder P] in
theorem not_instantiated_of_cutOff {t : TypeRef H P} (h : t.cutOff = true) (σ : TypeSubst H P) :
    (t.erase.subst σ).instantiated = false := by
  cases t with
  | genericinstNull => simp [TypeRef.erase, Il2CppType.subst, Il2CppType.instantiated]
  | _ => cases h

theorem inflateInst_defined {as : List (TypeRef H P)}
    (h : ∀ a ∈ as, Defined env num context a) (s : Tables M H P)
    (hp : ∀ a ∈ as, a.Placed s) :
    (((inflateArgs env num context s as).bind fun r => getGenericInst env r.1 r.2).isSome ↔
        TypeRef.InflatableArgs num context as) ∧
      ∀ i s', ((inflateArgs env num context s as).bind fun r => getGenericInst env r.1 r.2) =
          some (i, s') →
        s.Grows s' ∧ TypeRef.keys i.key =
          as.map fun a => (a.erase.subst (context.subst num)).sortKey := by
  obtain ⟨hdefined, hargs⟩ := inflateArgs_defined h s hp
  rw [TypeRef.inflatableArgs_iff]
  cases hinflate : inflateArgs env num context s as with
  | none =>
    rw [hinflate] at hdefined
    refine ⟨iff_of_false Bool.false_ne_true fun hall => ?_, nofun⟩
    refine Bool.false_ne_true (hdefined.2 fun a ha => ⟨(hall a ha).1, ?_⟩)
    by_contra hcut
    have hinst := not_instantiated_of_cutOff (by simpa using hcut) (context.subst num)
    rw [(hall a ha).2] at hinst
    cases hinst
  | some r =>
    obtain ⟨args, s₁⟩ := r
    obtain ⟨hgrows, hkeys⟩ := hargs args s₁ hinflate
    obtain ⟨hinst, hresult⟩ := getGenericInst_defined env s₁ args
    rw [hinflate] at hdefined
    have hall := hdefined.1 rfl
    refine ⟨?_, fun i s' h => ?_⟩
    · rw [Option.bind_some, hinst, hashable_of_keys hkeys]
      exact ⟨fun h a ha => ⟨(hall a ha).1, h a ha⟩, fun h a ha => (h a ha).2⟩
    · obtain ⟨hclasses, hkeys'⟩ := hresult i s' h
      refine ⟨⟨by rw [hclasses]; exact hgrows.next, by rw [hclasses]; exact hgrows.fresh⟩, ?_⟩
      rw [← hkeys', hkeys]

theorem Defined.genericinst {f : TypeFlags} {gc ci : ℕ} {d : GenericTypeDefinition H}
    {argv : List (TypeRef H P)} (h : ∀ a ∈ argv, Defined env num context a) :
    Defined env num context (.genericinst f gc d ci argv) := by
  intro s ht
  obtain ⟨⟨hlt, hown⟩, hargs⟩ := ht
  obtain ⟨hdefined, hresult⟩ := inflateInst_defined h s (TypeRef.placedArgs_iff.1 hargs)
  -- the two lookups, one behind the other
  have hsteps : inflateIfNeeded env num context s (.genericinst f gc d ci argv) =
      ((inflateArgs env num context s argv).bind fun r => getGenericInst env r.1 r.2).bind
        fun r => (getGenericClass env d r.1 r.2).bind fun c =>
          if c.1.addr ≠ gc then
            some (some (.genericinst f c.1.addr c.1.key.type c.1.key.classInst.addr
              c.1.key.classInst.key), c.2)
          else some (some (.genericinst f gc d ci argv), c.2) := by
    rw [Option.bind_assoc]
    rfl
  rw [hsteps]
  cases hinst : (inflateArgs env num context s argv).bind fun r => getGenericInst env r.1 r.2 with
  | none =>
    rw [hinst] at hdefined
    exact ⟨hdefined, nofun⟩
  | some r =>
    obtain ⟨i, s₁⟩ := r
    rw [hinst] at hdefined
    obtain ⟨hgrows, hkeys⟩ := hresult i s₁ hinst
    obtain ⟨c, s₂, hclass, hgrows', hmem, htype, hckeys⟩ := getGenericClass_defined env d i s₁
    have hreturns : ∀ {gc' ci' : ℕ} {argv' : List (TypeRef H P)},
        TypeRef.keys argv' = TypeRef.keys i.key →
        InflatesTo num context s (.genericinst f gc d ci argv)
          (some (.genericinst f gc' d ci' argv')) s₂ := by
      intro gc' ci' argv' hk
      refine ⟨hgrows.trans hgrows', by simp [TypeRef.cutOff], ?_⟩
      rintro _ ⟨⟩
      simp only [TypeRef.erase, Il2CppType.subst]
      refine Il2CppType.sortKey_genericinst_congr _ rfl ?_
      rw [TypeRef.map_sortKey_eraseArgs, hk, hkeys, TypeRef.eraseArgs_eq_map,
        Il2CppType.substArgs_eq_map, List.map_map, List.map_map]
      rfl
    simp only [Option.bind_some, hclass]
    split
    case isTrue =>
      refine ⟨hdefined, fun r s' h => ?_⟩
      cases h
      rw [htype]
      exact hreturns hckeys
    case isFalse haddr =>
      refine ⟨hdefined, fun r s' h => ?_⟩
      cases h
      -- the class that was found is the one that the type has
      have hkey : c.key = ⟨d, ⟨ci, argv⟩⟩ := by
        have hnew := (hgrows.trans hgrows').fresh c hmem
        rcases hnew with hold | hnew
        · exact hown c hold (not_not.1 haddr)
        · have := not_not.1 haddr
          omega
      rw [hkey] at hckeys
      exact hreturns hckeys

theorem defined (env : InternEnv P addr token) (num : P → ℕ) (context : GenericContext H P)
    (t : TypeRef H P) : Defined env num context t := by
  induction t using TypeRef.induction_args with
  | simple f tag => exact .leaf (fun _ => rfl) trivial rfl rfl
  | valuetype f h => exact .leaf (fun _ => rfl) trivial rfl rfl
  | klass f h => exact .leaf (fun _ => rfl) trivial rfl rfl
  | ptr f e ih => exact ih.container .ptr f
  | szarray f e ih => exact ih.container .szarray f
  | array f e rank ih => exact ih.container (.array rank) f
  | genericinst f gc d ci argv ih => exact .genericinst ih
  | genericinstNull f gc d =>
    intro s _
    refine ⟨iff_of_true rfl trivial, fun r s' h => ?_⟩
    cases h
    exact ⟨.refl s, by simp [TypeRef.cutOff], nofun⟩
  | var f p =>
    refine .parameter (context.classArg num p) (fun s => ?_) Iff.rfl rfl ?_
    · simp only [inflateIfNeeded, inflateGenericParameterIfNeeded_eq, GenericContext.classArg]
      cases context.classInst.bind fun i => i.key[num p]? <;> rfl
    · rintro a ha
      simp only [Option.mem_def] at ha
      simp [TypeRef.erase, Il2CppType.subst, GenericContext.subst, ha, TypeRef.flags]
  | mvar f p =>
    cases hm : context.methodInst with
    | none =>
      refine .leaf (fun s => by simp only [inflateIfNeeded, hm]) (fun h => absurd hm h) rfl ?_
      simp [TypeRef.erase, Il2CppType.subst, GenericContext.subst, GenericContext.methodArg, hm]
    | some i =>
      refine .parameter (context.methodArg num p) (fun s => ?_) ?_ rfl ?_
      · simp only [inflateIfNeeded, inflateGenericParameterIfNeeded_eq, GenericContext.methodArg,
          hm]
        cases (some i).bind fun i : GenericInst H P => i.key[num p]? <;> rfl
      · exact ⟨fun h => h (by simp [hm]), fun h _ => h⟩
      · rintro a ha
        simp only [Option.mem_def] at ha
        simp [TypeRef.erase, Il2CppType.subst, GenericContext.subst, ha, TypeRef.flags]

/-- **Types at the depth limit.**  Inflating a type meets no NULL exactly if the type is inflatable,
inflating an instance exactly if its arguments are inflatable and have a hash when inflated, and
hashing a type exactly if no instance that it reaches is cut off.  The comparison never does. -/
theorem depthLimit_iff (env : InternEnv P addr token) (num : P → ℕ) (context : GenericContext H P)
    (s : Tables M H P) (t : TypeRef H P) (inst : Option (GenericInst H P)) (t1 t2 : Il2CppType H P)
    (ht : t.Placed s) (hi : ∀ i ∈ inst, ∀ a ∈ i.key, a.Placed s) :
    ((inflateIfNeeded env num context s t).isSome ↔ t.Inflatable num context) ∧
      ((getInflatedGenericIntance env num context inst s).isSome ↔
        ∀ i ∈ inst, ∀ a ∈ i.key, a.Inflatable num context ∧
          (a.erase.subst (context.subst num)).instantiated = true) ∧
      ((t1.hash addr).isSome ↔ t1.instantiated = true) ∧
      (t1.compareDeref t2).isSome := by
  refine ⟨(defined env num context t s ht).1, ?_, ?_, ?_⟩
  · cases inst with
    | none => exact iff_of_true rfl nofun
    | some i =>
      have hinst := (inflateInst_defined (fun a _ => defined env num context a) s (hi i rfl)).1
      rw [TypeRef.inflatableArgs_iff] at hinst
      have hsteps : getInflatedGenericIntance env num context (some i) s =
          ((inflateArgs env num context s i.key).bind fun r => getGenericInst env r.1 r.2).map
            fun r => (some r.1, r.2) := by
        rw [getInflatedGenericIntance, Option.map_eq_bind, Option.bind_assoc]
        rfl
      rw [hsteps, Option.isSome_map, hinst]
      simp
  · rw [Il2CppType.hash_isSome_iff]
  · rw [Il2CppType.compareDeref_eq]
    rfl

end

/-- An array of a class parameter, an instance with a parameter, and an array of a type that is cut
off. -/
theorem depthLimit_iff_array :
    let context : GenericContext ℕ ℕ := ⟨some ⟨0, [.klass {} 1]⟩, none⟩
    let t : TypeRef ℕ ℕ := .szarray {} (.var {} 0)
    let inst : GenericInst ℕ ℕ := ⟨1, [.var {} 0]⟩
    let null : Il2CppType ℕ ℕ := .szarray false (.genericinst false (.klass false 2) none)
    ((inflateIfNeeded (.byHash : InternEnv (M := ℕ) ℕ UInt64.ofNat UInt64.ofNat) id context .init
        t).isSome ↔ t.Inflatable id context) ∧
      ((getInflatedGenericIntance (.byHash : InternEnv (M := ℕ) ℕ UInt64.ofNat UInt64.ofNat) id
          context (some inst) .init).isSome ↔
        ∀ i ∈ some inst, ∀ a ∈ i.key, a.Inflatable id context ∧
          (a.erase.subst (context.subst id)).instantiated = true) ∧
      ((null.hash UInt64.ofNat).isSome ↔ null.instantiated = true) ∧
      (null.compareDeref null).isSome := by
  intro context t inst null
  refine depthLimit_iff .byHash id context .init t (some inst) null null trivial ?_
  rintro _ ⟨⟩ a ha
  obtain rfl := List.mem_singleton.1 ha
  trivial

/-- An array of a type that is cut off cannot be inflated, an instance with such an argument cannot
either, and the type has no hash. -/
theorem cutOff_faults :
    let env : InternEnv (M := ℕ) ℕ UInt64.ofNat UInt64.ofNat := .byHash
    let null : TypeRef ℕ ℕ := .genericinstNull {} 0 ⟨false, 1⟩
    inflateIfNeeded env id ⟨none, none⟩ .init (.szarray {} null) = none ∧
      getInflatedGenericIntance env id ⟨none, none⟩ (some ⟨0, [null]⟩) .init = none ∧
      null.erase.hash UInt64.ofNat = none :=
  ⟨rfl, rfl, rfl⟩

end Il2Cpp
