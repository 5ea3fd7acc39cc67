import Il2Cpp.Metadata.TypeHash
import Il2Cpp.Metadata.TypeOrder

/-!
# Substitution of type parameters

What inflating a type is for: the parameters of a description are replaced by other descriptions.
This is the mathematics, without contexts, tables or failures; the functions of the runtime are
compared with it in `Il2Cpp.Metadata.Inflate`.

* `Il2CppType.subst` replaces parameters; an occurrence keeps its own `byref` flag.
* `Il2CppType.subst_subst` : two substitutions compose.
* `Il2CppType.subst_congr` : substituting equal types in equal types gives equal types.
* `Il2CppType.Within` : a description without cut off instances whose parameters satisfy two
  conditions; with conditions that are never met it is a closed type.

Two types are the same for the runtime when `areEqual` holds, that is when they have one `sortKey`
(`areEqual_iff_sortKey`), and the lemmas here compare keys.
-/

namespace Il2Cpp

namespace Il2CppType

variable {H P : Type}

section

variable {motive : Il2CppType H P → Prop} (simple : ∀ b tag, motive (.simple b tag))
  (valuetype : ∀ b h, motive (.valuetype b h)) (klass : ∀ b h, motive (.klass b h))
  (ptr : ∀ b e, motive e → motive (.ptr b e)) (szarray : ∀ b e, motive e → motive (.szarray b e))
  (array : ∀ b e rank, motive e → motive (.array b e rank))
  (genericNull : ∀ b g, motive (.genericinst b g none))
  (genericinst : ∀ b g i, (∀ a ∈ i, motive a) → motive (.genericinst b g (some i)))
  (var : ∀ b p, motive (.var b p)) (mvar : ∀ b p, motive (.mvar b p))
include simple valuetype klass ptr szarray array genericNull genericinst var mvar

/-- Induction over a type with a hypothesis for each type argument. -/
@[elab_as_elim]
theorem induction_args (t : Il2CppType H P) : motive t := by
  induction t using Il2CppType.rec
    (motive_2 := fun i => ∀ as, i = some as → ∀ a ∈ as, motive a)
    (motive_3 := fun as => ∀ a ∈ as, motive a) with
  | simple b tag => exact simple b tag
  | valuetype b h => exact valuetype b h
  | klass b h => exact klass b h
  | ptr b e ih => exact ptr b e ih
  | szarray b e ih => exact szarray b e ih
  | array b e rank ih => exact array b e rank ih
  | genericinst b g i _ ih =>
    cases i with
    | none => exact genericNull b g
    | some i => exact genericinst b g i (ih i rfl)
  | var b p => exact var b p
  | mvar b p => exact mvar b p
  | none => contradiction
  | some as ih => cases ‹some _ = some _›; exact ih _ ‹_›
  | nil => contradiction
  | cons a as iha ihas =>
    rcases List.mem_cons.1 ‹_› with rfl | h
    exacts [iha, ihas _ h]

end

/-- The same type with another `byref` flag. -/
def withByref (b : Bool) : Il2CppType H P → Il2CppType H P
  | simple _ tag => simple b tag
  | valuetype _ h => valuetype b h
  | klass _ h => klass b h
  | ptr _ e => ptr b e
  | szarray _ e => szarray b e
  | array _ e rank => array b e rank
  | genericinst _ g i => genericinst b g i
  | var _ p => var b p
  | mvar _ p => mvar b p

end Il2CppType

/-- What a parameter is replaced by; `none` leaves it in place. -/
structure TypeSubst (H P : Type) where
  /-- For parameters of types. -/
  var : P → Option (Il2CppType H P)
  /-- For parameters of methods. -/
  mvar : P → Option (Il2CppType H P)

namespace Il2CppType

variable {H P : Type}

mutual

/-- The type with its parameters replaced.  An occurrence of a parameter keeps its `byref` flag. -/
def subst (σ : TypeSubst H P) : Il2CppType H P → Il2CppType H P
  | ptr b e => ptr b (subst σ e)
  | szarray b e => szarray b (subst σ e)
  | array b e rank => array b (subst σ e) rank
  | genericinst b g none => genericinst b g none
  | genericinst b g (some i) => genericinst b g (some (substArgs σ i))
  | var b p => ((σ.var p).map (withByref b)).getD (var b p)
  | mvar b p => ((σ.mvar p).map (withByref b)).getD (mvar b p)
  | t => t

/-- `subst` on every type of a list. -/
def substArgs (σ : TypeSubst H P) : List (Il2CppType H P) → List (Il2CppType H P)
  | [] => []
  | a :: as => subst σ a :: substArgs σ as

end

theorem substArgs_eq_map (σ : TypeSubst H P) (as : List (Il2CppType H P)) :
    substArgs σ as = as.map (subst σ) := by
  induction as with
  | nil => rfl
  | cons a as ih => rw [substArgs, ih, List.map_cons]

@[simp] theorem withByref_var (b b' : Bool) (p : P) :
    (var b' p : Il2CppType H P).withByref b = var b p := rfl

@[simp] theorem withByref_mvar (b b' : Bool) (p : P) :
    (mvar b' p : Il2CppType H P).withByref b = mvar b p := rfl

@[simp] theorem withByref_withByref (b b' : Bool) (t : Il2CppType H P) :
    (t.withByref b').withByref b = t.withByref b := by
  cases t <;> rfl

@[simp] theorem byref_withByref (b : Bool) (t : Il2CppType H P) : (t.withByref b).byref = b := by
  cases t <;> rfl

/-- A parameter that keeps its flag, or what replaces it with the flag of the occurrence. -/
theorem byref_getD_withByref (b : Bool) {t : Il2CppType H P} (ht : t.byref = b)
    (a : Option (Il2CppType H P)) : ((a.map (withByref b)).getD t).byref = b := by
  cases a <;> simp [ht]

@[simp] theorem byref_subst (σ : TypeSubst H P) (t : Il2CppType H P) :
    (t.subst σ).byref = t.byref := by
  cases t
  case genericinst i => cases i <;> rfl
  case var b p => exact byref_getD_withByref b rfl _
  case mvar b p => exact byref_getD_withByref b rfl _
  all_goals rfl

theorem subst_withByref (σ : TypeSubst H P) (b : Bool) (t : Il2CppType H P) :
    (t.withByref b).subst σ = (t.subst σ).withByref b := by
  cases t
  case genericinst i => cases i <;> rfl
  case var b' p => rw [withByref_var, subst, subst]; cases σ.var p <;> simp
  case mvar b' p => rw [withByref_mvar, subst, subst]; cases σ.mvar p <;> simp
  all_goals rfl

end Il2CppType

/-- First `σ`, then `τ` : `τ` inflates the types that `σ` puts in and replaces what `σ` leaves in
place. -/
def TypeSubst.comp {H P : Type} (σ τ : TypeSubst H P) : TypeSubst H P where
  var p := ((σ.var p).map (Il2CppType.subst τ)).or (τ.var p)
  mvar p := ((σ.mvar p).map (Il2CppType.subst τ)).or (τ.mvar p)

namespace Il2CppType

variable {H P : Type}

mutual

/-- **Substitutions compose.** -/
theorem subst_subst (σ τ : TypeSubst H P) (t : Il2CppType H P) :
    (t.subst σ).subst τ = t.subst (σ.comp τ) := by
  match t with
  | simple .. | valuetype .. | klass .. => rfl
  | ptr b e => simp only [subst, subst_subst σ τ e]
  | szarray b e => simp only [subst, subst_subst σ τ e]
  | array b e rank => simp only [subst, subst_subst σ τ e]
  | genericinst b g none => rfl
  | genericinst b g (some i) => simp only [subst, substArgs_substArgs σ τ i]
  | var b p =>
    simp only [subst, TypeSubst.comp]
    cases σ.var p with
    | none => simp [subst]
    | some a => simp [subst_withByref]
  | mvar b p =>
    simp only [subst, TypeSubst.comp]
    cases σ.mvar p with
    | none => simp [subst]
    | some a => simp [subst_withByref]

theorem substArgs_substArgs (σ τ : TypeSubst H P) (as : List (Il2CppType H P)) :
    substArgs τ (substArgs σ as) = substArgs (σ.comp τ) as := by
  match as with
  | [] => rfl
  | a :: as => simp only [substArgs, subst_subst σ τ a, substArgs_substArgs σ τ as]

end

/-! ### Equal types have equal inflations -/

theorem sortKey_eq (t : Il2CppType H P) :
    ∃ rest, sortKey t = num t.type :: num t.byref.toNat :: rest := ⟨_, sortKey.eq_def t⟩

@[simp] theorem type_withByref (b : Bool) (t : Il2CppType H P) :
    (t.withByref b).type = t.type := by
  cases t <;> rfl

theorem sortKey_withByref (b : Bool) (t : Il2CppType H P) :
    sortKey (t.withByref b) = num t.type :: num b.toNat :: (sortKey t).drop 2 := by
  cases t
  case genericinst i => cases i <;> simp [withByref, sortKey, type, byref]
  all_goals simp [withByref, sortKey, type, byref]

theorem num_injective : Function.Injective (num : ℕ → SortToken H P) :=
  fun _ _ h => Sum.inl.inj (toLex.injective h)

theorem sortKey_withByref_congr (b : Bool) {t u : Il2CppType H P} (h : sortKey t = sortKey u) :
    sortKey (t.withByref b) = sortKey (u.withByref b) := by
  obtain ⟨rt, ht⟩ := sortKey_eq t
  obtain ⟨ru, hu⟩ := sortKey_eq u
  have htype : t.type = u.type := by
    rw [ht, hu] at h
    exact num_injective (List.cons.inj h).1
  rw [sortKey_withByref, sortKey_withByref, h, htype]

theorem sortKey_getD_withByref (b : Bool) {a a' : Option (Il2CppType H P)} {t t' : Il2CppType H P}
    (h : a.map sortKey = a'.map sortKey) (ht : sortKey t = sortKey t') :
    sortKey ((a.map (withByref b)).getD t) = sortKey ((a'.map (withByref b)).getD t') := by
  cases a <;> cases a' <;> simp at h
  · exact ht
  · exact sortKey_withByref_congr b h

mutual

/-- No instance of the type is cut off, its class parameters satisfy `pv` and its method parameters
`pm`.  (The parameters are those that inflating meets: a generic type definition has none.) -/
def Within (pv pm : P → Prop) : Il2CppType H P → Prop
  | ptr _ e | szarray _ e | array _ e _ => Within pv pm e
  | genericinst _ _ none => False
  | genericinst _ _ (some i) => WithinArgs pv pm i
  | var _ p => pv p
  | mvar _ p => pm p
  | _ => True

/-- `Within` for every type of a list. -/
def WithinArgs (pv pm : P → Prop) : List (Il2CppType H P) → Prop
  | [] => True
  | a :: as => Within pv pm a ∧ WithinArgs pv pm as

end

variable {pv pm qv qm : P → Prop}

theorem withinArgs_iff {as : List (Il2CppType H P)} :
    WithinArgs pv pm as ↔ ∀ a ∈ as, Within pv pm a := by
  induction as with
  | nil => simp [WithinArgs]
  | cons a as ih => simp [WithinArgs, ih]

@[simp] theorem within_withByref (b : Bool) {t : Il2CppType H P} :
    Within pv pm (t.withByref b) ↔ Within pv pm t := by
  cases t
  case genericinst i => cases i <;> rfl
  all_goals rfl

theorem within_subst {σ : TypeSubst H P}
    (hv : ∀ p, pv p → (σ.var p).elim (qv p) (Within qv qm))
    (hm : ∀ p, pm p → (σ.mvar p).elim (qm p) (Within qv qm)) (t : Il2CppType H P)
    (h : Within pv pm t) : Within qv qm (t.subst σ) := by
  induction t using induction_args with
  | simple | valuetype | klass => trivial
  | ptr _ _ ih | szarray _ _ ih | array _ _ _ ih => exact ih h
  | genericNull b g => exact h
  | genericinst b g i ih =>
    simp only [subst, substArgs_eq_map, Within, withinArgs_iff, List.mem_map] at h ⊢
    rintro _ ⟨a, ha, rfl⟩
    exact ih a ha (h a ha)
  | var b p =>
    have := hv p h
    rw [subst]
    cases hp : σ.var p <;> simp_all [Within]
  | mvar b p =>
    have := hm p h
    rw [subst]
    cases hp : σ.mvar p <;> simp_all [Within]

theorem within_mono (hv : ∀ p, pv p → qv p) (hm : ∀ p, pm p → qm p) (t : Il2CppType H P)
    (h : Within pv pm t) : Within qv qm t := by
  induction t using induction_args with
  | simple | valuetype | klass => trivial
  | ptr _ _ ih | szarray _ _ ih | array _ _ _ ih => exact ih h
  | genericNull b g => exact h
  | genericinst b g i ih =>
    simp only [Within, withinArgs_iff] at h ⊢
    exact fun a ha => ih a ha (h a ha)
  | var b p => exact hv p h
  | mvar b p => exact hm p h

theorem within_and (t : Il2CppType H P) (h : Within pv pm t) (h' : Within qv qm t) :
    Within (fun p => pv p ∧ qv p) (fun p => pm p ∧ qm p) t := by
  induction t using induction_args with
  | simple | valuetype | klass => trivial
  | ptr _ _ ih | szarray _ _ ih | array _ _ _ ih => exact ih h h'
  | genericNull b g => exact h
  | genericinst b g i ih =>
    simp only [Within, withinArgs_iff] at h h' ⊢
    exact fun a ha => ih a ha (h a ha) (h' a ha)
  | var b p | mvar b p => exact ⟨h, h'⟩

theorem sortKeys_congr {as bs : List (Il2CppType H P)} (h : as.map sortKey = bs.map sortKey) :
    sortKeys as = sortKeys bs := by
  induction as generalizing bs with
  | nil => cases bs <;> simp_all
  | cons a as ih =>
    cases bs with
    | nil => simp at h
    | cons b bs =>
      simp only [List.map_cons, List.cons.injEq] at h
      rw [sortKeys, sortKeys, h.1, ih h.2]

theorem sortKey_genericinst_congr (b : Bool) {g g' : Il2CppType H P}
    {i i' : List (Il2CppType H P)} (hg : sortKey g = sortKey g')
    (hi : i.map sortKey = i'.map sortKey) :
    sortKey (.genericinst b g (some i)) = sortKey (.genericinst b g' (some i')) := by
  have hl : i.length = i'.length := by simpa using congrArg List.length hi
  simp only [sortKey, type, byref, hg, hl, sortKeys_congr hi]

/-- **Substitutions that agree on the parameters of a type inflate it to equal types.** -/
theorem subst_congr {σ τ : TypeSubst H P}
    (hv : ∀ p, pv p → (σ.var p).map sortKey = (τ.var p).map sortKey)
    (hm : ∀ p, pm p → (σ.mvar p).map sortKey = (τ.mvar p).map sortKey) (t : Il2CppType H P)
    (h : Within pv pm t) : sortKey (t.subst σ) = sortKey (t.subst τ) := by
  induction t using induction_args with
  | simple | valuetype | klass => rfl
  | ptr _ _ ih | szarray _ _ ih | array _ _ _ ih => simp [subst, sortKey, type, byref, ih h]
  | genericNull b g => rfl
  | genericinst b g i ih =>
    simp only [Within, withinArgs_iff] at h
    simp only [subst, substArgs_eq_map]
    refine sortKey_genericinst_congr b rfl ?_
    rw [List.map_map, List.map_map]
    exact List.map_congr_left fun a ha => ih a ha (h a ha)
  | var b p => exact sortKey_getD_withByref b (hv p h) rfl
  | mvar b p => exact sortKey_getD_withByref b (hm p h) rfl

theorem map_congr_of_map_sortKey {γ : Type} {f : Il2CppType H P → γ}
    {as bs : List (Il2CppType H P)} (h : as.map sortKey = bs.map sortKey)
    (hf : ∀ a ∈ as, ∀ b, sortKey a = sortKey b → f a = f b) : as.map f = bs.map f := by
  induction as generalizing bs with
  | nil => cases bs <;> simp_all
  | cons a as ih =>
    cases bs with
    | nil => simp at h
    | cons b bs =>
      simp only [List.map_cons, List.cons.injEq] at h
      rw [List.map_cons, List.map_cons, hf a List.mem_cons_self b h.1,
        ih h.2 fun a' ha' => hf a' (List.mem_cons_of_mem _ ha')]

variable [LinearOrder H] [LinearOrder P]

theorem map_sortKey_eq_of_compareArgs {as bs : List (Il2CppType H P)}
    (hl : as.length = bs.length) (h : compareArgs as bs = .eq) :
    as.map sortKey = bs.map sortKey := by
  induction as generalizing bs with
  | nil => cases bs <;> simp_all
  | cons a as ih =>
    cases bs with
    | nil => simp at hl
    | cons b bs =>
      rw [compareArgs_cons, Ordering.then_eq_eq] at h
      rw [List.map_cons, List.map_cons, ih (by simpa using hl) h.2,
        areEqual_iff_sortKey.1 (by simpa [areEqual] using h.1)]

theorem sortKey_eq_of_compare {t u : Il2CppType H P} (h : compare t u = .eq) :
    sortKey t = sortKey u :=
  areEqual_iff_sortKey.1 (by simpa [areEqual] using h)

theorem matches_of_sortKey_eq {t u : Il2CppType H P} (h : sortKey t = sortKey u) : Matches t u :=
  matches_of_compare (by simpa [areEqual] using areEqual_iff_sortKey.2 h)

/-- **Equal types are inflated to equal types.** -/
theorem sortKey_subst_congr (σ : TypeSubst H P) {t u : Il2CppType H P}
    (h : sortKey t = sortKey u) : sortKey (t.subst σ) = sortKey (u.subst σ) := by
  induction t using induction_args generalizing u with
  | simple | valuetype | klass => cases matches_of_sortKey_eq h; rfl
  | ptr b e ih =>
    cases matches_of_sortKey_eq h with
    | ptr _ he => simp [subst, sortKey, type, byref, ih (sortKey_eq_of_compare he)]
  | szarray b e ih =>
    cases matches_of_sortKey_eq h with
    | szarray _ he => simp [subst, sortKey, type, byref, ih (sortKey_eq_of_compare he)]
  | array b e rank ih =>
    cases matches_of_sortKey_eq h with
    | array _ _ he => simp [subst, sortKey, type, byref, ih (sortKey_eq_of_compare he)]
  | genericNull b g => cases matches_of_sortKey_eq h; exact h
  | genericinst b g i ih =>
    cases matches_of_sortKey_eq h with
    | genericinst _ hl hg hi =>
      simp only [subst, substArgs_eq_map]
      refine sortKey_genericinst_congr b (sortKey_eq_of_compare hg) ?_
      rw [List.map_map, List.map_map]
      exact map_congr_of_map_sortKey (map_sortKey_eq_of_compareArgs hl hi) fun a ha b => ih a ha
  | var b p | mvar b p => cases matches_of_sortKey_eq h; rfl

theorem within_congr {t u : Il2CppType H P} (h : sortKey t = sortKey u) (ht : Within pv pm t) :
    Within pv pm u := by
  induction t using induction_args generalizing u with
  | simple | valuetype | klass => cases matches_of_sortKey_eq h; trivial
  | ptr b e ih =>
    cases matches_of_sortKey_eq h with
    | @ptr _ _ e' he => exact @ih e' (sortKey_eq_of_compare he) ht
  | szarray b e ih =>
    cases matches_of_sortKey_eq h with
    | @szarray _ _ e' he => exact @ih e' (sortKey_eq_of_compare he) ht
  | array b e rank ih =>
    cases matches_of_sortKey_eq h with
    | @array _ _ _ e' he => exact @ih e' (sortKey_eq_of_compare he) ht
  | genericNull b g => exact ht.elim
  | genericinst b g i ih =>
    cases matches_of_sortKey_eq h with
    | genericinst _ hl hg hi =>
      simp only [Within, withinArgs_iff] at ht ⊢
      intro b hb
      have hkey : sortKey b ∈ i.map sortKey :=
        map_sortKey_eq_of_compareArgs hl hi ▸ List.mem_map_of_mem hb
      obtain ⟨a, ha, hab⟩ := List.mem_map.1 hkey
      exact ih a ha hab (ht a ha)
  | var b p | mvar b p => cases matches_of_sortKey_eq h; exact ht

end Il2CppType

/-! ### Occurrences -/

/-- A step from a type to one of its parts. -/
inductive TypeStep where
  /-- to the element type of a pointer or an array -/
  | element
  /-- to a type argument of a generic instance -/
  | argument (i : ℕ)
  deriving DecidableEq

namespace Il2CppType

variable {H P : Type}

/-- The part of a type at the end of a path. -/
def occurrence : Il2CppType H P → List TypeStep → Option (Il2CppType H P)
  | t, [] => some t
  | ptr _ e, .element :: path | szarray _ e, .element :: path | array _ e _, .element :: path =>
    e.occurrence path
  | genericinst _ _ (some i), .argument n :: path => i[n]?.bind fun a => a.occurrence path
  | _, _ :: _ => none

theorem occurrence_subst (σ : TypeSubst H P) {t e : Il2CppType H P} {path : List TypeStep}
    (h : t.occurrence path = some e) : (t.subst σ).occurrence path = some (e.subst σ) := by
  induction path generalizing t with
  | nil =>
    obtain rfl : t = e := by simpa [occurrence] using h
    simp [occurrence]
  | cons step path ih =>
    cases t
    case ptr b e' => cases step <;> simp_all [occurrence, subst]
    case szarray b e' => cases step <;> simp_all [occurrence, subst]
    case array b e' rank => cases step <;> simp_all [occurrence, subst]
    case genericinst b g i =>
      cases i <;> cases step <;> simp only [occurrence, Option.bind_eq_some_iff] at h <;>
        try contradiction
      obtain ⟨a, ha, he⟩ := h
      simp [occurrence, subst, substArgs_eq_map, ha, ih he]
    all_goals simp [occurrence] at h

variable [LinearOrder H] [LinearOrder P]

theorem occurrence_congr {t u e : Il2CppType H P} {path : List TypeStep}
    (hk : sortKey t = sortKey u) (h : t.occurrence path = some e) :
    ∃ e', u.occurrence path = some e' ∧ sortKey e = sortKey e' := by
  induction path generalizing t u with
  | nil =>
    obtain rfl : t = e := by simpa [occurrence] using h
    exact ⟨u, by simp [occurrence], hk⟩
  | cons step path ih =>
    cases matches_of_sortKey_eq hk with
    | ptr _ he | szarray _ he | array _ _ he =>
      cases step with
      | element =>
        simp only [occurrence] at h ⊢
        exact ih (sortKey_eq_of_compare he) h
      | argument n => simp [occurrence] at h
    | genericinst _ hl _ hi =>
      cases step with
      | element => simp [occurrence] at h
      | argument n =>
        simp only [occurrence, Option.bind_eq_some_iff] at h ⊢
        obtain ⟨a, ha, he⟩ := h
        have hmap := congrArg (·[n]?) (map_sortKey_eq_of_compareArgs hl hi)
        simp only [List.getElem?_map, ha, Option.map_some] at hmap
        obtain ⟨b, hb, hab⟩ := Option.map_eq_some_iff.1 hmap.symm
        obtain ⟨e', he', hkey⟩ := ih hab.symm he
        exact ⟨e', ⟨b, hb, he'⟩, hkey⟩
    | _ => simp [occurrence] at h

theorem byref_eq_of_sortKey {t u : Il2CppType H P} (h : sortKey t = sortKey u) :
    t.byref = u.byref := by
  cases matches_of_sortKey_eq h <;> rfl

end Il2CppType

end Il2Cpp
