import Il2Cpp.Metadata.TypeCompare

/-!
# Structural hash of types

`Il2CppTypeHash`, `Il2CppGenericInstHash` and `Il2CppSignatureHash`.  Every interning table of the
metadata layer looks a key up by its hash and then by structural equality, so equal keys must have
equal hashes.

* `Il2CppType.hash` dereferences `class_inst` without the NULL test that `Il2CppType.compare` has;
  `none` is that fault.
* `Il2CppType.Matches` and `Il2CppType.matches_of_compare` : what structural equality says about
  the two arguments, one case per kind of type.
* `Il2CppType.hash_eq_of_compare` : equal types have equal hashes, or both fault.
* `Il2CppType.hash_isSome_iff` : the hash faults exactly at a NULL `class_inst` that it reaches.
* `hash_agrees_iff` : the consequence for types, generic instances and signatures.
-/

namespace Il2Cpp

/-- `HashUtils::Combine`. -/
def HashUtils.combine (hash1 hash2 : UInt64) : UInt64 := hash1 * 486187739 + hash2

open HashUtils

namespace Il2CppType

variable {H P : Type} (addr : H → UInt64)

mutual

/-- `Il2CppTypeHash::Hash`; `addr` is the value of a handle as a `size_t`. -/
def hash : Il2CppType H P → Option UInt64
  | t@(valuetype b h) | t@(klass b h) =>
    some (combine (combine (.ofNat t.type) b.toUInt64) (addr h))
  | t@(szarray b e) | t@(ptr b e) => do
    let he ← hash e
    some (combine (combine (.ofNat t.type) b.toUInt64) he)
  | t@(genericinst b g (some argv)) => do
    let hg ← hash g
    hashArgs (combine (combine (.ofNat t.type) b.toUInt64) hg) argv
  -- `inst->type_argc` with `inst == NULL`
  | genericinst _ _ none => none
  | t@(simple b _) | t@(array b _ _) | t@(var b _) | t@(mvar b _) =>
    some (combine (.ofNat t.type) b.toUInt64)

/-- The loop over the type arguments, from the hash so far. -/
def hashArgs (hash' : UInt64) : List (Il2CppType H P) → Option UInt64
  | [] => some hash'
  | a :: as => do
    let ha ← hash a
    hashArgs (combine hash' ha) as

end

mutual

/-- No generic instance with a NULL `class_inst` at a place that `hash` visits (it does not look at
the element type of a multi-dimensional array). -/
def instantiated : Il2CppType H P → Bool
  | szarray _ e | ptr _ e => instantiated e
  | genericinst _ g (some argv) => instantiated g && allInstantiated argv
  | genericinst _ _ none => false
  | _ => true

/-- `instantiated` for every type of a list. -/
def allInstantiated : List (Il2CppType H P) → Bool
  | [] => true
  | a :: as => instantiated a && allInstantiated as

end

mutual

theorem hash_isSome_iff (t : Il2CppType H P) : (hash addr t).isSome = t.instantiated := by
  cases t
  case ptr e =>
    simp only [hash, instantiated, ← hash_isSome_iff e]
    cases hash addr e <;> simp
  case szarray e =>
    simp only [hash, instantiated, ← hash_isSome_iff e]
    cases hash addr e <;> simp
  case genericinst b g i =>
    cases i with
    | none => rfl
    | some argv =>
      simp only [hash, instantiated, ← hash_isSome_iff g]
      cases hash addr g
      · rfl
      · simpa using hashArgs_isSome_iff _ argv
  all_goals rfl

theorem hashArgs_isSome_iff (acc : UInt64) (as : List (Il2CppType H P)) :
    (hashArgs addr acc as).isSome = allInstantiated as := by
  cases as with
  | nil => rfl
  | cons a as =>
    simp only [hashArgs, allInstantiated, ← hash_isSome_iff a]
    cases hash addr a
    · rfl
    · simpa using hashArgs_isSome_iff _ as

end

end Il2CppType

/-- `Il2CppGenericInstHash::Hash`. -/
def Il2CppGenericInst.hash {H P : Type} (addr : H → UInt64) (item : Il2CppGenericInst H P) :
    Option UInt64 :=
  Il2CppType.hashArgs addr (.ofNat item.typeArgv.length) item.typeArgv

/-- `Il2CppSignatureHash::Hash`. -/
def Il2CppSignature.hash {H P : Type} (addr : H → UInt64) (signature : Il2CppSignature H P) :
    Option UInt64 :=
  Il2CppType.hashArgs addr (.ofNat signature.types.length) signature.types

namespace Il2CppType

variable {H P : Type} [LinearOrder H] [LinearOrder P]

/-! ### What structural equality says -/

/-- The ways in which `compare` returns zero. -/
inductive Matches : Il2CppType H P → Il2CppType H P → Prop
  | simple (b : Bool) (tag : SimpleType) : Matches (.simple b tag) (.simple b tag)
  | valuetype (b : Bool) (h : H) : Matches (.valuetype b h) (.valuetype b h)
  | klass (b : Bool) (h : H) : Matches (.klass b h) (.klass b h)
  | ptr (b : Bool) {e1 e2 : Il2CppType H P} :
      compare e1 e2 = .eq → Matches (.ptr b e1) (.ptr b e2)
  | szarray (b : Bool) {e1 e2 : Il2CppType H P} :
      compare e1 e2 = .eq → Matches (.szarray b e1) (.szarray b e2)
  | array (b : Bool) (rank : ℕ) {e1 e2 : Il2CppType H P} :
      compare e1 e2 = .eq → Matches (.array b e1 rank) (.array b e2 rank)
  | genericNull (b : Bool) (g1 g2 : Il2CppType H P) :
      Matches (.genericinst b g1 none) (.genericinst b g2 none)
  | genericinst (b : Bool) {g1 g2 : Il2CppType H P} {i1 i2 : List (Il2CppType H P)} :
      i1.length = i2.length → compare g1 g2 = .eq → compareArgs i1 i2 = .eq →
      Matches (.genericinst b g1 (some i1)) (.genericinst b g2 (some i2))
  | var (b : Bool) (p : P) : Matches (.var b p) (.var b p)
  | mvar (b : Bool) (p : P) : Matches (.mvar b p) (.mvar b p)

theorem compare_eq_head {t1 t2 : Il2CppType H P} (h : compare t1 t2 = .eq) :
    t1.type = t2.type ∧ t1.byref = t2.byref := by
  unfold compare at h
  split at h
  · split at h
    · exact ⟨compareValue_eq_iff.1 ‹_›, compareValue_eq_iff.1 ‹_›⟩
    · simp_all
  · simp_all

theorem matches_of_compare {t1 t2 : Il2CppType H P} (h : compare t1 t2 = .eq) : Matches t1 t2 := by
  obtain ⟨ht, hb⟩ := compare_eq_head h
  cases t1 <;> cases t2 <;> simp only [type, byref] at ht hb
  case simple.simple => exact hb ▸ SimpleType.toNat_inj ht ▸ .simple _ _
  case valuetype.valuetype => subst hb; simp [compare, type, byref] at h; exact h ▸ .valuetype _ _
  case klass.klass => subst hb; simp [compare, type, byref] at h; exact h ▸ .klass _ _
  case ptr.ptr => subst hb; simp [compare, type, byref] at h; exact .ptr _ h
  case szarray.szarray => subst hb; simp [compare, type, byref] at h; exact .szarray _ h
  case var.var => subst hb; simp [compare, type, byref] at h; exact h ▸ .var _ _
  case mvar.mvar => subst hb; simp [compare, type, byref] at h; exact h ▸ .mvar _ _
  case array.array b e1 r1 b' e2 r2 =>
    subst hb
    simp only [compare, type, byref, compareValue_self] at h
    split at h
    · rename_i hr
      obtain rfl := compareValue_eq_iff.1 hr
      exact .array _ _ h
    · simp_all
  case genericinst.genericinst b g1 i1 b' g2 i2 =>
    subst hb
    cases i1 <;> cases i2 <;> simp [compare, type, byref] at h
    case none.none => exact .genericNull _ _ _
    case some.some i1 i2 =>
      split at h
      · rename_i hl
        split at h
        · exact .genericinst _ (compareValue_eq_iff.1 hl) ‹_› h
        · simp_all
      · simp_all
  -- the remaining pairs have different tags
  all_goals first
    | exact absurd ht (by decide)
    | exact absurd (List.mem_of_elem_eq_true rfl) (ht ▸ SimpleType.toNat_ne _)
    | exact absurd (List.mem_of_elem_eq_true rfl) (ht.symm ▸ SimpleType.toNat_ne _)

/-! ### Equal types have equal hashes -/

variable (addr : H → UInt64)

mutual

theorem hash_eq_of_compare {t1 t2 : Il2CppType H P} (h : compare t1 t2 = .eq) :
    hash addr t1 = hash addr t2 := by
  cases t1 <;> cases matches_of_compare h
  case ptr he => simp only [hash, type, hash_eq_of_compare he]
  case szarray he => simp only [hash, type, hash_eq_of_compare he]
  case genericinst hl hi hg =>
    simp only [hash, type, hash_eq_of_compare hg, hashArgs_eq_of_compareArgs _ hl hi]
  all_goals rfl

theorem hashArgs_eq_of_compareArgs {as bs : List (Il2CppType H P)} (acc : UInt64)
    (hl : as.length = bs.length) (h : compareArgs as bs = .eq) :
    hashArgs addr acc as = hashArgs addr acc bs := by
  cases as <;> cases bs
  case nil.nil => rfl
  case cons.cons a as b bs =>
    simp only [compareArgs] at h
    split at h
    · rename_i hab
      simp only [hashArgs, hash_eq_of_compare hab]
      cases hash addr b
      · rfl
      · exact hashArgs_eq_of_compareArgs _ (by simpa using hl) h
    · simp_all
  all_goals simp at hl

end

end Il2CppType

/-! ### The interning keys -/

section

variable {H P : Type} [LinearOrder H] [LinearOrder P] (addr : H → UInt64)

theorem compareArgs_eq_of_allEqual {as bs : List (Il2CppType H P)} (h : allEqual as bs = true) :
    Il2CppType.compareArgs as bs = .eq := by
  induction as generalizing bs with
  | nil => rfl
  | cons a as ih =>
    cases bs with
    | nil => rfl
    | cons b bs =>
      simp only [allEqual, Il2CppType.areEqual, beq_iff_eq] at h
      split at h
      · rename_i hab
        simp only [Il2CppType.compareArgs, hab, ih h]
      · cases h

/-- Both hashes return, and return the same value. -/
def HashAgrees (h1 h2 : Option UInt64) : Prop := ∃ h, h1 = some h ∧ h2 = some h

theorem hashAgrees_iff {h1 h2 : Option UInt64} (h : h1 = h2) : HashAgrees h1 h2 ↔ h1.isSome := by
  subst h
  simp [HashAgrees, Option.isSome_iff_exists]

theorem Il2CppType.hashAgrees_iff {t1 t2 : Il2CppType H P} (h : t1.areEqual t2 = true) :
    HashAgrees (t1.hash addr) (t2.hash addr) ↔ t1.instantiated = true := by
  rw [Il2Cpp.hashAgrees_iff (hash_eq_of_compare addr (by simpa [areEqual] using h)),
    hash_isSome_iff]

theorem hashArgs_agrees_iff {as bs : List (Il2CppType H P)} (hl : as.length = bs.length)
    (h : allEqual as bs = true) :
    HashAgrees (Il2CppType.hashArgs addr (.ofNat as.length) as)
      (Il2CppType.hashArgs addr (.ofNat bs.length) bs) ↔ Il2CppType.allInstantiated as = true := by
  rw [hl, hashAgrees_iff (Il2CppType.hashArgs_eq_of_compareArgs addr _ hl
    (compareArgs_eq_of_allEqual h)), Il2CppType.hashArgs_isSome_iff]

theorem Il2CppGenericInst.hashAgrees_iff {i1 i2 : Il2CppGenericInst H P}
    (h : Il2CppGenericInst.compare (.normal i1) (.normal i2) = true) :
    HashAgrees (i1.hash addr) (i2.hash addr) ↔
      Il2CppType.allInstantiated i1.typeArgv = true := by
  simp only [compare, areEqual] at h
  split_ifs at h with hl
  exact hashArgs_agrees_iff addr (not_not.1 hl) h

theorem Il2CppSignature.hashAgrees_iff {s1 s2 : Il2CppSignature H P}
    (h : s1.equals s2 = true) :
    HashAgrees (s1.hash addr) (s2.hash addr) ↔ Il2CppType.allInstantiated s1.types = true := by
  simp only [equals] at h
  split_ifs at h with hl
  exact hashArgs_agrees_iff addr (not_not.1 hl) h

/-- **Structural equality implies equal hashes exactly where the hash does not meet a NULL
`class_inst`**: for types, for generic instances and for signatures. -/
theorem equal_imp_hash_iff :
    (∀ t1 t2 : Il2CppType H P,
      (t1.areEqual t2 = true → HashAgrees (t1.hash addr) (t2.hash addr)) ↔
        (t1.areEqual t2 = true → t1.instantiated = true)) ∧
    (∀ i1 i2 : Il2CppGenericInst H P,
      (Il2CppGenericInst.compare (.normal i1) (.normal i2) = true →
          HashAgrees (i1.hash addr) (i2.hash addr)) ↔
        (Il2CppGenericInst.compare (.normal i1) (.normal i2) = true →
          Il2CppType.allInstantiated i1.typeArgv = true)) ∧
    (∀ s1 s2 : Il2CppSignature H P,
      (s1.equals s2 = true → HashAgrees (s1.hash addr) (s2.hash addr)) ↔
        (s1.equals s2 = true → Il2CppType.allInstantiated s1.types = true)) :=
  ⟨fun _ _ => forall_congr' fun h => Il2CppType.hashAgrees_iff addr h,
    fun _ _ => forall_congr' fun h => Il2CppGenericInst.hashAgrees_iff addr h,
    fun _ _ => forall_congr' fun h => Il2CppSignature.hashAgrees_iff addr h⟩

/-- A generic instance cut off at the maximum depth equals itself and has no hash. -/
theorem hash_faults_at_null_class_inst :
    ¬ ∀ t1 t2 : Il2CppType ℕ ℕ, t1.areEqual t2 = true →
      HashAgrees (t1.hash UInt64.ofNat) (t2.hash UInt64.ofNat) := by
  intro h
  obtain ⟨v, hv, -⟩ := h (.genericinst false (.klass false 1) none)
    (.genericinst false (.klass false 1) none) (by decide)
  cases hv

end

end Il2Cpp
