import Il2Cpp.Data.MachineInt

/-!
# Overflow checks

The predicates by which generated code tells whether an addition, a subtraction or a multiplication
of 64-bit integers overflows.  They compute with the same types that they are about.

* `checkAddOverflow`, `checkSubOverflow`, `checkMulOverflowI64`, `checkMulOveflowU64` : the
  functions, with the signed operations in them that went out of range.
* `lt_ediv_iff` : the comparison with a quotient that the multiplications rest on.
* `overflow_checks_exact` : the predicates are exact, and at most `llabs` goes out of range.
-/

namespace Il2Cpp

namespace Codegen

open IntType Computed

/-- The signed operations in the predicates. -/
inductive SignedOp
  | add
  | sub
  | llabs
  deriving DecidableEq

/-- `kIl2CppInt64Min`. -/
def kIl2CppInt64Min : ℤ := -2 ^ 63

/-- `kIl2CppInt64Max`. -/
def kIl2CppInt64Max : ℤ := 2 ^ 63 - 1

/-- `condition && x`. -/
def andAlso (condition : Prop) [Decidable condition] (x : Computed SignedOp Bool) :
    Computed SignedOp Bool :=
  if condition then x else pure false

/-- `x || y`. -/
def orElse (x y : Computed SignedOp Bool) : Computed SignedOp Bool := do
  if ← x then return true else y

/-- `llabs`; the absolute value of the least integer is that integer. -/
def llabs (x : ℤ) : Computed SignedOp ℤ := arith .llabs int64 |x|

/-- `il2cpp_codegen_check_add_overflow`. -/
def checkAddOverflow (left right : ℤ) : Computed SignedOp Bool :=
  orElse
    (andAlso (right ≥ 0) do
      let bound ← arith .sub int64 (kIl2CppInt64Max - right)
      return left > bound)
    (andAlso (left < 0) do
      let bound ← arith .sub int64 (kIl2CppInt64Min - left)
      return right < bound)

/-- `il2cpp_codegen_check_sub_overflow`. -/
def checkSubOverflow (left right : ℤ) : Computed SignedOp Bool :=
  orElse
    (andAlso (right ≥ 0) do
      let bound ← arith .add int64 (kIl2CppInt64Min + right)
      return left < bound)
    (andAlso (right < 0) do
      let bound ← arith .add int64 (kIl2CppInt64Max + right)
      return left > bound)

/-- `il2cpp_codegen_check_mul_overflow_i64`. -/
def checkMulOverflowI64 (a b imin imax : ℤ) : Computed SignedOp Bool := do
  let ua := uint64.wrap (← llabs a)
  let ub := uint64.wrap (← llabs b)
  let limit ← if (a > 0 ∧ b > 0) ∨ (a ≤ 0 ∧ b ≤ 0) then llabs imax else llabs imin
  let c := uint64.wrap limit
  return ua ≠ 0 && ub > c / ua

/-- `il2cpp_codegen_check_mul_oveflow_u64`. -/
def checkMulOveflowU64 (a b : ℤ) : Bool := b ≠ 0 && uint64.wrap (a * b) / b ≠ a

/-! ### Additions and subtractions -/

variable {a b : ℤ}

theorem orElse_pure (p q : Bool) : orElse (pure p) (pure q) = pure (p || q) := by
  cases p <;> rfl

theorem andAlso_arith {condition : Prop} [Decidable condition] {l : SignedOp} {x : ℤ}
    (compare : ℤ → Bool) (h : condition → int64.Fits x) :
    andAlso condition (arith l int64 x >>= fun bound => pure (compare bound)) =
      pure (condition && compare x) := by
  rw [andAlso]
  split_ifs with hcondition
  · rw [arith_of_fits (h hcondition), pure_bind', decide_eq_true hcondition, Bool.true_and]
  · rw [decide_eq_false hcondition, Bool.false_and]

theorem checkAddOverflow_eq (ha : int64.Fits a) (hb : int64.Fits b) :
    checkAddOverflow a b = pure (decide (¬ int64.Fits (a + b))) := by
  rw [fits_int64] at ha hb
  have hmax : b ≥ 0 → int64.Fits (kIl2CppInt64Max - b) := by
    rw [fits_int64, kIl2CppInt64Max]
    omega
  have hmin : a < 0 → int64.Fits (kIl2CppInt64Min - a) := by
    rw [fits_int64, kIl2CppInt64Min]
    omega
  rw [checkAddOverflow, andAlso_arith (fun bound => decide (a > bound)) hmax,
    andAlso_arith (fun bound => decide (b < bound)) hmin, orElse_pure]
  congr 1
  rw [Bool.eq_iff_iff]
  simp only [Bool.or_eq_true, Bool.and_eq_true, decide_eq_true_eq, fits_int64]
  unfold kIl2CppInt64Max kIl2CppInt64Min
  omega

theorem checkSubOverflow_eq (ha : int64.Fits a) (hb : int64.Fits b) :
    checkSubOverflow a b = pure (decide (¬ int64.Fits (a - b))) := by
  rw [fits_int64] at ha hb
  have hmin : b ≥ 0 → int64.Fits (kIl2CppInt64Min + b) := by
    rw [fits_int64, kIl2CppInt64Min]
    omega
  have hmax : b < 0 → int64.Fits (kIl2CppInt64Max + b) := by
    rw [fits_int64, kIl2CppInt64Max]
    omega
  rw [checkSubOverflow, andAlso_arith (fun bound => decide (a < bound)) hmin,
    andAlso_arith (fun bound => decide (a > bound)) hmax, orElse_pure]
  congr 1
  rw [Bool.eq_iff_iff]
  simp only [Bool.or_eq_true, Bool.and_eq_true, decide_eq_true_eq, fits_int64]
  unfold kIl2CppInt64Max kIl2CppInt64Min
  omega

/-! ### Multiplications -/

/-- A factor is above the quotient exactly if the product is above the bound. -/
theorem lt_ediv_iff {ua ub c : ℤ} (h : 0 < ua) : ub > c / ua ↔ ua * ub > c := by
  rw [gt_iff_lt, gt_iff_lt, Int.ediv_lt_iff_lt_mul h, mul_comm]

theorem wrap_llabs (ha : int64.Fits a) : uint64.wrap (llabs a).value = |a| := by
  rw [fits_int64] at ha
  have habs : |a| ≤ 2 ^ 63 := abs_le.2 ⟨by omega, by omega⟩
  have hnonneg := abs_nonneg a
  rw [llabs, value_arith]
  rcases habs.lt_or_eq with hlt | heq
  · rw [wrap_of_fits (t := int64) (fits_int64.2 (by omega))]
    exact wrap_of_fits (fits_uint64.2 (by omega))
  · rw [heq]
    decide

theorem checkMulOverflowI64_value {imin imax : ℤ} (ha : int64.Fits a) (hb : int64.Fits b)
    (hmin : int64.Fits imin) (hmax : int64.Fits imax) :
    (checkMulOverflowI64 a b imin imax).value =
      (|a| ≠ 0 && |b| > (if (a > 0 ∧ b > 0) ∨ (a ≤ 0 ∧ b ≤ 0) then |imax| else |imin|) / |a|) := by
  rw [checkMulOverflowI64]
  simp only [value_bind, wrap_llabs ha, wrap_llabs hb]
  split_ifs
  · rw [value_bind, value_pure, wrap_llabs hmax]
  · rw [value_bind, value_pure, wrap_llabs hmin]

theorem faults_checkMulOverflowI64 {imin imax : ℤ} {op : SignedOp}
    (h : op ∈ (checkMulOverflowI64 a b imin imax).faults) : op = .llabs := by
  have hllabs (x : ℤ) (hx : op ∈ (llabs x).faults) : op = .llabs := (mem_faults_arith.1 hx).1
  rw [checkMulOverflowI64] at h
  simp only [faults_bind, List.mem_append] at h
  rcases h with h | h | h
  · exact hllabs a h
  · exact hllabs b h
  · split_ifs at h <;> rw [faults_bind, faults_pure, List.append_nil] at h
    · exact hllabs imax h
    · exact hllabs imin h

theorem checkMulOverflowI64_value_eq {n : ℕ} (hn : n ≤ 63) (ha : int64.Fits a)
    (hb : int64.Fits b) :
    (checkMulOverflowI64 a b (-2 ^ n) (2 ^ n - 1)).value =
      decide (¬ (IntType.signed n).Fits (a * b)) := by
  have hpow : (2 : ℤ) ^ n ≤ 2 ^ 63 := pow_le_pow_right₀ (by decide) hn
  have hpos : (0 : ℤ) < 2 ^ n := by positivity
  rw [checkMulOverflowI64_value ha hb (fits_int64.2 (by omega)) (fits_int64.2 (by omega)),
    abs_neg, abs_of_pos hpos, abs_of_nonneg (by omega : (0 : ℤ) ≤ 2 ^ n - 1), Bool.eq_iff_iff,
    Bool.and_eq_true, decide_eq_true_eq, decide_eq_true_eq, decide_eq_true_eq]
  change _ ↔ ¬ (-2 ^ n ≤ a * b ∧ a * b < 2 ^ n)
  by_cases hzero : a = 0
  · subst hzero
    simp [hpos]
  rw [lt_ediv_iff (abs_pos.2 hzero), ← abs_mul]
  have hne : |a| ≠ 0 := abs_ne_zero.2 hzero
  split_ifs with hsign
  · have hproduct : 0 ≤ a * b := by
      rcases hsign with ⟨ha, hb⟩ | ⟨ha, hb⟩
      · exact (mul_pos ha hb).le
      · exact mul_nonneg_of_nonpos_of_nonpos ha hb
    rw [abs_of_nonneg hproduct]
    omega
  · have hproduct : a * b ≤ 0 := by
      rcases lt_or_gt_of_ne hzero with ha | ha
      · exact mul_nonpos_of_nonpos_of_nonneg ha.le (by omega)
      · exact mul_nonpos_of_nonneg_of_nonpos ha.le (by omega)
    rw [abs_of_nonpos hproduct]
    omega

theorem checkMulOveflowU64_eq (ha : uint64.Fits a) (hb : uint64.Fits b) :
    checkMulOveflowU64 a b = decide (¬ uint64.Fits (a * b)) := by
  have hproduct : 0 ≤ a * b := mul_nonneg ha.1 hb.1
  rw [checkMulOveflowU64, Bool.eq_iff_iff, Bool.and_eq_true, decide_eq_true_eq, decide_eq_true_eq,
    decide_eq_true_eq]
  by_cases hzero : b = 0
  · subst hzero
    simp
  have hpos : 0 < b := lt_of_le_of_ne hb.1 (Ne.symm hzero)
  constructor
  · rintro ⟨-, hne⟩ hfits
    rw [wrap_of_fits hfits, Int.mul_ediv_cancel a hzero] at hne
    exact hne rfl
  · intro hfits
    refine ⟨hzero, fun heq => ?_⟩
    -- the quotient of a smaller product is a smaller factor
    have hlt : uint64.wrap (a * b) < a * b := by
      have hwrap := (fits_wrap uint64 (a * b)).2
      by_contra hle
      exact hfits ⟨hproduct, lt_of_le_of_lt (not_lt.1 hle) hwrap⟩
    have hquotient := (Int.ediv_lt_iff_lt_mul hpos).2 hlt
    exact hquotient.ne heq

/-- **The overflow checks are exact**: they tell whether the result is outside of its type, and of
their own signed operations at most `llabs` goes out of range. -/
theorem overflow_checks_exact {a b : ℤ} (ha : int64.Fits a) (hb : int64.Fits b) {n : ℕ}
    (hn : n ≤ 63) {x y : ℤ} (hx : uint64.Fits x) (hy : uint64.Fits y) :
    checkAddOverflow a b = pure (decide (¬ int64.Fits (a + b))) ∧
      checkSubOverflow a b = pure (decide (¬ int64.Fits (a - b))) ∧
      (checkMulOverflowI64 a b (-2 ^ n) (2 ^ n - 1)).value =
        decide (¬ (IntType.signed n).Fits (a * b)) ∧
      (∀ op ∈ (checkMulOverflowI64 a b (-2 ^ n) (2 ^ n - 1)).faults, op = .llabs) ∧
      checkMulOveflowU64 x y = decide (¬ uint64.Fits (x * y)) :=
  ⟨checkAddOverflow_eq ha hb, checkSubOverflow_eq ha hb, checkMulOverflowI64_value_eq hn ha hb,
    fun _ => faults_checkMulOverflowI64, checkMulOveflowU64_eq hx hy⟩

/-- The least integer, twice and multiplied with itself, and the square of `2 ^ 32`. -/
theorem overflow_checks_exact_min :
    checkAddOverflow (-2 ^ 63) (-2 ^ 63) = pure true ∧
      checkSubOverflow (-2 ^ 63) (-2 ^ 63) = pure false ∧
      (checkMulOverflowI64 (-2 ^ 63) (-2 ^ 63) (-2 ^ 63) (2 ^ 63 - 1)).value = true ∧
      (∀ op ∈ (checkMulOverflowI64 (-2 ^ 63) (-2 ^ 63) (-2 ^ 63) (2 ^ 63 - 1)).faults,
        op = .llabs) ∧
      checkMulOveflowU64 (2 ^ 32) (2 ^ 32) = true :=
  overflow_checks_exact (by decide) (by decide) (Nat.le_refl 63) (by decide) (by decide)

end Codegen

end Il2Cpp
