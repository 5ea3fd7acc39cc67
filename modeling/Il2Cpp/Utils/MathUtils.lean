import Il2Cpp.Data.MachineInt

/-!
# Scaled division

`A_Times_B_DividedBy_C` of `MathUtils.h`: the product as a number of 128 bits in two words, and its
long division.  The values are integers, each operation is one on the type that it has in the
source, and the loops keep their bounds.

* `multiply` : the two words of the product, with the carry between them.
* `findStart`, `divide` : the two loops.
* `aTimesBDividedByC` : the function.  The last loop is given a number of rounds.
* `multiply_spec`, `findStart_spec`, `divide_spec` : what the parts compute, without overflow.
* `aTimesBDividedByC_spec` : the quotient is exact.  The only operation that wraps is the addition
  to the low word, whose carry has been added to the high word before.
-/

namespace Il2Cpp

namespace MathUtils

open Computed

/-- The operations whose result may be too large for its type. -/
inductive Op
  | llabs | convert | product | midSum | highSum | carry | lowSum | shift | subtract | increment
  | index | negate
  deriving DecidableEq

/-- The assertions of the function. -/
inductive Assertion
  | divisorSize | multiplicandPositive | multiplierPositive | overflow
  deriving DecidableEq

inductive Fault
  | wraps (op : Op)
  | asserts (assertion : Assertion)
  deriving DecidableEq

/-- `dividends`. -/
structure Dividends where
  low : ℤ
  high : ℤ

/-- `(dividends[i / 64] & (kOne << (i % 64))) != 0`, as a number. -/
def Dividends.bit (d : Dividends) (i : ℕ) : ℤ :=
  (if i / 64 = 0 then d.low else d.high) / 2 ^ (i % 64) % 2

/-- The product of two numbers that are not negative, from the products of their halves. -/
def multiply (multiplicand multiplier : ℤ) : Computed Fault Dividends := do
  let multiplicandLow := multiplicand % 2 ^ 32
  let multiplicandHigh ← arith (.wraps .convert) .uint64 (multiplicand / 2 ^ 32)
  let multiplierLow := multiplier % 2 ^ 32
  let multiplierHigh ← arith (.wraps .convert) .uint64 (multiplier / 2 ^ 32)
  let low ← arith (.wraps .product) .uint64 (multiplicandLow * multiplierLow)
  let high ← arith (.wraps .product) .uint64 (multiplicandHigh * multiplierHigh)
  let mid₁ ← arith (.wraps .product) .uint64 (multiplicandHigh * multiplierLow)
  let mid₂ ← arith (.wraps .product) .uint64 (multiplicandLow * multiplierHigh)
  let resultMid1 ← arith (.wraps .midSum) .uint64 (mid₁ + mid₂)
  let high ← arith (.wraps .highSum) .uint64 (high + resultMid1 / 2 ^ 32)
  let resultMid1 ← arith (.wraps .shift) .uint64 (resultMid1 % 2 ^ 32 * 2 ^ 32)
  let headroom ← arith (.wraps .subtract) .uint64 (2 ^ 64 - 1 - resultMid1)
  let high ← if low > headroom then arith (.wraps .carry) .uint64 (high + 1) else pure high
  let low ← arith (.wraps .lowSum) .uint64 (low + resultMid1)
  pure ⟨low, high⟩

/-- The first loop, where `n` is `bitIndex + 1`: the next `n`, and the work value, or `none` when
the function returns `0`. -/
def findStart (dividends : Dividends) (divisor : ℤ) (n : ℕ) (workValue : ℤ) :
    Computed Fault (Option (ℕ × ℤ)) :=
  if workValue < divisor then do
    let workValue ← arith (.wraps .shift) .uint64 (2 * workValue)
    match n with
    | 0 => pure none
    | n + 1 => findStart dividends divisor n (workValue + dividends.bit n)
  else pure (some (n, workValue))

/-- The quotient bit: the work value and the result after it. -/
def reduce (divisor workValue result : ℤ) : Computed Fault (ℤ × ℤ) := do
  let result ← arith (.wraps .shift) .uint64 (2 * result)
  if workValue ≥ divisor then do
    let workValue ← arith (.wraps .subtract) .uint64 (workValue - divisor)
    let result ← arith (.wraps .increment) .uint64 (result + 1)
    pure (workValue, result)
  else pure (workValue, result)

/-- The main loop, with the number of its rounds bounded: the result. -/
def divide (dividends : Dividends) (divisor : ℤ) :
    ℕ → ℤ → ℤ → ℤ → Computed Fault (Option ℤ)
  | 0, _, _, _ => pure none
  | rounds + 1, bitIndex, workValue, result =>
    if bitIndex > -2 ∨ workValue ≥ divisor then do
      let reduced ← reduce divisor workValue result
      assert (.asserts .overflow) (reduced.1 / 2 ^ 63 % 2 = 0)
      let workValue ← if bitIndex > -1 then
          (· + dividends.bit bitIndex.toNat) <$> arith (.wraps .shift) .uint64 (2 * reduced.1)
        else pure reduced.1
      let bitIndex ← arith (.wraps .index) .int32 (bitIndex - 1)
      divide dividends divisor rounds bitIndex workValue reduced.2
    else pure (some result)

def llabs (x : ℤ) : Computed Fault ℤ := arith (.wraps .llabs) .int64 |x|

/-- The long division of the product, with the sign of the result. -/
def longDivision (rounds : ℕ) (dividends : Dividends) (divisor : ℤ) (resultIsNegative : Bool) :
    Computed Fault (Option ℤ) := do
  match ← findStart dividends divisor 128 0 with
  | none => pure (some 0)
  | some (n, workValue) =>
    match ← divide dividends divisor rounds (n - 1) workValue 0 with
    | none => pure none
    | some result =>
      let result ← arith (.wraps .convert) .int64 result
      if resultIsNegative then some <$> arith (.wraps .negate) .int64 (-result)
      else pure (some result)

/-- `A_Times_B_DividedBy_C`.  After an assertion that fails the function goes on, as it does where
the assertions are not compiled. -/
def aTimesBDividedByC (rounds : ℕ) (multiplicand multiplier divisor : Int64) :
    Computed Fault (Option ℤ) := do
  let size ← llabs divisor.toInt
  assert (.asserts .divisorSize) (size / 2 ^ 62 % 2 = 0)
  let resultIsNegative := (multiplicand ^^^ multiplier ^^^ divisor).toUInt64 >>> 63 ≠ 0
  let multiplicand ← llabs multiplicand.toInt
  assert (.asserts .multiplicandPositive) (multiplicand > 0)
  let multiplier ← llabs multiplier.toInt
  assert (.asserts .multiplierPositive) (multiplier > 0)
  let divisor ← llabs divisor.toInt
  let dividends ← multiply multiplicand multiplier
  longDivision rounds dividends divisor resultIsNegative

/-! ### The product -/

theorem mul_bounds {x y : ℤ} {m n : ℕ} (hx : 0 ≤ x ∧ x < 2 ^ m) (hy : 0 ≤ y ∧ y < 2 ^ n) :
    0 ≤ x * y ∧ x * y ≤ (2 ^ m - 1) * (2 ^ n - 1) :=
  ⟨mul_nonneg hx.1 hy.1, mul_le_mul (by omega) (by omega) hy.1 (by omega)⟩

theorem multiply_spec {a b : ℤ} (ha : 0 ≤ a ∧ a < 2 ^ 63) (hb : 0 ≤ b ∧ b < 2 ^ 63) :
    ((multiply a b).value.high * 2 ^ 64 + (multiply a b).value.low = a * b ∧
      0 ≤ (multiply a b).value.low ∧ (multiply a b).value.low < 2 ^ 64) ∧
    ∀ fault ∈ (multiply a b).faults, fault = .wraps .lowSum := by
  have hal : 0 ≤ a % 2 ^ 32 ∧ a % 2 ^ 32 < 2 ^ 32 := by omega
  have hah : 0 ≤ a / 2 ^ 32 ∧ a / 2 ^ 32 < 2 ^ 31 := by omega
  have hbl : 0 ≤ b % 2 ^ 32 ∧ b % 2 ^ 32 < 2 ^ 32 := by omega
  have hbh : 0 ≤ b / 2 ^ 32 ∧ b / 2 ^ 32 < 2 ^ 31 := by omega
  have hlow := mul_bounds hal hbl
  have hhigh := mul_bounds hah hbh
  have hmid₁ := mul_bounds hah hbl
  have hmid₂ := mul_bounds hal hbh
  have hab : a * b = a / 2 ^ 32 * (b / 2 ^ 32) * 2 ^ 64 +
      (a / 2 ^ 32 * (b % 2 ^ 32) + a % 2 ^ 32 * (b / 2 ^ 32)) * 2 ^ 32 +
      a % 2 ^ 32 * (b % 2 ^ 32) := by
    have ha' : a = a / 2 ^ 32 * 2 ^ 32 + a % 2 ^ 32 := by omega
    have hb' : b = b / 2 ^ 32 * 2 ^ 32 + b % 2 ^ 32 := by omega
    calc a * b = (a / 2 ^ 32 * 2 ^ 32 + a % 2 ^ 32) * (b / 2 ^ 32 * 2 ^ 32 + b % 2 ^ 32) := by
          rw [← ha', ← hb']
      _ = _ := by ring
  unfold multiply
  rw [arith_of_fits (by simp; omega), pure_bind', arith_of_fits (by simp; omega), pure_bind', hab]
  generalize a % 2 ^ 32 * (b % 2 ^ 32) = low at *
  generalize a / 2 ^ 32 * (b / 2 ^ 32) = high at *
  generalize a / 2 ^ 32 * (b % 2 ^ 32) = mid₁ at *
  generalize a % 2 ^ 32 * (b / 2 ^ 32) = mid₂ at *
  rw [arith_of_fits (by simp; omega), pure_bind', arith_of_fits (by simp; omega), pure_bind',
    arith_of_fits (by simp; omega), pure_bind', arith_of_fits (by simp; omega), pure_bind',
    arith_of_fits (by simp; omega), pure_bind', arith_of_fits (by simp; omega), pure_bind',
    arith_of_fits (by simp; omega), pure_bind', arith_of_fits (by simp; omega), pure_bind']
  have hlower : 0 ≤ (mid₁ + mid₂) % 2 ^ 32 * 2 ^ 32 ∧ (mid₁ + mid₂) % 2 ^ 32 * 2 ^ 32 < 2 ^ 64 := by
    omega
  -- the carry goes to the high word exactly when the low word wraps
  by_cases hcarry : low > 2 ^ 64 - 1 - (mid₁ + mid₂) % 2 ^ 32 * 2 ^ 32
  · rw [if_pos hcarry, arith_of_fits (by simp; omega), pure_bind']
    refine ⟨?_, fun fault h => ?_⟩
    · simp only [value_bind, value_pure, value_arith, IntType.uint64, IntType.wrap]
      omega
    · simp only [faults_bind, faults_pure, List.append_nil] at h
      exact (mem_faults_arith.1 h).1
  · rw [if_neg hcarry, pure_bind', arith_of_fits (by simp; omega)]
    refine ⟨?_, by simp⟩
    simp only [pure_bind', value_pure]
    omega

/-! ### The division -/

/-- The product that the two words are. -/
def Dividends.product (d : Dividends) : ℤ := d.high * 2 ^ 64 + d.low

/-- The two words are below `2 ^ 64`, and so is the index of a bit below `128`. -/
def Dividends.Words (d : Dividends) : Prop := (0 ≤ d.low ∧ d.low < 2 ^ 64) ∧ d.product < 2 ^ 128

theorem Dividends.bit_eq {d : Dividends} (hd : d.Words) {i : ℕ} (hi : i < 128) :
    d.bit i = d.product / 2 ^ i % 2 := by
  obtain ⟨⟨h₀, h₁⟩, -⟩ := hd
  unfold bit product
  by_cases hlow : i < 64
  · -- the high word is a multiple of `2 ^ (i + 1)`
    have hsplit : (2 : ℤ) ^ 64 = 2 ^ (63 - i) * 2 * 2 ^ i := by
      rw [← pow_succ, ← pow_add]
      congr 1
      omega
    rw [if_pos (by omega), Nat.mod_eq_of_lt hlow, hsplit, ← mul_assoc, ← mul_assoc,
      Int.add_comm, Int.add_mul_ediv_right _ _ (by positivity)]
    omega
  · have hsplit : (2 : ℤ) ^ i = 2 ^ 64 * 2 ^ (i - 64) := by
      rw [← pow_add]
      congr 1
      omega
    have hmod : i % 64 = i - 64 := by omega
    have hhigh : (d.high * 2 ^ 64 + d.low) / 2 ^ 64 = d.high := by omega
    rw [if_neg (by omega), hmod, hsplit, ← Int.ediv_ediv_of_nonneg (by norm_num), hhigh]

theorem Dividends.leading_eq {d : Dividends} (hd : d.Words) {n : ℕ} (hn : n < 128) :
    d.product / 2 ^ n = 2 * (d.product / 2 ^ (n + 1)) + d.bit n := by
  rw [bit_eq hd hn, pow_succ, ← Int.ediv_ediv_of_nonneg (by positivity)]
  omega

theorem Dividends.bit_bounds (d : Dividends) (n : ℕ) : 0 ≤ d.bit n ∧ d.bit n ≤ 1 := by
  unfold bit
  omega

variable {d : Dividends} {divisor : ℤ}

/-- The first loop stops at the shortest prefix that is not less than the divisor; where there is
none the whole product is less. -/
theorem findStart_spec (hd : d.Words) (hdivisor : 0 < divisor ∧ divisor < 2 ^ 62) {n : ℕ}
    (hn : n ≤ 128) {workValue : ℤ} (hleading : workValue = d.product / 2 ^ n)
    (hwork : 0 ≤ workValue ∧ workValue < 2 * divisor) :
    (findStart d divisor n workValue = pure none ∧ d.product < divisor) ∨
    ∃ k ≤ n, findStart d divisor n workValue = pure (some (k, d.product / 2 ^ k)) ∧
      divisor ≤ d.product / 2 ^ k ∧ d.product / 2 ^ k < 2 * divisor := by
  induction n generalizing workValue with
  | zero =>
    rw [findStart]
    split_ifs with hlt
    · refine .inl ⟨?_, by simpa [hleading] using hlt⟩
      rw [arith_of_fits (by simp; omega), pure_bind']
    · exact .inr ⟨0, le_rfl, by rw [hleading], by omega, by omega⟩
  | succ n ih =>
    rw [findStart]
    split_ifs with hlt
    · have hbit := d.bit_bounds n
      rw [arith_of_fits (by simp; omega), pure_bind']
      have hnext := Dividends.leading_eq hd (Nat.lt_of_succ_le hn)
      rw [← hleading] at hnext
      rcases ih (by omega) hnext.symm ⟨by omega, by omega⟩ with h | ⟨k, hk, h⟩
      · exact .inl h
      · exact .inr ⟨k, by omega, h⟩
    · exact .inr ⟨n + 1, le_rfl, by rw [hleading], by omega, by omega⟩

theorem reduce_spec {number workValue result : ℤ} (hdivisor : 0 < divisor ∧ divisor < 2 ^ 62)
    (hnumber : 2 * result * divisor + workValue = number)
    (hwork : 0 ≤ workValue ∧ workValue < 2 * divisor) (hresult : 0 ≤ result)
    (hfits : number / divisor < 2 ^ 63) :
    reduce divisor workValue result = pure (number % divisor, number / divisor) := by
  unfold reduce
  by_cases hle : workValue ≥ divisor
  · obtain ⟨hq, hr⟩ : number / divisor = 2 * result + 1 ∧ number % divisor = workValue - divisor :=
      (Int.ediv_emod_unique hdivisor.1).2 ⟨by rw [← hnumber]; ring, by omega, by omega⟩
    rw [arith_of_fits (by simp; omega), pure_bind', if_pos hle, arith_of_fits (by simp; omega),
      pure_bind', arith_of_fits (by simp; omega), pure_bind', hq, hr]
  · obtain ⟨hq, hr⟩ : number / divisor = 2 * result ∧ number % divisor = workValue :=
      (Int.ediv_emod_unique hdivisor.1).2 ⟨by rw [← hnumber]; ring, by omega, by omega⟩
    rw [arith_of_fits (by simp; omega), pure_bind', if_neg hle, hq, hr]

theorem leading_ediv_le {number : ℤ} (h₀ : 0 ≤ number) (hdivisor : 0 < divisor) (n : ℕ) :
    number / 2 ^ n / divisor ≤ number / divisor := by
  refine Int.ediv_le_ediv hdivisor (Int.ediv_le_self _ h₀)

theorem divide_end {rounds : ℕ} {workValue result : ℤ} (hwork : workValue < divisor) :
    divide d divisor (rounds + 1) (-2) workValue result = pure (some result) := by
  rw [divide, if_neg (by omega)]

theorem divide_round {rounds : ℕ} {bitIndex workValue result rem quot : ℤ}
    (hindex : -1 ≤ bitIndex ∧ bitIndex < 128)
    (hreduce : reduce divisor workValue result = pure (rem, quot))
    (hrem : 0 ≤ rem ∧ rem < 2 ^ 62) :
    divide d divisor (rounds + 1) bitIndex workValue result =
      divide d divisor rounds (bitIndex - 1)
        (if bitIndex > -1 then 2 * rem + d.bit bitIndex.toNat else rem) quot := by
  rw [divide, if_pos (by omega), hreduce, pure_bind', assert_of (by omega), pure_bind']
  split_ifs with hbit
  · rw [arith_of_fits (by simp; omega), arith_of_fits (by simp; omega)]
    rfl
  · rw [arith_of_fits (by simp; omega)]
    rfl

theorem divide_spec (hd : d.Words) (h₀ : 0 ≤ d.product)
    (hdivisor : 0 < divisor ∧ divisor < 2 ^ 62) (hfits : d.product / divisor < 2 ^ 63) {n : ℕ}
    (hn : n ≤ 128) {workValue result : ℤ}
    (hleading : 2 * result * divisor + workValue = d.product / 2 ^ n)
    (hwork : 0 ≤ workValue ∧ workValue < 2 * divisor) (hresult : 0 ≤ result) {rounds : ℕ}
    (hrounds : n + 2 ≤ rounds) :
    divide d divisor rounds (n - 1) workValue result = pure (some (d.product / divisor)) := by
  induction n generalizing workValue result rounds with
  | zero =>
    obtain ⟨rounds, rfl⟩ : ∃ m, rounds = m + 2 := ⟨rounds - 2, by omega⟩
    simp only [pow_zero, Int.ediv_one] at hleading
    have hrem₀ := Int.emod_nonneg d.product hdivisor.1.ne'
    have hrem := Int.emod_lt_of_pos d.product hdivisor.1
    rw [divide_round (by simp) (reduce_spec hdivisor hleading hwork hresult hfits) (by omega)]
    exact divide_end hrem
  | succ n ih =>
    obtain ⟨rounds, rfl⟩ : ∃ m, rounds = m + 1 := ⟨rounds - 1, by omega⟩
    have hquotient := (leading_ediv_le h₀ hdivisor.1 (n + 1)).trans_lt hfits
    have hnext := Dividends.leading_eq hd (Nat.lt_of_succ_le hn)
    have hreduce := reduce_spec hdivisor hleading hwork hresult hquotient
    have hdivmod := Int.mul_ediv_add_emod (d.product / 2 ^ (n + 1)) divisor
    have hrem₀ := Int.emod_nonneg (d.product / 2 ^ (n + 1)) hdivisor.1.ne'
    have hrem := Int.emod_lt_of_pos (d.product / 2 ^ (n + 1)) hdivisor.1
    have hquotient₀ : 0 ≤ d.product / 2 ^ (n + 1) / divisor :=
      Int.ediv_nonneg (Int.ediv_nonneg h₀ (by positivity)) hdivisor.1.le
    have hbit := d.bit_bounds n
    have hindex : (((n + 1 : ℕ) : ℤ) - 1) = n := by omega
    rw [hindex, divide_round (by omega) hreduce (by omega), if_pos (by omega), Int.toNat_natCast]
    refine ih (by omega) ?_ (by omega) hquotient₀ (by omega)
    rw [hnext]
    linarith

theorem longDivision_spec (hd : d.Words) (h₀ : 0 ≤ d.product)
    (hdivisor : 0 < divisor ∧ divisor < 2 ^ 62) (hfits : d.product / divisor < 2 ^ 63)
    {rounds : ℕ} (hrounds : 130 ≤ rounds) (resultIsNegative : Bool) :
    longDivision rounds d divisor resultIsNegative =
      pure (some (if resultIsNegative then -(d.product / divisor) else d.product / divisor)) := by
  have hstart : (0 : ℤ) = d.product / 2 ^ 128 := (Int.ediv_eq_zero_of_lt h₀ hd.2).symm
  unfold longDivision
  rcases findStart_spec hd hdivisor le_rfl hstart (by omega) with
    ⟨hnone, hlt⟩ | ⟨k, hk, hsome, hle, hlt⟩
  · rw [hnone, pure_bind', Int.ediv_eq_zero_of_lt h₀ hlt]
    simp
  · have hquotient := divide_spec hd h₀ hdivisor hfits hk (by omega) ⟨by omega, hlt⟩ le_rfl
      (show k + 2 ≤ rounds by omega)
    have hquotient₀ : 0 ≤ d.product / divisor := Int.ediv_nonneg h₀ hdivisor.1.le
    rw [hsome, pure_bind']
    simp only
    rw [hquotient, pure_bind']
    simp only
    rw [arith_of_fits (by simp; omega), pure_bind']
    split_ifs
    · rw [arith_of_fits (by simp; omega)]
      rfl
    · rfl

/-! ### The function -/

theorem resultIsNegative_iff (a b c : Int64) :
    (a ^^^ b ^^^ c).toUInt64 >>> 63 ≠ 0 ↔
      ((decide (a.toInt < 0)).xor (decide (b.toInt < 0))).xor (decide (c.toInt < 0)) = true := by
  have hmsb : ∀ x : Int64, decide (x.toInt < 0) = x.toBitVec.msb := fun x =>
    (BitVec.msb_eq_toInt (x := x.toBitVec)).symm
  have hshift : ∀ x : Int64, x.toUInt64 >>> 63 ≠ 0 ↔ x.toBitVec.msb = true := by
    intro x
    have hlt : x.toBitVec.toNat < 2 ^ 64 := x.toBitVec.isLt
    have hval : (x.toUInt64 >>> 63).toNat = x.toBitVec.toNat / 2 ^ 63 := by
      rw [UInt64.toNat_shiftRight, Nat.shiftRight_eq_div_pow]
      rfl
    rw [ne_eq, ← UInt64.toNat_inj, hval, BitVec.msb_eq_decide, decide_eq_true_eq, UInt64.toNat_zero]
    omega
  rw [hshift, hmsb, hmsb, hmsb, Int64.toBitVec_xor, Int64.toBitVec_xor, BitVec.msb_xor,
    BitVec.msb_xor]

theorem tdiv_eq_magnitudes (a b c : ℤ) :
    Int.tdiv (a * b) c =
      if ((decide (a < 0)).xor (decide (b < 0))).xor (decide (c < 0)) then -(|a| * |b| / |c|)
      else |a| * |b| / |c| := by
  have hpos : |a| * |b| / |c| = Int.tdiv (|a| * |b|) |c| :=
    (Int.tdiv_eq_ediv_of_nonneg (by positivity)).symm
  rw [hpos]
  rcases abs_cases a with ⟨ha, ha'⟩ | ⟨ha, ha'⟩ <;>
    rcases abs_cases b with ⟨hb, hb'⟩ | ⟨hb, hb'⟩ <;>
    rcases abs_cases c with ⟨hc, hc'⟩ | ⟨hc, hc'⟩ <;>
    simp [ha, hb, hc, ha', hb', hc', not_lt.2, Int.neg_tdiv]

theorem abs_toInt_lt {x : Int64} (hx : x ≠ Int64.minValue) : |x.toInt| < 2 ^ 63 := by
  have h₀ := x.le_toInt
  have h₁ := x.toInt_lt
  have hne : x.toInt ≠ -2 ^ 63 := fun h => hx (Int64.toInt_inj.1 h)
  rw [abs_lt]
  omega

theorem llabs_eq {x : Int64} (hx : x ≠ Int64.minValue) : llabs x.toInt = pure |x.toInt| := by
  have h₀ := abs_nonneg x.toInt
  have h₁ := abs_toInt_lt hx
  exact arith_of_fits (by simp; omega)

/-- The condition of the scaled division. -/
structure Operands (multiplicand multiplier divisor : Int64) : Prop where
  multiplicand_ne : multiplicand ≠ Int64.minValue
  multiplier_ne : multiplier ≠ Int64.minValue
  divisor_ne : divisor ≠ Int64.minValue
  divisor_pos : 0 < |divisor.toInt|
  divisor_lt : |divisor.toInt| < 2 ^ 62
  quotient_le : |Int.tdiv (multiplicand.toInt * multiplier.toInt) divisor.toInt| ≤ 2 ^ 63 - 1

/-- The quotient is exact, the only operation that wraps is the addition to the low word of the
product, and the only assertions that fail are those that a factor is positive, when it is zero. -/
theorem aTimesBDividedByC_spec {a b c : Int64} (h : Operands a b c) {rounds : ℕ}
    (hrounds : 130 ≤ rounds) :
    (aTimesBDividedByC rounds a b c).value = some (Int.tdiv (a.toInt * b.toInt) c.toInt) ∧
    ∀ fault ∈ (aTimesBDividedByC rounds a b c).faults, fault = .wraps .lowSum ∨
      fault = .asserts .multiplicandPositive ∧ a = 0 ∨
      fault = .asserts .multiplierPositive ∧ b = 0 := by
  have ha := abs_toInt_lt h.multiplicand_ne
  have hb := abs_toInt_lt h.multiplier_ne
  have ha₀ := abs_nonneg a.toInt
  have hb₀ := abs_nonneg b.toInt
  have hc₀ := h.divisor_pos
  have hc := h.divisor_lt
  obtain ⟨⟨hproduct, hlow⟩, hmultiply⟩ := multiply_spec ⟨ha₀, ha⟩ ⟨hb₀, hb⟩
  have hprod : (multiply |a.toInt| |b.toInt|).value.product = |a.toInt| * |b.toInt| := hproduct
  have hprod₀ : 0 ≤ |a.toInt| * |b.toInt| := by positivity
  have hwords : (multiply |a.toInt| |b.toInt|).value.Words := by
    have := mul_bounds ⟨ha₀, ha⟩ ⟨hb₀, hb⟩
    exact ⟨hlow, by rw [hprod]; omega⟩
  have hquot : |a.toInt| * |b.toInt| / |c.toInt| < 2 ^ 63 := by
    have h₁ := h.quotient_le
    have h₂ : |a.toInt| * |b.toInt| / |c.toInt| ≥ 0 := Int.ediv_nonneg hprod₀ hc₀.le
    rw [tdiv_eq_magnitudes] at h₁
    split_ifs at h₁
    · rw [abs_neg, abs_of_nonneg h₂] at h₁
      omega
    · rw [abs_of_nonneg h₂] at h₁
      omega
  have hdivision := longDivision_spec hwords (by rw [hprod]; exact hprod₀) ⟨hc₀, hc⟩
    (by rw [hprod]; exact hquot) hrounds
  have hsize : |c.toInt| / 2 ^ 62 % 2 = 0 := by omega
  unfold aTimesBDividedByC
  rw [llabs_eq h.divisor_ne, pure_bind', assert_of hsize, pure_bind', llabs_eq h.multiplicand_ne,
    pure_bind', llabs_eq h.multiplier_ne]
  simp only [pure_bind', value_bind, faults_bind, hdivision, hprod, value_pure, faults_pure,
    List.append_nil, List.mem_append, mem_faults_assert, gt_iff_lt, abs_pos, not_not]
  refine ⟨?_, fun fault hfault => ?_⟩
  · simp only [tdiv_eq_magnitudes, resultIsNegative_iff, Bool.decide_eq_true]
  rcases hfault with ⟨rfl, hzero⟩ | ⟨rfl, hzero⟩ | hfault
  · exact .inr (.inl ⟨rfl, Int64.toInt_inj.1 hzero⟩)
  · exact .inr (.inr ⟨rfl, Int64.toInt_inj.1 hzero⟩)
  · exact .inl (hmultiply fault hfault)

theorem aTimesBDividedByC_spec_square :
    (aTimesBDividedByC 130 8589934591 8589934591 (-17179869184)).value = some (-4294967295) ∧
    ∀ fault ∈ (aTimesBDividedByC 130 8589934591 8589934591 (-17179869184)).faults,
      fault = .wraps .lowSum ∨
      fault = .asserts .multiplicandPositive ∧ (8589934591 : Int64) = 0 ∨
      fault = .asserts .multiplierPositive ∧ (8589934591 : Int64) = 0 :=
  aTimesBDividedByC_spec ⟨by decide, by decide, by decide, by decide, by decide, by decide⟩ le_rfl

/-- The addition to the low word does wrap. -/
theorem lowSum_wraps :
    ¬ ∀ a b c : Int64, Operands a b c → ∀ rounds ≥ 130,
      (aTimesBDividedByC rounds a b c).value = some (Int.tdiv (a.toInt * b.toInt) c.toInt) ∧
      (∀ op, .wraps op ∉ (aTimesBDividedByC rounds a b c).faults) ∧
      .asserts .overflow ∉ (aTimesBDividedByC rounds a b c).faults := fun h =>
  (h 8589934591 8589934591 17179869184
    ⟨by decide, by decide, by decide, by decide, by decide, by decide⟩ 130 le_rfl).2.1 .lowSum
      (by decide +kernel)

end MathUtils

end Il2Cpp
