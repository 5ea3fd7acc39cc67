import Il2Cpp.Data.MachineInt

/-!
# Integers in memory

The bytes of an integer, the lowest one first.

* `encode`, `decode` : numbers as bytes; `encodeBig`, `decodeBig` : the highest byte first.
* `store`, `load` : machine integers; storing cuts off what does not fit.
* `load_store` : what is loaded after it has been stored.
-/

namespace Il2Cpp

namespace LittleEndian

/-- The number that bytes stand for. -/
def decode : List UInt8 → ℕ
  | [] => 0
  | b :: bytes => b.toNat + 256 * decode bytes

/-- The `n` lowest bytes of a number. -/
def encode : ℕ → ℕ → List UInt8
  | 0, _ => []
  | n + 1, x => UInt8.ofNat x :: encode n (x / 256)

@[simp] theorem length_encode (n x : ℕ) : (encode n x).length = n := by
  induction n generalizing x with
  | zero => rfl
  | succ n ih => exact congrArg (· + 1) (ih _)

theorem decode_encode (n x : ℕ) : decode (encode n x) = x % 256 ^ n := by
  induction n generalizing x with
  | zero => rw [encode, decode, pow_zero, Nat.mod_one]
  | succ n ih =>
    have hbyte : (UInt8.ofNat x).toNat = x % 256 := UInt8.toNat_ofNat'
    rw [encode, decode, ih, hbyte, pow_succ', Nat.mod_mul]

/-! ### The highest byte first -/

/-- The number that bytes stand for, the highest one first. -/
def decodeBig (bytes : List UInt8) : ℕ := decode bytes.reverse

/-- The `n` lowest bytes of a number, the highest one first. -/
def encodeBig (n x : ℕ) : List UInt8 := (encode n x).reverse

@[simp] theorem length_encodeBig (n x : ℕ) : (encodeBig n x).length = n :=
  List.length_reverse.trans (length_encode n x)

theorem decodeBig_encodeBig (n x : ℕ) : decodeBig (encodeBig n x) = x % 256 ^ n := by
  rw [decodeBig, encodeBig, List.reverse_reverse, decode_encode]

theorem decode_encode_of_lt {n x : ℕ} (h : x < 256 ^ n) : decode (encode n x) = x :=
  (decode_encode n x).trans (Nat.mod_eq_of_lt h)

theorem decodeBig_encodeBig_of_lt {n x : ℕ} (h : x < 256 ^ n) : decodeBig (encodeBig n x) = x :=
  (decodeBig_encodeBig n x).trans (Nat.mod_eq_of_lt h)

/-! ### Machine integers -/

/-- The integer of a type that bytes stand for. -/
def load (t : IntType) (bytes : List UInt8) : ℤ := t.wrap (decode bytes)

/-- The `n` bytes of an integer. -/
def store (n : ℕ) (x : ℤ) : List UInt8 := encode n (x % 256 ^ n).toNat

@[simp] theorem length_store (n : ℕ) (x : ℤ) : (store n x).length = n := length_encode _ _

theorem decode_store (n : ℕ) (x : ℤ) : (decode (store n x) : ℤ) = x % 256 ^ n := by
  have hpos : (0 : ℤ) < 256 ^ n := by positivity
  have h₀ := Int.emod_nonneg x hpos.ne'
  have h₁ := Int.emod_lt_of_pos x hpos
  have hlt : (x % 256 ^ n).toNat < 256 ^ n := by
    zify
    rwa [Int.toNat_of_nonneg h₀]
  rw [store, decode_encode, Nat.mod_eq_of_lt hlt, Int.toNat_of_nonneg h₀]

/-- The number of values of a type. -/
def modulus : IntType → ℤ
  | .signed n => 2 ^ (n + 1)
  | .unsigned n => 2 ^ n

theorem wrap_emod (t : IntType) (x : ℤ) : t.wrap (x % modulus t) = t.wrap x := by
  cases t with
  | signed n => rw [IntType.wrap, IntType.wrap, modulus, Int.emod_add_emod]
  | unsigned n => rw [IntType.wrap, IntType.wrap, modulus, Int.emod_emod_of_dvd _ dvd_rfl]

theorem load_store {t : IntType} {n : ℕ} (h : modulus t = 256 ^ n) (x : ℤ) :
    load t (store n x) = t.wrap x := by
  rw [load, decode_store, ← h, wrap_emod]

/-- An integer that fits is loaded as it has been stored. -/
theorem load_store_of_fits {t : IntType} {n : ℕ} (h : modulus t = 256 ^ n) {x : ℤ}
    (hx : t.Fits x) : load t (store n x) = x :=
  (load_store h x).trans (IntType.wrap_of_fits hx)

end LittleEndian

end Il2Cpp
