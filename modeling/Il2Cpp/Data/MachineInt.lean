import Mathlib

/-!
# Arithmetic on machine integers

A machine integer is the integer that it stands for.  An operation wraps its exact result into the
type, and a computation keeps the list of the operations whose exact result did not fit.

* `IntType` : the types, with `Fits` and `wrap`.
* `Computed L α` : a computation that returns an `α`, with its faults, which are labels `L`.
* `Computed.arith`, `Computed.assert` : the primitives.
* `Computed.arith_of_fits` : an operation whose exact result fits is the exact one.
-/

namespace Il2Cpp

/-- The types of machine integers: from `-2 ^ n` to `2 ^ n - 1`, and from `0` to `2 ^ n - 1`. -/
inductive IntType
  | signed (n : ℕ)
  | unsigned (n : ℕ)

namespace IntType

def int16 : IntType := signed 15
def int32 : IntType := signed 31
def int64 : IntType := signed 63
def uint32 : IntType := unsigned 32
def uint64 : IntType := unsigned 64

/-- The integer is a value of the type. -/
def Fits : IntType → ℤ → Prop
  | signed n, x => -2 ^ n ≤ x ∧ x < 2 ^ n
  | unsigned n, x => 0 ≤ x ∧ x < 2 ^ n

instance (t : IntType) (x : ℤ) : Decidable (t.Fits x) := by
  cases t <;> exact inferInstanceAs (Decidable (_ ∧ _))

/-- The value of the type that is equal to `x` up to a multiple of its size. -/
def wrap : IntType → ℤ → ℤ
  | signed n, x => (x + 2 ^ n) % 2 ^ (n + 1) - 2 ^ n
  | unsigned n, x => x % 2 ^ n

theorem fits_wrap (t : IntType) (x : ℤ) : t.Fits (t.wrap x) := by
  cases t with
  | signed n =>
    have h₀ := Int.emod_nonneg (x + 2 ^ n) (b := 2 ^ (n + 1)) (by positivity)
    have h₁ := Int.emod_lt_of_pos (x + 2 ^ n) (b := 2 ^ (n + 1)) (by positivity)
    have h₂ : (2 : ℤ) ^ (n + 1) = 2 ^ n + 2 ^ n := by ring
    simp only [Fits, wrap]
    omega
  | unsigned n =>
    exact ⟨Int.emod_nonneg _ (by positivity), Int.emod_lt_of_pos _ (by positivity)⟩

theorem wrap_of_fits {t : IntType} {x : ℤ} (h : t.Fits x) : t.wrap x = x := by
  cases t with
  | signed n =>
    have h₂ : (2 : ℤ) ^ (n + 1) = 2 ^ n + 2 ^ n := by ring
    simp only [Fits] at h
    simp only [wrap]
    rw [Int.emod_eq_of_lt (by omega) (by omega)]
    omega
  | unsigned n => exact Int.emod_eq_of_lt h.1 h.2

@[simp] theorem fits_int16 {x : ℤ} : int16.Fits x ↔ -32768 ≤ x ∧ x < 32768 := Iff.rfl

@[simp] theorem fits_int32 {x : ℤ} : int32.Fits x ↔ -2147483648 ≤ x ∧ x < 2147483648 := Iff.rfl

@[simp] theorem fits_int64 {x : ℤ} :
    int64.Fits x ↔ -9223372036854775808 ≤ x ∧ x < 9223372036854775808 := Iff.rfl

@[simp] theorem fits_uint32 {x : ℤ} : uint32.Fits x ↔ 0 ≤ x ∧ x < 4294967296 := Iff.rfl

@[simp] theorem fits_uint64 {x : ℤ} :
    uint64.Fits x ↔ 0 ≤ x ∧ x < 18446744073709551616 := Iff.rfl

end IntType

/-- A result, and the labels of the operations that went wrong, in order. -/
structure Computed (L α : Type) where
  value : α
  faults : List L

namespace Computed

variable {L α β : Type}

protected def bind (x : Computed L α) (f : α → Computed L β) : Computed L β :=
  ⟨(f x.value).value, x.faults ++ (f x.value).faults⟩

instance : Monad (Computed L) where
  pure a := ⟨a, []⟩
  bind := Computed.bind

theorem ext_iff' {x y : Computed L α} : x = y ↔ x.value = y.value ∧ x.faults = y.faults := by
  cases x
  cases y
  simp

@[simp] theorem value_pure (a : α) : (pure a : Computed L α).value = a := rfl

@[simp] theorem faults_pure (a : α) : (pure a : Computed L α).faults = [] := rfl

@[simp] theorem value_bind (x : Computed L α) (f : α → Computed L β) :
    (x >>= f).value = (f x.value).value := rfl

@[simp] theorem faults_bind (x : Computed L α) (f : α → Computed L β) :
    (x >>= f).faults = x.faults ++ (f x.value).faults := rfl

@[simp] theorem pure_bind' (a : α) (f : α → Computed L β) : (pure a : Computed L α) >>= f = f a :=
  rfl

/-- The operation `l`, with its exact result in the type `t`. -/
def arith (l : L) (t : IntType) (exact : ℤ) : Computed L ℤ :=
  ⟨t.wrap exact, if t.Fits exact then [] else [l]⟩

/-- The assertion `l`, after which the computation goes on. -/
def assert (l : L) (condition : Prop) [Decidable condition] : Computed L Unit :=
  ⟨(), if condition then [] else [l]⟩

theorem arith_of_fits {l : L} {t : IntType} {x : ℤ} (h : t.Fits x) :
    arith l t x = pure x := by
  rw [ext_iff']
  exact ⟨IntType.wrap_of_fits h, if_pos h⟩

@[simp] theorem value_arith (l : L) (t : IntType) (x : ℤ) : (arith l t x).value = t.wrap x := rfl

theorem mem_faults_arith {l l' : L} {t : IntType} {x : ℤ} :
    l' ∈ (arith l t x).faults ↔ l' = l ∧ ¬ t.Fits x := by
  unfold arith
  split_ifs with h <;> simp [h]

theorem assert_of {l : L} {condition : Prop} [Decidable condition] (h : condition) :
    (assert l condition : Computed L Unit) = pure () := by
  rw [ext_iff']
  exact ⟨rfl, if_pos h⟩

theorem mem_faults_assert {l l' : L} {condition : Prop} [Decidable condition] :
    l' ∈ (assert l condition).faults ↔ l' = l ∧ ¬ condition := by
  unfold assert
  split_ifs with h <;> simp [h]

end Computed

end Il2Cpp
