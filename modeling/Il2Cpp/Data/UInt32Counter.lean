import Mathlib

/-!
# Counters of 32 bits

A `uint32_t` that is counted up and down, as a natural number.

* `increment`, `decrement` : `++` and `--`, which wrap.
-/

namespace Il2Cpp

/-- `UINT32_MAX`. -/
def uint32Max : ℕ := 2 ^ 32 - 1

/-- `++`, which wraps. -/
def increment (n : ℕ) : ℕ := if n < uint32Max then n + 1 else 0

/-- `--`, which wraps. -/
def decrement (n : ℕ) : ℕ := if n = 0 then uint32Max else n - 1

theorem increment_of_lt {n : ℕ} (h : n < uint32Max) : increment n = n + 1 := if_pos h

@[simp] theorem decrement_succ (n : ℕ) : decrement (n + 1) = n := if_neg (Nat.succ_ne_zero n)

end Il2Cpp
