import Mathlib

/-!
# Numbers in mixed radix

Digits with a base each, the most significant one first, as the positions of the elements of an array
of several dimensions are computed.

`mixedRadix_lt`, `mixedRadix_inj` and `exists_mixedRadix` : the digits below their bases stand for the
numbers below the product of the bases, one for each.
-/

namespace Il2Cpp

/-- The number that digits stand for, behind a number that has been read so far. -/
def mixedRadix : List ℕ → List ℕ → ℕ → ℕ
  | base :: bases, digit :: digits, n => mixedRadix bases digits (n * base + digit)
  | _, _, n => n

/-- The digits are below their bases. -/
abbrev Digits (bases digits : List ℕ) : Prop :=
  List.Forall₂ (fun base digit => digit < base) bases digits

variable {bases digits digits' : List ℕ}

theorem mixedRadix_eq (h : Digits bases digits) (n : ℕ) :
    mixedRadix bases digits n = n * bases.prod + mixedRadix bases digits 0 := by
  induction h generalizing n with
  | nil => simp [mixedRadix]
  | cons hdigit _ ih =>
    rw [mixedRadix, ih, mixedRadix, ih (0 * _ + _), List.prod_cons, Nat.zero_mul, Nat.zero_add,
      Nat.add_mul, Nat.mul_assoc, Nat.add_assoc]

theorem mixedRadix_lt (h : Digits bases digits) : mixedRadix bases digits 0 < bases.prod := by
  induction h with
  | nil => exact Nat.one_pos
  | @cons base digit bases digits hdigit hdigits ih =>
    rw [mixedRadix, mixedRadix_eq hdigits, List.prod_cons, Nat.zero_mul, Nat.zero_add]
    calc digit * bases.prod + mixedRadix bases digits 0
        < digit * bases.prod + bases.prod := Nat.add_lt_add_left ih _
      _ = (digit + 1) * bases.prod := (Nat.succ_mul ..).symm
      _ ≤ base * bases.prod := Nat.mul_le_mul_right _ hdigit

theorem mixedRadix_inj (h : Digits bases digits) (h' : Digits bases digits') {n n' : ℕ}
    (heq : mixedRadix bases digits n = mixedRadix bases digits' n') : n = n' ∧ digits = digits' := by
  induction h generalizing digits' n n' with
  | nil =>
    cases h'
    exact ⟨heq, rfl⟩
  | @cons base digit bases digits hdigit _ ih =>
    cases h' with
    | @cons _ digit' _ digits' hdigit' hdigits' =>
      obtain ⟨hn, hdigits⟩ := ih hdigits' heq
      have hmod := congrArg (· % base) hn
      simp only [Nat.mul_add_mod_of_lt hdigit, Nat.mul_add_mod_of_lt hdigit'] at hmod
      rw [hmod, Nat.add_left_inj] at hn
      exact ⟨Nat.eq_of_mul_eq_mul_right (Nat.zero_lt_of_lt hdigit) hn, by rw [hmod, hdigits]⟩

theorem exists_mixedRadix {n : ℕ} (h : n < bases.prod) :
    ∃ digits, Digits bases digits ∧ mixedRadix bases digits 0 = n := by
  induction bases generalizing n with
  | nil =>
    rw [List.prod_nil, Nat.lt_one_iff] at h
    exact ⟨[], .nil, h.symm⟩
  | cons base bases ih =>
    rw [List.prod_cons] at h
    have hpos : 0 < bases.prod := Nat.pos_of_mul_pos_left (Nat.zero_lt_of_lt h)
    obtain ⟨digits, hdigits, hvalue⟩ := ih (Nat.mod_lt n hpos)
    have hdigit : n / bases.prod < base := Nat.div_lt_of_lt_mul (by rwa [Nat.mul_comm])
    refine ⟨n / bases.prod :: digits, .cons hdigit hdigits, ?_⟩
    rw [mixedRadix, mixedRadix_eq hdigits, hvalue, Nat.zero_mul, Nat.zero_add, Nat.mul_comm]
    exact Nat.div_add_mod n bases.prod

end Il2Cpp
