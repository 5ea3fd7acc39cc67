import Il2Cpp.Data.MachineInt

/-!
# Integers in decimal

`StringView::TryParseAsInt` of `StringView.h`.  The text is the list of its code units, promoted to
`int`, so that it does not matter which character type the view has.

* `tryParseAsInt` : the function, with its arithmetic.
* `Denotes` : the decimal numerals of the values of `int`, with an optional sign.
* `parseDigits_eq` : the loop returns the value of the digits when it is at most `INT_MAX`, and
  nothing overflows.
* `tryParseAsInt_exact_iff` : the texts for which the function is exact.  It takes a sign without
  digits for `0`, and refuses the numerals of `INT_MIN`, since the magnitude is at most `INT_MAX`.
-/

namespace Il2Cpp

namespace StringView

open Computed

def intMax : ℤ := 2147483647

/-- The loop of `TryParseAsInt` from a position on, with the `result` so far. -/
def parseDigits : List ℤ → ℤ → Computed Unit (Option ℤ)
  | [], result => pure (some result)
  | digit :: rest, result =>
    if digit < 48 ∨ digit > 57 then pure none
    else do
      let digitNumeric ← arith () .int32 (digit - 48)
      if result > intMax / 10 then pure none
      else do
        let result ← arith () .int32 (result * 10)
        let limit ← arith () .int32 (intMax - digitNumeric)
        if result > limit then pure none
        else do
          let result ← arith () .int32 (result + digitNumeric)
          parseDigits rest result

/-- `TryParseAsInt`: `outResult`, or `none` when it returns `false`. -/
def tryParseAsInt : List ℤ → Computed Unit (Option ℤ)
  | [] => pure none
  | c :: rest => do
    -- '-'
    let isNegative := c = 45
    let result ← parseDigits (if isNegative then rest else c :: rest) 0
    match result with
    | none => pure none
    | some result => if isNegative then some <$> arith () .int32 (-result) else pure (some result)

/-! ### Numerals -/

def IsDigits (ds : List ℤ) : Prop := ∀ d ∈ ds, 48 ≤ d ∧ d ≤ 57

instance (ds : List ℤ) : Decidable (IsDigits ds) := inferInstanceAs (Decidable (∀ d ∈ ds, _))

/-- The number whose digits are those of `n` followed by `ds`. -/
def digitsValue (n : ℤ) (ds : List ℤ) : ℤ := ds.foldl (fun n d => 10 * n + (d - 48)) n

@[simp] theorem digitsValue_nil (n : ℤ) : digitsValue n [] = n := rfl

@[simp] theorem digitsValue_cons (n d : ℤ) (ds : List ℤ) :
    digitsValue n (d :: ds) = digitsValue (10 * n + (d - 48)) ds := rfl

@[simp] theorem isDigits_nil : IsDigits [] := nofun

@[simp] theorem isDigits_cons {d : ℤ} {ds : List ℤ} :
    IsDigits (d :: ds) ↔ (48 ≤ d ∧ d ≤ 57) ∧ IsDigits ds := by
  simp [IsDigits]

/-- The text is a numeral of the `int` `v`: an optional sign, and then one or more digits. -/
def Denotes (text : List ℤ) (v : ℤ) : Prop :=
  IntType.int32.Fits v ∧ ∃ ds, ds ≠ [] ∧ IsDigits ds ∧
    (text = ds ∧ v = digitsValue 0 ds ∨ text = 45 :: ds ∧ v = -digitsValue 0 ds)

theorem le_digitsValue {ds : List ℤ} (hds : IsDigits ds) {n : ℤ} (hn : 0 ≤ n) :
    n ≤ digitsValue n ds := by
  induction ds generalizing n with
  | nil => exact le_rfl
  | cons d ds ih =>
    obtain ⟨hd, hds⟩ := isDigits_cons.1 hds
    have h := ih hds (n := 10 * n + (d - 48)) (by omega)
    rw [digitsValue_cons]
    omega

/-! ### The loop -/

theorem not_fits_of_lt {ds : List ℤ} {n : ℤ} (h₀ : 0 ≤ n) (h : intMax < n) :
    ¬ (IsDigits ds ∧ digitsValue n ds ≤ intMax) := fun ⟨hds, hle⟩ => by
  have := le_digitsValue hds h₀
  omega

theorem parseDigits_eq (ds : List ℤ) {result : ℤ} (h₀ : 0 ≤ result) (h₁ : result ≤ intMax) :
    parseDigits ds result =
      pure (if IsDigits ds ∧ digitsValue result ds ≤ intMax then some (digitsValue result ds)
        else none) := by
  have hmax : intMax = 2147483647 := rfl
  induction ds generalizing result with
  | nil => simp [parseDigits, h₁]
  | cons digit rest ih =>
    rw [parseDigits]
    by_cases hdigit : digit < 48 ∨ digit > 57
    · rw [if_pos hdigit, if_neg fun h => absurd (isDigits_cons.1 h.1).1 (by omega)]
    have hd : 48 ≤ digit ∧ digit ≤ 57 := by omega
    have hnext : 0 ≤ 10 * result + (digit - 48) := by omega
    rw [if_neg hdigit, arith_of_fits (by simp; omega), pure_bind']
    simp only [isDigits_cons, hd, and_self, true_and, digitsValue_cons]
    by_cases hdiv : result > intMax / 10
    · rw [if_pos hdiv, if_neg (not_fits_of_lt hnext (by omega))]
    rw [if_neg hdiv, arith_of_fits (by simp; omega), pure_bind',
      arith_of_fits (by simp; omega), pure_bind']
    by_cases hlimit : result * 10 > intMax - (digit - 48)
    · rw [if_pos hlimit, if_neg (not_fits_of_lt hnext (by omega))]
    have hle : 10 * result + (digit - 48) ≤ intMax := by omega
    have hcomm : result * 10 + (digit - 48) = 10 * result + (digit - 48) := by ring
    rw [if_neg hlimit, hcomm, arith_of_fits (by simp; omega), pure_bind',
      ih hnext hle]

/-! ### The function -/

/-- The function succeeds exactly on the numerals of the values of `int`, with their value, and
nothing overflows. -/
def ParsedExactly (text : List ℤ) : Prop :=
  (∀ v, (tryParseAsInt text).value = some v ↔ Denotes text v) ∧ (tryParseAsInt text).faults = []

theorem tryParseAsInt_neg (ds : List ℤ) :
    tryParseAsInt (45 :: ds) =
      pure (if IsDigits ds ∧ digitsValue 0 ds ≤ intMax then some (-digitsValue 0 ds)
        else none) := by
  simp only [tryParseAsInt, ↓reduceIte]
  rw [parseDigits_eq ds le_rfl (by decide), pure_bind']
  split_ifs with h
  · have h₀ := le_digitsValue h.1 le_rfl
    have h₁ : digitsValue 0 ds ≤ 2147483647 := h.2
    simp only
    rw [arith_of_fits (by simp; omega)]
    rfl
  · rfl

theorem tryParseAsInt_pos {c : ℤ} (hc : c ≠ 45) (ds : List ℤ) :
    tryParseAsInt (c :: ds) =
      pure (if IsDigits (c :: ds) ∧ digitsValue 0 (c :: ds) ≤ intMax
        then some (digitsValue 0 (c :: ds)) else none) := by
  simp only [tryParseAsInt, hc, ↓reduceIte]
  rw [parseDigits_eq (c :: ds) le_rfl (by decide), pure_bind']
  split_ifs with h <;> rfl

theorem denotes_pos {c : ℤ} (hc : c ≠ 45) {ds : List ℤ} {v : ℤ} :
    Denotes (c :: ds) v ↔
      (IsDigits (c :: ds) ∧ digitsValue 0 (c :: ds) ≤ intMax) ∧ digitsValue 0 (c :: ds) = v := by
  unfold Denotes intMax
  rw [IntType.fits_int32]
  constructor
  · rintro ⟨hv, ds', -, hds, ⟨rfl, rfl⟩ | ⟨h, -⟩⟩
    · exact ⟨⟨hds, by omega⟩, rfl⟩
    · exact absurd (List.cons.inj h).1 hc
  · rintro ⟨⟨hds, hle⟩, rfl⟩
    have h₀ := le_digitsValue hds le_rfl
    exact ⟨by omega, _, List.cons_ne_nil _ _, hds, .inl ⟨rfl, rfl⟩⟩

theorem denotes_neg {ds : List ℤ} {v : ℤ} :
    Denotes (45 :: ds) v ↔
      ds ≠ [] ∧ (IsDigits ds ∧ digitsValue 0 ds ≤ intMax + 1) ∧ -digitsValue 0 ds = v := by
  unfold Denotes intMax
  rw [IntType.fits_int32]
  constructor
  · rintro ⟨hv, ds', hne, hds, ⟨rfl, -⟩ | ⟨h, rfl⟩⟩
    · exact absurd (isDigits_cons.1 hds).1 (by omega)
    · cases h
      exact ⟨hne, ⟨hds, by omega⟩, rfl⟩
  · rintro ⟨hne, ⟨hds, hle⟩, rfl⟩
    have h₀ := le_digitsValue hds le_rfl
    exact ⟨by omega, ds, hne, hds, .inr ⟨rfl, rfl⟩⟩

theorem not_denotes_nil {v : ℤ} : ¬ Denotes [] v := by
  rintro ⟨-, ds, hne, -, ⟨rfl, -⟩ | ⟨h, -⟩⟩
  · exact hne rfl
  · cases h

theorem tryParseAsInt_of_denotes {text : List ℤ} {v : ℤ} (hv : 0 < v) (h : Denotes text v) :
    (tryParseAsInt text).value = some v := by
  rcases text with - | ⟨c, ds⟩
  · exact absurd h not_denotes_nil
  by_cases hc : c = 45
  · subst hc
    obtain ⟨-, ⟨hds, -⟩, rfl⟩ := denotes_neg.1 h
    have := le_digitsValue hds le_rfl
    omega
  · obtain ⟨hle, rfl⟩ := (denotes_pos hc).1 h
    rw [tryParseAsInt_pos hc, if_pos hle]
    rfl

/-- The function is exact on a text if and only if the text is neither a sign without digits nor a
numeral of `INT_MIN`. -/
theorem tryParseAsInt_exact_iff (text : List ℤ) :
    ParsedExactly text ↔
      text ≠ [45] ∧ ¬ ∃ ds, text = 45 :: ds ∧ IsDigits ds ∧ digitsValue 0 ds = 2 ^ 31 := by
  unfold ParsedExactly
  rcases text with - | ⟨c, ds⟩
  · simp [tryParseAsInt, not_denotes_nil]
  by_cases hc : c = 45
  · subst hc
    rw [tryParseAsInt_neg]
    have hmax : intMax = 2147483647 := rfl
    simp only [value_pure, faults_pure, and_true, denotes_neg, Option.ite_none_right_eq_some,
      Option.some.injEq, ne_eq, List.cons.injEq, true_and]
    constructor
    · intro h
      refine ⟨fun hnil => ?_, ?_⟩
      · subst hnil
        exact ((h 0).1 ⟨⟨isDigits_nil, by simp [hmax]⟩, by simp⟩).1 rfl
      · rintro ⟨_, rfl, hds, hv⟩
        have hne : ds ≠ [] := by
          rintro rfl
          simp at hv
        have := ((h _).2 ⟨hne, ⟨hds, by omega⟩, rfl⟩).1.2
        omega
    · rintro ⟨hne, hmin⟩ v
      constructor
      · rintro ⟨⟨hds, hle⟩, hv⟩
        exact ⟨hne, ⟨hds, by omega⟩, hv⟩
      · rintro ⟨-, ⟨hds, hle⟩, hv⟩
        have hv' : digitsValue 0 ds ≠ 2 ^ 31 := fun h => hmin ⟨ds, rfl, hds, h⟩
        exact ⟨⟨hds, by omega⟩, hv⟩
  · rw [tryParseAsInt_pos hc]
    simp [denotes_pos hc, hc, Option.ite_none_right_eq_some]

/-- A sign alone is taken for `0`, and `-2147483648` is refused. -/
theorem not_parsedExactly :
    ¬ ParsedExactly [45] ∧ ¬ ParsedExactly [45, 50, 49, 52, 55, 52, 56, 51, 54, 52, 56] := by
  constructor
  · intro h
    exact (denotes_neg.1 ((h.1 0).1 (by decide))).1 rfl
  · intro h
    have hden := (h.1 (-2147483648)).2 (denotes_neg.2 (by decide))
    exact absurd hden (by decide)

end StringView

end Il2Cpp
