import Mathlib

/-!
# C strings and numbers in text

The parts of the C library that printers and parsers of names rest on.  A text is the list of its
characters; a `char *` ends at the first NUL.

* `CString` : a text without a NUL, what a `const char *` can hold.
* `cStr` : what is left of a text that goes through `c_str()`.
* `formatInt`, `atoi` : `%d` and its inverse (`atoi_formatInt`).
* `hexDigit`, `hexValue` : lower case hexadecimal digits and `strtol` on one of them
  (`hexValue_hexDigit`).
* `equalsIgnoreCase` : comparison without case.
-/

namespace Il2Cpp

/-- A property of all elements of a list is decided on the list, also where the type is finite. -/
instance (priority := high) decidableForallMemList {α : Type} {p : α → Prop} [DecidablePred p]
    (s : List α) : Decidable (∀ a ∈ s, p a) := List.decidableBAll p s

instance (priority := high) decidableForallMemOption {α : Type} {p : α → Prop} [DecidablePred p]
    (s : Option α) : Decidable (∀ a ∈ s, p a) :=
  match s with
  | none => .isTrue nofun
  | some a => decidable_of_iff (p a) (by simp)

/-- The terminator of a C string. -/
abbrev NUL : Char := '\x00'

/-- The text of a `const char *`: it has no NUL. -/
structure CString where
  /-- The characters before the terminator. -/
  chars : List Char
  noNul : NUL ∉ chars

instance : DecidableEq CString := fun a b =>
  decidable_of_iff (a.chars = b.chars) ⟨fun h => by cases a; cases b; simpa using h, congrArg _⟩

/-- `c_str()`, read as a C string. -/
def cStr (s : List Char) : List Char := s.takeWhile (· != NUL)

@[simp] theorem cStr_of_noNul {s : List Char} (h : NUL ∉ s) : cStr s = s := by
  refine List.takeWhile_eq_self_iff.2 fun c hc => ?_
  simpa using fun hn : c = NUL => h (hn ▸ hc)

/-! ### Texts that begin with a given kind of character -/

section

variable {p : Char → Bool} {s : List Char}

theorem takeWhile_of_head (h : ∀ c ∈ s.head?, p c = false) : s.takeWhile p = [] := by
  cases s with
  | nil => rfl
  | cons c cs => simp [h c rfl]

theorem dropWhile_of_head (h : ∀ c ∈ s.head?, p c = false) : s.dropWhile p = s := by
  cases s with
  | nil => rfl
  | cons c cs => simp [h c rfl]

end

/-! ### Decimal numbers -/

/-- `isspace`. -/
def isSpace (c : Char) : Bool := c == ' ' || ('\t' ≤ c && c ≤ '\r')

/-- `%d`. -/
def formatInt : ℤ → List Char
  | .ofNat n => Nat.toDigits 10 n
  | .negSucc n => '-' :: Nat.toDigits 10 (n + 1)

/-- The value of the digits that a text begins with. -/
def digitsValue (s : List Char) : ℕ := Nat.ofDigitChars 10 (s.takeWhile Char.isDigit) 0

/-- `atoi`.  Its value beyond the range of `int` is not specified; here it is the number. -/
def atoi (s : List Char) : ℤ :=
  match s.dropWhile isSpace with
  | '-' :: ds => -digitsValue ds
  | '+' :: ds => digitsValue ds
  | ds => digitsValue ds

theorem isDigit_of_mem_toDigits {n : ℕ} {c : Char} (h : c ∈ Nat.toDigits 10 n) :
    c.isDigit = true :=
  Nat.isDigit_of_mem_toDigits (by omega) (by omega) h

@[simp] theorem digitsValue_toDigits (n : ℕ) : digitsValue (Nat.toDigits 10 n) = n := by
  rw [digitsValue, List.takeWhile_eq_self_iff.2 fun c => isDigit_of_mem_toDigits]
  exact Nat.ofDigitChars_toDigits (by omega) (by omega)

theorem isSpace_of_isDigit {c : Char} (h : c.isDigit = true) : isSpace c = false := by
  simp only [Char.isDigit, Bool.and_eq_true, decide_eq_true_eq, ge_iff_le] at h
  simp only [isSpace, Bool.or_eq_false_iff, beq_eq_false_iff_ne, Bool.and_eq_false_iff,
    decide_eq_false_iff_not]
  refine ⟨?_, .inr ?_⟩
  · rintro rfl; exact absurd h.1 (by decide)
  · exact fun hc => absurd (Char.le_trans h.1 hc) (by decide)

theorem atoi_formatInt (n : ℤ) : atoi (formatInt n) = n := by
  cases n with
  | ofNat n =>
    obtain ⟨c, cs, hcs⟩ := List.exists_cons_of_ne_nil (Nat.toDigits_ne_nil (n := n) (b := 10))
    have hc : c.isDigit = true := isDigit_of_mem_toDigits (hcs ▸ List.mem_cons_self)
    have hval := digitsValue_toDigits n
    simp only [atoi, formatInt, hcs, List.dropWhile_cons, isSpace_of_isDigit hc] at hval ⊢
    split
    · rename_i heq; cases heq; exact absurd hc (by decide)
    · rename_i heq; cases heq; exact absurd hc (by decide)
    · rename_i heq; exact congrArg _ hval
  | negSucc n =>
    simp only [atoi, formatInt, List.dropWhile_cons]
    simp [isSpace, digitsValue_toDigits, Int.negSucc_eq]

theorem mem_formatInt {n : ℤ} {c : Char} (h : c ∈ formatInt n) : c = '-' ∨ c.isDigit = true := by
  cases n with
  | ofNat n => exact .inr (isDigit_of_mem_toDigits h)
  | negSucc n => exact (List.mem_cons.1 h).imp_right isDigit_of_mem_toDigits

theorem mem_formatInt_ne {n : ℤ} {c : Char} (hc : c ≠ '-') (hd : c.isDigit = false) :
    c ∉ formatInt n := fun h => by
  rcases mem_formatInt h with h | h
  · exact hc h
  · simp [h] at hd

theorem formatInt_ne_nil (n : ℤ) : formatInt n ≠ [] := by
  cases n with
  | ofNat n => exact Nat.toDigits_ne_nil
  | negSucc n => exact List.cons_ne_nil _ _

/-! ### Hexadecimal digits -/

/-- The lower case digit of a value below 16. -/
def hexDigit (v : ℕ) : Char := if v < 10 then .ofNat (v + 48) else .ofNat (v + 87)

/-- `strtol` to the base 16 on a text of one character: 0 where that is no digit. -/
def hexValue (c : Char) : ℕ :=
  if '0' ≤ c ∧ c ≤ '9' then c.toNat - 48
  else if 'a' ≤ c ∧ c ≤ 'f' then c.toNat - 87
  else if 'A' ≤ c ∧ c ≤ 'F' then c.toNat - 55
  else 0

theorem hexValue_hexDigit : ∀ v < 16, hexValue (hexDigit v) = v := by decide

theorem isAlphanum_hexDigit : ∀ v < 16, (hexDigit v).isAlphanum = true := by decide

/-! ### Comparison without case -/

/-- The characters of two C strings agree up to case.  Folding changes no other character into an
ASCII letter, so this is exact wherever one of the texts is ASCII. -/
def equalsIgnoreCase (left right : List Char) : Bool :=
  (cStr left).map Char.toLower == (cStr right).map Char.toLower

end Il2Cpp
