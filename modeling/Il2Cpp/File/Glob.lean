import Mathlib

/-!
# Patterns of file names

`Match` and `CollapseAdjacentStars` of `DirectoryUtils.cpp`.  A position in a name or in a pattern
is what is left of it from there.

* `matchFrom`, `matchName` : the two functions `Match`.
* `glob` : the language of a pattern, as a product of languages of its characters.
* `dotTail` : the names that match the part of a pattern before a dot, when what follows the dot is
  of a given kind.
* `matchName_iff` : `Match` accepts the language of the pattern, and the names without an extension
  where the pattern ends in `.*`.
* `matchName_collapse_iff` : the collapsed pattern accepts the same names, and the names without
  an extension also where the pattern ends in a dot and several stars.
-/

namespace Il2Cpp

namespace DirectoryUtils

/-- The loop that tries to match the rest of a pattern against the name, from each position on. -/
def tryFrom (matchRest : List Char → Bool) : List Char → Bool
  | [] => matchRest []
  | c :: name => matchRest (c :: name) || tryFrom matchRest name

/-- `Match` with a position in the pattern and one in the name. -/
def matchFrom : List Char → List Char → Bool
  | [], name => name.isEmpty
  | c :: pattern, name =>
    if c = '*' then
      if pattern.isEmpty then true else tryFrom (matchFrom pattern) name
    else if c = '?' then
      match name with
      | [] => false
      | _ :: name => matchFrom pattern name
    else
      match name with
      | [] => c = '.' && pattern = ['*']
      | d :: name => if d ≠ c then false else matchFrom pattern name

/-- `Match`. -/
def matchName (name pattern : List Char) : Bool := matchFrom pattern name

/-- The characters that are appended, after the character `previous`. -/
def collapseFrom (previous : Option Char) : List Char → List Char
  | [] => []
  | c :: pattern =>
    if c = '*' ∧ previous = some '*' then collapseFrom (some c) pattern
    else c :: collapseFrom (some c) pattern

/-- `CollapseAdjacentStars`. -/
def collapseAdjacentStars (pattern : List Char) : List Char := collapseFrom none pattern

/-! ### The language of a pattern -/

/-- What a character of a pattern stands for. -/
def symbol (c : Char) : Language Char :=
  if c = '*' then ⊤ else if c = '?' then ⨆ d, {[d]} else {[c]}

/-- The language of a pattern. -/
def glob (pattern : List Char) : Language Char := (pattern.map symbol).prod

@[simp] theorem glob_nil : glob [] = 1 := rfl

@[simp] theorem glob_cons (c : Char) (pattern : List Char) :
    glob (c :: pattern) = symbol c * glob pattern := by
  simp [glob]

/-- The names in the language of what precedes a dot after which a `tail` follows. -/
def dotTail (tail : List Char → Prop) (pattern : List Char) : Language Char :=
  {name | ∃ q t, pattern = q ++ '.' :: t ∧ tail t ∧ name ∈ glob q}

theorem mem_dotTail {tail : List Char → Prop} {pattern name : List Char} :
    name ∈ dotTail tail pattern ↔ ∃ q t, pattern = q ++ '.' :: t ∧ tail t ∧ name ∈ glob q :=
  Iff.rfl

@[simp] theorem dotTail_nil (tail : List Char → Prop) : dotTail tail [] = 0 := by
  ext name
  simp [mem_dotTail]

theorem dotTail_cons (tail : List Char → Prop) (c : Char) (pattern : List Char)
    [Decidable (tail pattern)] :
    dotTail tail (c :: pattern) =
      (if c = '.' ∧ tail pattern then 1 else 0) + symbol c * dotTail tail pattern := by
  ext name
  rw [Language.mem_add, Language.mem_mul, mem_dotTail]
  constructor
  · rintro ⟨_ | ⟨d, q⟩, t, h, ht, hname⟩
    · cases h
      exact .inl (by simpa [ht] using hname)
    · cases h
      rw [glob_cons, Language.mem_mul] at hname
      obtain ⟨a, ha, b, hb, rfl⟩ := hname
      exact .inr ⟨a, ha, b, ⟨q, t, rfl, ht, hb⟩, rfl⟩
  · rintro (h | ⟨a, ha, b, ⟨q, t, rfl, ht, hb⟩, rfl⟩)
    · split_ifs at h with hc
      · exact ⟨[], pattern, by rw [hc.1]; rfl, hc.2, h⟩
      · exact absurd h (Language.notMem_zero _)
    · exact ⟨c :: q, t, rfl, ht, by rw [glob_cons]; exact Language.append_mem_mul ha hb⟩

/-! ### Matching -/

/-- The language of a pattern, with the names that match what precedes a dot and a `tail`. -/
def accepted (tail : List Char → Prop) (pattern : List Char) : Language Char :=
  glob pattern + dotTail tail pattern

@[simp] theorem accepted_nil (tail : List Char → Prop) : accepted tail [] = 1 := by
  simp [accepted]

theorem accepted_cons (tail : List Char → Prop) (c : Char) (pattern : List Char)
    [Decidable (tail pattern)] :
    accepted tail (c :: pattern) =
      symbol c * accepted tail pattern + (if c = '.' ∧ tail pattern then 1 else 0) := by
  rw [accepted, accepted, glob_cons, dotTail_cons, mul_add, add_comm (ite _ _ _), add_assoc]

theorem mem_star_mul {l : Language Char} {name : List Char} :
    name ∈ symbol '*' * l ↔ ∃ s, s <:+ name ∧ s ∈ l := by
  rw [Language.mem_mul]
  constructor
  · rintro ⟨a, -, b, hb, rfl⟩
    exact ⟨b, ⟨a, rfl⟩, hb⟩
  · rintro ⟨s, ⟨a, rfl⟩, hs⟩
    exact ⟨a, trivial, s, hs, rfl⟩

theorem mem_any_mul {l : Language Char} {name : List Char} :
    name ∈ symbol '?' * l ↔ ∃ c rest, name = c :: rest ∧ rest ∈ l := by
  rw [Language.mem_mul]
  constructor
  · rintro ⟨a, ha, b, hb, rfl⟩
    obtain ⟨c, rfl⟩ := Language.mem_iSup.1 ha
    exact ⟨c, b, rfl, hb⟩
  · rintro ⟨c, rest, rfl, hrest⟩
    exact ⟨[c], Language.mem_iSup.2 ⟨c, rfl⟩, rest, hrest, rfl⟩

theorem mem_char_mul {c : Char} (h₁ : c ≠ '*') (h₂ : c ≠ '?') {l : Language Char}
    {name : List Char} : name ∈ symbol c * l ↔ ∃ rest, name = c :: rest ∧ rest ∈ l := by
  have hsymbol : symbol c = {[c]} := by
    rw [symbol, if_neg h₁, if_neg h₂]
  rw [Language.mem_mul, hsymbol]
  constructor
  · rintro ⟨_, rfl, b, hb, rfl⟩
    exact ⟨b, rfl, hb⟩
  · rintro ⟨rest, rfl, hrest⟩
    exact ⟨[c], rfl, rest, hrest, rfl⟩

theorem tryFrom_iff {matchRest : List Char → Bool} {name : List Char} :
    tryFrom matchRest name = true ↔ ∃ s, s <:+ name ∧ matchRest s = true := by
  induction name with
  | nil => simp [tryFrom]
  | cons c name ih =>
    rw [tryFrom, Bool.or_eq_true, ih]
    constructor
    · rintro (h | ⟨s, hs, h⟩)
      · exact ⟨_, List.suffix_rfl, h⟩
      · exact ⟨s, hs.trans (List.suffix_cons _ _), h⟩
    · rintro ⟨s, hs, h⟩
      rcases List.suffix_cons_iff.1 hs with rfl | hs
      · exact .inl h
      · exact .inr ⟨s, hs, h⟩

theorem matchFrom_iff (pattern name : List Char) :
    matchFrom pattern name = true ↔ name ∈ accepted (· = ['*']) pattern := by
  induction pattern generalizing name with
  | nil => simp [matchFrom, Language.mem_one]
  | cons c pattern ih =>
    rw [accepted_cons, Language.mem_add, matchFrom.eq_def]
    dsimp only
    by_cases hstar : c = '*'
    · subst hstar
      have hlast : name ∉ (if '*' = '.' ∧ pattern = ['*'] then 1 else 0 : Language Char) := by
        simp [Language.notMem_zero]
      rw [if_pos rfl, mem_star_mul, or_iff_left hlast]
      cases pattern with
      | nil => simp [Language.mem_one, List.nil_suffix]
      | cons d pattern => simp [tryFrom_iff, ih]
    rw [if_neg hstar]
    by_cases hany : c = '?'
    · subst hany
      have hlast : name ∉ (if '?' = '.' ∧ pattern = ['*'] then 1 else 0 : Language Char) := by
        simp [Language.notMem_zero]
      rw [if_pos rfl, mem_any_mul, or_iff_left hlast]
      cases name with
      | nil => simp
      | cons d name => simp [ih]
    rw [if_neg hany, mem_char_mul hstar hany]
    cases name with
    | nil =>
      split_ifs with h
      · simpa [Language.mem_one] using h
      · simpa [Language.notMem_zero] using h
    | cons d name =>
      have hlast : d :: name ∉ (if c = '.' ∧ pattern = ['*'] then 1 else 0 : Language Char) := by
        split_ifs <;> simp [Language.mem_one, Language.notMem_zero]
      rw [or_iff_left hlast]
      by_cases hd : d = c <;> simp [hd, ih]

/-- `Match` accepts the names in the language of the pattern, and where the pattern ends in `.*`
also those that match what precedes. -/
theorem matchName_iff (name pattern : List Char) :
    matchName name pattern = true ↔
      name ∈ glob pattern ∨ ∃ q, pattern = q ++ ['.', '*'] ∧ name ∈ glob q := by
  rw [matchName, matchFrom_iff, accepted, Language.mem_add, mem_dotTail]
  refine or_congr_right ⟨?_, ?_⟩
  · rintro ⟨q, _, h, rfl, hq⟩
    exact ⟨q, h, hq⟩
  · rintro ⟨q, h, hq⟩
    exact ⟨q, _, h, rfl, hq⟩

/-! ### Collapsing -/

theorem collapseFrom_star (pattern : List Char) :
    collapseFrom (some '*') ('*' :: pattern) = collapseFrom (some '*') pattern := by
  simp [collapseFrom]

theorem collapseFrom_cons {previous : Option Char} {c : Char}
    (h : c ≠ '*' ∨ previous ≠ some '*') (pattern : List Char) :
    collapseFrom previous (c :: pattern) = c :: collapseFrom (some c) pattern := by
  rw [collapseFrom, if_neg]
  tauto

/-- One or more stars. -/
def Stars (pattern : List Char) : Prop := ∃ n, pattern = List.replicate (n + 1) '*'

theorem stars_cons_iff {c : Char} {pattern : List Char} :
    Stars (c :: pattern) ↔ c = '*' ∧ (pattern = [] ∨ Stars pattern) := by
  constructor
  · rintro ⟨n, h⟩
    obtain ⟨rfl, rfl⟩ := List.cons.inj h
    cases n with
    | zero => exact ⟨rfl, .inl rfl⟩
    | succ n => exact ⟨rfl, .inr ⟨n, rfl⟩⟩
  · rintro ⟨rfl, rfl | ⟨n, rfl⟩⟩
    · exact ⟨0, rfl⟩
    · exact ⟨n + 1, rfl⟩

theorem collapseFrom_star_eq_nil {pattern : List Char} :
    collapseFrom (some '*') pattern = [] ↔ pattern = [] ∨ Stars pattern := by
  induction pattern with
  | nil => simp [collapseFrom]
  | cons c pattern ih =>
    rw [stars_cons_iff]
    by_cases hc : c = '*'
    · subst hc
      simp [collapseFrom_star, ih]
    · simp [collapseFrom_cons (.inl hc), hc]

theorem collapseFrom_eq_star {previous : Option Char} (h : previous ≠ some '*')
    {pattern : List Char} : collapseFrom previous pattern = ['*'] ↔ Stars pattern := by
  cases pattern with
  | nil => simp [collapseFrom, Stars, List.replicate_succ]
  | cons c pattern =>
    rw [collapseFrom_cons (.inr h), stars_cons_iff, List.cons.injEq]
    refine and_congr_right fun hc => ?_
    rw [hc, collapseFrom_star_eq_nil]

theorem star_mul_star (l : Language Char) : symbol '*' * (symbol '*' * l) = symbol '*' * l := by
  ext name
  simp only [mem_star_mul]
  constructor
  · rintro ⟨s, hs, t, ht, h⟩
    exact ⟨t, ht.trans hs, h⟩
  · rintro ⟨s, hs, h⟩
    exact ⟨s, hs, s, List.suffix_rfl, h⟩

theorem accepted_collapseFrom (previous : Option Char) (pattern : List Char) :
    (previous ≠ some '*' →
      accepted (· = ['*']) (collapseFrom previous pattern) = accepted Stars pattern) ∧
    symbol '*' * accepted (· = ['*']) (collapseFrom previous pattern) =
      symbol '*' * accepted Stars pattern := by
  classical
  induction pattern generalizing previous with
  | nil => simp [collapseFrom]
  | cons c pattern ih =>
    -- a character that is kept
    have hkept : c ≠ '*' ∨ previous ≠ some '*' →
        accepted (· = ['*']) (collapseFrom previous (c :: pattern)) =
          accepted Stars (c :: pattern) := by
      intro h
      rw [collapseFrom_cons h, accepted_cons, accepted_cons]
      by_cases hc : c = '*'
      · subst hc
        simp [(ih (some '*')).2]
      · have hprevious : some c ≠ some '*' := by simpa using hc
        rw [(ih (some c)).1 hprevious]
        simp only [collapseFrom_eq_star hprevious]
    by_cases h : c ≠ '*' ∨ previous ≠ some '*'
    · exact ⟨fun _ => hkept h, by rw [hkept h]⟩
    · obtain ⟨rfl, rfl⟩ : c = '*' ∧ previous = some '*' := by simpa using h
      refine ⟨absurd rfl, ?_⟩
      rw [collapseFrom_star, (ih (some '*')).2, accepted_cons]
      simp [star_mul_star]

/-- The collapsed pattern accepts the same names, and where the pattern ends in a dot and two or
more stars also those that match what precedes the dot. -/
theorem matchName_collapse_iff (name pattern : List Char) :
    matchName name (collapseAdjacentStars pattern) = true ↔
      matchName name pattern = true ∨
        ∃ q n, pattern = q ++ '.' :: List.replicate (n + 2) '*' ∧ name ∈ glob q := by
  rw [matchName, matchName, matchFrom_iff, matchFrom_iff, collapseAdjacentStars,
    (accepted_collapseFrom none pattern).1 (by simp), accepted, accepted, Language.mem_add,
    Language.mem_add, mem_dotTail, mem_dotTail, or_assoc]
  refine or_congr_right ⟨?_, ?_⟩
  · rintro ⟨q, _, h, ⟨_ | n, rfl⟩, hq⟩
    · exact .inl ⟨q, _, h, rfl, hq⟩
    · exact .inr ⟨q, n, h, hq⟩
  · rintro (⟨q, _, h, rfl, hq⟩ | ⟨q, n, h, hq⟩)
    · exact ⟨q, _, h, ⟨0, rfl⟩, hq⟩
    · exact ⟨q, _, h, ⟨n + 1, rfl⟩, hq⟩

/-- The name `file` and the pattern `file.**`. -/
theorem matchName_collapse_ne :
    ¬ ∀ name pattern, matchName name (collapseAdjacentStars pattern) = matchName name pattern :=
  fun h => absurd (h ['f', 'i', 'l', 'e'] ['f', 'i', 'l', 'e', '.', '*', '*']) (by decide)

end DirectoryUtils

end Il2Cpp
