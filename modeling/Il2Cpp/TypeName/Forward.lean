import Il2Cpp.TypeName.Parser

/-!
# The parser moves forward

Whatever a parsing function accepts, the cursor that it leaves is behind the one that it was given:
what is left of the text is the end of what was left before (`parseInfo_suffix`).
-/

namespace Il2Cpp

open Cursor

namespace Cursor

variable {stop : Char → Bool} {escape : Bool}

theorem incr_suffix (p : Cursor) : p.incr.rest <:+ p.rest := by
  rcases p with ⟨_ | ⟨c, cs⟩, n⟩
  · exact List.suffix_refl _
  · exact List.suffix_cons c cs

theorem skipWhites_suffix (p : Cursor) : p.skipWhites.rest <:+ p.rest := List.dropWhile_suffix _

theorem next_suffix (p : Cursor) (skip : Bool) : (p.next skip).rest <:+ p.rest := by
  unfold next
  split
  · exact (skipWhites_suffix _).trans (incr_suffix p)
  · exact incr_suffix p

theorem consumeFrom_suffix (n : ℕ) (s : List Char) :
    (consumeFrom stop escape n s).2.rest <:+ s := by
  fun_induction consumeFrom stop escape n s
  case case1 => exact List.suffix_refl _
  case case2 => exact List.suffix_refl _
  case case3 => exact List.nil_suffix
  case case4 => exact List.nil_suffix
  case case5 => exact List.suffix_refl _
  case case6 => exact List.nil_suffix
  case case7 c c' _ _ d cs text p hp ih =>
    exact ih.trans ((List.suffix_cons c' _).trans (List.suffix_cons c _))
  case case8 c c' cs _ _ text p hp ih =>
    rw [hp] at ih
    exact ih.trans (List.suffix_cons c _)

theorem consume_suffix {p q : Cursor} {text : List Char}
    (h : consume stop escape p = (text, q)) : q.rest <:+ p.rest := by
  have hsuffix : (consume stop escape p).2.rest <:+ p.rest := consumeFrom_suffix _ _
  rwa [h] at hsuffix

end Cursor

theorem advance_suffix {p q : Cursor} {skip : Bool} (h : advance p skip = .done q) :
    q.rest <:+ p.rest := by
  rw [advance] at h
  split at h
  · cases h
  · cases h
    exact next_suffix p skip

/-! ### Names -/

theorem parseArityOptional_suffix {p q : Cursor} {text : List Char} {arity : Int32}
    (h : parseArityOptional p = .done (text, arity, q)) : q.rest <:+ p.rest := by
  rw [parseArityOptional] at h
  split at h
  · simp only [Outcome.bind_eq_done_iff] at h
    obtain ⟨p₁, h₁, ⟨digits, value, p₂⟩, h₂, h₃⟩ := h
    cases h₃
    rw [consumeNumber] at h₂
    split at h₂
    · cases h₂
    · cases h₂
      exact (List.dropWhile_suffix _).trans (advance_suffix h₁)
  · cases h
    exact List.suffix_refl _

theorem parseIdentifiers_suffix {n : ℕ} {namespaze namespaze' : Option (List Char)}
    {text : List Char} {p q : Cursor}
    (h : parseIdentifiers n namespaze p = .done (namespaze', text, q)) : q.rest <:+ p.rest := by
  induction n generalizing namespaze p with
  | zero => cases h
  | succ n ih =>
    rw [parseIdentifiers] at h
    obtain ⟨identifier, p₁, hconsume⟩ : ∃ t r, consumeIdentifier p = (t, r) := ⟨_, _, rfl⟩
    simp only [hconsume] at h
    have hsuffix : p₁.rest <:+ p.rest := consume_suffix hconsume
    split at h
    · cases h
      exact hsuffix
    · simp only [Outcome.bind_eq_done_iff] at h
      obtain ⟨p₂, h₂, h₃⟩ := h
      exact (ih h₃).trans ((advance_suffix h₂).trans hsuffix)

theorem parseTypeName_suffix {p q : Cursor} {namespaze name : List Char} {arity : Int32}
    (h : parseTypeName p = .done (namespaze, name, arity, q)) : q.rest <:+ p.rest := by
  simp only [parseTypeName, Outcome.bind_eq_done_iff] at h
  obtain ⟨⟨ns, identifier, p₁⟩, h₁, ⟨suffix, value, p₂⟩, h₂, h₃⟩ := h
  cases h₃
  exact (parseArityOptional_suffix h₂).trans (parseIdentifiers_suffix h₁)

theorem parseNestedTypes_suffix {n : ℕ} {nested nested' : List (List Char)} {arity arity' : Int32}
    {p q : Cursor} (h : parseNestedTypes n nested arity p = .done (nested', arity', q)) :
    q.rest <:+ p.rest := by
  induction n generalizing nested arity p with
  | zero => cases h
  | succ n ih =>
    rw [parseNestedTypes] at h
    split at h
    · cases h
      exact List.suffix_refl _
    · simp only [Outcome.bind_eq_done_iff] at h
      obtain ⟨p₁, h₁, h₂⟩ := h
      obtain ⟨identifier, p₂, hconsume⟩ : ∃ t r, consumeIdentifier p₁ = (t, r) := ⟨_, _, rfl⟩
      simp only [hconsume] at h₂
      obtain ⟨⟨suffix, value, p₃⟩, h₃, h₄⟩ := h₂
      exact (ih h₄).trans ((parseArityOptional_suffix h₃).trans
        ((consume_suffix hconsume).trans (advance_suffix h₁)))

/-! ### Modifiers -/

theorem parsePointerModifiers_suffix (n : ℕ) (modifiers : List ℤ) (p : Cursor) :
    (parsePointerModifiers n modifiers p).2.rest <:+ p.rest := by
  induction n generalizing modifiers p with
  | zero => exact List.suffix_refl _
  | succ n ih =>
    rw [parsePointerModifiers]
    split
    · exact (ih _ _).trans (next_suffix p true)
    · exact List.suffix_refl _

theorem parseRank_suffix {n : ℕ} {rank : ℤ} {modifiers modifiers' : List ℤ} {p q : Cursor}
    (h : parseRank n rank modifiers p = .done (modifiers', q)) : q.rest <:+ p.rest := by
  induction n generalizing rank modifiers p with
  | zero => cases h
  | succ n ih =>
    rw [parseRank] at h
    split_ifs at h
    · cases h
      exact next_suffix p true
    · simp only [Outcome.bind_eq_done_iff] at h
      obtain ⟨p₁, h₁, h₂⟩ := h
      exact (ih h₂).trans (advance_suffix h₁)
    · simp only [Outcome.bind_eq_done_iff] at h
      obtain ⟨p₁, h₁, h₂⟩ := h
      exact (ih h₂).trans (advance_suffix h₁)

theorem parseArrayModifiers_suffix {n : ℕ} {modifiers modifiers' : List ℤ} {p q : Cursor}
    (h : parseArrayModifiers n modifiers p = .done (modifiers', q)) : q.rest <:+ p.rest := by
  induction n generalizing modifiers p with
  | zero => cases h
  | succ n ih =>
    rw [parseArrayModifiers] at h
    have hskip := skipWhites_suffix p
    split_ifs at h
    · cases h
      exact hskip
    · cases h
      exact hskip
    · cases h
      exact hskip
    · simp only [Outcome.bind_eq_done_iff] at h
      obtain ⟨p₁, h₁, ⟨modifiers₂, p₂⟩, h₂, h₃⟩ := h
      exact (ih h₃).trans ((parseRank_suffix h₂).trans ((advance_suffix h₁).trans hskip))

theorem parseByRefModifiersOptional_suffix {modifiers modifiers' : List ℤ} {p q : Cursor}
    (h : parseByRefModifiersOptional modifiers p = .done (modifiers', q)) : q.rest <:+ p.rest := by
  rw [parseByRefModifiersOptional] at h
  split at h
  · split at h
    · cases h
    · cases h
      exact next_suffix p true
  · cases h
    exact List.suffix_refl _

/-! ### Assembly names -/

theorem parseProperty_suffix (p : Cursor) (a : ParsedAssemblyName) :
    (parseProperty p a).2.1.rest <:+ p.rest := by
  have hsep := p.next_suffix true
  fun_cases parseProperty p a
  case case1 => exact hsep
  case case2 name q hname hq => exact (consume_suffix hname).trans hsep
  case case3 name q hname _ _ hq =>
    exact (q.next_suffix false).trans ((consume_suffix hname).trans hsep)
  case case4 name q hname hq _ hq' value q' hvalue ok b hset =>
    exact (consume_suffix hvalue).trans
      ((q.next_suffix false).trans ((consume_suffix hname).trans hsep))

theorem parsePropertiesFrom_suffix (n : ℕ) (p : Cursor) (a : ParsedAssemblyName) :
    (parsePropertiesFrom n p a).2.1.rest <:+ p.rest := by
  induction n generalizing p a with
  | zero => exact List.suffix_refl _
  | succ n ih =>
    rw [parsePropertiesFrom]
    split
    · have hprop := parseProperty_suffix p a
      split
      case h_1 q b heq =>
        rw [heq] at hprop
        exact (ih q b).trans hprop
      case h_2 q b heq =>
        rw [heq] at hprop
        exact hprop
    · exact List.suffix_refl _

theorem parseAssemblyName_suffix (p : Cursor) (a : ParsedAssemblyName) :
    (parseAssemblyName p a).1.rest <:+ p.rest := by
  rw [parseAssemblyName]
  obtain ⟨name, q, hconsume⟩ : ∃ t r, consumeAssemblyIdentifier p = (t, r) := ⟨_, _, rfl⟩
  simp only [hconsume]
  exact (parsePropertiesFrom_suffix _ _ _).trans
    ((skipWhites_suffix q).trans (consume_suffix hconsume))

theorem parseAssemblyNameOptional_suffix {accept : Bool} {a : ParsedAssemblyName} {p q : Cursor}
    (h : parseAssemblyNameOptional accept p = .done (a, q)) : q.rest <:+ p.rest := by
  rw [parseAssemblyNameOptional] at h
  split_ifs at h
  · cases h
    exact List.suffix_refl _
  · cases h
    exact List.suffix_refl _
  · simp only [Outcome.bind_eq_done_iff] at h
    obtain ⟨p₁, h₁, h₂⟩ := h
    cases h₂
    exact (parseAssemblyName_suffix _ _).trans ((skipWhites_suffix p₁).trans (advance_suffix h₁))

/-! ### Types -/

theorem parseTypeArgumentsOptional_suffix
    {parseArguments : Cursor → Outcome (List TypeNameParseInfo × Cursor)}
    (hparse : ∀ {p q infos}, parseArguments p = .done (infos, q) → q.rest <:+ p.rest)
    {arity : Int32} {p q : Cursor} {infos : List TypeNameParseInfo}
    (h : parseTypeArgumentsOptional parseArguments arity p = .done (infos, q)) :
    q.rest <:+ p.rest := by
  have hskip := skipWhites_suffix p
  rw [parseTypeArgumentsOptional] at h
  split_ifs at h
  · cases h
    exact hskip
  · cases h
    exact hskip
  · cases h
    exact hskip
  · obtain ⟨p₁, -, h₂⟩ := Outcome.bind_eq_done_iff.1 h
    cases h₂
  · obtain ⟨p₁, h₁, h₂⟩ := Outcome.bind_eq_done_iff.1 h
    obtain ⟨⟨arguments, p₂⟩, hargs, h₃⟩ := Outcome.bind_eq_done_iff.1 h₂
    simp only at h₃
    split at h₃
    · cases h₃
    · cases h₃
      exact (next_suffix p₂ true).trans ((hparse hargs).trans ((advance_suffix h₁).trans hskip))

/-- The steps of an accepted type, from the text behind the white space to the end of the assembly
name. -/
structure Steps (n : ℕ) (accept : Bool) (p q : Cursor) (info : TypeNameParseInfo) where
  arity : Int32
  afterName : Cursor
  typeName : parseTypeName p.skipWhites = .done (info.namespaze, info.name, arity, afterName)
  arityOfNested : Int32
  afterNested : Cursor
  nestedType : parseNestedTypeOptional arity afterName =
    .done (info.nested, arityOfNested, afterNested)
  afterArguments : Cursor
  typeArguments : parseTypeArgumentsOptional (parseTypeArguments n []) arityOfNested afterNested =
    .done (info.typeArguments, afterArguments)
  pointers : List ℤ
  afterPointers : Cursor
  pointerModifiers : parsePointerModifiersOptional afterArguments = (pointers, afterPointers)
  arrays : List ℤ
  afterArrays : Cursor
  arrayModifiers : parseArrayModifierOptional pointers afterPointers = .done (arrays, afterArrays)
  afterByRef : Cursor
  byRefModifiers : parseByRefModifiersOptional arrays afterArrays =
    .done (info.modifiers, afterByRef)
  assemblyName : parseAssemblyNameOptional accept afterByRef = .done (info.assemblyName, q)

theorem parseInfo_steps {n : ℕ} {accept : Bool} {p q : Cursor} {info : TypeNameParseInfo}
    (h : parseInfo (n + 1) accept p = .done (info, q)) : Nonempty (Steps n accept p q info) := by
  rw [parseInfo] at h
  split at h
  · cases h
  · obtain ⟨⟨ns, name, arity, p₁⟩, h₁, h⟩ := Outcome.bind_eq_done_iff.1 h
    obtain ⟨⟨nested, arity', p₂⟩, h₂, h⟩ := Outcome.bind_eq_done_iff.1 h
    obtain ⟨⟨args, p₃⟩, h₃, h⟩ := Outcome.bind_eq_done_iff.1 h
    obtain ⟨pointers, p₄, h₄⟩ : ∃ ms r, parsePointerModifiersOptional p₃ = (ms, r) := ⟨_, _, rfl⟩
    simp only [h₄] at h
    obtain ⟨⟨arrays, p₅⟩, h₅, h⟩ := Outcome.bind_eq_done_iff.1 h
    obtain ⟨⟨ms, p₆⟩, h₆, h⟩ := Outcome.bind_eq_done_iff.1 h
    obtain ⟨⟨a, p₇⟩, h₇, h⟩ := Outcome.bind_eq_done_iff.1 h
    cases h
    exact ⟨⟨arity, p₁, h₁, arity', p₂, h₂, p₃, h₃, pointers, p₄, h₄, arrays, p₅, h₅, p₆, h₆, h₇⟩⟩

variable {n : ℕ} {accept : Bool} {p q : Cursor} {info : TypeNameParseInfo}

theorem Steps.afterArguments_suffix (s : Steps n accept p q info)
    (hargs : ∀ {p q infos}, parseTypeArguments n [] p = .done (infos, q) → q.rest <:+ p.rest) :
    s.afterArguments.rest <:+ p.rest :=
  (parseTypeArgumentsOptional_suffix hargs s.typeArguments).trans
    ((parseNestedTypes_suffix s.nestedType).trans
      ((parseTypeName_suffix s.typeName).trans (skipWhites_suffix p)))

theorem Steps.afterByRef_suffix (s : Steps n accept p q info) :
    s.afterByRef.rest <:+ s.afterArguments.rest := by
  have hpointers := parsePointerModifiers_suffix s.afterArguments.rest.length [] s.afterArguments
  rw [← parsePointerModifiersOptional, s.pointerModifiers] at hpointers
  exact (parseByRefModifiersOptional_suffix s.byRefModifiers).trans
    ((parseArrayModifiers_suffix s.arrayModifiers).trans hpointers)

/-- One accepted round of the loop over type arguments. -/
structure Round (n : ℕ) (infos infos' : List TypeNameParseInfo) (p q : Cursor) where
  opened : Cursor
  /-- The bracket in front of an argument with an assembly name. -/
  opening : (if p.currentIs '[' then advance p true else .done p) = .done opened
  info : TypeNameParseInfo
  behind : Cursor
  argument : parseInfo n (p.currentIs '[') opened = .done (info, behind)
  notEOL : behind.skipWhites.isEOL = false
  closed : Cursor
  /-- The bracket behind it. -/
  closing : if p.currentIs '[' then
      behind.skipWhites.currentIs ']' ∧ advance behind.skipWhites true = .done closed
    else closed = behind.skipWhites
  goesOn : (closed.currentIs ']' = true ∧ infos' = infos ++ [info] ∧ q = closed) ∨
    (closed.currentIs ',' = true ∧ ∃ next, advance closed true = .done next ∧
      parseTypeArguments n (infos ++ [info]) next = .done (infos', q))

theorem parseTypeArguments_round {infos infos' : List TypeNameParseInfo}
    (h : parseTypeArguments (n + 1) infos p = .done (infos', q)) :
    Nonempty (Round n infos infos' p q) := by
  have hgoesOn : ∀ {info : TypeNameParseInfo} {closed : Cursor},
      (if closed.currentIs ']' then pure (infos ++ [info], closed)
        else if closed.currentIs ',' then do
          parseTypeArguments n (infos ++ [info]) (← advance closed true)
        else .reject) = Outcome.done (infos', q) →
      (closed.currentIs ']' = true ∧ infos' = infos ++ [info] ∧ q = closed) ∨
        (closed.currentIs ',' = true ∧ ∃ next, advance closed true = .done next ∧
          parseTypeArguments n (infos ++ [info]) next = .done (infos', q)) := by
    intro info closed h
    split at h
    case isTrue hclosed =>
      cases h
      exact .inl ⟨hclosed, rfl, rfl⟩
    case isFalse =>
      split at h
      case isTrue hcomma => exact .inr ⟨hcomma, Outcome.bind_eq_done_iff.1 h⟩
      case isFalse => cases h
  rw [parseTypeArguments] at h
  cases hbracket : p.currentIs '[' with
  | true =>
    simp only [hbracket, if_true] at h
    obtain ⟨opened, hopening, h⟩ := Outcome.bind_eq_done_iff.1 h
    obtain ⟨⟨info, behind⟩, hinfo, h⟩ := Outcome.bind_eq_done_iff.1 h
    simp only at h
    split at h
    · cases h
    · rename_i hEOL
      split at h
      · rename_i hclose
        obtain ⟨closed, hclosing, h⟩ := Outcome.bind_eq_done_iff.1 h
        exact ⟨opened, by rw [hbracket]; exact hopening, info, behind,
          by rw [hbracket]; exact hinfo, by simpa using hEOL, closed,
          by rw [hbracket]; exact ⟨hclose, hclosing⟩, hgoesOn h⟩
      · cases h
  | false =>
    simp only [hbracket, Bool.false_eq_true, if_false, Outcome.done_bind] at h
    obtain ⟨⟨info, behind⟩, hinfo, h⟩ := Outcome.bind_eq_done_iff.1 h
    simp only at h
    split at h
    · cases h
    · rename_i hEOL
      exact ⟨p, by rw [hbracket]; rfl, info, behind, by rw [hbracket]; exact hinfo,
        by simpa using hEOL, _, by rw [hbracket]; rfl, hgoesOn h⟩

theorem parse_suffix (n : ℕ) :
    (∀ {accept p q info}, parseInfo n accept p = .done (info, q) → q.rest <:+ p.rest) ∧
      ∀ {infos infos' p q}, parseTypeArguments n infos p = .done (infos', q) →
        q.rest <:+ p.rest := by
  induction n with
  | zero =>
    constructor
    · intro accept p q info h
      cases h
    · intro infos infos' p q h
      cases h
  | succ n ih =>
    constructor
    · intro accept p q info h
      obtain ⟨s⟩ := parseInfo_steps h
      exact (parseAssemblyNameOptional_suffix s.assemblyName).trans
        (s.afterByRef_suffix.trans (s.afterArguments_suffix ih.2))
    · intro infos infos' p q h
      obtain ⟨s⟩ := parseTypeArguments_round h
      have hopen : s.opened.rest <:+ p.rest := by
        have hopening := s.opening
        split at hopening
        · exact advance_suffix hopening
        · exact Outcome.done.inj hopening ▸ List.suffix_refl _
      have hclose : s.closed.rest <:+ s.behind.skipWhites.rest := by
        have hclosing := s.closing
        split at hclosing
        · exact advance_suffix hclosing.2
        · exact hclosing ▸ List.suffix_refl _
      have hround := hclose.trans
        ((skipWhites_suffix s.behind).trans ((ih.1 s.argument).trans hopen))
      rcases s.goesOn with ⟨-, -, hq⟩ | ⟨-, p₄, h₄, h₅⟩
      · rw [hq]
        exact hround
      · exact (ih.2 h₅).trans ((advance_suffix h₄).trans hround)

theorem parseInfo_suffix (h : parseInfo n accept p = .done (info, q)) : q.rest <:+ p.rest :=
  (parse_suffix n).1 h

end Il2Cpp
