import Il2Cpp.TypeName.Forward

/-!
# The texts that the parser accepts

A derivation for what `Parse` reads, with the places at which the assembly names in it begin.

* `Phrase`, `Reads` : the derivations, one constructor for each way through `Parse` and through the
  loop over type arguments.
* `parse_reads` : what the parser accepts has a derivation.
* `Reads.parses` : what has a derivation is accepted, with every bound that is large enough.
* `parses_iff_reads` : both, for a whole text.
-/

namespace Il2Cpp

open Cursor

/-- What the parser reads. -/
inductive Phrase where
  /-- A type, by `Parse`. -/
  | type (acceptAssemblyName : Bool)
  /-- So many type arguments, by the loop of `ParseTypeArgumentsOptional`. -/
  | arguments (count : ℕ)

/-- The name of a type with its nested types, and the number of its arguments. -/
def NameRead (p q : Cursor) (arity : Int32) : Prop :=
  p.skipWhites.isEOL = false ∧ ∃ namespaze name ownArity behind nested,
    parseTypeName p.skipWhites = .done (namespaze, name, ownArity, behind) ∧
      parseNestedTypeOptional ownArity behind = .done (nested, arity, q)

/-- A bracket opens type arguments. -/
def OpensArguments (p : Cursor) : Prop :=
  p.skipWhites.currentIs '[' = true ∧ opensArray p.skipWhites = false

instance (p : Cursor) : Decidable (OpensArguments p) := inferInstanceAs (Decidable (_ ∧ _))

/-- The modifiers of a type. -/
def ModifiersRead (p q : Cursor) : Prop :=
  ∃ pointers p₁ arrays p₂ modifiers, parsePointerModifiersOptional p = (pointers, p₁) ∧
    parseArrayModifierOptional pointers p₁ = .done (arrays, p₂) ∧
      parseByRefModifiersOptional arrays p₂ = .done (modifiers, q)

/-- The assembly name of a type, and where it begins, if there is one. -/
def AssemblyRead (acceptAssemblyName : Bool) (p q : Cursor) (names : List Cursor) : Prop :=
  if acceptAssemblyName && p.currentIs ',' then
    p.next.isEOL = false ∧ names = [p.next.skipWhites] ∧
      q = (parseAssemblyName p.next.skipWhites {}).1
  else names = [] ∧ q = p

/-- The bracket in front of an argument with an assembly name. -/
def ArgumentOpened (p q : Cursor) : Prop :=
  (if p.currentIs '[' then advance p true else .done p) = .done q

/-- The bracket behind it. -/
def ArgumentClosed (bracket : Bool) (p q : Cursor) : Prop :=
  p.skipWhites.isEOL = false ∧
    if bracket then p.skipWhites.currentIs ']' ∧ advance p.skipWhites true = .done q
    else q = p.skipWhites

/-- The parser reads a phrase between two positions, with assembly names from these positions on. -/
inductive Reads : Phrase → Cursor → Cursor → List Cursor → Prop
  | plain {accept : Bool} {p p₁ p₂ q : Cursor} {arity : Int32} {names : List Cursor}
      (name : NameRead p p₁ arity) (closed : ¬ OpensArguments p₁)
      (modifiers : ModifiersRead p₁.skipWhites p₂) (assembly : AssemblyRead accept p₂ q names) :
      Reads (.type accept) p q names
  | generic {accept : Bool} {p p₁ p₂ p₃ p₄ q : Cursor} {arity : Int32} {count : ℕ}
      {inner names : List Cursor}
      (name : NameRead p p₁ arity) (opened : OpensArguments p₁)
      (bracket : advance p₁.skipWhites true = .done p₂)
      (arguments : Reads (.arguments count) p₂ p₃ inner) (harity : (count : ℤ) = arity.toInt)
      (modifiers : ModifiersRead (p₃.next true) p₄) (assembly : AssemblyRead accept p₄ q names) :
      Reads (.type accept) p q (inner ++ names)
  | last {p p₁ p₂ q : Cursor} {names : List Cursor}
      (opened : ArgumentOpened p p₁) (argument : Reads (.type (p.currentIs '[')) p₁ p₂ names)
      (closed : ArgumentClosed (p.currentIs '[') p₂ q) (hlast : q.currentIs ']' = true) :
      Reads (.arguments 1) p q names
  | more {p p₁ p₂ p₃ p₄ q : Cursor} {names later : List Cursor} {count : ℕ}
      (opened : ArgumentOpened p p₁) (argument : Reads (.type (p.currentIs '[')) p₁ p₂ names)
      (closed : ArgumentClosed (p.currentIs '[') p₂ p₃) (comma : p₃.currentIs ',' = true)
      (next : advance p₃ true = .done p₄) (rest : Reads (.arguments count) p₄ q later) :
      Reads (.arguments (count + 1)) p q (names ++ later)

/-! ### What is accepted has a derivation -/

theorem advance_eq_done_iff {p q : Cursor} {skip : Bool} :
    advance p skip = .done q ↔ (p.next skip).isEOL = false ∧ q = p.next skip := by
  rw [advance]
  cases (p.next skip).isEOL with
  | true => simp
  | false => simp [eq_comm]

theorem parseAssemblyNameOptional_read {accept : Bool} {p q : Cursor} {a : ParsedAssemblyName}
    (h : parseAssemblyNameOptional accept p = .done (a, q)) :
    ∃ names, AssemblyRead accept p q names := by
  rw [parseAssemblyNameOptional] at h
  simp only [AssemblyRead]
  split_ifs at h with haccept hcomma
  · cases h
    exact ⟨[], by simp_all⟩
  · cases h
    exact ⟨[], by simp_all⟩
  · obtain ⟨p₁, hnext, hname⟩ := Outcome.bind_eq_done_iff.1 h
    obtain ⟨hEOL, rfl⟩ := advance_eq_done_iff.1 hnext
    cases hname
    exact ⟨[p.next.skipWhites], by simp_all⟩

theorem parseTypeArgumentsOptional_read
    {parseArguments : Cursor → Outcome (List TypeNameParseInfo × Cursor)} {arity : Int32}
    {p q : Cursor} {infos : List TypeNameParseInfo}
    (h : parseTypeArgumentsOptional parseArguments arity p = .done (infos, q)) :
    (¬ OpensArguments p ∧ q = p.skipWhites) ∨
      (OpensArguments p ∧ ∃ p₁ p₂, advance p.skipWhites true = .done p₁ ∧
        parseArguments p₁ = .done (infos, p₂) ∧ (infos.length : ℤ) = arity.toInt ∧
          q = p₂.next true) := by
  rw [parseTypeArgumentsOptional] at h
  split_ifs at h with hEOL hbracket harray harity
  · cases h
    exact .inl ⟨fun opened => by simp [OpensArguments, currentIs, hEOL] at opened, rfl⟩
  · cases h
    exact .inl ⟨fun opened => by simp [opened.1] at hbracket, rfl⟩
  · cases h
    exact .inl ⟨fun opened => by simp [opened.2] at harray, rfl⟩
  · obtain ⟨p₁, -, hlength⟩ := Outcome.bind_eq_done_iff.1 h
    cases hlength
  · obtain ⟨p₁, hnext, h⟩ := Outcome.bind_eq_done_iff.1 h
    obtain ⟨⟨arguments, p₂⟩, harguments, h⟩ := Outcome.bind_eq_done_iff.1 h
    simp only at h
    split at h
    · cases h
    · rename_i hcount
      cases h
      exact .inr ⟨⟨by simpa using hbracket, by simpa using harray⟩, p₁, p₂, hnext, harguments,
        by simpa using hcount, rfl⟩

/-- **What the parser accepts has a derivation.** -/
theorem parse_reads (n : ℕ) :
    (∀ {accept p q info}, parseInfo n accept p = .done (info, q) →
      ∃ names, Reads (.type accept) p q names) ∧
    ∀ {infos infos' p q}, parseTypeArguments n infos p = .done (infos', q) →
      ∃ count names, infos'.length = infos.length + count ∧ Reads (.arguments count) p q names := by
  induction n with
  | zero => exact ⟨nofun, nofun⟩
  | succ n ih =>
    constructor
    · intro accept p q info h
      have hEOL : p.skipWhites.isEOL = false := by
        rw [parseInfo] at h
        split at h
        case isTrue => cases h
        case isFalse hEOL => simpa using hEOL
      obtain ⟨s⟩ := parseInfo_steps h
      have name : NameRead p s.afterNested s.arityOfNested :=
        ⟨hEOL, _, _, _, _, _, s.typeName, s.nestedType⟩
      have modifiers : ModifiersRead s.afterArguments s.afterByRef :=
        ⟨_, _, _, _, _, s.pointerModifiers, s.arrayModifiers, s.byRefModifiers⟩
      obtain ⟨names, assembly⟩ := parseAssemblyNameOptional_read s.assemblyName
      rcases parseTypeArgumentsOptional_read s.typeArguments with
        ⟨closed, hbehind⟩ | ⟨opened, p₁, p₂, bracket, harguments, hcount, hbehind⟩
      · exact ⟨names, .plain name closed (hbehind ▸ modifiers) assembly⟩
      · obtain ⟨count, inner, hlength, arguments⟩ := ih.2 harguments
        rw [List.length_nil, Nat.zero_add] at hlength
        rw [hlength] at hcount
        exact ⟨inner ++ names,
          .generic name opened bracket arguments hcount (hbehind ▸ modifiers) assembly⟩
    · intro infos infos' p q h
      obtain ⟨s⟩ := parseTypeArguments_round h
      obtain ⟨names, argument⟩ := ih.1 s.argument
      have closed : ArgumentClosed (p.currentIs '[') s.behind s.closed := ⟨s.notEOL, s.closing⟩
      rcases s.goesOn with ⟨hlast, hinfos, hq⟩ | ⟨comma, p₁, next, hrest⟩
      · refine ⟨1, names, by simp [hinfos], ?_⟩
        rw [hq]
        exact .last s.opening argument closed hlast
      · obtain ⟨count, later, hlength, rest⟩ := ih.2 hrest
        refine ⟨count + 1, names ++ later, ?_, .more s.opening argument closed comma next rest⟩
        rw [hlength, List.length_append, List.length_singleton]
        omega

/-! ### What has a derivation is accepted -/

/-- The parser accepts the phrase, with every bound that is large enough. -/
def Phrase.Parses : Phrase → Cursor → Cursor → Prop
  | type accept, p, q => ∃ n, ∀ m, n ≤ m → ∃ info, parseInfo m accept p = .done (info, q)
  | arguments count, p, q => ∃ n, ∀ m, n ≤ m → ∀ infos, ∃ infos',
      infos'.length = infos.length + count ∧ parseTypeArguments m infos p = .done (infos', q)

theorem AssemblyRead.parses {accept : Bool} {p q : Cursor} {names : List Cursor}
    (h : AssemblyRead accept p q names) : ∃ a, parseAssemblyNameOptional accept p = .done (a, q) := by
  rw [AssemblyRead] at h
  rw [parseAssemblyNameOptional]
  cases accept with
  | false =>
    obtain ⟨-, rfl⟩ := h
    exact ⟨{}, rfl⟩
  | true =>
    cases hcomma : p.currentIs ',' with
    | false =>
      rw [hcomma] at h
      obtain ⟨-, rfl⟩ := h
      exact ⟨{}, rfl⟩
    | true =>
      rw [hcomma] at h
      obtain ⟨hEOL, -, rfl⟩ := h
      exact ⟨(parseAssemblyName p.next.skipWhites {}).2, by simp [advance, hEOL]⟩

theorem parseTypeArgumentsOptional_closed
    {parseArguments : Cursor → Outcome (List TypeNameParseInfo × Cursor)} {arity : Int32}
    {p : Cursor} (h : ¬ OpensArguments p) :
    parseTypeArgumentsOptional parseArguments arity p = .done ([], p.skipWhites) := by
  rw [parseTypeArgumentsOptional]
  split_ifs with hEOL hbracket harray harity
  · rfl
  · rfl
  · rfl
  all_goals exact absurd ⟨by simpa using hbracket, by simpa using harray⟩ h

theorem parseTypeArgumentsOptional_opened
    {parseArguments : Cursor → Outcome (List TypeNameParseInfo × Cursor)} {arity : Int32}
    {p p₁ p₂ : Cursor} {infos : List TypeNameParseInfo} (opened : OpensArguments p)
    (bracket : advance p.skipWhites true = .done p₁) (h : parseArguments p₁ = .done (infos, p₂))
    (harity : (infos.length : ℤ) = arity.toInt) :
    parseTypeArgumentsOptional parseArguments arity p = .done (infos, p₂.next true) := by
  obtain ⟨hbracket, harray⟩ := opened
  have hEOL : p.skipWhites.isEOL = false := by
    cases hEOL : p.skipWhites.isEOL with
    | false => rfl
    | true => simp [currentIs, hEOL] at hbracket
  have hnonneg : ¬ arity.toInt < 0 := by omega
  simp only [parseTypeArgumentsOptional, hEOL, hbracket, harray, bracket, h, hnonneg,
    Bool.false_eq_true, if_false, Bool.not_true, Outcome.done_bind, Outcome.pure_eq, harity, ne_eq,
    not_true_eq_false]

theorem parseInfo_of_parts {n : ℕ} {accept : Bool} {p p₁ p₂ p₃ q : Cursor} {arity : Int32}
    {arguments : List TypeNameParseInfo} {names : List Cursor} (name : NameRead p p₁ arity)
    (h : parseTypeArgumentsOptional (parseTypeArguments n []) arity p₁ = .done (arguments, p₂))
    (modifiers : ModifiersRead p₂ p₃) (assembly : AssemblyRead accept p₃ q names) :
    ∃ info, parseInfo (n + 1) accept p = .done (info, q) := by
  obtain ⟨hEOL, namespaze, typeName, ownArity, behind, nested, hname, hnested⟩ := name
  obtain ⟨pointers, p₄, arrays, p₅, values, hpointers, harrays, hbyref⟩ := modifiers
  obtain ⟨a, hassembly⟩ := assembly.parses
  refine ⟨⟨namespaze, typeName, a, values, arguments, nested⟩, ?_⟩
  rw [parseInfo]
  simp only [hEOL, Bool.false_eq_true, if_false, hname, hnested, h, hpointers, harrays, hbyref,
    hassembly, Outcome.done_bind, Outcome.pure_eq]

theorem currentIs_unique {p : Cursor} {v v' : Char} (h : p.currentIs v = true) (hne : v ≠ v') :
    ¬ p.currentIs v' = true := by
  rcases p with ⟨_ | ⟨c, cs⟩, n⟩
  · nofun
  · simp only [currentIs_cons, beq_iff_eq] at h ⊢
    exact fun h' => hne (h.symm.trans h')

theorem parseTypeArguments_of_argument {n : ℕ} {p p₁ p₂ p₃ : Cursor}
    {info : TypeNameParseInfo} (infos : List TypeNameParseInfo) (opened : ArgumentOpened p p₁)
    (argument : parseInfo n (p.currentIs '[') p₁ = .done (info, p₂))
    (closed : ArgumentClosed (p.currentIs '[') p₂ p₃) :
    parseTypeArguments (n + 1) infos p =
      if p₃.currentIs ']' then .done (infos ++ [info], p₃)
      else if p₃.currentIs ',' then
        advance p₃ true >>= parseTypeArguments n (infos ++ [info])
      else .reject := by
  rw [ArgumentOpened] at opened
  obtain ⟨hEOL, closed⟩ := closed
  rw [parseTypeArguments]
  cases hbracket : p.currentIs '[' with
  | true =>
    rw [hbracket] at opened argument closed
    obtain ⟨hclose, closed⟩ := closed
    simp only [if_true] at opened
    simp only [if_true, opened, argument, hEOL, hclose, closed, Bool.false_eq_true, if_false,
      Outcome.done_bind, Outcome.pure_eq]
  | false =>
    rw [hbracket] at opened argument closed
    cases opened
    simp only [Bool.false_eq_true, if_false] at closed
    subst closed
    simp only [argument, hEOL, Bool.false_eq_true, if_false, Outcome.done_bind, Outcome.pure_eq]

/-- **What has a derivation is accepted**, with every bound that is large enough. -/
theorem Reads.parses {phrase : Phrase} {p q : Cursor} {names : List Cursor}
    (h : Reads phrase p q names) : phrase.Parses p q := by
  induction h with
  | plain name closed modifiers assembly =>
    refine ⟨1, fun m hm => ?_⟩
    obtain ⟨m, rfl⟩ := Nat.exists_eq_add_of_le' hm
    exact parseInfo_of_parts name (parseTypeArgumentsOptional_closed closed) modifiers assembly
  | generic name opened bracket _ harity modifiers assembly ih =>
    obtain ⟨n, hn⟩ := ih
    refine ⟨n + 1, fun m hm => ?_⟩
    obtain ⟨m, rfl⟩ := Nat.exists_eq_add_of_le' hm
    obtain ⟨infos, hlength, harguments⟩ := hn (m + n) (Nat.le_add_left n m) []
    rw [List.length_nil, Nat.zero_add] at hlength
    exact parseInfo_of_parts name
      (parseTypeArgumentsOptional_opened opened bracket harguments (hlength ▸ harity)) modifiers
      assembly
  | last opened _ closed hlast ih =>
    obtain ⟨n, hn⟩ := ih
    refine ⟨n + 1, fun m hm infos => ?_⟩
    obtain ⟨m, rfl⟩ := Nat.exists_eq_add_of_le' hm
    obtain ⟨info, hinfo⟩ := hn (m + n) (Nat.le_add_left n m)
    refine ⟨infos ++ [info], List.length_append, ?_⟩
    rw [← Nat.add_assoc, parseTypeArguments_of_argument infos opened hinfo closed, if_pos hlast]
  | more opened _ closed comma next _ ih ih' =>
    obtain ⟨n, hn⟩ := ih
    obtain ⟨n', hn'⟩ := ih'
    refine ⟨max n n' + 1, fun m hm infos => ?_⟩
    obtain ⟨m, rfl⟩ := Nat.exists_eq_add_of_le' hm
    obtain ⟨info, hinfo⟩ := hn (m + max n n') (by omega)
    obtain ⟨infos', hlength, hrest⟩ := hn' (m + max n n') (by omega) (infos ++ [info])
    refine ⟨infos', ?_, ?_⟩
    · rw [hlength, List.length_append, List.length_singleton]
      omega
    · rw [← Nat.add_assoc, parseTypeArguments_of_argument infos opened hinfo closed,
        if_neg (currentIs_unique comma (by decide)), if_pos comma, next]
      exact hrest

/-- **`Parse` accepts a text exactly if there is a derivation for the whole of it.** -/
theorem parses_iff_reads (text : List Char) (acceptAssemblyName : Bool) :
    (∃ n info, parseInfo n acceptAssemblyName ⟨text, 0⟩ = .done (info, ⟨[], 0⟩)) ↔
      ∃ names, Reads (.type acceptAssemblyName) ⟨text, 0⟩ ⟨[], 0⟩ names := by
  constructor
  · rintro ⟨n, info, h⟩
    exact (parse_reads n).1 h
  · rintro ⟨names, h⟩
    obtain ⟨n, hparses⟩ := h.parses
    exact ⟨n, hparses n le_rfl⟩

end Il2Cpp
