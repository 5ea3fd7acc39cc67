import Il2Cpp.TypeName.AssemblyName

/-!
# Parsing type names

`TypeNameParser::Parse`.  A parsing function moves the cursor and returns false where the text is
invalid; `Outcome.reject` is that false, and it ends the whole parse.

* `TypeNameParseInfo` : what the parser fills in.
* `parseInfo`, `parseTypeArguments` : the parser of a type and its loop over type arguments, which
  parses each argument with a nested parser.  They recurse on a bound for the nesting and the
  number of arguments; `Outcome.outOfFuel` says that the bound was too small.
* `parse` : `Parse` on a whole text.
-/

namespace Il2Cpp

open Cursor

/-- The result of a parsing function. -/
inductive Outcome (α : Type) where
  | done (a : α)
  /-- It returned false. -/
  | reject
  /-- `reserve` threw `std::length_error`. -/
  | lengthError
  | outOfFuel
  deriving DecidableEq

namespace Outcome

/-- Go on with the result, if there is one. -/
def bind {α β : Type} : Outcome α → (α → Outcome β) → Outcome β
  | done a, f => f a
  | reject, _ => reject
  | lengthError, _ => lengthError
  | outOfFuel, _ => outOfFuel

instance : Monad Outcome where
  pure := done
  bind := bind

@[simp] theorem done_bind {α β : Type} (a : α) (f : α → Outcome β) : (done a >>= f) = f a := rfl

@[simp] theorem reject_bind {α β : Type} (f : α → Outcome β) : (reject >>= f) = reject := rfl

@[simp] theorem pure_eq {α : Type} (a : α) : (pure a : Outcome α) = done a := rfl

theorem bind_eq_done_iff {α β : Type} {x : Outcome α} {f : α → Outcome β} {b : β} :
    (x >>= f) = done b ↔ ∃ a, x = done a ∧ f a = done b := by
  cases x with
  | done a => simp
  | reject => exact ⟨nofun, nofun⟩
  | lengthError => exact ⟨nofun, nofun⟩
  | outOfFuel => exact ⟨nofun, nofun⟩

end Outcome

/-- `TypeNameParseInfo`. -/
structure TypeNameParseInfo where
  namespaze : List Char := []
  name : List Char := []
  assemblyName : ParsedAssemblyName := {}
  modifiers : List ℤ := []
  typeArguments : List TypeNameParseInfo := []
  nested : List (List Char) := []

/-- `if (!Next(skip)) return false;` -/
def advance (p : Cursor) (skip : Bool := false) : Outcome Cursor :=
  if (p.next skip).isEOL then .reject else .done (p.next skip)

/-! ### Names -/

/-- The characters at which `ConsumeIdentifier` stops. -/
def identifierStops : List Char := [',', '+', '&', '*', '[', ']', '.', '=', '"', '\x60']

/-- `ConsumeIdentifier`. -/
def consumeIdentifier : Cursor → List Char × Cursor := Cursor.consume (· ∈ identifierStops) true

/-- `(int32_t)strtol(s, NULL, 10)` on digits, with a `long` of 64 bits. -/
def strtol32 (digits : List Char) : Int32 := .ofInt (min (digitsValue digits) (2 ^ 63 - 1))

/-- `ConsumeNumber`: the digits, their value, and the position behind them. -/
def consumeNumber (p : Cursor) : Outcome (List Char × Int32 × Cursor) :=
  if !p.deref.isDigit then .reject
  else
    let digits := p.rest.takeWhile Char.isDigit
    .done (digits, strtol32 digits, { p with rest := p.rest.dropWhile Char.isDigit })

/-- The arity behind a name: its text and its value. -/
def parseArityOptional (p : Cursor) : Outcome (List Char × Int32 × Cursor) := do
  if p.currentIs '\x60' then
    let p ← advance p
    let (digits, arity, p) ← consumeNumber p
    return ('\x60' :: digits, arity, p)
  else return ([], 0, p)

/-- The loop of `ParseTypeName`, after the namespace `namespaze` (the text before `last_dot`, if
there is one). -/
def parseIdentifiers : ℕ → Option (List Char) → Cursor →
    Outcome (Option (List Char) × List Char × Cursor)
  | 0, _, _ => .outOfFuel
  | n + 1, namespaze, p => do
    let (identifier, p) := consumeIdentifier p
    if !p.currentIs '.' then return (namespaze, identifier, p)
    let p ← advance p
    let namespaze :=
      match namespaze with
      | none => identifier
      | some namespaze => namespaze ++ '.' :: identifier
    parseIdentifiers n (some namespaze) p

/-- `ParseTypeName`: the namespace, the name, the arity and the position. -/
def parseTypeName (p : Cursor) : Outcome (List Char × List Char × Int32 × Cursor) := do
  let (namespaze, identifier, p) ← parseIdentifiers (p.rest.length + 1) none p
  let (suffix, arity, p) ← parseArityOptional p
  return (namespaze.getD [], identifier ++ suffix, arity, p)

/-- The loop of `ParseNestedTypeOptional`. -/
def parseNestedTypes : ℕ → List (List Char) → Int32 → Cursor →
    Outcome (List (List Char) × Int32 × Cursor)
  | 0, _, _, _ => .outOfFuel
  | n + 1, nested, arity, p => do
    if !p.currentIs '+' then return (nested, arity, p)
    let p ← advance p
    let (identifier, p) := consumeIdentifier p
    let (suffix, nestedArity, p) ← parseArityOptional p
    parseNestedTypes n (nested ++ [identifier ++ suffix]) (arity + nestedArity) p

/-- `ParseNestedTypeOptional`. -/
def parseNestedTypeOptional (arity : Int32) (p : Cursor) :
    Outcome (List (List Char) × Int32 × Cursor) :=
  parseNestedTypes (p.rest.length + 1) [] arity p

/-! ### Modifiers -/

/-- The loop of `ParsePointerModifiersOptional`. -/
def parsePointerModifiers : ℕ → List ℤ → Cursor → List ℤ × Cursor
  | 0, modifiers, p => (modifiers, p)
  | n + 1, modifiers, p =>
    if p.currentIs '*' then parsePointerModifiers n (modifiers ++ [-1]) (p.next true)
    else (modifiers, p)

/-- `ParsePointerModifiersOptional`. -/
def parsePointerModifiersOptional (p : Cursor) : List ℤ × Cursor :=
  parsePointerModifiers p.rest.length [] p

/-- The loop of `ParseArrayModifierOptional` between two brackets. -/
def parseRank : ℕ → ℤ → List ℤ → Cursor → Outcome (List ℤ × Cursor)
  | 0, _, _, _ => .outOfFuel
  | n + 1, rank, modifiers, p => do
    if p.currentIs ']' then return (modifiers ++ [rank], p.next true)
    else if p.currentIs ',' then parseRank n (rank + 1) modifiers (← advance p true)
    else if p.currentIs '*' then parseRank n rank (modifiers ++ [-2]) (← advance p true)
    else .reject

/-- The character after a `[` is one of those with which an array goes on. -/
def opensArray (p : Cursor) : Bool := p.nextWillBe ']' || p.nextWillBe ',' || p.nextWillBe '*'

/-- `ParseArrayModifierOptional`, which calls itself for an array of arrays. -/
def parseArrayModifiers : ℕ → List ℤ → Cursor → Outcome (List ℤ × Cursor)
  | 0, _, _ => .outOfFuel
  | n + 1, modifiers, p => do
    let p := p.skipWhites
    if p.isEOL then return (modifiers, p)
    if !p.currentIs '[' then return (modifiers, p)
    if !opensArray p then return (modifiers, p)
    let p ← advance p true
    let (modifiers, p) ← parseRank (p.rest.length + 1) 1 modifiers p
    parseArrayModifiers n modifiers p

/-- `ParseArrayModifierOptional`. -/
def parseArrayModifierOptional (modifiers : List ℤ) (p : Cursor) : Outcome (List ℤ × Cursor) :=
  parseArrayModifiers (p.rest.length + 1) modifiers p

/-- `ParseByRefModifiersOptional`. -/
def parseByRefModifiersOptional (modifiers : List ℤ) (p : Cursor) : Outcome (List ℤ × Cursor) :=
  if p.currentIs '&' then
    if 0 ∈ modifiers then .reject else .done (modifiers ++ [0], p.next true)
  else .done (modifiers, p)

/-- `ParseAssemblyNameOptional`. -/
def parseAssemblyNameOptional (acceptAssemblyName : Bool) (p : Cursor) :
    Outcome (ParsedAssemblyName × Cursor) := do
  if !acceptAssemblyName then return ({}, p)
  if !p.currentIs ',' then return ({}, p)
  let p ← advance p
  let (p, assemblyName) := parseAssemblyName p.skipWhites {}
  return (assemblyName, p)

/-! ### Types -/

/-- `ParseTypeArgumentsOptional`, with `parseArguments` for its loop. -/
def parseTypeArgumentsOptional
    (parseArguments : Cursor → Outcome (List TypeNameParseInfo × Cursor)) (arity : Int32)
    (p : Cursor) : Outcome (List TypeNameParseInfo × Cursor) := do
  let p := p.skipWhites
  if p.isEOL then return ([], p)
  if !p.currentIs '[' then return ([], p)
  if opensArray p then return ([], p)
  let p ← advance p true
  -- `reserve(arity)`
  if arity.toInt < 0 then .lengthError
  else
    let (typeArguments, p) ← parseArguments p
    if (typeArguments.length : ℤ) ≠ arity.toInt then .reject
    else return (typeArguments, p.next true)

mutual

/-- `Parse` but for its last line. -/
def parseInfo : ℕ → Bool → Cursor → Outcome (TypeNameParseInfo × Cursor)
  | 0, _, _ => .outOfFuel
  | n + 1, acceptAssemblyName, p => do
    let p := p.skipWhites
    if p.isEOL then .reject
    else
      let (namespaze, name, arity, p) ← parseTypeName p
      let (nested, arity, p) ← parseNestedTypeOptional arity p
      let (typeArguments, p) ← parseTypeArgumentsOptional (parseTypeArguments n []) arity p
      let (modifiers, p) := parsePointerModifiersOptional p
      let (modifiers, p) ← parseArrayModifierOptional modifiers p
      let (modifiers, p) ← parseByRefModifiersOptional modifiers p
      let (assemblyName, p) ← parseAssemblyNameOptional acceptAssemblyName p
      return ({ namespaze, name, assemblyName, modifiers, typeArguments, nested }, p)

/-- The loop of `ParseTypeArgumentsOptional`.  The nested parser returns true wherever it stops. -/
def parseTypeArguments : ℕ → List TypeNameParseInfo → Cursor →
    Outcome (List TypeNameParseInfo × Cursor)
  | 0, _, _ => .outOfFuel
  | n + 1, typeArguments, p => do
    let acceptAssemblyName := p.currentIs '['
    let p ← if acceptAssemblyName then advance p true else .done p
    let (info, p) ← parseInfo n acceptAssemblyName p
    let typeArguments := typeArguments ++ [info]
    let p := p.skipWhites
    if p.isEOL then .reject
    else
      let p ←
        if acceptAssemblyName then if p.currentIs ']' then advance p true else .reject
        else .done p
      if p.currentIs ']' then return (typeArguments, p)
      else if p.currentIs ',' then parseTypeArguments n typeArguments (← advance p true)
      else .reject

end

/-- `Parse` on a whole text. -/
def parse (name : List Char) : Outcome TypeNameParseInfo := do
  let (info, p) ← parseInfo (name.length + 1) true ⟨name, 0⟩
  if p = ⟨[], 0⟩ then return info else .reject

end Il2Cpp
