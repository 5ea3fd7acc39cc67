import Il2Cpp.Data.Traced
import Il2Cpp.TypeName.Parser

/-!
# The reads and movements of the parser

`TypeNameParser` once more, with each `*_p` and each `++_p` recorded.  The functions are those of
`Il2Cpp.TypeName.AssemblyName` and `Il2Cpp.TypeName.Parser`, which say only what is accepted.

* `Event` : a read, a movement, or one of the three steps that do not look whether the text ends.
* `Parsing` : the programs, over the cursor that nested parsers share.
* `parse`, `parseAssembly` : the entry points.
-/

namespace Il2Cpp.TypeNameParser

/-- What the parser does with `_p`. -/
inductive Event where
  /-- The character at this position is read. -/
  | read (p : Cursor)
  /-- `_p` is at this position now. -/
  | moved (p : Cursor)
  /-- `ConsumeIdentifier` or `ConsumeAssemblyIdentifier` takes the case of the backslash. -/
  | escape (p : Cursor)
  /-- `NextWillBe` looks behind this position. -/
  | lookAhead (p : Cursor)
  /-- `ConsumeAssemblyIdentifier` is called. -/
  | assemblyIdentifier (p : Cursor)
  deriving DecidableEq

/-- Why a parse ends early. -/
inductive Stop where
  /-- A parsing function returned false. -/
  | reject
  /-- `reserve` threw `std::length_error`. -/
  | lengthError
  | outOfFuel

/-- A parsing function. -/
abbrev Parsing (α : Type) : Type := Traced Cursor Event Stop α

/-- The position `_p + i`. -/
def ahead : ℕ → Cursor → Cursor
  | 0, p => p
  | i + 1, p => ahead i p.incr

/-- `*(_p + i)`. -/
def derefAt (i : ℕ) : Parsing Char := do
  Traced.emit fun p => .read (ahead i p)
  return (ahead i (← Traced.state)).deref

/-- `IsEOL`. -/
def isEOL : Parsing Bool := do return (← Traced.state).isEOL

/-- `CurrentIs`. -/
def currentIs (v : Char) : Parsing Bool := do
  if ← isEOL then return false
  else return (← derefAt 0) == v

/-- `++_p`. -/
def incr : Parsing Unit := do
  Traced.update Cursor.incr
  Traced.emit .moved

/-- `CurrentIs(' ') || CurrentIs('\t')`. -/
def currentIsWhite : Parsing Bool := do
  if ← currentIs ' ' then return true
  else currentIs '\t'

/-- The loop of `SkipWhites`. -/
def skipWhitesLoop : ℕ → Parsing Unit
  | 0 => .stop .outOfFuel
  | n + 1 => do
    if ← currentIsWhite then
      if ← isEOL then return
      else
        incr
        skipWhitesLoop n
    else return

/-- `SkipWhites`. -/
def skipWhites : Parsing Unit := do skipWhitesLoop ((← Traced.state).rest.length + 1)

/-- `Next`. -/
def next (skip : Bool := false) : Parsing Bool := do
  incr
  if skip then skipWhites
  return !(← isEOL)

/-- `if (!Next(skip)) return false;` -/
def advance (skip : Bool := false) : Parsing Unit := do
  if ← next skip then return else .stop .reject

/-- `(*(_p + i) == ' ') || (*(_p + i) == '\t')`. -/
def whiteAt (i : ℕ) : Parsing Bool := do
  if (← derefAt i) == ' ' then return true
  else return (← derefAt i) == '\t'

/-- `NextWillBe` with `skipWhites`. -/
def nextWillBe (v : Char) : Parsing Bool := do
  if ← isEOL then return false
  else
    Traced.emit .lookAhead
    let i := if ← whiteAt 1 then 2 else 1
    if (ahead i (← Traced.state)).isEOL then return false
    else return (← derefAt i) == v

/-- `++_p`, with the character that is moved over. -/
def pass : Parsing Char := do
  let p ← Traced.state
  incr
  return p.deref

/-- The case of the backslash, where there is one: `Next(); break;`. -/
def passEscape (taken : Bool) : Parsing (List Char) := do
  if taken then
    Traced.emit .escape
    let c ← pass
    return [c]
  else return []

/-- The loop `do { switch (*_p) … } while (Next())` of the scanning functions. -/
def scanLoop (stop : Char → Bool) (escape : Bool) : ℕ → Parsing (List Char)
  | 0 => .stop .outOfFuel
  | n + 1 => do
    let c ← derefAt 0
    if stop c then return []
    else
      let skipped ← passEscape (escape && c == '\\')
      let passed ← pass
      if ← isEOL then return skipped ++ [passed]
      else return skipped ++ passed :: (← scanLoop stop escape n)

/-- The scanning functions. -/
def scan (stop : Char → Bool) (escape : Bool) : Parsing (List Char) := do
  scanLoop stop escape ((← Traced.state).rest.length + 1)

/-- `ConsumeIdentifier`. -/
def consumeIdentifier : Parsing (List Char) := scan (· ∈ identifierStops) true

/-- `ConsumeAssemblyIdentifier`. -/
def consumeAssemblyIdentifier : Parsing (List Char) := do
  Traced.emit .assemblyIdentifier
  scan (· ∈ assemblyIdentifierStops) true

/-- `ConsumePropertyIdentifier`. -/
def consumePropertyIdentifier : Parsing (List Char) := scan (· == '=') false

/-- `ConsumePropertyValue`. -/
def consumePropertyValue : Parsing (List Char) := scan (fun c => c == ',' || c == ']') false

/-- The loop of `ConsumeNumber`. -/
def digitsLoop : ℕ → Parsing (List Char)
  | 0 => .stop .outOfFuel
  | n + 1 => do
    let c ← derefAt 0
    if !c.isDigit then return []
    else if ← next then return c :: (← digitsLoop n)
    else return [c]

/-- `ConsumeNumber`, with `if (!ConsumeNumber(…)) return false;`. -/
def consumeNumber : Parsing (List Char × Int32) := do
  if !(← derefAt 0).isDigit then .stop .reject
  else
    let digits ← digitsLoop ((← Traced.state).rest.length + 1)
    return (digits, strtol32 digits)

/-! ### Names -/

/-- The arity behind a name. -/
def parseArityOptional : Parsing (List Char × Int32) := do
  if ← currentIs '\x60' then
    advance
    let (digits, arity) ← consumeNumber
    return ('\x60' :: digits, arity)
  else return ([], 0)

/-- The loop of `ParseTypeName`. -/
def parseIdentifiers : ℕ → Option (List Char) → Parsing (Option (List Char) × List Char)
  | 0, _ => .stop .outOfFuel
  | n + 1, namespaze => do
    let identifier ← consumeIdentifier
    if ← currentIs '.' then
      advance
      let namespaze :=
        match namespaze with
        | none => identifier
        | some namespaze => namespaze ++ '.' :: identifier
      parseIdentifiers n (some namespaze)
    else return (namespaze, identifier)

/-- `ParseTypeName`. -/
def parseTypeName : Parsing (List Char × List Char × Int32) := do
  let (namespaze, identifier) ← parseIdentifiers ((← Traced.state).rest.length + 1) none
  let (suffix, arity) ← parseArityOptional
  return (namespaze.getD [], identifier ++ suffix, arity)

/-- The loop of `ParseNestedTypeOptional`. -/
def parseNestedTypes : ℕ → List (List Char) → Int32 → Parsing (List (List Char) × Int32)
  | 0, _, _ => .stop .outOfFuel
  | n + 1, nested, arity => do
    if ← currentIs '+' then
      advance
      let identifier ← consumeIdentifier
      let (suffix, nestedArity) ← parseArityOptional
      parseNestedTypes n (nested ++ [identifier ++ suffix]) (arity + nestedArity)
    else return (nested, arity)

/-- `ParseNestedTypeOptional`. -/
def parseNestedTypeOptional (arity : Int32) : Parsing (List (List Char) × Int32) := do
  parseNestedTypes ((← Traced.state).rest.length + 1) [] arity

/-! ### Modifiers -/

/-- The loop of `ParsePointerModifiersOptional`. -/
def parsePointerModifiers : ℕ → List ℤ → Parsing (List ℤ)
  | 0, _ => .stop .outOfFuel
  | n + 1, modifiers => do
    if ← currentIs '*' then
      let modifiers := modifiers ++ [-1]
      if ← next true then parsePointerModifiers n modifiers else return modifiers
    else return modifiers

/-- `ParsePointerModifiersOptional`. -/
def parsePointerModifiersOptional : Parsing (List ℤ) := do
  if ← isEOL then return []
  else parsePointerModifiers ((← Traced.state).rest.length + 1) []

/-- The loop of `ParseArrayModifierOptional` between two brackets. -/
def parseRank : ℕ → ℤ → List ℤ → Parsing (List ℤ)
  | 0, _, _ => .stop .outOfFuel
  | n + 1, rank, modifiers => do
    if ← currentIs ']' then
      let _ ← next true
      return modifiers ++ [rank]
    else if ← currentIs ',' then
      advance true
      parseRank n (rank + 1) modifiers
    else if ← currentIs '*' then
      advance true
      parseRank n rank (modifiers ++ [-2])
    else .stop .reject

/-- The three calls of `NextWillBe`, of which a true one is the last. -/
def opensArray : Parsing Bool := do
  if ← nextWillBe ']' then return true
  else if ← nextWillBe ',' then return true
  else nextWillBe '*'

/-- `ParseArrayModifierOptional`, which calls itself. -/
def parseArrayModifiers : ℕ → List ℤ → Parsing (List ℤ)
  | 0, _ => .stop .outOfFuel
  | n + 1, modifiers => do
    skipWhites
    if ← isEOL then return modifiers
    else if ← currentIs '[' then
      if ← opensArray then
        advance true
        let modifiers ← parseRank ((← Traced.state).rest.length + 1) 1 modifiers
        parseArrayModifiers n modifiers
      else return modifiers
    else return modifiers

/-- `ParseArrayModifierOptional`. -/
def parseArrayModifierOptional (modifiers : List ℤ) : Parsing (List ℤ) := do
  parseArrayModifiers ((← Traced.state).rest.length + 1) modifiers

/-- `ParseByRefModifiersOptional`. -/
def parseByRefModifiersOptional (modifiers : List ℤ) : Parsing (List ℤ) := do
  if ← isEOL then return modifiers
  else if ← currentIs '&' then
    if 0 ∈ modifiers then .stop .reject
    else
      let _ ← next true
      return modifiers ++ [0]
  else return modifiers

/-! ### Assembly names -/

/-- One iteration of the loop of `ParsePropertiesOptional`. -/
def parseProperty (a : ParsedAssemblyName) : Parsing (Bool × ParsedAssemblyName) := do
  if ← next true then
    let propertyName ← consumePropertyIdentifier
    if ← currentIs '=' then
      if ← next then
        let propertyValue ← consumePropertyValue
        return setProperty propertyName propertyValue a
      else return (false, a)
    else return (false, a)
  else return (false, a)

/-- The loop of `ParsePropertiesOptional`. -/
def parseProperties : ℕ → ParsedAssemblyName → Parsing (Bool × ParsedAssemblyName)
  | 0, _ => .stop .outOfFuel
  | n + 1, a => do
    if ← currentIs ',' then
      let (ok, a) ← parseProperty a
      if ok then parseProperties n a else return (false, a)
    else return (true, a)

/-- `ParsePropertiesOptional`. -/
def parsePropertiesOptional (a : ParsedAssemblyName) : Parsing (Bool × ParsedAssemblyName) := do
  parseProperties ((← Traced.state).rest.length + 1) a

/-- `ParseAssemblyName`, which always returns true. -/
def parseAssemblyName (a : ParsedAssemblyName) : Parsing ParsedAssemblyName := do
  let name ← consumeAssemblyIdentifier
  skipWhites
  let (_, a) ← parsePropertiesOptional { a with name := name }
  return a

/-- `ParseAssemblyNameOptional`. -/
def parseAssemblyNameOptional (acceptAssemblyName : Bool) : Parsing ParsedAssemblyName := do
  if !acceptAssemblyName then return {}
  else if ← currentIs ',' then
    advance
    skipWhites
    parseAssemblyName {}
  else return {}

/-- `ParseAssembly`. -/
def parseAssembly : Parsing ParsedAssemblyName := do
  skipWhites
  if ← isEOL then .stop .reject
  else parseAssemblyName {}

/-! ### Types -/

/-- `ParseTypeArgumentsOptional`, with `parseArguments` for its loop. -/
def parseTypeArgumentsOptional (parseArguments : Parsing (List TypeNameParseInfo))
    (arity : Int32) : Parsing (List TypeNameParseInfo) := do
  skipWhites
  if ← isEOL then return []
  else if ← currentIs '[' then
    if ← opensArray then return []
    else
      advance true
      -- `reserve(arity)`
      if arity.toInt < 0 then .stop .lengthError
      else
        let typeArguments ← parseArguments
        if (typeArguments.length : ℤ) ≠ arity.toInt then .stop .reject
        else
          let _ ← next true
          return typeArguments
  else return []

/-- The end of one round of the loop of `ParseTypeArgumentsOptional`: whether there is another
argument. -/
def parseSeparator (acceptAssemblyName : Bool) : Parsing Bool := do
  skipWhites
  if ← isEOL then .stop .reject
  else
    if acceptAssemblyName then
      if ← currentIs ']' then advance true else .stop .reject
    if ← currentIs ']' then return false
    else if ← currentIs ',' then
      advance true
      return true
    else .stop .reject

mutual

/-- `Parse` but for its last line. -/
def parseInfo : ℕ → Bool → Parsing TypeNameParseInfo
  | 0, _ => .stop .outOfFuel
  | n + 1, acceptAssemblyName => do
    skipWhites
    if ← isEOL then .stop .reject
    else
      let (namespaze, name, arity) ← parseTypeName
      let (nested, arity) ← parseNestedTypeOptional arity
      let typeArguments ← parseTypeArgumentsOptional (parseTypeArguments n []) arity
      let modifiers ← parsePointerModifiersOptional
      let modifiers ← parseArrayModifierOptional modifiers
      let modifiers ← parseByRefModifiersOptional modifiers
      let assemblyName ← parseAssemblyNameOptional acceptAssemblyName
      return { namespaze, name, assemblyName, modifiers, typeArguments, nested }

/-- The loop of `ParseTypeArgumentsOptional`. -/
def parseTypeArguments : ℕ → List TypeNameParseInfo → Parsing (List TypeNameParseInfo)
  | 0, _ => .stop .outOfFuel
  | n + 1, typeArguments => do
    let acceptAssemblyName ← currentIs '['
    if acceptAssemblyName then advance true
    let info ← parseInfo n acceptAssemblyName
    let typeArguments := typeArguments ++ [info]
    if ← parseSeparator acceptAssemblyName then parseTypeArguments n typeArguments
    else return typeArguments

end

end Il2Cpp.TypeNameParser
