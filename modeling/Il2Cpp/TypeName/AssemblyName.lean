import Il2Cpp.Text.Cursor

/-!
# Assembly names

Printing of an assembly name (`AssemblyName::AssemblyNameToString`) and the parsers of assembly
names: the assembly part of `TypeNameParser` and `AssemblyName::ParseName` on top of it.

* `Il2CppAssemblyName` : the name in the metadata, `assemblyNameToString` its display name.
* `ParsedAssemblyName` : what the parser fills in, `parseAssemblyName`.
* `parsePropertiesOptional_eq` : the loop over the properties of a name, as an equation.
* `parseName` : the managed assembly name made from a text.
-/

namespace Il2Cpp

/-- `kPublicKeyByteLength`. -/
def kPublicKeyByteLength : ℕ := 8

/-- `kPublicKeyTokenLength`: the digits of a token and the terminator. -/
def kPublicKeyTokenLength : ℕ := 17

/-- `ASSEMBLYREF_RETARGETABLE_FLAG`. -/
def ASSEMBLYREF_RETARGETABLE_FLAG : UInt32 := 0x100

/-- `Il2CppAssemblyName`, without the key and hash fields that no printer reads. -/
structure Il2CppAssemblyName where
  name : CString
  /-- NULL is `none`. -/
  culture : Option CString
  flags : UInt32
  major : Int32
  minor : Int32
  build : Int32
  revision : Int32
  publicKeyToken : List UInt8
  token_length : publicKeyToken.length = kPublicKeyByteLength

/-- The flag test of the printers and of their callers. -/
def retargetable (flags : UInt32) : Bool := flags &&& ASSEMBLYREF_RETARGETABLE_FLAG != 0

/-! ### Printing -/

/-- The culture that is printed, and that `CreateCulture` creates: NULL stands for `neutral`. -/
def cultureName : Option CString → List Char
  | some culture => if culture.chars.length ≠ 0 then culture.chars else "neutral".toList
  | none => "neutral".toList

theorem noNul_cultureName (culture : Option CString) : NUL ∉ cultureName culture := by
  unfold cultureName
  split
  · rename_i c
    split_ifs
    · exact c.noNul
    · decide
  · decide

/-- The two digits of a byte of the token. -/
def tokenDigits (value : UInt8) : List Char :=
  [hexDigit ((value &&& 0xF0) >>> 4).toNat, hexDigit (value &&& 0x0F).toNat]

/-- `PublicKeyTokenToString`. -/
def publicKeyTokenToString (token : List UInt8) : List Char := token.flatMap tokenDigits

theorem length_publicKeyTokenToString (token : List UInt8) :
    (publicKeyTokenToString token).length = token.length * 2 := by
  induction token with
  | nil => rfl
  | cons b bs ih =>
    have h : publicKeyTokenToString (b :: bs) = tokenDigits b ++ publicKeyTokenToString bs := rfl
    rw [h, List.length_append, ih, List.length_cons, tokenDigits, List.length_cons,
      List.length_singleton]
    omega

theorem forall_byte {P : UInt8 → Prop} (h : ∀ n : Fin 256, P ⟨⟨n⟩⟩) (b : UInt8) : P b :=
  h b.toBitVec.toFin

theorem nibbles_lt : ∀ b : UInt8, ((b &&& 0xF0) >>> 4).toNat < 16 ∧ (b &&& 0x0F).toNat < 16 :=
  forall_byte (by decide +kernel)

theorem isAlphanum_of_mem_publicKeyTokenToString {token : List UInt8} {c : Char}
    (h : c ∈ publicKeyTokenToString token) : c.isAlphanum = true := by
  obtain ⟨b, -, hb⟩ := List.mem_flatMap.1 h
  simp only [tokenDigits, List.mem_cons, List.not_mem_nil, or_false] at hb
  rcases hb with rfl | rfl
  · exact isAlphanum_hexDigit _ (nibbles_lt b).1
  · exact isAlphanum_hexDigit _ (nibbles_lt b).2

/-- `AssemblyName::AssemblyNameToString`. -/
def assemblyNameToString (aname : Il2CppAssemblyName) : List Char :=
  aname.name.chars ++ ", Version=".toList ++ formatInt aname.major.toInt ++ ".".toList ++
  formatInt aname.minor.toInt ++ ".".toList ++ formatInt aname.build.toInt ++ ".".toList ++
  formatInt aname.revision.toInt ++ ", Culture=".toList ++ cultureName aname.culture ++
  ", PublicKeyToken=".toList ++
  (if aname.publicKeyToken.headD 0 ≠ 0 then publicKeyTokenToString aname.publicKeyToken
    else "null".toList) ++
  (if retargetable aname.flags then ", Retargetable=Yes".toList else []) ++
  (if aname.name.chars = "WindowsRuntimeMetadata".toList then
    ", ContentType=WindowsRuntime".toList else [])

/-! ### Parsing -/

/-- `TypeNameParseInfo::AssemblyName`. -/
structure ParsedAssemblyName where
  name : List Char := []
  culture : List Char := []
  publicKey : List Char := []
  publicKeyToken : List Char := List.replicate kPublicKeyTokenLength NUL
  hashAlg : UInt32 := 0
  hashLen : UInt32 := 0
  flags : UInt32 := 0
  major : UInt16 := 0
  minor : UInt16 := 0
  build : UInt16 := 0
  revision : UInt16 := 0
  deriving DecidableEq

/-- The text before the first `.` and the text after it, if `find('.')` finds one. -/
def splitDot (version : List Char) : Option (List Char × List Char) :=
  match version.span (· != '.') with
  | (component, _ :: rest) => some (component, rest)
  | (_, []) => none

/-- The value that a component gives to a `uint16_t`. -/
def versionComponent (component : List Char) : UInt16 := .ofInt (atoi (cStr component))

/-- `ParseVersion`: the components before a missing one are assigned all the same. -/
def parseVersion (version : List Char) (a : ParsedAssemblyName) : Bool × ParsedAssemblyName :=
  match splitDot version with
  | none => (false, a)
  | some (component, version) =>
    let a := { a with major := versionComponent component }
    match splitDot version with
    | none => (false, a)
    | some (component, version) =>
      let a := { a with minor := versionComponent component }
      match splitDot version with
      | none => (false, a)
      | some (component, version) =>
        let a := { a with build := versionComponent component }
        (true, { a with revision := versionComponent version })

/-- `strncpy` into the array for the token. -/
def copyToken (value : List Char) : List Char :=
  (cStr value ++ List.replicate kPublicKeyTokenLength NUL).take kPublicKeyTokenLength

/-- What the loop of `ParsePropertiesOptional` does with a property once it has read it. -/
def setProperty (propertyName propertyValue : List Char) (a : ParsedAssemblyName) :
    Bool × ParsedAssemblyName :=
  if equalsIgnoreCase propertyName "version".toList then parseVersion propertyValue a
  else if equalsIgnoreCase propertyName "publickey".toList then
    if !equalsIgnoreCase propertyValue "null".toList then
      (true, { a with publicKey := propertyValue })
    else (true, a)
  else if equalsIgnoreCase propertyName "publickeytoken".toList then
    if !equalsIgnoreCase propertyValue "null".toList then
      if kPublicKeyTokenLength - 1 ≠ propertyValue.length then (false, a)
      else (true, { a with publicKeyToken := copyToken propertyValue })
    else (true, a)
  else if equalsIgnoreCase propertyName "culture".toList then
    (true, { a with culture := propertyValue })
  else if equalsIgnoreCase propertyName "contenttype".toList then
    if equalsIgnoreCase propertyValue "windowsruntime".toList &&
        !equalsIgnoreCase a.name "windowsruntimemetadata".toList then
      (true, { a with name := "WindowsRuntimeMetadata".toList })
    else (true, a)
  else (false, a)

/-- The characters at which `ConsumeAssemblyIdentifier` stops. -/
def assemblyIdentifierStops : List Char := [',', '+', '&', '*', '[', ']', '=', '"', '\x60']

/-- `ConsumeAssemblyIdentifier`. -/
def consumeAssemblyIdentifier : Cursor → List Char × Cursor :=
  Cursor.consume (· ∈ assemblyIdentifierStops) true

/-- `ConsumePropertyIdentifier`. -/
def consumePropertyIdentifier : Cursor → List Char × Cursor := Cursor.consume (· == '=') false

/-- `ConsumePropertyValue`. -/
def consumePropertyValue : Cursor → List Char × Cursor :=
  Cursor.consume (fun c => c == ',' || c == ']') false

/-- One iteration of the loop of `ParsePropertiesOptional`. -/
def parseProperty (p : Cursor) (a : ParsedAssemblyName) : Bool × Cursor × ParsedAssemblyName :=
  let p := p.next true
  if p.isEOL then (false, p, a)
  else
    let (propertyName, p) := consumePropertyIdentifier p
    if !p.currentIs '=' then (false, p, a)
    else
      let p := p.next
      if p.isEOL then (false, p, a)
      else
        let (propertyValue, p) := consumePropertyValue p
        let (ok, a) := setProperty propertyName propertyValue a
        (ok, p, a)

/-- The loop of `ParsePropertiesOptional`, for at most as many iterations as there are characters
left. -/
def parsePropertiesFrom : ℕ → Cursor → ParsedAssemblyName → Bool × Cursor × ParsedAssemblyName
  | 0, p, a => (true, p, a)
  | n + 1, p, a =>
    if p.currentIs ',' then
      match parseProperty p a with
      | (true, p, a) => parsePropertiesFrom n p a
      | (false, p, a) => (false, p, a)
    else (true, p, a)

/-- `ParsePropertiesOptional`. -/
def parsePropertiesOptional (p : Cursor) (a : ParsedAssemblyName) :
    Bool × Cursor × ParsedAssemblyName :=
  parsePropertiesFrom p.rest.length p a

theorem parseProperty_rest_length (p : Cursor) (a : ParsedAssemblyName) :
    (parseProperty p a).2.1.rest.length ≤ p.rest.length - 1 := by
  have hsep := p.next_rest_length true
  fun_cases parseProperty p a
  case case1 => exact hsep
  case case2 name q hname hq => exact (Cursor.consume_rest_length hname).trans hsep
  case case3 name q hname _ _ hq =>
    have hq₁ : q.rest.length ≤ (p.next true).rest.length := Cursor.consume_rest_length hname
    have hq₂ := q.next_rest_length false
    exact (hq₂.trans (Nat.sub_le ..)).trans (hq₁.trans hsep)
  case case4 name q hname hq _ hq' value q' hvalue ok b hset =>
    have hq₁ : q.rest.length ≤ (p.next true).rest.length := Cursor.consume_rest_length hname
    have hq₂ := q.next_rest_length false
    have hq₃ : q'.rest.length ≤ q.next.rest.length := Cursor.consume_rest_length hvalue
    exact (hq₃.trans (hq₂.trans (Nat.sub_le ..))).trans (hq₁.trans hsep)

theorem parsePropertiesFrom_eq {n : ℕ} {p : Cursor} (h : p.rest.length ≤ n)
    (a : ParsedAssemblyName) : parsePropertiesFrom n p a = parsePropertiesOptional p a := by
  induction n using Nat.strong_induction_on generalizing p a with
  | _ n ih =>
    rcases p with ⟨_ | ⟨c, cs⟩, m⟩
    · cases n <;> rfl
    · obtain ⟨n, rfl⟩ : ∃ k, n = k + 1 := ⟨n - 1, by simp at h; omega⟩
      simp only [parsePropertiesOptional, List.length_cons, parsePropertiesFrom]
      split_ifs
      · have hlen := parseProperty_rest_length ⟨c :: cs, m⟩ a
        generalize parseProperty ⟨c :: cs, m⟩ a = r at hlen ⊢
        obtain ⟨_ | _, q, b⟩ := r
        · rfl
        · simp only [List.length_cons] at h hlen ⊢
          rw [ih n (by omega) (by omega), ih cs.length (by omega) (by omega)]
      · rfl

theorem parsePropertiesOptional_eq (p : Cursor) (a : ParsedAssemblyName) :
    parsePropertiesOptional p a =
      if p.currentIs ',' then
        match parseProperty p a with
        | (true, p, a) => parsePropertiesOptional p a
        | (false, p, a) => (false, p, a)
      else (true, p, a) := by
  rcases p with ⟨_ | ⟨c, cs⟩, m⟩
  · rfl
  · rw [parsePropertiesOptional, List.length_cons, parsePropertiesFrom]
    split_ifs
    · have hlen := parseProperty_rest_length ⟨c :: cs, m⟩ a
      generalize parseProperty ⟨c :: cs, m⟩ a = r at hlen ⊢
      obtain ⟨_ | _, q, b⟩ := r
      · rfl
      · exact parsePropertiesFrom_eq (by simpa using hlen) _
    · rfl

/-- `ParseAssemblyName`.  It returns true whatever `ParsePropertiesOptional` returns. -/
def parseAssemblyName (p : Cursor) (a : ParsedAssemblyName) : Cursor × ParsedAssemblyName :=
  let (name, p) := consumeAssemblyIdentifier p
  (parsePropertiesOptional p.skipWhites { a with name := name }).2

/-- `ParseAssembly` on a whole text. -/
def parseAssembly (name : List Char) : Option ParsedAssemblyName :=
  let p := Cursor.skipWhites ⟨name, 0⟩
  if p.isEOL then none else some (parseAssemblyName p {}).2

/-! ### The managed assembly name -/

/-- `Il2CppReflectionAssemblyName`, the fields that `ParseName` sets. -/
structure ReflectionAssemblyName where
  name : List Char
  major : Int32
  minor : Int32
  build : Int32
  revision : Int32
  flags : UInt32
  hashalg : UInt32
  /-- The arguments of `CreateVersion`. -/
  version : List UInt32
  /-- The argument of `CreateCulture`. -/
  cultureInfo : List Char
  keyToken : List UInt8
  deriving DecidableEq

/-- The loop of `ParseName` over the digits of the token. -/
def tokenBytes : List Char → List UInt8
  | hi :: lo :: cs => (.ofNat (hexValue hi <<< 4) ||| .ofNat (hexValue lo)) :: tokenBytes cs
  | _ => []

/-- The managed name made from a parsed name. -/
def ofParsedName (parsedName : ParsedAssemblyName) : ReflectionAssemblyName where
  name := cStr parsedName.name
  major := .ofNat parsedName.major.toNat
  minor := .ofNat parsedName.minor.toNat
  build := .ofNat parsedName.build.toNat
  revision := .ofNat parsedName.revision.toNat
  flags := parsedName.flags
  hashalg := parsedName.hashAlg
  version := [parsedName.major, parsedName.minor, parsedName.build, parsedName.revision].map
    UInt16.toUInt32
  cultureInfo := cStr parsedName.culture
  keyToken :=
    if parsedName.publicKeyToken.headD NUL ≠ NUL then
      tokenBytes (parsedName.publicKeyToken.take (kPublicKeyByteLength * 2))
    else []

/-- `AssemblyName::ParseName`. -/
def parseName (assemblyName : List Char) : Option ReflectionAssemblyName :=
  (parseAssembly assemblyName).map ofParsedName

end Il2Cpp
