import Il2Cpp.TypeName.AssemblyName

/-!
# Round trip of assembly names

What the parser makes of a printed assembly name.

* `parsePropertiesOptional_cons` : one printed property, whatever follows it.
* `parseAssemblyName_printed` : the parser reads a printed name, up to the `]` or the end that
  follows it; it gives up at `Retargetable`.
* `parseName_assemblyNameToString_iff` : exactly the names that survive the round trip.
-/

namespace Il2Cpp

open Cursor

/-! ### One property -/

/-- What may follow a printed assembly name: the end, or the `]` of a type argument. -/
def EndsName (tail : List Char) : Prop := ∀ c ∈ tail.head?, c = ']'

theorem endsName_nil : EndsName [] := by simp [EndsName]

theorem endsName_bracket (s : List Char) : EndsName (']' :: s) := by simp [EndsName]

/-- What may follow a property. -/
def EndsProperty (tail : List Char) : Prop := ∀ c ∈ tail.head?, c = ',' ∨ c = ']'

theorem EndsName.endsProperty {tail : List Char} (h : EndsName tail) : EndsProperty tail :=
  fun c hc => .inr (h c hc)

@[simp] theorem endsProperty_comma (s : List Char) : EndsProperty (',' :: s) := by
  simp [EndsProperty]

/-- Characters that neither end a property value nor are escapes of one. -/
def ValueText (s : List Char) : Prop := s ≠ [] ∧ ',' ∉ s ∧ ']' ∉ s

/-- The name of a property as it is printed. -/
def KeyText (s : List Char) : Prop := s ≠ [] ∧ '=' ∉ s ∧ NoLeadingWhite s

instance (s : List Char) : Decidable (ValueText s) := inferInstanceAs (Decidable (_ ∧ _))

instance (s : List Char) : Decidable (NoLeadingWhite s) :=
  inferInstanceAs (Decidable (∀ c ∈ s.head?, _))

instance (s : List Char) : Decidable (KeyText s) := inferInstanceAs (Decidable (_ ∧ _))

/-- The text of a property with its separator. -/
def propertyText (key value : List Char) : List Char := ", ".toList ++ key ++ "=".toList ++ value

theorem parseProperty_printed {key value tail : List Char} (hk : KeyText key) (hv : ValueText value)
    (ht : EndsProperty tail) (a : ParsedAssemblyName) :
    parseProperty ⟨propertyText key value ++ tail, 0⟩ a =
      ((setProperty key value a).1, ⟨tail, 0⟩, (setProperty key value a).2) := by
  obtain ⟨hkne, hkeq, hkw⟩ := hk
  obtain ⟨hvne, hvc, hvb⟩ := hv
  obtain ⟨k, ks, rfl⟩ := List.exists_cons_of_ne_nil hkne
  obtain ⟨v, vs, rfl⟩ := List.exists_cons_of_ne_nil hvne
  have hnext : next ⟨propertyText (k :: ks) (v :: vs) ++ tail, 0⟩ true =
      ⟨(k :: ks) ++ '=' :: (v :: vs) ++ tail, 0⟩ := by
    simp [propertyText, next, skipWhites, isWhite] at hkw ⊢
    simp [hkw]
  have hkey : consumePropertyIdentifier ⟨(k :: ks) ++ '=' :: (v :: vs) ++ tail, 0⟩ =
      (k :: ks, ⟨'=' :: (v :: vs) ++ tail, 0⟩) := by
    rw [List.append_assoc]
    refine consume_append ?_ (by simp) (by simp) (by simp)
    exact fun c hc => by simpa using fun h : c = '=' => hkeq (h ▸ hc)
  have hvalue : consumePropertyValue ⟨(v :: vs) ++ tail, 0⟩ = (v :: vs, ⟨tail, 0⟩) := by
    refine consume_append ?_ (by simp) (by simp) ?_
    · intro c hc
      have h₁ : c ≠ ',' := fun h => hvc (h ▸ hc)
      have h₂ : c ≠ ']' := fun h => hvb (h ▸ hc)
      simp [h₁, h₂]
    · intro c hc
      rcases ht c hc with rfl | rfl <;> rfl
  unfold parseProperty
  rw [hnext]
  simp only [List.cons_append, isEOL_cons] at hkey hvalue ⊢
  simp only [hkey, hvalue, currentIs_cons, next_cons, isEOL_cons]
  simp

/-- The loop on a printed property: it goes on where the property is accepted, and stays behind it
where it is not. -/
theorem parsePropertiesOptional_cons {key value tail : List Char} (hk : KeyText key)
    (hv : ValueText value) (ht : EndsProperty tail) (a : ParsedAssemblyName) :
    parsePropertiesOptional ⟨propertyText key value ++ tail, 0⟩ a =
      if (setProperty key value a).1 then
        parsePropertiesOptional ⟨tail, 0⟩ (setProperty key value a).2
      else (false, ⟨tail, 0⟩, (setProperty key value a).2) := by
  rw [parsePropertiesOptional_eq, parseProperty_printed hk hv ht]
  generalize setProperty key value a = r
  obtain ⟨ok, b⟩ := r
  cases ok <;> simp [propertyText]

theorem parsePropertiesOptional_end {tail : List Char} (ht : EndsName tail)
    (a : ParsedAssemblyName) :
    parsePropertiesOptional ⟨tail, 0⟩ a = (true, ⟨tail, 0⟩, a) := by
  rw [parsePropertiesOptional_eq]
  rcases tail with _ | ⟨c, cs⟩
  · simp
  · obtain rfl : c = ']' := ht c rfl
    simp

/-! ### The value of a version -/

@[simp] theorem versionComponent_formatInt (n : ℤ) :
    versionComponent (formatInt n) = .ofInt n := by
  rw [versionComponent, cStr_of_noNul (mem_formatInt_ne (by decide) (by decide)), atoi_formatInt]

theorem splitDot_append {s tail : List Char} (h : '.' ∉ s) :
    splitDot (s ++ '.' :: tail) = some (s, tail) := by
  have hs : ∀ c ∈ s, (c != '.') = true := fun c hc => by
    simpa using fun hd : c = '.' => h (hd ▸ hc)
  simp [splitDot, List.span_eq_takeWhile_dropWhile, List.takeWhile_append_of_pos hs,
    List.dropWhile_append_of_pos hs]

/-- The printed version. -/
def versionText (major minor build revision : ℤ) : List Char :=
  formatInt major ++ '.' :: (formatInt minor ++ '.' :: (formatInt build ++ '.' ::
    formatInt revision))

theorem parseVersion_versionText (ma mi bu re : ℤ) (a : ParsedAssemblyName) :
    parseVersion (versionText ma mi bu re) a =
      (true, { a with
        major := .ofInt ma, minor := .ofInt mi, build := .ofInt bu, revision := .ofInt re }) := by
  have h : ∀ n : ℤ, '.' ∉ formatInt n := fun n => mem_formatInt_ne (by decide) (by decide)
  simp [parseVersion, versionText, splitDot_append (h _)]

theorem valueText_versionText (ma mi bu re : ℤ) : ValueText (versionText ma mi bu re) := by
  have h : ∀ n : ℤ, ∀ c ∈ [',', ']'], c ∉ formatInt n := by
    intro n c hc
    simp only [List.mem_cons, List.not_mem_nil, or_false] at hc
    rcases hc with rfl | rfl <;> exact mem_formatInt_ne (by decide) (by decide)
  simp [ValueText, versionText, formatInt_ne_nil, h]

/-! ### The value of a token -/

/-- The printed token: `null` stands for a token whose first byte is zero. -/
def tokenText (token : List UInt8) : List Char :=
  if token.headD 0 ≠ 0 then publicKeyTokenToString token else "null".toList

theorem nibbles_or : ∀ b : UInt8, (UInt8.ofNat (((b &&& 0xF0) >>> 4).toNat <<< 4) |||
    UInt8.ofNat (b &&& 0x0F).toNat) = b :=
  forall_byte (by decide +kernel)

theorem tokenBytes_publicKeyTokenToString (token : List UInt8) :
    tokenBytes (publicKeyTokenToString token) = token := by
  induction token with
  | nil => rfl
  | cons b bs ih =>
    have hb : (UInt8.ofNat (hexValue (hexDigit ((b &&& 0xF0) >>> 4).toNat) <<< 4) |||
        UInt8.ofNat (hexValue (hexDigit (b &&& 0x0F).toNat))) = b := by
      rw [hexValue_hexDigit _ (nibbles_lt b).1, hexValue_hexDigit _ (nibbles_lt b).2, nibbles_or]
    simp only [publicKeyTokenToString, List.flatMap_cons, tokenDigits, List.cons_append,
      List.nil_append, tokenBytes, hb]
    exact congrArg _ ih

theorem equalsIgnoreCase_length {left right : List Char}
    (h : equalsIgnoreCase left right = true) : (cStr left).length = (cStr right).length := by
  simpa using congrArg List.length (beq_iff_eq.1 h)

theorem cStr_publicKeyTokenToString (token : List UInt8) :
    cStr (publicKeyTokenToString token) = publicKeyTokenToString token :=
  cStr_of_noNul fun hn => absurd (isAlphanum_of_mem_publicKeyTokenToString hn) (by decide)

theorem copyToken_publicKeyTokenToString {token : List UInt8}
    (h : token.length = kPublicKeyByteLength) :
    copyToken (publicKeyTokenToString token) = publicKeyTokenToString token ++ [NUL] := by
  have hlen : (publicKeyTokenToString token).length = 16 := by
    rw [length_publicKeyTokenToString, h]; rfl
  rw [copyToken, cStr_publicKeyTokenToString, List.take_append, hlen, List.take_of_length_le]
  · rfl
  · rw [hlen]; decide

theorem valueText_tokenText (aname : Il2CppAssemblyName) :
    ValueText (tokenText aname.publicKeyToken) := by
  unfold tokenText
  split_ifs with h
  · refine ⟨fun hnil => ?_, fun hn => ?_, fun hn => ?_⟩
    · have := length_publicKeyTokenToString aname.publicKeyToken
      rw [hnil, aname.token_length] at this
      cases this
    · exact absurd (isAlphanum_of_mem_publicKeyTokenToString hn) (by decide)
    · exact absurd (isAlphanum_of_mem_publicKeyTokenToString hn) (by decide)
  · decide

/-! ### A printed name -/

/-- The characters with a meaning in the syntax of assembly names. -/
def reservedAssemblyCharacters : List Char := '\\' :: assemblyIdentifierStops

/-- The text has no reserved character. -/
def Unreserved (s : List Char) : Prop := ∀ c ∈ s, c ∉ reservedAssemblyCharacters

instance (s : List Char) : Decidable (Unreserved s) := inferInstanceAs (Decidable (∀ c ∈ s, _))

theorem valueText_cultureName {culture : Option CString}
    (h : ∀ c ∈ culture, Unreserved c.chars) : ValueText (cultureName culture) := by
  unfold cultureName
  split
  · rename_i c
    split_ifs with hne
    · refine ⟨fun hnil => hne (by simp [hnil]), fun hm => ?_, fun hm => ?_⟩
      · exact h c rfl _ hm (by decide)
      · exact h c rfl _ hm (by decide)
    · decide
  · decide

/-- The name is the one for which the printer adds a content type. -/
def isWindowsRuntimeMetadata (name : List Char) : Bool := name == "WindowsRuntimeMetadata".toList

/-- The content type that the printer adds. -/
def contentTypeText : List Char := propertyText "ContentType".toList "WindowsRuntime".toList

/-- What is printed after the token. -/
def optionalProperties (aname : Il2CppAssemblyName) : List Char :=
  (if retargetable aname.flags then propertyText "Retargetable".toList "Yes".toList else []) ++
  (if isWindowsRuntimeMetadata aname.name.chars then contentTypeText else [])

/-- What is printed after the name. -/
def assemblyProperties (aname : Il2CppAssemblyName) : List Char :=
  propertyText "Version".toList (versionText aname.major.toInt aname.minor.toInt
    aname.build.toInt aname.revision.toInt) ++
  (propertyText "Culture".toList (cultureName aname.culture) ++
  (propertyText "PublicKeyToken".toList (tokenText aname.publicKeyToken) ++
  optionalProperties aname))

theorem assemblyNameToString_eq (aname : Il2CppAssemblyName) :
    assemblyNameToString aname = aname.name.chars ++ assemblyProperties aname := by
  have hv : ∀ s, propertyText "Version".toList s = ", Version=".toList ++ s := fun _ => rfl
  have hc : ∀ s, propertyText "Culture".toList s = ", Culture=".toList ++ s := fun _ => rfl
  have hp : ∀ s, propertyText "PublicKeyToken".toList s = ", PublicKeyToken=".toList ++ s :=
    fun _ => rfl
  have hr : propertyText "Retargetable".toList "Yes".toList = ", Retargetable=Yes".toList := rfl
  have hw : contentTypeText = ", ContentType=WindowsRuntime".toList := rfl
  have hdot : ".".toList = ['.'] := rfl
  simp only [assemblyNameToString, assemblyProperties, optionalProperties, hv, hc, hp, hr, hw, hdot, versionText,
    tokenText, isWindowsRuntimeMetadata, beq_iff_eq, List.append_assoc, List.cons_append,
    List.nil_append]

/-- What the parser makes of a printed name, where it reads `name` as the name. -/
def parsedAs (name : List Char) (aname : Il2CppAssemblyName) : ParsedAssemblyName where
  name := name
  culture := cultureName aname.culture
  publicKeyToken :=
    if aname.publicKeyToken.headD 0 ≠ 0 then publicKeyTokenToString aname.publicKeyToken ++ [NUL]
    else List.replicate kPublicKeyTokenLength NUL
  major := .ofInt aname.major.toInt
  minor := .ofInt aname.minor.toInt
  build := .ofInt aname.build.toInt
  revision := .ofInt aname.revision.toInt

/-- What the parser leaves of a printed name: it gives up at `Retargetable`. -/
def unparsed (aname : Il2CppAssemblyName) : List Char :=
  if retargetable aname.flags && isWindowsRuntimeMetadata aname.name.chars then contentTypeText
  else []

theorem setProperty_token (aname : Il2CppAssemblyName) {a : ParsedAssemblyName}
    (ha : a.publicKeyToken = List.replicate kPublicKeyTokenLength NUL) :
    setProperty "PublicKeyToken".toList (tokenText aname.publicKeyToken) a =
      (true, { a with publicKeyToken := (parsedAs [] aname).publicKeyToken }) := by
  have hset : ∀ v, setProperty "PublicKeyToken".toList v a =
      if !equalsIgnoreCase v "null".toList then
        if kPublicKeyTokenLength - 1 ≠ v.length then (false, a)
        else (true, { a with publicKeyToken := copyToken v })
      else (true, a) := fun _ => rfl
  rw [hset, parsedAs, tokenText]
  by_cases h : aname.publicKeyToken.headD 0 ≠ 0
  · have hlen : (publicKeyTokenToString aname.publicKeyToken).length = 16 := by
      rw [length_publicKeyTokenToString, aname.token_length]; rfl
    have hnull : equalsIgnoreCase (publicKeyTokenToString aname.publicKeyToken) "null".toList =
        false := by
      refine Bool.eq_false_iff.2 fun heq => ?_
      have := equalsIgnoreCase_length heq
      rw [cStr_publicKeyTokenToString, hlen] at this
      cases this
    simp only [if_pos h, hnull, hlen, copyToken_publicKeyTokenToString aname.token_length]
    rfl
  · simp only [if_neg h, ← ha]
    rfl

theorem endsProperty_propertyText (key value tail : List Char) :
    EndsProperty (propertyText key value ++ tail) := by simp [propertyText]

theorem endsProperty_optionalProperties (aname : Il2CppAssemblyName) {tail : List Char}
    (ht : EndsName tail) : EndsProperty (optionalProperties aname ++ tail) := by
  unfold optionalProperties
  split_ifs
  · simp [propertyText]
  · simp [propertyText]
  · simp [contentTypeText, propertyText]
  · exact ht.endsProperty

theorem parsePropertiesOptional_optional (aname : Il2CppAssemblyName) {tail : List Char}
    (ht : EndsName tail) {a : ParsedAssemblyName}
    (hw : isWindowsRuntimeMetadata aname.name.chars → a.name = "WindowsRuntimeMetadata".toList) :
    parsePropertiesOptional ⟨optionalProperties aname ++ tail, 0⟩ a =
      (!retargetable aname.flags, ⟨unparsed aname ++ tail, 0⟩, a) := by
  have hretargetable : setProperty "Retargetable".toList "Yes".toList a = (false, a) := rfl
  have hcontent : isWindowsRuntimeMetadata aname.name.chars →
      setProperty "ContentType".toList "WindowsRuntime".toList a = (true, a) := fun h => by
    obtain ⟨name, _⟩ := a
    obtain rfl : name = _ := hw h
    rfl
  unfold optionalProperties unparsed
  cases hr : retargetable aname.flags <;> cases hm : isWindowsRuntimeMetadata aname.name.chars
  · exact parsePropertiesOptional_end ht a
  · have := parsePropertiesOptional_cons (a := a) (show KeyText "ContentType".toList by decide)
      (show ValueText "WindowsRuntime".toList by decide) ht.endsProperty
    rw [hcontent hm, if_pos rfl, parsePropertiesOptional_end ht] at this
    exact this
  · exact parsePropertiesOptional_cons (show KeyText "Retargetable".toList by decide)
      (show ValueText "Yes".toList by decide) ht.endsProperty a
  · exact parsePropertiesOptional_cons (show KeyText "Retargetable".toList by decide)
      (show ValueText "Yes".toList by decide)
      (endsProperty_propertyText "ContentType".toList "WindowsRuntime".toList tail) a

theorem parseAssemblyName_printed {aname : Il2CppAssemblyName} {name tail : List Char}
    (hn : Unreserved name) (hc : ∀ c ∈ aname.culture, Unreserved c.chars)
    (hw : isWindowsRuntimeMetadata aname.name.chars → name = "WindowsRuntimeMetadata".toList)
    (ht : EndsName tail) :
    parseAssemblyName ⟨name ++ (assemblyProperties aname ++ tail), 0⟩ {} =
      (⟨unparsed aname ++ tail, 0⟩, parsedAs name aname) := by
  have hname : consumeAssemblyIdentifier ⟨name ++ (assemblyProperties aname ++ tail), 0⟩ =
      (name, ⟨assemblyProperties aname ++ tail, 0⟩) := by
    refine consume_append (fun c hc => ?_) (fun _ hc => ?_) (.inr ?_) ?_
    · simpa using fun h => hn c hc (List.mem_cons_of_mem _ h)
    · exact hn _ hc List.mem_cons_self
    · simp [assemblyProperties, propertyText]
    · simp [assemblyProperties, propertyText, assemblyIdentifierStops]
  have hws : NoLeadingWhite (assemblyProperties aname ++ tail) := by
    simp [assemblyProperties, propertyText, isWhite]
  have hversion : ∀ v a, setProperty "Version".toList v a = parseVersion v a := fun _ _ => rfl
  have hculture : ∀ v a, setProperty "Culture".toList v a = (true, { a with culture := v }) :=
    fun _ _ => rfl
  simp only [parseAssemblyName, hname]
  rw [skipWhites_of_noLeadingWhite hws]
  simp only [assemblyProperties, List.append_assoc]
  rw [parsePropertiesOptional_cons (by decide) (valueText_versionText ..)
      (endsProperty_propertyText _ _ _), hversion, parseVersion_versionText, if_pos rfl,
    parsePropertiesOptional_cons (by decide) (valueText_cultureName hc)
      (endsProperty_propertyText _ _ _), hculture, if_pos rfl,
    parsePropertiesOptional_cons (by decide) (valueText_tokenText _)
      (endsProperty_optionalProperties aname ht), setProperty_token _ rfl, if_pos rfl,
    parsePropertiesOptional_optional aname ht hw]
  rfl

theorem skipWhites_assemblyNameToString (aname : Il2CppAssemblyName) (tail : List Char) :
    skipWhites ⟨assemblyNameToString aname ++ tail, 0⟩ =
      ⟨aname.name.chars.dropWhile isWhite ++ (assemblyProperties aname ++ tail), 0⟩ := by
  have hprops : (assemblyProperties aname ++ tail).dropWhile isWhite =
      assemblyProperties aname ++ tail :=
    dropWhile_of_noLeadingWhite (by simp [assemblyProperties, propertyText, isWhite])
  rw [assemblyNameToString_eq, List.append_assoc, skipWhites, List.dropWhile_append, hprops]
  split_ifs with h
  · rw [List.isEmpty_iff.1 h, List.nil_append]
  · rfl

theorem parseAssemblyName_skipWhites {aname : Il2CppAssemblyName} {tail : List Char}
    (hn : Unreserved aname.name.chars) (hc : ∀ c ∈ aname.culture, Unreserved c.chars)
    (ht : EndsName tail) :
    parseAssemblyName (skipWhites ⟨assemblyNameToString aname ++ tail, 0⟩) {} =
      (⟨unparsed aname ++ tail, 0⟩, parsedAs (aname.name.chars.dropWhile isWhite) aname) := by
  have hname : Unreserved (aname.name.chars.dropWhile isWhite) :=
    fun c h => hn c ((List.dropWhile_sublist _).mem h)
  have hw : isWindowsRuntimeMetadata aname.name.chars →
      aname.name.chars.dropWhile isWhite = "WindowsRuntimeMetadata".toList := fun h => by
    rw [beq_iff_eq.1 h]; rfl
  rw [skipWhites_assemblyNameToString, parseAssemblyName_printed hname hc hw ht]

theorem parseName_printed {aname : Il2CppAssemblyName} (hn : Unreserved aname.name.chars)
    (hc : ∀ c ∈ aname.culture, Unreserved c.chars) :
    parseName (assemblyNameToString aname) =
      some (ofParsedName (parsedAs (aname.name.chars.dropWhile isWhite) aname)) := by
  have hparse := parseAssemblyName_skipWhites hn hc endsName_nil
  have hskip := skipWhites_assemblyNameToString aname []
  rw [List.append_nil] at hparse hskip
  have heol : (skipWhites ⟨assemblyNameToString aname, 0⟩).isEOL = false := by
    simp [hskip, isEOL, assemblyProperties, propertyText]
  simp only [parseName, parseAssembly, heol, Bool.false_eq_true, if_false, Option.map_some, hparse]

/-! ### The round trip -/

/-- The managed name says what the name in the metadata says.  A missing culture is `neutral`, as
in `CreateCulture`; an empty array is a missing token, all of whose bytes are zero. -/
structure SameAssemblyName (r : ReflectionAssemblyName) (aname : Il2CppAssemblyName) : Prop where
  name : r.name = aname.name.chars
  major : r.major = aname.major
  minor : r.minor = aname.minor
  build : r.build = aname.build
  revision : r.revision = aname.revision
  culture : r.cultureInfo = cultureName aname.culture
  token : r.keyToken = aname.publicKeyToken ∨
    r.keyToken = [] ∧ ∀ b ∈ aname.publicKeyToken, b = 0
  retargetable : retargetable r.flags = retargetable aname.flags

/-- The value fits a `uint16_t`. -/
def IsUInt16 (n : Int32) : Prop := 0 ≤ n.toInt ∧ n.toInt < 65536

instance (n : Int32) : Decidable (IsUInt16 n) := inferInstanceAs (Decidable (_ ∧ _))

theorem component_eq_iff (n : Int32) :
    Int32.ofNat (UInt16.ofInt n.toInt).toNat = n ↔ IsUInt16 n := by
  have hval : (UInt16.ofInt n.toInt).toNat = (n.toInt % 65536).toNat := by
    simp only [UInt16.ofInt, UInt16.toNat_ofNat']
    omega
  have hlt : (UInt16.ofInt n.toInt).toNat < 2 ^ 31 := by omega
  rw [← Int32.toInt_inj, Int32.toInt_ofNat_of_lt hlt, hval, IsUInt16]
  omega

theorem dropWhile_eq_self_iff {s : List Char} : s.dropWhile isWhite = s ↔ NoLeadingWhite s := by
  refine ⟨fun h => ?_, dropWhile_of_noLeadingWhite⟩
  rcases s with _ | ⟨c, cs⟩
  · simp
  · rw [noLeadingWhite_cons]
    by_contra hc
    have := congrArg List.length h
    have := List.length_dropWhile_le isWhite cs
    simp_all

theorem keyToken_parsedAs (name : List Char) (aname : Il2CppAssemblyName) :
    (ofParsedName (parsedAs name aname)).keyToken =
      if aname.publicKeyToken.headD 0 ≠ 0 then aname.publicKeyToken else [] := by
  by_cases h : aname.publicKeyToken.headD 0 ≠ 0
  · have hlen : (publicKeyTokenToString aname.publicKeyToken).length = 16 := by
      rw [length_publicKeyTokenToString, aname.token_length]; rfl
    obtain ⟨c, cs, hcs⟩ := List.exists_cons_of_ne_nil (List.ne_nil_of_length_eq_add_one hlen)
    have hc : c ≠ NUL := by
      rintro rfl
      have hmem : NUL ∈ publicKeyTokenToString aname.publicKeyToken := by simp [hcs]
      exact absurd (isAlphanum_of_mem_publicKeyTokenToString hmem) (by decide)
    have htake : (publicKeyTokenToString aname.publicKeyToken ++ [NUL]).take
        (kPublicKeyByteLength * 2) = publicKeyTokenToString aname.publicKeyToken :=
      List.take_left' hlen
    have hhead : (publicKeyTokenToString aname.publicKeyToken ++ [NUL]).headD NUL ≠ NUL := by
      simpa [hcs] using hc
    simp only [ofParsedName, parsedAs, if_pos h, if_pos hhead, htake,
      tokenBytes_publicKeyTokenToString]
  · simp only [ofParsedName, parsedAs, if_neg h]
    rfl

theorem token_same_iff (aname : Il2CppAssemblyName) :
    ((if aname.publicKeyToken.headD 0 ≠ 0 then aname.publicKeyToken else []) =
        aname.publicKeyToken ∨
      (if aname.publicKeyToken.headD 0 ≠ 0 then aname.publicKeyToken else []) = [] ∧
        ∀ b ∈ aname.publicKeyToken, b = 0) ↔
      aname.publicKeyToken.headD 0 ≠ 0 ∨ ∀ b ∈ aname.publicKeyToken, b = 0 := by
  have hne : aname.publicKeyToken ≠ [] := List.ne_nil_of_length_eq_add_one aname.token_length
  by_cases h : aname.publicKeyToken.headD 0 ≠ 0
  · exact iff_of_true (.inl (if_pos h)) (.inl h)
  · rw [if_neg h]
    exact ⟨fun hor => .inr ((hor.resolve_left hne.symm).2), fun hor => .inr ⟨rfl, hor.resolve_left h⟩⟩

/-- **The round trip of an assembly name succeeds exactly if** the name does not begin with white
space, every version component fits 16 bits, the first byte of the token is zero only in a missing
token, and the name is not retargetable. -/
theorem parseName_assemblyNameToString_iff (aname : Il2CppAssemblyName)
    (hn : Unreserved aname.name.chars) (hc : ∀ c ∈ aname.culture, Unreserved c.chars) :
    (∃ r, parseName (assemblyNameToString aname) = some r ∧ SameAssemblyName r aname) ↔
      NoLeadingWhite aname.name.chars ∧
      (∀ n ∈ [aname.major, aname.minor, aname.build, aname.revision], IsUInt16 n) ∧
      (aname.publicKeyToken.headD 0 ≠ 0 ∨ ∀ b ∈ aname.publicKeyToken, b = 0) ∧
      retargetable aname.flags = false := by
  have hnul : NUL ∉ aname.name.chars.dropWhile isWhite :=
    fun h => aname.name.noNul ((List.dropWhile_sublist _).mem h)
  have hname : (ofParsedName (parsedAs (aname.name.chars.dropWhile isWhite) aname)).name =
      aname.name.chars ↔ NoLeadingWhite aname.name.chars := by
    rw [← dropWhile_eq_self_iff, ofParsedName, parsedAs, cStr_of_noNul hnul]
  have hculture : (ofParsedName (parsedAs (aname.name.chars.dropWhile isWhite) aname)).cultureInfo =
      cultureName aname.culture := cStr_of_noNul (noNul_cultureName _)
  have htoken := token_same_iff aname
  rw [← keyToken_parsedAs (aname.name.chars.dropWhile isWhite)] at htoken
  have hflags : retargetable (ofParsedName
      (parsedAs (aname.name.chars.dropWhile isWhite) aname)).flags = false :=
    show retargetable 0 = false by decide
  simp only [parseName_printed hn hc, Option.some.injEq, exists_eq_left', List.forall_mem_cons]
  constructor
  · intro h
    refine ⟨hname.1 h.name, ⟨(component_eq_iff _).1 h.major, (component_eq_iff _).1 h.minor,
      (component_eq_iff _).1 h.build, (component_eq_iff _).1 h.revision, by simp⟩,
      htoken.1 h.token, h.retargetable ▸ hflags⟩
  · rintro ⟨hw, ⟨hma, hmi, hbu, hre, -⟩, ht, hr⟩
    exact ⟨hname.2 hw, (component_eq_iff _).2 hma, (component_eq_iff _).2 hmi,
      (component_eq_iff _).2 hbu, (component_eq_iff _).2 hre, hculture, htoken.2 ht,
      hflags.trans hr.symm⟩

theorem nul_notMem_mscorlib : NUL ∉ "mscorlib".toList := by decide

/-- A name in the style of a framework library, with version 4.0.0.0, no culture and no flags. -/
def libraryName (token : Vector UInt8 8) : Il2CppAssemblyName where
  name := ⟨"mscorlib".toList, nul_notMem_mscorlib⟩
  culture := none
  flags := 0
  major := 4
  minor := 0
  build := 0
  revision := 0
  publicKeyToken := token.toList
  token_length := by simp [kPublicKeyByteLength]

theorem unreserved_libraryName (token : Vector UInt8 8) :
    Unreserved (libraryName token).name.chars ∧
      ∀ c ∈ (libraryName token).culture, Unreserved c.chars :=
  ⟨show Unreserved "mscorlib".toList by decide, fun _ hc => nomatch hc⟩

theorem roundTrip_libraryName :
    ∃ r, parseName (assemblyNameToString
        (libraryName #v[0xb7, 0x7a, 0x5c, 0x56, 0x19, 0x34, 0xe0, 0x89])) = some r ∧
      SameAssemblyName r (libraryName #v[0xb7, 0x7a, 0x5c, 0x56, 0x19, 0x34, 0xe0, 0x89]) :=
  (parseName_assemblyNameToString_iff _ (unreserved_libraryName _).1
    (unreserved_libraryName _).2).2 (by decide)

/-- A token whose first byte is zero is lost: it is printed as `null`. -/
theorem token_lost_in_round_trip :
    ¬ ∃ r, parseName (assemblyNameToString
        (libraryName #v[0x00, 0x7a, 0x5c, 0x56, 0x19, 0x34, 0xe0, 0x89])) = some r ∧
      SameAssemblyName r (libraryName #v[0x00, 0x7a, 0x5c, 0x56, 0x19, 0x34, 0xe0, 0x89]) := by
  rintro ⟨r, hr, hsame⟩
  rw [parseName_printed (unreserved_libraryName _).1 (unreserved_libraryName _).2] at hr
  obtain rfl := Option.some.inj hr
  have htoken := hsame.token
  rw [keyToken_parsedAs, if_neg (by decide)] at htoken
  rcases htoken with h | ⟨-, h⟩
  · exact absurd h (by decide)
  · exact absurd h (by decide)

end Il2Cpp
