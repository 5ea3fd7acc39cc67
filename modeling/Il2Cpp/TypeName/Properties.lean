import Il2Cpp.TypeName.AssemblyNameRoundTrip

/-!
# The properties of an assembly name

What stands behind the name of an assembly, as text: a chain of properties, each behind a comma.

* `splitProperty`, `HasProperty` : the properties of a text, and where each ends.
* `Property.WellFormed` : the property is a known one and has a proper value.
* `Property.Accepted`, `Property.Plain` : what `ParsePropertiesOptional` looks at, and what it leaves
  to `atoi`, `strncpy` and `c_str()`.
* `wellFormed_iff` : a property is well formed exactly if it is accepted and plain.
* `parsePropertiesOptional_iff` : the loop returns true exactly if it accepts all properties.
-/

namespace Il2Cpp

open Cursor (isWhite)

/-- What stands behind a comma. -/
inductive Property where
  | pair (name value : List Char)
  /-- It has no `=`, or nothing behind it. -/
  | bare (text : List Char)
  deriving DecidableEq

/-- The end of a value. -/
def endsValue (c : Char) : Bool := c == ',' || c == ']'

/-- The property behind a comma, and the text behind the property. -/
def splitProperty (text : List Char) : Property × List Char :=
  match (text.dropWhile isWhite).span (· != '=') with
  | (name, _ :: c :: cs) =>
    (.pair name ((c :: cs).takeWhile (!endsValue ·)), (c :: cs).dropWhile (!endsValue ·))
  | (name, _) => (.bare name, [])

/-- The text is a chain of properties, and this is one of them. -/
inductive HasProperty : List Char → Property → Prop
  | here (cs : List Char) : HasProperty (',' :: cs) (splitProperty cs).1
  | later {cs : List Char} {property : Property} (h : HasProperty (splitProperty cs).2 property) :
    HasProperty (',' :: cs) property

/-- The text has this property somewhere: behind a comma that is not in the name of another. -/
inductive Mentions : List Char → Property → Prop
  | here (cs : List Char) : Mentions (',' :: cs) (splitProperty cs).1
  | later {cs : List Char} {property : Property} (h : Mentions (splitProperty cs).2 property) :
    Mentions (',' :: cs) property
  | skip {c : Char} {cs : List Char} {property : Property} (hc : c ≠ ',')
    (h : Mentions cs property) : Mentions (c :: cs) property

/-! ### Well-formed properties -/

/-- The texts are equal up to case. -/
def SameText (left right : List Char) : Prop := left.map Char.toLower = right.map Char.toLower

instance (left right : List Char) : Decidable (SameText left right) :=
  inferInstanceAs (Decidable (_ = _))

/-- The names of the properties that an assembly name can have. -/
def knownProperties : List (List Char) :=
  ["version".toList, "publickey".toList, "publickeytoken".toList, "culture".toList,
    "contenttype".toList]

/-- A decimal number of 16 bits. -/
def DecimalComponent (component : List Char) : Prop :=
  component ≠ [] ∧ (∀ c ∈ component, c.isDigit = true) ∧ digitsValue component ≤ 65535

instance (component : List Char) : Decidable (DecimalComponent component) :=
  inferInstanceAs (Decidable (_ ∧ _ ∧ _))

/-- Four decimal components. -/
def WellFormedVersion (version : List Char) : Prop :=
  ∃ major minor build revision,
    version = major ++ '.' :: (minor ++ '.' :: (build ++ '.' :: revision)) ∧
      ∀ component ∈ [major, minor, build, revision], DecimalComponent component

/-- A hexadecimal digit of either case. -/
def isHexDigit (c : Char) : Bool :=
  c.isDigit || ('a' ≤ c && c ≤ 'f') || ('A' ≤ c && c ≤ 'F')

/-- `null`, or the digits of a token. -/
def WellFormedToken (token : List Char) : Prop :=
  SameText token "null".toList ∨ token.length = 16 ∧ ∀ c ∈ token, isHexDigit c = true

/-- The property is a known one, and its value is well formed. -/
def Property.WellFormed : Property → Prop
  | .pair name value =>
    (∃ known ∈ knownProperties, SameText name known) ∧
      (SameText name "version".toList → WellFormedVersion value) ∧
      (SameText name "publickeytoken".toList → WellFormedToken value)
  | .bare _ => False

/-! ### What the parser looks at -/

/-- The property does not end the loop of `ParsePropertiesOptional`. -/
def Property.Accepted : Property → Prop
  | .pair name value => (setProperty name value {}).1 = true
  | .bare _ => False

/-- The texts that `ParseVersion` gives to `atoi`. -/
def versionParts (version : List Char) : List (List Char) :=
  match splitDot version with
  | none => []
  | some (major, version) =>
    match splitDot version with
    | none => [major]
    | some (minor, version) =>
      match splitDot version with
      | none => [major, minor]
      | some (build, revision) => [major, minor, build, revision]

/-- The property has nothing that the parser does not look at: no NUL that hides the end of a name
or of `null`, and no version part or token digit that is none. -/
def Property.Plain : Property → Prop
  | .pair name value =>
    NUL ∉ name ∧
      (equalsIgnoreCase name "version".toList = true →
        ∀ component ∈ versionParts value, DecimalComponent component) ∧
      (equalsIgnoreCase name "publickeytoken".toList = true →
        if equalsIgnoreCase value "null".toList then NUL ∉ value
        else ∀ c ∈ value, isHexDigit c = true)
  | .bare _ => True

/-! ### Names and values -/

theorem sameText_iff {text known : List Char} (hknown : NUL ∉ known.map Char.toLower) :
    SameText text known ↔ equalsIgnoreCase text known = true ∧ NUL ∉ text := by
  have hlower {s : List Char} (h : NUL ∉ s.map Char.toLower) : NUL ∉ s :=
    fun hmem => h (List.mem_map.2 ⟨NUL, hmem, rfl⟩)
  constructor
  · intro h
    have htext : NUL ∉ text := hlower (h ▸ hknown)
    rw [equalsIgnoreCase, cStr_of_noNul htext, cStr_of_noNul (hlower hknown), beq_iff_eq]
    exact ⟨h, htext⟩
  · rintro ⟨h, htext⟩
    rwa [equalsIgnoreCase, cStr_of_noNul htext, cStr_of_noNul (hlower hknown), beq_iff_eq] at h

theorem SameText.unique {text left right : List Char} (hleft : SameText text left)
    (hright : SameText text right) : SameText left right := hleft.symm.trans hright

theorem splitDot_eq_some {version component rest : List Char}
    (h : splitDot version = some (component, rest)) : version = component ++ '.' :: rest := by
  rw [splitDot, List.span_eq_takeWhile_dropWhile] at h
  split at h
  case h_1 part c tail hspan =>
    cases h
    obtain ⟨htake, hdrop⟩ := Prod.mk.inj hspan
    have hdot : (c != '.') = false := by
      have hhead := List.head?_dropWhile_not (· != '.') version
      rw [hdrop] at hhead
      simpa using hhead
    have hc : c = '.' := by simpa using hdot
    rw [← List.takeWhile_append_dropWhile (p := (· != '.')) (l := version), htake, hdrop, hc]
  case h_2 => cases h

theorem DecimalComponent.noDot {component : List Char} (h : DecimalComponent component) :
    '.' ∉ component := fun hdot => absurd (h.2.1 _ hdot) (by decide)

theorem parseVersion_fst (version : List Char) (a : ParsedAssemblyName) :
    (parseVersion version a).1 = ((versionParts version).length == 4) := by
  rw [parseVersion, versionParts]
  rcases splitDot version with _ | ⟨major, version⟩
  · rfl
  · dsimp only
    rcases splitDot version with _ | ⟨minor, version⟩
    · rfl
    · dsimp only
      rcases splitDot version with _ | ⟨build, revision⟩ <;> rfl

theorem wellFormedVersion_iff {version : List Char} :
    WellFormedVersion version ↔ (versionParts version).length = 4 ∧
      ∀ component ∈ versionParts version, DecimalComponent component := by
  constructor
  · rintro ⟨major, minor, build, revision, rfl, h⟩
    have hparts : versionParts (major ++ '.' :: (minor ++ '.' :: (build ++ '.' :: revision))) =
        [major, minor, build, revision] := by
      simp only [List.forall_mem_cons] at h
      simp [versionParts, splitDot_append h.1.noDot, splitDot_append h.2.1.noDot,
        splitDot_append h.2.2.1.noDot]
    rw [hparts]
    exact ⟨rfl, h⟩
  · rintro ⟨hlength, h⟩
    rw [versionParts] at hlength h
    split at hlength
    case h_1 => cases hlength
    case h_2 major rest₁ hmajor =>
      split at hlength
      case h_1 => cases hlength
      case h_2 minor rest₂ hminor =>
        split at hlength
        case h_1 => cases hlength
        case h_2 build revision hbuild =>
          refine ⟨major, minor, build, revision, ?_, by simpa [hmajor, hminor, hbuild] using h⟩
          rw [splitDot_eq_some hmajor, splitDot_eq_some hminor, splitDot_eq_some hbuild]

theorem setProperty_fst (name value : List Char) (a : ParsedAssemblyName) :
    (setProperty name value a).1 =
      if equalsIgnoreCase name "version".toList then (versionParts value).length == 4
      else if equalsIgnoreCase name "publickey".toList then true
      else if equalsIgnoreCase name "publickeytoken".toList then
        equalsIgnoreCase value "null".toList || value.length == 16
      else equalsIgnoreCase name "culture".toList || equalsIgnoreCase name "contenttype".toList := by
  rw [setProperty]
  generalize equalsIgnoreCase name "version".toList = isVersion
  generalize equalsIgnoreCase name "publickey".toList = isPublicKey
  generalize equalsIgnoreCase name "publickeytoken".toList = isToken
  generalize equalsIgnoreCase name "culture".toList = isCulture
  generalize equalsIgnoreCase name "contenttype".toList = isContentType
  generalize equalsIgnoreCase value "null".toList = isNull
  cases isVersion with
  | true => exact parseVersion_fst value a
  | false =>
    cases isPublicKey with
    | true => cases isNull <;> rfl
    | false =>
      cases isToken with
      | true =>
        cases isNull with
        | true => rfl
        | false =>
          by_cases hlength : value.length = 16
          · simp [hlength, kPublicKeyTokenLength]
          · simp [hlength, Ne.symm hlength, kPublicKeyTokenLength]
      | false =>
        cases isCulture with
        | true => rfl
        | false =>
          cases isContentType with
          | true =>
            simp only [Bool.false_eq_true, if_false, if_true]
            split <;> rfl
          | false => rfl

theorem exists_known_iff {name : List Char} :
    (∃ known ∈ knownProperties, SameText name known) ↔
      NUL ∉ name ∧ ∃ known ∈ knownProperties, equalsIgnoreCase name known = true := by
  have hsame : ∀ known ∈ knownProperties,
      SameText name known ↔ equalsIgnoreCase name known = true ∧ NUL ∉ name := by
    intro known hknown
    have hnul : ∀ known ∈ knownProperties, NUL ∉ known.map Char.toLower := by decide
    exact sameText_iff (hnul known hknown)
  constructor
  · rintro ⟨known, hknown, h⟩
    obtain ⟨hequal, hname⟩ := (hsame known hknown).1 h
    exact ⟨hname, known, hknown, hequal⟩
  · rintro ⟨hname, known, hknown, h⟩
    exact ⟨known, hknown, (hsame known hknown).2 ⟨h, hname⟩⟩

theorem not_equalsIgnoreCase {name left right : List Char} (hname : NUL ∉ name)
    (hleft : NUL ∉ left.map Char.toLower) (hright : NUL ∉ right.map Char.toLower)
    (hne : ¬ SameText left right) (h : equalsIgnoreCase name left = true) :
    equalsIgnoreCase name right = false := by
  refine Bool.eq_false_iff.2 fun h' => hne ?_
  exact ((sameText_iff hleft).2 ⟨h, hname⟩).unique ((sameText_iff hright).2 ⟨h', hname⟩)

theorem wellFormedToken_iff {token : List Char} :
    WellFormedToken token ↔
      (equalsIgnoreCase token "null".toList || token.length == 16) = true ∧
        if equalsIgnoreCase token "null".toList then NUL ∉ token
        else ∀ c ∈ token, isHexDigit c = true := by
  rw [WellFormedToken, sameText_iff (by decide)]
  have hnul : (∀ c ∈ token, isHexDigit c = true) → NUL ∉ token :=
    fun h hmem => absurd (h NUL hmem) (by decide)
  cases equalsIgnoreCase token "null".toList with
  | true =>
    simp only [true_and, Bool.true_or, if_true]
    exact ⟨fun h => h.elim id fun hdigits => hnul hdigits.2, .inl⟩
  | false => simp

/-- **A property is well formed exactly if the loop accepts it and it is plain.** -/
theorem wellFormed_iff (property : Property) :
    property.WellFormed ↔ property.Accepted ∧ property.Plain := by
  cases property with
  | bare text => simp [Property.WellFormed, Property.Accepted]
  | pair name value =>
    simp only [Property.WellFormed, Property.Accepted, Property.Plain, setProperty_fst,
      exists_known_iff, wellFormedVersion_iff, wellFormedToken_iff,
      sameText_iff (show NUL ∉ "version".toList.map Char.toLower by decide),
      sameText_iff (show NUL ∉ "publickeytoken".toList.map Char.toLower by decide)]
    by_cases hname : NUL ∈ name
    · exact iff_of_false (fun h => h.1.1 hname) fun h => h.2.1 hname
    · have hversion : equalsIgnoreCase name "version".toList = true →
          equalsIgnoreCase name "publickeytoken".toList = false :=
        not_equalsIgnoreCase hname (by decide) (by decide) (by decide)
      have hkey : equalsIgnoreCase name "publickey".toList = true →
          equalsIgnoreCase name "publickeytoken".toList = false :=
        not_equalsIgnoreCase hname (by decide) (by decide) (by decide)
      simp only [knownProperties, List.mem_cons, List.not_mem_nil, or_false, exists_eq_or_imp,
        exists_eq_left]
      generalize equalsIgnoreCase name "version".toList = isVersion at *
      generalize equalsIgnoreCase name "publickey".toList = isPublicKey at *
      generalize equalsIgnoreCase name "publickeytoken".toList = isToken at *
      generalize equalsIgnoreCase name "culture".toList = isCulture
      generalize equalsIgnoreCase name "contenttype".toList = isContentType
      cases isVersion with
      | true => simp [hversion, hname]
      | false =>
        cases isPublicKey with
        | true => simp [hkey, hname]
        | false =>
          cases isToken with
          | true => simp [hname]
          | false => simp [hname]

/-! ### The loop over the properties -/

theorem consume_eq_span {stop : Char → Bool} {cs : List Char} {n : ℕ} (h : cs ≠ []) :
    Cursor.consume stop false ⟨cs, n⟩ =
      (cs.takeWhile (!stop ·), ⟨cs.dropWhile (!stop ·), n⟩) := by
  induction cs with
  | nil => exact absurd rfl h
  | cons c cs ih =>
    cases hstop : stop c with
    | true => simp [Cursor.consume_stop hstop, hstop]
    | false =>
      cases cs with
      | nil => simp [Cursor.consume, Cursor.consumeFrom, hstop]
      | cons c' cs =>
        have hescape : (false : Bool) = true → c ≠ '\\' := by rintro ⟨⟩
        rw [Cursor.consume_cons hstop hescape, ih (List.cons_ne_nil _ _)]
        simp [hstop]

theorem parseProperty_eq (cs : List Char) (n : ℕ) (a : ParsedAssemblyName) :
    parseProperty ⟨',' :: cs, n⟩ a =
      match splitProperty cs with
      | (.pair name value, rest) =>
        ((setProperty name value a).1, ⟨rest, n⟩, (setProperty name value a).2)
      | (.bare _, rest) => (false, ⟨rest, n⟩, a) := by
  rw [parseProperty, splitProperty]
  have hnext : Cursor.next ⟨',' :: cs, n⟩ true = ⟨cs.dropWhile isWhite, n⟩ := rfl
  rw [hnext, List.span_eq_takeWhile_dropWhile]
  rcases htext : cs.dropWhile isWhite with _ | ⟨c, text⟩
  · rfl
  · have hname : consumePropertyIdentifier ⟨c :: text, n⟩ =
        ((c :: text).takeWhile (· != '='), ⟨(c :: text).dropWhile (· != '='), n⟩) :=
      consume_eq_span (List.cons_ne_nil c text)
    simp only [Cursor.isEOL_cons, Bool.false_eq_true, if_false, hname]
    have hhead := List.head?_dropWhile_not (· != '=') (c :: text)
    rcases hdrop : (c :: text).dropWhile (· != '=') with _ | ⟨equals, _ | ⟨c', value⟩⟩
    · rfl
    · rw [hdrop] at hhead
      obtain rfl : equals = '=' := by simpa using hhead
      rfl
    · rw [hdrop] at hhead
      obtain rfl : equals = '=' := by simpa using hhead
      have hvalue : consumePropertyValue ⟨c' :: value, n⟩ =
          ((c' :: value).takeWhile (!endsValue ·), ⟨(c' :: value).dropWhile (!endsValue ·), n⟩) :=
        consume_eq_span (List.cons_ne_nil c' value)
      simp [hvalue]

theorem splitProperty_length (cs : List Char) : (splitProperty cs).2.length ≤ cs.length := by
  have hlength := parseProperty_rest_length ⟨',' :: cs, 0⟩ {}
  rw [parseProperty_eq] at hlength
  rcases hsplit : splitProperty cs with ⟨_ | _, rest⟩ <;> simpa [hsplit] using hlength

theorem parsePropertiesOptional_comma (cs : List Char) (n : ℕ) (a : ParsedAssemblyName) :
    ((splitProperty cs).1.Accepted ∧ ∃ b, parsePropertiesOptional ⟨',' :: cs, n⟩ a =
      parsePropertiesOptional ⟨(splitProperty cs).2, n⟩ b) ∨
    (¬ (splitProperty cs).1.Accepted ∧ (parsePropertiesOptional ⟨',' :: cs, n⟩ a).1 = false) := by
  have hcomma : Cursor.currentIs ⟨',' :: cs, n⟩ ',' = true := rfl
  rw [parsePropertiesOptional_eq, if_pos hcomma, parseProperty_eq]
  rcases splitProperty cs with ⟨⟨name, value⟩ | text, rest⟩
  · have haccepted : (setProperty name value {}).1 = (setProperty name value a).1 := by
      rw [setProperty_fst, setProperty_fst]
    simp only [Property.Accepted, haccepted]
    rcases setProperty name value a with ⟨_ | _, b⟩
    · exact .inr ⟨Bool.false_ne_true, rfl⟩
    · exact .inl ⟨rfl, b, rfl⟩
  · exact .inr ⟨id, rfl⟩

theorem hasProperty_cons_iff {cs : List Char} {property : Property} :
    HasProperty (',' :: cs) property ↔
      property = (splitProperty cs).1 ∨ HasProperty (splitProperty cs).2 property := by
  constructor
  · rintro (_ | h)
    · exact .inl rfl
    · exact .inr h
  · rintro (rfl | h)
    · exact .here cs
    · exact .later h

theorem mentions_cons_iff {cs : List Char} {property : Property} :
    Mentions (',' :: cs) property ↔
      property = (splitProperty cs).1 ∨ Mentions (splitProperty cs).2 property := by
  constructor
  · rintro (_ | h | ⟨hc, -⟩)
    · exact .inl rfl
    · exact .inr h
    · exact absurd rfl hc
  · rintro (rfl | h)
    · exact .here cs
    · exact .later h

theorem HasProperty.mentions {text : List Char} {property : Property}
    (h : HasProperty text property) : Mentions text property := by
  induction h with
  | here cs => exact .here cs
  | later _ ih => exact .later ih

theorem chain_induction {motive : List Char → Prop}
    (last : ∀ text, (∀ c ∈ text.head?, c ≠ ',') → motive text)
    (comma : ∀ cs, motive (splitProperty cs).2 → motive (',' :: cs)) (text : List Char) :
    motive text := by
  induction hlength : text.length using Nat.strong_induction_on generalizing text with
  | _ k ih =>
    cases text with
    | nil => exact last [] nofun
    | cons c cs =>
      by_cases hc : c = ','
      · have hsplit := splitProperty_length cs
        rw [List.length_cons] at hlength
        exact hc ▸ comma cs (ih _ (by omega) _ rfl)
      · exact last (c :: cs) (by simpa using hc)

section

variable {text : List Char} {property : Property}

theorem not_hasProperty (h : ∀ c ∈ text.head?, c ≠ ',') : ¬ HasProperty text property := by
  rintro (_ | _) <;> simp at h

theorem parsePropertiesOptional_last (h : ∀ c ∈ text.head?, c ≠ ',') (n : ℕ)
    (a : ParsedAssemblyName) : parsePropertiesOptional ⟨text, n⟩ a = (true, ⟨text, n⟩, a) := by
  have hcomma : Cursor.currentIs ⟨text, n⟩ ',' = false := by
    cases text with
    | nil => rfl
    | cons c cs => simpa using h
  rw [parsePropertiesOptional_eq, hcomma]
  rfl

end

/-- **The loop returns true exactly if it accepts every property of the text.** -/
theorem parsePropertiesOptional_iff (p : Cursor) (a : ParsedAssemblyName) :
    (parsePropertiesOptional p a).1 = true ↔
      ∀ property, HasProperty p.rest property → property.Accepted := by
  rcases p with ⟨text, n⟩
  induction text using chain_induction generalizing a with
  | last text h =>
    rw [parsePropertiesOptional_last h]
    exact iff_of_true rfl fun property hproperty => absurd hproperty (not_hasProperty h)
  | comma cs ih =>
    simp only [hasProperty_cons_iff, forall_eq_or_imp]
    rcases parsePropertiesOptional_comma cs n a with ⟨haccepted, b, hloop⟩ | ⟨hrejected, hloop⟩
    · rw [hloop, ih]
      exact (and_iff_right haccepted).symm
    · rw [hloop]
      exact iff_of_false Bool.false_ne_true fun h => hrejected h.1

theorem mentions_iff {p : Cursor} {a : ParsedAssemblyName}
    (h : (parsePropertiesOptional p a).1 = true) {property : Property} :
    Mentions p.rest property ↔ HasProperty p.rest property ∨
      Mentions (parsePropertiesOptional p a).2.1.rest property := by
  rcases p with ⟨text, n⟩
  induction text using chain_induction generalizing a with
  | last text hlast =>
    rw [parsePropertiesOptional_last hlast]
    exact (or_iff_right (not_hasProperty hlast)).symm
  | comma cs ih =>
    rcases parsePropertiesOptional_comma cs n a with ⟨-, b, hloop⟩ | ⟨-, hloop⟩
    · rw [hloop] at h ⊢
      rw [mentions_cons_iff, hasProperty_cons_iff, or_assoc]
      exact or_congr_right (ih h)
    · rw [hloop] at h
      exact absurd h Bool.false_ne_true

end Il2Cpp
