import Il2Cpp.TypeName.AssemblyNameRoundTrip
import Il2Cpp.TypeName.Parser
import Il2Cpp.TypeName.Printer

/-!
# Parsing the pieces of a printed type name

What the parts of `TypeNameParser` make of the pieces that `Type::GetName` prints, whatever follows
them.

* `parse_className` : a class with its namespace or its declaring classes.
* `parse_modifiers` : pointers and arrays; the parser takes pointers first and then arrays, and
  stops at a pointer behind an array.
-/

namespace Il2Cpp

open Cursor Il2CppTypeNameFormat

theorem length_le_length_flatMap {α : Type} {l : List α} {f : α → List Char}
    (h : ∀ a ∈ l, f a ≠ []) : l.length ≤ (l.flatMap f).length := by
  induction l with
  | nil => simp
  | cons a l ih =>
    have ha := List.length_pos_iff.2 (h a List.mem_cons_self)
    have hl := ih fun b hb => h b (List.mem_cons_of_mem _ hb)
    simp only [List.flatMap_cons, List.length_append, List.length_cons]
    omega

/-! ### Identifiers -/

/-- A character without a meaning in the syntax of type names. -/
def IsIdentifierChar (c : Char) : Prop := c ∉ identifierStops ∧ c ≠ '\\'

instance (c : Char) : Decidable (IsIdentifierChar c) := inferInstanceAs (Decidable (_ ∧ _))

/-- A name without reserved characters, and without white space in front. -/
def Identifier (s : List Char) : Prop :=
  s ≠ [] ∧ NoLeadingWhite s ∧ ∀ c ∈ s, IsIdentifierChar c

instance (s : List Char) : Decidable (Identifier s) := inferInstanceAs (Decidable (_ ∧ _))

/-- The text goes on with a character that ends an identifier, or is at its end. -/
def EndsIdentifier (tail : List Char) : Prop := ∀ c ∈ tail.head?, c ∈ identifierStops

/-- The text goes on with a character that may follow a class, or is at its end. -/
def EndsClass (tail : List Char) : Prop := ∀ c ∈ tail.head?, c ∈ ['[', '*', '&', ',', ']']

/-- The text goes on with a character that may follow the name of a class, perhaps a declaring
one. -/
def EndsClassName (tail : List Char) : Prop :=
  ∀ c ∈ tail.head?, c ∈ ['+', '[', '*', '&', ',', ']']

theorem EndsClass.endsClassName {tail : List Char} (h : EndsClass tail) : EndsClassName tail :=
  fun c hc => List.mem_cons_of_mem _ (h c hc)

theorem EndsClassName.head {tail : List Char} (h : EndsClassName tail) {P : Char → Prop}
    (hP : ∀ c ∈ ['+', '[', '*', '&', ',', ']'], P c) : ∀ c ∈ tail.head?, P c :=
  fun c hc => hP c (h c hc)

theorem EndsClassName.endsIdentifier {tail : List Char} (h : EndsClassName tail) :
    EndsIdentifier tail := h.head (by decide)

theorem EndsClassName.noLeadingWhite {tail : List Char} (h : EndsClassName tail) :
    NoLeadingWhite tail := h.head (by decide)

theorem EndsClassName.currentIs {tail : List Char} (h : EndsClassName tail) {v : Char}
    (hv : v ∉ ['+', '[', '*', '&', ',', ']']) : Cursor.currentIs ⟨tail, 0⟩ v = false := by
  rcases tail with _ | ⟨c, cs⟩
  · rfl
  · simpa using fun hcv : c = v => hv (hcv ▸ h c rfl)

theorem consumeIdentifier_append {s tail : List Char} (hs : ∀ c ∈ s, IsIdentifierChar c)
    (ht : EndsIdentifier tail) (hne : s ≠ [] ∨ tail ≠ []) :
    consumeIdentifier ⟨s ++ tail, 0⟩ = (s, ⟨tail, 0⟩) := by
  refine consume_append (fun c hc => ?_) (fun _ hb => (hs _ hb).2 rfl) hne fun c hc => ?_
  · simpa using (hs c hc).1
  · simpa using ht c hc

/-- The name of a class: an identifier, and the arity of a generic class. -/
inductive ClassIdentifier : List Char → ℕ → Prop
  | plain {s : List Char} : Identifier s → ClassIdentifier s 0
  | generic {s digits : List Char} : Identifier s → digits ≠ [] →
      (∀ c ∈ digits, c.isDigit = true) →
      ClassIdentifier (s ++ '\x60' :: digits) (digitsValue digits)

theorem ClassIdentifier.ne_nil {s : List Char} {k : ℕ} (h : ClassIdentifier s k) : s ≠ [] := by
  cases h with
  | plain hs => exact hs.1
  | generic hs => simp

theorem ClassIdentifier.head_not_white {s : List Char} {k : ℕ} (h : ClassIdentifier s k) {c : Char}
    (hc : c ∈ s.head?) : isWhite c = false := by
  have hhead : ∀ {s t : List Char}, Identifier s → ∀ c ∈ (s ++ t).head?, isWhite c = false := by
    intro s t hs c hc
    obtain ⟨d, ds, rfl⟩ := List.exists_cons_of_ne_nil hs.1
    obtain rfl : d = c := by simpa using hc
    exact noLeadingWhite_cons.1 hs.2.1
  cases h with
  | plain hs => exact hhead (t := []) hs c (by simpa using hc)
  | generic hs => exact hhead hs c hc

theorem strtol32_toInt {digits : List Char} (h : digitsValue digits < 2 ^ 31) :
    strtol32 digits = Int32.ofNat (digitsValue digits) := by
  have hmin : min (digitsValue digits : ℤ) (2 ^ 63 - 1) = digitsValue digits := by omega
  rw [strtol32, hmin]
  rfl

theorem advance_cons {c d : Char} {cs : List Char} : advance ⟨c :: d :: cs, 0⟩ = .done ⟨d :: cs, 0⟩ :=
  rfl

theorem advance_skip_cons {c d : Char} {cs : List Char} (h : isWhite d = false) :
    advance ⟨c :: d :: cs, 0⟩ true = .done ⟨d :: cs, 0⟩ := by
  simp [advance, next_skip_cons (noLeadingWhite_cons.2 h)]

theorem parse_classIdentifier {s tail : List Char} {k : ℕ} (h : ClassIdentifier s k)
    (ht : EndsClassName tail) :
    ∃ identifier suffix a rest, identifier ++ suffix = s ∧
      consumeIdentifier ⟨s ++ tail, 0⟩ = (identifier, ⟨rest, 0⟩) ∧
      Cursor.currentIs ⟨rest, 0⟩ '.' = false ∧
      parseArityOptional ⟨rest, 0⟩ = .done (suffix, a, ⟨tail, 0⟩) ∧
      (k < 2 ^ 31 → a = Int32.ofNat k) := by
  cases h with
  | plain hs =>
    refine ⟨s, [], 0, tail, by simp, consumeIdentifier_append hs.2.2 ht.endsIdentifier (.inl hs.1),
      ht.currentIs (by decide), ?_, fun _ => rfl⟩
    simp [parseArityOptional, ht.currentIs (v := '\x60') (by decide)]
  | @generic s digits hs hne hdigits =>
    obtain ⟨d, ds, rfl⟩ := List.exists_cons_of_ne_nil hne
    have hd : d.isDigit = true := hdigits d List.mem_cons_self
    have htake : ((d :: ds) ++ tail).takeWhile Char.isDigit = d :: ds := by
      rw [List.takeWhile_append_of_pos hdigits, takeWhile_of_head (ht.head (by decide)),
        List.append_nil]
    have hdrop : ((d :: ds) ++ tail).dropWhile Char.isDigit = tail := by
      rw [List.dropWhile_append_of_pos hdigits, dropWhile_of_head (ht.head (by decide))]
    refine ⟨s, '\x60' :: d :: ds, strtol32 (d :: ds), '\x60' :: d :: ds ++ tail, rfl, ?_, rfl, ?_,
      strtol32_toInt⟩
    · rw [List.append_assoc]
      exact consumeIdentifier_append hs.2.2 (by simp [EndsIdentifier, identifierStops]) (.inl hs.1)
    · rw [List.cons_append] at htake hdrop
      simp [parseArityOptional, advance_cons, consumeNumber, hd, htake, hdrop, Cursor.deref]

/-! ### Class names -/

/-- The text of a namespace: identifiers and dots. -/
def NamespaceText (s : List Char) : Prop := ∀ c ∈ s, c = '.' ∨ IsIdentifierChar c

instance (s : List Char) : Decidable (NamespaceText s) :=
  inferInstanceAs (Decidable (∀ c ∈ s, _))

/-- What the loop of `ParseTypeName` has found before the last dot. -/
def joinDot (namespaze : Option (List Char)) (s : List Char) : List Char :=
  match namespaze with
  | none => s
  | some namespaze => namespaze ++ '.' :: s

theorem parseIdentifiers_dot {s tail : List Char} (hs : ∀ c ∈ s, IsIdentifierChar c) {n : ℕ}
    (namespaze : Option (List Char)) (hne : tail ≠ []) :
    parseIdentifiers (n + 1) namespaze ⟨s ++ '.' :: tail, 0⟩ =
      parseIdentifiers n (some (joinDot namespaze s)) ⟨tail, 0⟩ := by
  obtain ⟨c, cs, rfl⟩ := List.exists_cons_of_ne_nil hne
  rw [parseIdentifiers, consumeIdentifier_append hs (by simp [EndsIdentifier, identifierStops])
    (.inr (by simp))]
  cases namespaze <;> simp [advance_cons, joinDot]

theorem exists_first_dot {s : List Char} (h : '.' ∈ s) :
    ∃ a b, s = a ++ '.' :: b ∧ '.' ∉ a := by
  induction s with
  | nil => simp at h
  | cons c s ih =>
    by_cases hc : c = '.'
    · exact ⟨[], s, by simp [hc], by simp⟩
    · obtain ⟨a, b, hs, ha⟩ := ih ((List.mem_cons.1 h).resolve_left (Ne.symm hc))
      exact ⟨c :: a, b, by simp [hs], by simpa [Ne.symm hc] using ha⟩

theorem NamespaceText.isIdentifierChar {s : List Char} (hs : NamespaceText s) (h : '.' ∉ s) :
    ∀ c ∈ s, IsIdentifierChar c :=
  fun c hc => (hs c hc).resolve_left fun hd => h (hd ▸ hc)

theorem parseIdentifiers_namespace {s tail : List Char} (hs : NamespaceText s) (hne : tail ≠ [])
    {n : ℕ} (hn : s.length + 1 < n) (namespaze : Option (List Char)) :
    ∃ m, parseIdentifiers n namespaze ⟨s ++ '.' :: tail, 0⟩ =
      parseIdentifiers (m + 1) (some (joinDot namespaze s)) ⟨tail, 0⟩ := by
  induction hlen : s.length using Nat.strong_induction_on generalizing s n namespaze with
  | _ len ih =>
    obtain ⟨n, rfl⟩ : ∃ k, n = k + 2 := ⟨n - 2, by omega⟩
    by_cases hdot : '.' ∈ s
    · obtain ⟨a, b, rfl, ha⟩ := exists_first_dot hdot
      have hsa : NamespaceText a := fun c hc => hs c (by simp [hc])
      have hsb : NamespaceText b := fun c hc => hs c (by simp [hc])
      simp only [List.length_append, List.length_cons] at hlen hn
      obtain ⟨m, hm⟩ := ih b.length (by omega) hsb (n := n + 1) (by omega)
        (some (joinDot namespaze a)) rfl
      refine ⟨m, ?_⟩
      rw [List.append_assoc, List.cons_append,
        parseIdentifiers_dot (hsa.isIdentifierChar ha) _ (by simp), hm]
      cases namespaze <;> simp [joinDot]
    · exact ⟨n, parseIdentifiers_dot (hs.isIdentifierChar hdot) _ hne⟩

/-- The class that no other class declares. -/
def ClassName.outermost : ClassName → CString × CString
  | topLevel namespaze name => (namespaze, name)
  | nested declaringType _ => declaringType.outermost

/-- The names of the nested classes, from the outside. -/
def ClassName.nestedNames : ClassName → List (List Char)
  | topLevel _ _ => []
  | nested declaringType name => declaringType.nestedNames ++ [name.chars]

/-- The name is made of valid parts, with `k` generic parameters in all. -/
inductive ClassName.Valid : ClassName → ℕ → Prop
  | topLevel {namespaze name : CString} {k : ℕ} : NamespaceText namespaze.chars →
      NoLeadingWhite namespaze.chars → ClassIdentifier name.chars k → Valid (.topLevel namespaze name) k
  | nested {declaringType : ClassName} {name : CString} {j k : ℕ} : Valid declaringType j →
      ClassIdentifier name.chars k → Valid (.nested declaringType name) (j + k)

/-- What `ParseTypeName` reads of a class name. -/
def topLevelText (c : ClassName) : List Char :=
  (if c.outermost.1.chars ≠ [] then c.outermost.1.chars ++ ['.'] else []) ++ c.outermost.2.chars

theorem classNameText_eq {format : Il2CppTypeNameFormat} (hf : format ≠ il) (c : ClassName) :
    classNameText format c = topLevelText c ++ c.nestedNames.flatMap ('+' :: ·) := by
  induction c with
  | topLevel namespaze name =>
    simp only [classNameText, topLevelText, ClassName.outermost, ClassName.nestedNames, simpleName,
      if_neg hf, List.flatMap_nil, List.append_nil]
    rfl
  | nested declaringType name ih =>
    simp only [classNameText, ih, nestedSeparator, if_neg hf, simpleName, ClassName.nestedNames,
      List.flatMap_append, List.flatMap_singleton, List.append_assoc]
    rfl

theorem parseTypeName_printed {namespaze name : CString} {k : ℕ}
    (hns : NamespaceText namespaze.chars) (hname : ClassIdentifier name.chars k) {tail : List Char}
    (ht : EndsClassName tail) :
    ∃ a, (k < 2 ^ 31 → a = Int32.ofNat k) ∧
      parseTypeName ⟨(if namespaze.chars ≠ [] then namespaze.chars ++ ['.'] else []) ++
        name.chars ++ tail, 0⟩ = .done (namespaze.chars, name.chars, a, ⟨tail, 0⟩) := by
  obtain ⟨identifier, suffix, a, rest, hsplit, hscan, hdot, harity, hk⟩ :=
    parse_classIdentifier hname ht
  have hne : name.chars ++ tail ≠ [] := by simp [hname.ne_nil]
  have hlast : ∀ m ns, parseIdentifiers (m + 1) ns ⟨name.chars ++ tail, 0⟩ =
      .done (ns, identifier, ⟨rest, 0⟩) := by
    intro m ns
    simp [parseIdentifiers, hscan, hdot]
  refine ⟨a, hk, ?_⟩
  by_cases hempty : namespaze.chars = []
  · simp [parseTypeName, hempty, hlast, harity, hsplit]
  · have hlen := List.length_pos_iff.2 hne
    obtain ⟨m, hm⟩ := parseIdentifiers_namespace hns hne
      (n := (namespaze.chars ++ '.' :: (name.chars ++ tail)).length + 1)
      (by rw [List.length_append, List.length_cons]; omega) none
    simp only [parseTypeName, if_pos hempty, List.append_assoc, List.cons_append, List.nil_append,
      hm, hlast]
    simp [harity, hsplit, joinDot]

theorem parseNestedTypes_printed {tail : List Char} (ht : EndsClassName tail)
    (hplus : Cursor.currentIs ⟨tail, 0⟩ '+' = false) {names : List (List Char)} {ks : List ℕ}
    (h : List.Forall₂ ClassIdentifier names ks) {n : ℕ} (hn : names.length < n)
    (nested : List (List Char)) (a : Int32) :
    ∃ b, (ks.sum < 2 ^ 31 → b = a + Int32.ofNat ks.sum) ∧
      parseNestedTypes n nested a ⟨names.flatMap ('+' :: ·) ++ tail, 0⟩ =
        .done (nested ++ names, b, ⟨tail, 0⟩) := by
  induction h generalizing n nested a with
  | nil =>
    obtain ⟨n, rfl⟩ : ∃ k, n = k + 1 := ⟨n - 1, by simp at hn; omega⟩
    refine ⟨a, fun _ => by simp, ?_⟩
    simp [parseNestedTypes, hplus]
  | @cons name k names ks hname h ih =>
    obtain ⟨n, rfl⟩ : ∃ k, n = k + 1 := ⟨n - 1, by simp at hn; omega⟩
    have hnext : EndsClassName (names.flatMap ('+' :: ·) ++ tail) := by
      cases names with
      | nil => simpa using ht
      | cons name names => simp [EndsClassName]
    obtain ⟨identifier, suffix, c, rest, hsplit, hscan, -, harity, hk⟩ :=
      parse_classIdentifier hname hnext
    obtain ⟨b, hb, hrest⟩ := ih (n := n) (by simpa using hn) (nested ++ [name]) (a + c)
    have hadv : advance ⟨'+' :: (name ++ (names.flatMap ('+' :: ·) ++ tail)), 0⟩ =
        .done ⟨name ++ (names.flatMap ('+' :: ·) ++ tail), 0⟩ := by
      obtain ⟨d, ds, rfl⟩ := List.exists_cons_of_ne_nil hname.ne_nil
      rfl
    refine ⟨b, fun hsum => ?_, ?_⟩
    · simp only [List.sum_cons] at hsum ⊢
      rw [hb (by omega), hk (by omega), Int32.ofNat_add, Int32.add_assoc]
    · simp only [parseNestedTypes, List.flatMap_cons, List.append_assoc, List.cons_append]
      simp [hadv, hscan, harity, hsplit, hrest]

theorem ClassName.Valid.parts {c : ClassName} {k : ℕ} (h : c.Valid k) :
    NamespaceText c.outermost.1.chars ∧ ∃ j ks, ClassIdentifier c.outermost.2.chars j ∧
      List.Forall₂ ClassIdentifier c.nestedNames ks ∧ k = j + ks.sum := by
  induction h with
  | topLevel hns _ hname => exact ⟨hns, _, [], hname, .nil, by simp⟩
  | @nested declaringType name i k _ hname ih =>
    obtain ⟨hns, j, ks, hj, hks, rfl⟩ := ih
    refine ⟨hns, j, ks ++ [k], hj, List.rel_append hks (.cons hname .nil), ?_⟩
    rw [List.sum_append, List.sum_singleton, Nat.add_assoc]

theorem parse_className {format : Il2CppTypeNameFormat} (hf : format ≠ il) {c : ClassName} {k : ℕ}
    (h : c.Valid k) {tail : List Char} (ht : EndsClass tail) :
    ∃ a b p, parseTypeName ⟨classNameText format c ++ tail, 0⟩ =
        .done (c.outermost.1.chars, c.outermost.2.chars, a, p) ∧
      parseNestedTypeOptional a p = .done (c.nestedNames, b, ⟨tail, 0⟩) ∧
      (k < 2 ^ 31 → b.toInt = k) := by
  obtain ⟨hns, j, ks, hj, hks, rfl⟩ := h.parts
  have hnext : EndsClassName (c.nestedNames.flatMap ('+' :: ·) ++ tail) := by
    cases c.nestedNames with
    | nil => simpa using ht.endsClassName
    | cons name names => simp [EndsClassName]
  obtain ⟨a, ha, hname⟩ := parseTypeName_printed hns hj hnext
  have hplus : Cursor.currentIs ⟨tail, 0⟩ '+' = false := by
    rcases tail with _ | ⟨d, ds⟩
    · rfl
    · have hd : ∀ c ∈ ['[', '*', '&', ',', ']'], (c == '+') = false := by decide
      exact hd d (ht d rfl)
  have hlen : c.nestedNames.length ≤ (c.nestedNames.flatMap ('+' :: ·)).length :=
    length_le_length_flatMap fun _ _ => by simp
  obtain ⟨b, hb, hnested⟩ := parseNestedTypes_printed ht.endsClassName hplus hks
    (n := (c.nestedNames.flatMap ('+' :: ·) ++ tail).length + 1)
    (by rw [List.length_append]; omega) [] a
  refine ⟨a, b, _, ?_, hnested, fun hk => ?_⟩
  · rw [classNameText_eq hf, List.append_assoc]
    exact hname
  · rw [hb (by omega), ha (by omega), ← Int32.ofNat_add, Int32.toInt_ofNat_of_lt hk]

/-! ### Modifiers -/

/-- What is printed behind the class of a type, from the inside. -/
inductive Modifier where
  | ptr
  | szarray
  | array (rank : ℕ)
  deriving DecidableEq

namespace Modifier

/-- The text of a modifier. -/
def text : Modifier → List Char
  | ptr => ['*']
  | szarray => ['[', ']']
  | array rank => arraySuffix rank

/-- What the parser records for a modifier: -1 for a pointer, the rank of an array, and -2 before
the rank of an array of rank 1 that is no vector. -/
def values : Modifier → List ℤ
  | ptr => [-1]
  | szarray => [1]
  | array rank => (if rank = 1 then [-2] else []) ++ [(rank : ℤ)]

/-- The modifier is a pointer. -/
def isPtr : Modifier → Bool
  | ptr => true
  | _ => false

/-- The rank is positive. -/
def Valid : Modifier → Prop
  | array rank => 1 ≤ rank
  | _ => True

end Modifier

/-- The text goes on with a `&`, a `,` or a `]`, or is at its end: what follows all modifiers. -/
def EndsModifiers (tail : List Char) : Prop := ∀ c ∈ tail.head?, c ∈ ['&', ',', ']']

theorem parsePointerModifiers_printed {tail : List Char} (ht : NoLeadingWhite tail)
    (hstar : Cursor.currentIs ⟨tail, 0⟩ '*' = false) (k : ℕ) {n : ℕ} (hn : k ≤ n)
    (modifiers : List ℤ) :
    parsePointerModifiers n modifiers ⟨List.replicate k '*' ++ tail, 0⟩ =
      (modifiers ++ List.replicate k (-1), ⟨tail, 0⟩) := by
  induction k generalizing n modifiers with
  | zero => cases n <;> simp [parsePointerModifiers, hstar]
  | succ k ih =>
    obtain ⟨n, rfl⟩ : ∃ m, n = m + 1 := ⟨n - 1, by omega⟩
    have hnext : NoLeadingWhite (List.replicate k '*' ++ tail) := by
      cases k with
      | zero => simpa using ht
      | succ k => simp [List.replicate_succ, isWhite]
    simp only [parsePointerModifiers, List.replicate_succ, List.cons_append, currentIs_cons,
      beq_self_eq_true, if_true, next_skip_cons hnext]
    rw [ih (by omega)]
    simp

theorem parseRank_commas {tail : List Char} (ht : NoLeadingWhite tail) (k : ℕ) {n : ℕ} (hn : k < n)
    (rank : ℤ) (modifiers : List ℤ) :
    parseRank n rank modifiers ⟨List.replicate k ',' ++ ']' :: tail, 0⟩ =
      .done (modifiers ++ [rank + k], ⟨tail, 0⟩) := by
  induction k generalizing n rank with
  | zero =>
    obtain ⟨n, rfl⟩ : ∃ m, n = m + 1 := ⟨n - 1, by omega⟩
    simp [parseRank, next_skip_cons ht]
  | succ k ih =>
    obtain ⟨n, rfl⟩ : ∃ m, n = m + 1 := ⟨n - 1, by omega⟩
    have hnext : advance ⟨',' :: (List.replicate k ',' ++ ']' :: tail), 0⟩ true =
        .done ⟨List.replicate k ',' ++ ']' :: tail, 0⟩ := by
      cases k with
      | zero => exact advance_skip_cons (by decide)
      | succ k => exact advance_skip_cons (by decide)
    simp only [parseRank, List.replicate_succ, List.cons_append, currentIs_cons]
    simp only [hnext, Outcome.done_bind]
    have hrank : rank + 1 + (k : ℤ) = rank + ((k + 1 : ℕ) : ℤ) := by omega
    rw [if_neg (by decide), if_pos (by decide), ih (by omega), hrank]

theorem opensArray_cons {c : Char} {cs : List Char} (hc : c ∈ [']', ',', '*']) :
    opensArray ⟨'[' :: c :: cs, 0⟩ = true := by
  simp only [List.mem_cons, List.not_mem_nil, or_false] at hc
  rcases hc with rfl | rfl | rfl <;> simp [opensArray, nextWillBe, isWhite]

theorem parseArrayModifiers_cons {m : Modifier} (hm : m.isPtr = false) (hv : m.Valid)
    {tail : List Char} (ht : NoLeadingWhite tail) (n : ℕ) (modifiers : List ℤ) :
    parseArrayModifiers (n + 1) modifiers ⟨m.text ++ tail, 0⟩ =
      parseArrayModifiers n (modifiers ++ m.values) ⟨tail, 0⟩ := by
  -- from the first character inside the brackets to the closing one
  have hround : ∀ (c : Char) (cs : List Char) (values : List ℤ), c ∈ [']', ',', '*'] →
      parseRank ((c :: cs ++ tail).length + 1) 1 modifiers ⟨c :: cs ++ tail, 0⟩ =
        .done (modifiers ++ values, ⟨tail, 0⟩) →
      parseArrayModifiers (n + 1) modifiers ⟨'[' :: c :: cs ++ tail, 0⟩ =
        parseArrayModifiers n (modifiers ++ values) ⟨tail, 0⟩ := by
    intro c cs values hc hrank
    have hwhite : isWhite c = false := by
      have : ∀ c ∈ [']', ',', '*'], isWhite c = false := by decide
      exact this c hc
    have hskip : skipWhites ⟨'[' :: c :: cs ++ tail, 0⟩ = ⟨'[' :: c :: (cs ++ tail), 0⟩ :=
      skipWhites_of_noLeadingWhite (by simp [isWhite])
    rw [parseArrayModifiers, hskip]
    simp only [List.cons_append] at hrank
    simp only [isEOL_cons, currentIs_cons, beq_self_eq_true, Bool.not_true, Bool.false_eq_true,
      if_false, opensArray_cons hc, advance_skip_cons hwhite, Outcome.done_bind, hrank]
  cases m with
  | ptr => cases hm
  | szarray =>
    refine hround ']' [] [1] (by decide) ?_
    simpa using parseRank_commas ht 0 (n := tail.length + 2) (by omega) 1 modifiers
  | array rank =>
    obtain ⟨k, rfl⟩ : ∃ k, rank = k + 1 := ⟨rank - 1, by simp [Modifier.Valid] at hv; omega⟩
    cases k with
    | zero =>
      refine hround '*' [']'] [-2, 1] (by decide) ?_
      have hstar : advance ⟨'*' :: ']' :: tail, 0⟩ true = .done ⟨']' :: tail, 0⟩ :=
        advance_skip_cons (by decide)
      simp [parseRank, hstar, next_skip_cons ht]
    | succ k =>
      have hrank : (1 : ℤ) + ((k + 1 : ℕ) : ℤ) = ((k + 1 + 1 : ℕ) : ℤ) := by omega
      have := hround ',' (List.replicate k ',' ++ [']']) [((k + 1 + 1 : ℕ) : ℤ)] (by decide) (by
        have hn : k + 1 < (List.replicate k ',' ++ ']' :: tail).length + 2 := by
          rw [List.length_append, List.length_replicate]
          omega
        have := parseRank_commas ht (k + 1) hn 1 modifiers
        rw [hrank] at this
        simp only [List.replicate_succ, List.cons_append, List.append_assoc, List.nil_append,
          List.length_cons] at this ⊢
        exact this)
      simpa [Modifier.text, Modifier.values, arraySuffix, List.replicate_succ] using this

/-- The modifiers of a type as text, and as the parser records them. -/
def modifiersText (ms : List Modifier) : List Char := ms.flatMap Modifier.text

/-- The modifiers of a type as text, and as the parser records them. -/
def modifierValues (ms : List Modifier) : List ℤ := ms.flatMap Modifier.values

/-- No pointer stands behind an array. -/
def pointersFirst (ms : List Modifier) : Bool := (ms.dropWhile Modifier.isPtr).all (!·.isPtr)

theorem modifiersText_endsClass (ms : List Modifier) {tail : List Char} (ht : EndsClass tail) :
    EndsClass (modifiersText ms ++ tail) := by
  rcases ms with _ | ⟨m, ms⟩
  · simpa [modifiersText] using ht
  · cases m <;> simp [EndsClass, modifiersText, Modifier.text, arraySuffix]

theorem parseArrayModifiers_printed {ms : List Modifier} (hms : ∀ m ∈ ms, m.isPtr = false)
    (hv : ∀ m ∈ ms, m.Valid) {tail : List Char} (ht : EndsClass tail)
    (hopen : Cursor.currentIs ⟨tail, 0⟩ '[' = false) {n : ℕ} (hn : ms.length < n)
    (modifiers : List ℤ) :
    parseArrayModifiers n modifiers ⟨modifiersText ms ++ tail, 0⟩ =
      .done (modifiers ++ modifierValues ms, ⟨tail, 0⟩) := by
  induction ms generalizing n modifiers with
  | nil =>
    obtain ⟨n, rfl⟩ : ∃ m, n = m + 1 := ⟨n - 1, by simp at hn; omega⟩
    simp [parseArrayModifiers, modifiersText, modifierValues, hopen,
      skipWhites_of_noLeadingWhite ht.endsClassName.noLeadingWhite]
  | cons m ms ih =>
    obtain ⟨n, rfl⟩ : ∃ m, n = m + 1 := ⟨n - 1, by simp at hn; omega⟩
    have hrest := (modifiersText_endsClass ms ht).endsClassName.noLeadingWhite
    have := parseArrayModifiers_cons (hms m List.mem_cons_self) (hv m List.mem_cons_self) hrest n
      modifiers
    rw [ih (fun m hm => hms m (List.mem_cons_of_mem _ hm))
      (fun m hm => hv m (List.mem_cons_of_mem _ hm)) (by simpa using hn)] at this
    simpa [modifiersText, modifierValues] using this

theorem modifiers_split (ms : List Modifier) :
    ∃ k arrays others, ms = List.replicate k .ptr ++ (arrays ++ others) ∧
      (∀ m ∈ arrays, m.isPtr = false) ∧
      (pointersFirst ms = true ∧ others = [] ∨
        pointersFirst ms = false ∧ arrays ≠ [] ∧ ∃ rest, others = .ptr :: rest) := by
  induction ms with
  | nil => exact ⟨0, [], [], rfl, by simp, .inl ⟨rfl, rfl⟩⟩
  | cons m ms ih =>
    by_cases hm : m.isPtr = true
    · obtain rfl : m = .ptr := by cases m <;> first | rfl | cases hm
      obtain ⟨k, arrays, others, rfl, harrays, h⟩ := ih
      exact ⟨k + 1, arrays, others, rfl, harrays, h⟩
    · have hm : m.isPtr = false := by simpa using hm
      have hfirst : pointersFirst (m :: ms) = ms.all (!·.isPtr) := by simp [pointersFirst, hm]
      refine ⟨0, m :: ms.takeWhile (!·.isPtr), ms.dropWhile (!·.isPtr), by simp, ?_, ?_⟩
      · intro x hx
        rcases List.mem_cons.1 hx with rfl | hx
        · exact hm
        · simpa using List.mem_takeWhile_imp hx
      · rw [hfirst]
        rcases hrest : ms.dropWhile (!·.isPtr) with _ | ⟨x, rest⟩
        · exact .inl ⟨by simpa using List.dropWhile_eq_nil_iff.1 hrest, hrest⟩
        · have hx : x.isPtr = true := by
            have := List.head_dropWhile_not (fun m : Modifier => !m.isPtr) (l := ms) (by simp [hrest])
            simpa [hrest] using this
          have hmem : x ∈ ms := (List.dropWhile_sublist _).mem (hrest ▸ List.mem_cons_self)
          refine .inr ⟨?_, by simp, rest, ?_⟩
          · simpa using ⟨x, hmem, hx⟩
          · cases x <;> first | exact hrest | cases hx

theorem parse_modifiers {ms : List Modifier} (hv : ∀ m ∈ ms, m.Valid) {tail : List Char}
    (ht : EndsModifiers tail) :
    let r := parsePointerModifiersOptional ⟨modifiersText ms ++ tail, 0⟩
    if pointersFirst ms then
      parseArrayModifierOptional r.1 r.2 = .done (modifierValues ms, ⟨tail, 0⟩)
    else
      ∃ values rest, parseArrayModifierOptional r.1 r.2 = .done (values, ⟨'*' :: rest, 0⟩) := by
  obtain ⟨k, arrays, others, rfl, harrays, hcase⟩ := modifiers_split ms
  have htail : EndsClass (modifiersText others ++ tail) :=
    modifiersText_endsClass _ fun c hc => by
      have hmem : ∀ c ∈ ['&', ',', ']'], c ∈ ['[', '*', '&', ',', ']'] := by decide
      exact hmem c (ht c hc)
  have hends : ∀ v ∈ ['[', '*'], Cursor.currentIs ⟨tail, 0⟩ v = false := by
    intro v hv
    rcases tail with _ | ⟨c, cs⟩
    · rfl
    · have : ∀ c ∈ ['&', ',', ']'], ∀ v ∈ ['[', '*'], (c == v) = false := by decide
      exact this c (ht c rfl) v hv
  have hstar : Cursor.currentIs ⟨modifiersText arrays ++ (modifiersText others ++ tail), 0⟩ '*' =
      false := by
    rcases arrays with _ | ⟨m, arrays⟩
    · obtain ⟨-, rfl⟩ | ⟨-, hne, -⟩ := hcase
      · simpa [modifiersText] using hends '*' (by decide)
      · exact absurd rfl hne
    · have hm := harrays m List.mem_cons_self
      cases m with
      | ptr => cases hm
      | szarray => rfl
      | array rank => rfl
  have hpointers : parsePointerModifiersOptional ⟨modifiersText (List.replicate k .ptr ++
        (arrays ++ others)) ++ tail, 0⟩ = (List.replicate k (-1),
      ⟨modifiersText arrays ++ (modifiersText others ++ tail), 0⟩) := by
    have htext : modifiersText (List.replicate k .ptr ++ (arrays ++ others)) ++ tail =
        List.replicate k '*' ++ (modifiersText arrays ++ (modifiersText others ++ tail)) := by
      simp [modifiersText, List.flatMap_replicate, Modifier.text]
    rw [htext, parsePointerModifiersOptional, parsePointerModifiers_printed
      (modifiersText_endsClass arrays htail).endsClassName.noLeadingWhite hstar k (by simp)]
    rfl
  have hopen : Cursor.currentIs ⟨modifiersText others ++ tail, 0⟩ '[' = false := by
    obtain ⟨-, rfl⟩ | ⟨-, -, rest, rfl⟩ := hcase
    · simpa [modifiersText] using hends '[' (by decide)
    · rfl
  have hlen : arrays.length ≤ (modifiersText arrays).length :=
    length_le_length_flatMap fun m _ => by cases m <;> simp [Modifier.text, arraySuffix]
  have harray : parseArrayModifierOptional (List.replicate k (-1))
      ⟨modifiersText arrays ++ (modifiersText others ++ tail), 0⟩ =
        .done (List.replicate k (-1) ++ modifierValues arrays, ⟨modifiersText others ++ tail, 0⟩) :=
    parseArrayModifiers_printed harrays (fun m hm => hv m (by simp [hm])) htail hopen
      (by simp only [List.length_append]; omega) _
  simp only [hpointers, harray]
  obtain ⟨hfirst, rfl⟩ | ⟨hfirst, -, rest, rfl⟩ := hcase
  · rw [if_pos hfirst]
    simp [modifierValues, modifiersText, List.flatMap_replicate, Modifier.values]
  · rw [hfirst, if_neg (by decide)]
    exact ⟨_, _, rfl⟩

end Il2Cpp
