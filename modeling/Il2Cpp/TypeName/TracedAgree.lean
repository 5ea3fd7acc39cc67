import Il2Cpp.TypeName.TracedParser

/-!
# The recorded parser is the parser

What a parsing function of `Il2Cpp.TypeNameParser` returns, and where it leaves the cursor, is what
the function of that name says in `Il2Cpp.TypeName.AssemblyName` or `Il2Cpp.TypeName.Parser`.

* `runs` : the result of a parsing function without its events.
* `runs_parseInfo`, `runs_parseAssembly` : the agreement of the entry points.
-/

namespace Il2Cpp

/-! ### Results in sequence -/

namespace Outcome

variable {α β γ : Type}

/-- The result with a function applied. -/
def map (f : α → β) (x : Outcome α) : Outcome β := x >>= fun a => done (f a)

@[simp] theorem map_done (f : α → β) (a : α) : (done a).map f = done (f a) := rfl

@[simp] theorem map_reject (f : α → β) : (reject : Outcome α).map f = reject := rfl

@[simp] theorem lengthError_bind (f : α → Outcome β) : (lengthError >>= f) = lengthError := rfl

@[simp] theorem outOfFuel_bind (f : α → Outcome β) : (outOfFuel >>= f) = outOfFuel := rfl

@[simp] theorem map_outOfFuel (f : α → β) : (outOfFuel : Outcome α).map f = outOfFuel := rfl

@[simp] theorem map_lengthError (f : α → β) : (lengthError : Outcome α).map f = lengthError := rfl

theorem bind_assoc (x : Outcome α) (f : α → Outcome β) (g : β → Outcome γ) :
    (x >>= f) >>= g = x >>= fun a => f a >>= g := by
  cases x <;> rfl

theorem ite_bind (c : Prop) [Decidable c] (x y : Outcome α) (f : α → Outcome β) :
    (if c then x else y) >>= f = if c then x >>= f else y >>= f := by
  split <;> rfl

theorem map_bind (x : Outcome α) (f : α → β) (g : β → Outcome γ) :
    x.map f >>= g = x >>= fun a => g (f a) := by
  cases x <;> rfl

theorem bind_map (x : Outcome α) (f : α → Outcome β) (g : β → γ) :
    (x >>= f).map g = x >>= fun a => (f a).map g := by
  cases x <;> rfl

end Outcome

namespace TypeNameParser

open Cursor (isWhite)

variable {α β : Type}

/-- What a parsing function returns and where it leaves the cursor. -/
def runs (m : Parsing α) (p : Cursor) : Outcome (α × Cursor) :=
  match (m p).2 with
  | .ok r => .done r
  | .error .reject => .reject
  | .error .lengthError => .lengthError
  | .error .outOfFuel => .outOfFuel

@[simp] theorem runs_pure (a : α) (p : Cursor) : runs (pure a) p = .done (a, p) := rfl

@[simp] theorem runs_bind (m : Parsing α) (f : α → Parsing β) (p : Cursor) :
    runs (m >>= f) p = runs m p >>= fun r => runs (f r.1) r.2 := by
  simp only [runs, Traced.bind_apply]
  rcases m p with ⟨events, r | ⟨a, q⟩⟩
  · cases r <;> rfl
  · rfl

@[simp] theorem runs_reject (p : Cursor) : runs (.stop .reject : Parsing α) p = .reject := rfl

@[simp] theorem runs_lengthError (p : Cursor) :
    runs (.stop .lengthError : Parsing α) p = .lengthError := rfl

@[simp] theorem runs_outOfFuel (p : Cursor) :
    runs (.stop .outOfFuel : Parsing α) p = .outOfFuel := rfl

@[simp] theorem runs_state (p : Cursor) : runs Traced.state p = .done (p, p) := rfl

@[simp] theorem runs_emit (event : Cursor → Event) (p : Cursor) :
    runs (Traced.emit event) p = .done ((), p) := rfl

theorem runs_ite (c : Prop) [Decidable c] (m m' : Parsing α) (p : Cursor) :
    runs (if c then m else m') p = if c then runs m p else runs m' p := by
  split <;> rfl

/-! ### Reading and moving -/

@[simp] theorem runs_isEOL (p : Cursor) : runs isEOL p = .done (p.isEOL, p) := rfl

@[simp] theorem runs_derefAt (i : ℕ) (p : Cursor) :
    runs (derefAt i) p = .done ((ahead i p).deref, p) := rfl

@[simp] theorem runs_incr (p : Cursor) : runs incr p = .done ((), p.incr) := rfl

@[simp] theorem runs_pass (p : Cursor) : runs pass p = .done (p.deref, p.incr) := rfl

@[simp] theorem runs_currentIs (v : Char) (p : Cursor) :
    runs (currentIs v) p = .done (p.currentIs v, p) := by
  cases h : p.isEOL <;> simp [currentIs, runs_ite, Cursor.currentIs, h, ahead]

theorem runs_skipWhitesLoop {n : ℕ} {p : Cursor} (h : p.rest.length < n) :
    runs (skipWhitesLoop n) p = .done ((), p.skipWhites) := by
  induction n generalizing p with
  | zero => exact absurd h (Nat.not_lt_zero _)
  | succ n ih =>
    obtain ⟨_ | ⟨c, cs⟩, m⟩ := p
    · simp [skipWhitesLoop, currentIsWhite, runs_ite, Cursor.skipWhites]
    · have hwhite : isWhite c = (c == ' ' || c == '\t') := rfl
      cases hspace : c == ' ' <;> cases htab : c == '\t' <;>
        simp [skipWhitesLoop, currentIsWhite, runs_ite, Cursor.skipWhites, hwhite,
          hspace, htab, ih (p := ⟨cs, m⟩) (Nat.lt_of_succ_lt_succ h)]

@[simp] theorem runs_skipWhites (p : Cursor) : runs skipWhites p = .done ((), p.skipWhites) := by
  simp [skipWhites, runs_skipWhitesLoop]

@[simp] theorem runs_next (skip : Bool) (p : Cursor) :
    runs (next skip) p = .done (!(p.next skip).isEOL, p.next skip) := by
  cases skip <;> simp [next, Cursor.next]

@[simp] theorem runs_advance (skip : Bool) (p : Cursor) :
    runs (advance skip) p = (Il2Cpp.advance p skip).map fun q => ((), q) := by
  cases h : (p.next skip).isEOL <;> simp [advance, Il2Cpp.advance, runs_ite, h]

@[simp] theorem runs_whiteAt (i : ℕ) (p : Cursor) :
    runs (whiteAt i) p = .done (isWhite (ahead i p).deref, p) := by
  rw [isWhite]
  cases h : (ahead i p).deref == ' ' <;>
    simp only [whiteAt, runs_bind, runs_derefAt, Outcome.done_bind, runs_ite, runs_pure, h,
      Bool.true_or, Bool.false_or, Bool.false_eq_true, if_true, if_false]

@[simp] theorem runs_nextWillBe (v : Char) (p : Cursor) :
    runs (nextWillBe v) p = .done (p.nextWillBe v, p) := by
  rcases p with ⟨_ | ⟨c, _ | ⟨c', cs⟩⟩, m⟩
  · rfl
  · rfl
  · cases hw : isWhite c' with
    | false => simp [nextWillBe, runs_ite, hw, ahead, Cursor.nextWillBe, Cursor.deref]
    | true =>
      cases cs <;> simp [nextWillBe, runs_ite, hw, ahead, Cursor.nextWillBe, Cursor.deref]

/-! ### Scanning -/

theorem runs_passEscape (taken : Bool) (p : Cursor) :
    runs (passEscape taken) p = .done (if taken then ([p.deref], p.incr) else ([], p)) := by
  cases taken <;> rfl

theorem runs_scanLoop_succ (stop : Char → Bool) (escape : Bool) (n : ℕ) (p : Cursor) :
    runs (scanLoop stop escape (n + 1)) p =
      if stop p.deref then .done ([], p)
      else
        let r := if escape && p.deref == '\\' then ([p.deref], p.incr) else ([], p)
        if r.2.incr.isEOL then .done (r.1 ++ [r.2.deref], r.2.incr)
        else
          (runs (scanLoop stop escape n) r.2.incr).map fun s => (r.1 ++ r.2.deref :: s.1, s.2) := by
  simp only [scanLoop, runs_bind, runs_derefAt, ahead, Outcome.done_bind, runs_ite,
    runs_passEscape, runs_pass, runs_isEOL, runs_pure]
  rfl

theorem runs_scanLoop {stop : Char → Bool} {escape : Bool} (hstop : stop NUL = false) {n m : ℕ}
    {s : List Char} (h : s.length < n) :
    runs (scanLoop stop escape n) ⟨s, m⟩ = .done (Cursor.consumeFrom stop escape m s) := by
  induction n generalizing s with
  | zero => exact absurd h (Nat.not_lt_zero _)
  | succ n ih =>
    rw [runs_scanLoop_succ]
    have hnul : (escape && NUL == '\\') = false := by cases escape <;> rfl
    rcases s with _ | ⟨c, _ | ⟨c', cs⟩⟩
    · simp [Cursor.deref, hstop, hnul, Cursor.incr, Cursor.consumeFrom]
    · cases hc : stop c with
      | true => simp [Cursor.deref, hc, Cursor.consumeFrom]
      | false =>
        cases he : escape && c == '\\' <;>
          simp [Cursor.deref, hc, he, Cursor.incr, Cursor.consumeFrom]
    · have hcs : cs.length < n := by
        simp only [List.length_cons] at h
        omega
      cases hc : stop c with
      | true => simp [Cursor.deref, hc, Cursor.consumeFrom]
      | false =>
        cases he : escape && c == '\\' with
        | true =>
          cases cs <;> simp [Cursor.deref, hc, he, Cursor.incr, Cursor.consumeFrom, ih hcs]
        | false =>
          have ih' := ih (s := c' :: cs) (Nat.lt_of_succ_lt_succ h)
          simp [Cursor.deref, hc, he, Cursor.incr, Cursor.consumeFrom, ih']

theorem runs_scan {stop : Char → Bool} {escape : Bool} (hstop : stop NUL = false) (p : Cursor) :
    runs (scan stop escape) p = .done (Cursor.consume stop escape p) := by
  simp [scan, runs_scanLoop hstop, Cursor.consume]

@[simp] theorem runs_consumeIdentifier (p : Cursor) :
    runs consumeIdentifier p = .done (Il2Cpp.consumeIdentifier p) := runs_scan rfl p

@[simp] theorem runs_consumeAssemblyIdentifier (p : Cursor) :
    runs consumeAssemblyIdentifier p = .done (Il2Cpp.consumeAssemblyIdentifier p) := by
  rw [consumeAssemblyIdentifier, runs_bind, runs_emit, Outcome.done_bind]
  exact runs_scan rfl p

@[simp] theorem runs_consumePropertyIdentifier (p : Cursor) :
    runs consumePropertyIdentifier p = .done (Il2Cpp.consumePropertyIdentifier p) := runs_scan rfl p

@[simp] theorem runs_consumePropertyValue (p : Cursor) :
    runs consumePropertyValue p = .done (Il2Cpp.consumePropertyValue p) := runs_scan rfl p

theorem runs_digitsLoop {n m : ℕ} {s : List Char} (h : s.length < n) :
    runs (digitsLoop n) ⟨s, m⟩ =
      .done (s.takeWhile Char.isDigit, ⟨s.dropWhile Char.isDigit, m⟩) := by
  induction n generalizing s with
  | zero => exact absurd h (Nat.not_lt_zero _)
  | succ n ih =>
    rcases s with _ | ⟨c, _ | ⟨c', cs⟩⟩
    · rfl
    · cases hc : c.isDigit <;>
        simp [digitsLoop, runs_ite, ahead, Cursor.deref, Cursor.next, Cursor.incr, hc]
    · have ih' := ih (s := c' :: cs) (Nat.lt_of_succ_lt_succ h)
      cases hc : c.isDigit <;>
        simp [digitsLoop, runs_ite, ahead, Cursor.deref, Cursor.next, Cursor.incr, hc, ih']

@[simp] theorem runs_consumeNumber (p : Cursor) :
    runs consumeNumber p = (Il2Cpp.consumeNumber p).map fun r => ((r.1, r.2.1), r.2.2) := by
  obtain ⟨s, m⟩ := p
  cases h : (Cursor.mk s m).deref.isDigit <;>
    simp [consumeNumber, Il2Cpp.consumeNumber, runs_ite, ahead, h, runs_digitsLoop]

/-! ### Names -/

@[simp] theorem runs_parseArityOptional (p : Cursor) :
    runs parseArityOptional p =
      (Il2Cpp.parseArityOptional p).map fun r => ((r.1, r.2.1), r.2.2) := by
  cases h : p.currentIs '\x60' <;>
    simp [parseArityOptional, Il2Cpp.parseArityOptional, runs_ite, h, Outcome.bind_map,
      Outcome.map_bind]

theorem runs_parseIdentifiers (n : ℕ) (namespaze : Option (List Char)) (p : Cursor) :
    runs (parseIdentifiers n namespaze) p =
      (Il2Cpp.parseIdentifiers n namespaze p).map fun r => ((r.1, r.2.1), r.2.2) := by
  induction n generalizing namespaze p with
  | zero => rfl
  | succ n ih =>
    obtain ⟨identifier, q, hq⟩ : ∃ t q, Il2Cpp.consumeIdentifier p = (t, q) := ⟨_, _, rfl⟩
    cases namespaze <;> cases h : q.currentIs '.' <;>
      simp [parseIdentifiers, Il2Cpp.parseIdentifiers, runs_ite, hq, h, Outcome.bind_map,
        Outcome.map_bind, ih]

@[simp] theorem runs_parseTypeName (p : Cursor) :
    runs parseTypeName p =
      (Il2Cpp.parseTypeName p).map fun r => ((r.1, r.2.1, r.2.2.1), r.2.2.2) := by
  simp [parseTypeName, Il2Cpp.parseTypeName, runs_parseIdentifiers, Outcome.bind_map,
    Outcome.map_bind]

theorem runs_parseNestedTypes (n : ℕ) (nested : List (List Char)) (arity : Int32) (p : Cursor) :
    runs (parseNestedTypes n nested arity) p =
      (Il2Cpp.parseNestedTypes n nested arity p).map fun r => ((r.1, r.2.1), r.2.2) := by
  induction n generalizing nested arity p with
  | zero => rfl
  | succ n ih =>
    cases h : p.currentIs '+' <;>
      simp [parseNestedTypes, Il2Cpp.parseNestedTypes, runs_ite, h, Outcome.bind_map,
        Outcome.map_bind, ih]

@[simp] theorem runs_parseNestedTypeOptional (arity : Int32) (p : Cursor) :
    runs (parseNestedTypeOptional arity) p =
      (Il2Cpp.parseNestedTypeOptional arity p).map fun r => ((r.1, r.2.1), r.2.2) := by
  simp [parseNestedTypeOptional, Il2Cpp.parseNestedTypeOptional, runs_parseNestedTypes]

/-! ### Modifiers -/

theorem parsePointerModifiers_of_isEOL {n : ℕ} {modifiers : List ℤ} {p : Cursor}
    (h : p.isEOL = true) : Il2Cpp.parsePointerModifiers n modifiers p = (modifiers, p) := by
  cases n <;> simp [Il2Cpp.parsePointerModifiers, Cursor.currentIs, h]

theorem runs_parsePointerModifiers {n k : ℕ} {modifiers : List ℤ} {p : Cursor}
    (hn : p.rest.length < n) (hk : p.rest.length ≤ k) :
    runs (parsePointerModifiers n modifiers) p =
      .done (Il2Cpp.parsePointerModifiers k modifiers p) := by
  induction n generalizing k modifiers p with
  | zero => exact absurd hn (Nat.not_lt_zero _)
  | succ n ih =>
    cases hstar : p.currentIs '*' with
    | false =>
      cases k <;> simp [parsePointerModifiers, Il2Cpp.parsePointerModifiers, runs_ite, hstar]
    | true =>
      have hlen := p.next_rest_length true
      have hpos : 0 < p.rest.length := by
        obtain ⟨_ | _, _⟩ := p
        · cases hstar
        · simp
      obtain ⟨k, rfl⟩ := Nat.exists_eq_add_of_lt (Nat.lt_of_lt_of_le hpos hk)
      have ih' : runs (parsePointerModifiers n (modifiers ++ [-1])) (p.next true) =
          .done (Il2Cpp.parsePointerModifiers (0 + k) (modifiers ++ [-1]) (p.next true)) :=
        ih (by omega) (by omega)
      cases hEOL : (p.next true).isEOL with
      | false =>
        simp [parsePointerModifiers, Il2Cpp.parsePointerModifiers, runs_ite, hstar, hEOL, ih']
      | true =>
        simp [parsePointerModifiers, Il2Cpp.parsePointerModifiers, runs_ite, hstar, hEOL,
          parsePointerModifiers_of_isEOL hEOL]

@[simp] theorem runs_parsePointerModifiersOptional (p : Cursor) :
    runs parsePointerModifiersOptional p = .done (Il2Cpp.parsePointerModifiersOptional p) := by
  rw [Il2Cpp.parsePointerModifiersOptional]
  cases h : p.isEOL with
  | true =>
    simp [parsePointerModifiersOptional, runs_ite, h, parsePointerModifiers_of_isEOL]
  | false =>
    simp [parsePointerModifiersOptional, runs_ite, h,
      runs_parsePointerModifiers (Nat.lt_succ_self p.rest.length) (Nat.le_refl _)]

theorem runs_parseRank (n : ℕ) (rank : ℤ) (modifiers : List ℤ) (p : Cursor) :
    runs (parseRank n rank modifiers) p = Il2Cpp.parseRank n rank modifiers p := by
  induction n generalizing rank modifiers p with
  | zero => rfl
  | succ n ih =>
    cases h₁ : p.currentIs ']' <;> cases h₂ : p.currentIs ',' <;> cases h₃ : p.currentIs '*' <;>
      simp [parseRank, Il2Cpp.parseRank, runs_ite, h₁, h₂, h₃, Outcome.map_bind, ih]

@[simp] theorem runs_opensArray (p : Cursor) :
    runs opensArray p = .done (Il2Cpp.opensArray p, p) := by
  cases h₁ : p.nextWillBe ']' <;> cases h₂ : p.nextWillBe ',' <;>
    simp [opensArray, Il2Cpp.opensArray, runs_ite, h₁, h₂]

theorem runs_parseArrayModifiers (n : ℕ) (modifiers : List ℤ) (p : Cursor) :
    runs (parseArrayModifiers n modifiers) p = Il2Cpp.parseArrayModifiers n modifiers p := by
  induction n generalizing modifiers p with
  | zero => rfl
  | succ n ih =>
    cases h₁ : p.skipWhites.isEOL <;> cases h₂ : p.skipWhites.currentIs '[' <;>
      cases h₃ : Il2Cpp.opensArray p.skipWhites <;>
      simp [parseArrayModifiers, Il2Cpp.parseArrayModifiers, runs_ite, h₁, h₂, h₃,
        Outcome.map_bind, runs_parseRank, ih]

@[simp] theorem runs_parseArrayModifierOptional (modifiers : List ℤ) (p : Cursor) :
    runs (parseArrayModifierOptional modifiers) p =
      Il2Cpp.parseArrayModifierOptional modifiers p := by
  simp [parseArrayModifierOptional, Il2Cpp.parseArrayModifierOptional, runs_parseArrayModifiers]

@[simp] theorem runs_parseByRefModifiersOptional (modifiers : List ℤ) (p : Cursor) :
    runs (parseByRefModifiersOptional modifiers) p =
      Il2Cpp.parseByRefModifiersOptional modifiers p := by
  cases h₁ : p.isEOL <;> cases h₂ : p.currentIs '&' <;>
    simp_all [parseByRefModifiersOptional, Il2Cpp.parseByRefModifiersOptional, runs_ite,
      Cursor.currentIs]

/-! ### Assembly names -/

theorem runs_parseProperty (a : ParsedAssemblyName) (p : Cursor) :
    runs (parseProperty a) p = .done (((Il2Cpp.parseProperty p a).1,
      (Il2Cpp.parseProperty p a).2.2), (Il2Cpp.parseProperty p a).2.1) := by
  obtain ⟨name, q, hname⟩ : ∃ t q, Il2Cpp.consumePropertyIdentifier (p.next true) = (t, q) :=
    ⟨_, _, rfl⟩
  cases h₁ : (p.next true).isEOL <;> cases h₂ : q.currentIs '=' <;> cases h₃ : q.next.isEOL <;>
    simp [parseProperty, Il2Cpp.parseProperty, runs_ite, hname, h₁, h₂, h₃]

theorem runs_parseProperties {n k : ℕ} {a : ParsedAssemblyName} {p : Cursor}
    (hn : p.rest.length < n) (hk : p.rest.length ≤ k) :
    runs (parseProperties n a) p = .done (((parsePropertiesFrom k p a).1,
      (parsePropertiesFrom k p a).2.2), (parsePropertiesFrom k p a).2.1) := by
  induction n generalizing k a p with
  | zero => exact absurd hn (Nat.not_lt_zero _)
  | succ n ih =>
    cases hcomma : p.currentIs ',' with
    | false => cases k <;> simp [parseProperties, parsePropertiesFrom, runs_ite, hcomma]
    | true =>
      have hlen := parseProperty_rest_length p a
      have hpos : 0 < p.rest.length := by
        obtain ⟨_ | _, _⟩ := p
        · cases hcomma
        · simp
      obtain ⟨k, rfl⟩ := Nat.exists_eq_add_of_lt (Nat.lt_of_lt_of_le hpos hk)
      simp only [parseProperties, runs_bind, runs_currentIs, hcomma, Outcome.done_bind, if_true,
        runs_parseProperty, parsePropertiesFrom, runs_ite]
      generalize Il2Cpp.parseProperty p a = r at hlen ⊢
      obtain ⟨_ | _, q, b⟩ := r
      · rfl
      · simp only at hlen ⊢
        exact ih (by omega) (by omega)

theorem runs_parsePropertiesOptional (a : ParsedAssemblyName) (p : Cursor) :
    runs (parsePropertiesOptional a) p = .done (((Il2Cpp.parsePropertiesOptional p a).1,
      (Il2Cpp.parsePropertiesOptional p a).2.2), (Il2Cpp.parsePropertiesOptional p a).2.1) := by
  simp [parsePropertiesOptional, Il2Cpp.parsePropertiesOptional,
    runs_parseProperties (Nat.lt_succ_self p.rest.length) (Nat.le_refl _)]

@[simp] theorem runs_parseAssemblyName (a : ParsedAssemblyName) (p : Cursor) :
    runs (parseAssemblyName a) p =
      .done ((Il2Cpp.parseAssemblyName p a).2, (Il2Cpp.parseAssemblyName p a).1) := by
  simp [parseAssemblyName, Il2Cpp.parseAssemblyName, runs_parsePropertiesOptional]

@[simp] theorem runs_parseAssemblyNameOptional (accept : Bool) (p : Cursor) :
    runs (parseAssemblyNameOptional accept) p = Il2Cpp.parseAssemblyNameOptional accept p := by
  cases accept <;> cases h : p.currentIs ',' <;>
    simp [parseAssemblyNameOptional, Il2Cpp.parseAssemblyNameOptional, runs_ite, h,
      Outcome.map_bind]

/-- **`ParseAssembly`.** -/
theorem runs_parseAssembly (name : List Char) :
    Il2Cpp.parseAssembly name =
      match runs parseAssembly ⟨name, 0⟩ with
      | .done (a, _) => some a
      | _ => none := by
  cases h : (Cursor.skipWhites ⟨name, 0⟩).isEOL <;>
    simp [parseAssembly, Il2Cpp.parseAssembly, runs_ite, h]

/-! ### Types -/

theorem runs_parseTypeArgumentsOptional {parse : Parsing (List TypeNameParseInfo)} (arity : Int32)
    (p : Cursor) :
    runs (parseTypeArgumentsOptional parse arity) p =
      Il2Cpp.parseTypeArgumentsOptional (runs parse) arity p := by
  cases h₁ : p.skipWhites.isEOL <;> cases h₂ : p.skipWhites.currentIs '[' <;>
    cases h₃ : Il2Cpp.opensArray p.skipWhites <;>
    simp [parseTypeArgumentsOptional, Il2Cpp.parseTypeArgumentsOptional, runs_ite, h₁, h₂, h₃,
      Outcome.map_bind]

/-- **`Parse`**, and its loop over type arguments. -/
theorem runs_parse (n : ℕ) :
    (∀ accept p, runs (parseInfo n accept) p = Il2Cpp.parseInfo n accept p) ∧
      ∀ infos p, runs (parseTypeArguments n infos) p = Il2Cpp.parseTypeArguments n infos p := by
  induction n with
  | zero => exact ⟨fun _ _ => rfl, fun _ _ => rfl⟩
  | succ n ih =>
    have hargs : runs (parseTypeArguments n []) = Il2Cpp.parseTypeArguments n [] :=
      funext (ih.2 [])
    constructor
    · intro accept p
      cases h : p.skipWhites.isEOL <;>
        simp [parseInfo, Il2Cpp.parseInfo, runs_ite, h, Outcome.map_bind,
          runs_parseTypeArgumentsOptional, hargs]
    · intro infos p
      cases h : p.currentIs '[' <;>
        simp [parseTypeArguments, Il2Cpp.parseTypeArguments, parseSeparator, runs_ite, h,
          Outcome.map_bind, Outcome.ite_bind, Outcome.bind_assoc, ih]

end TypeNameParser

end Il2Cpp
