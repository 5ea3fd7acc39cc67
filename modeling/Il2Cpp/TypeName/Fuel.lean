import Il2Cpp.TypeName.Forward

/-!
# The parser ends

The parsing functions recurse on bounds that are large enough: each loop consumes a character in a
round, and a nested type is at least one character shorter than the type that it is in.

* `parseInfo_ne_outOfFuel` : a bound for the nesting that no text exhausts.
-/

namespace Il2Cpp

open Cursor

namespace Outcome

variable {α β : Type}

theorem bind_ne_outOfFuel {x : Outcome α} {f : α → Outcome β} (hx : x ≠ outOfFuel)
    (hf : ∀ a, x = done a → f a ≠ outOfFuel) : x >>= f ≠ outOfFuel := by
  cases x with
  | done a => exact hf a rfl
  | reject => exact nofun
  | lengthError => exact nofun
  | outOfFuel => exact absurd rfl hx

end Outcome

theorem advance_ne_outOfFuel (p : Cursor) (skip : Bool) : advance p skip ≠ .outOfFuel := by
  rw [advance]
  split <;> rintro ⟨⟩

theorem advance_rest_lt {p q : Cursor} {skip : Bool} (h : advance p skip = .done q) :
    q.rest.length < p.rest.length := by
  rw [advance] at h
  split at h
  · cases h
  · rename_i hEOL
    cases h
    have hlen := p.next_rest_length skip
    have hpos : 0 < (p.next skip).rest.length := by
      rw [List.length_pos_iff]
      intro hnil
      rw [isEOL, hnil] at hEOL
      exact hEOL rfl
    omega

theorem parseArityOptional_ne_outOfFuel (p : Cursor) : parseArityOptional p ≠ .outOfFuel := by
  rw [parseArityOptional]
  split
  · refine Outcome.bind_ne_outOfFuel (advance_ne_outOfFuel p false) fun q _ => ?_
    refine Outcome.bind_ne_outOfFuel ?_ fun _ _ => by rintro ⟨⟩
    rw [consumeNumber]
    split <;> rintro ⟨⟩
  · rintro ⟨⟩

theorem parseIdentifiers_ne_outOfFuel {n : ℕ} {namespaze : Option (List Char)} {p : Cursor}
    (h : p.rest.length < n) : parseIdentifiers n namespaze p ≠ .outOfFuel := by
  induction n generalizing namespaze p with
  | zero => exact absurd h (Nat.not_lt_zero _)
  | succ n ih =>
    obtain ⟨identifier, q, hq⟩ : ∃ t q, consumeIdentifier p = (t, q) := ⟨_, _, rfl⟩
    have hlen : q.rest.length ≤ p.rest.length := consume_rest_length hq
    rw [parseIdentifiers]
    simp only [hq]
    split
    · rintro ⟨⟩
    · refine Outcome.bind_ne_outOfFuel (advance_ne_outOfFuel q false) fun r hr => ih ?_
      have := advance_rest_lt hr
      omega

theorem parseTypeName_ne_outOfFuel (p : Cursor) : parseTypeName p ≠ .outOfFuel :=
  Outcome.bind_ne_outOfFuel (parseIdentifiers_ne_outOfFuel (Nat.lt_succ_self _)) fun _ _ =>
    Outcome.bind_ne_outOfFuel (parseArityOptional_ne_outOfFuel _) fun _ _ => nofun

theorem parseNestedTypes_ne_outOfFuel {n : ℕ} {nested : List (List Char)} {arity : Int32}
    {p : Cursor} (h : p.rest.length < n) : parseNestedTypes n nested arity p ≠ .outOfFuel := by
  induction n generalizing nested arity p with
  | zero => exact absurd h (Nat.not_lt_zero _)
  | succ n ih =>
    rw [parseNestedTypes]
    split
    · rintro ⟨⟩
    · refine Outcome.bind_ne_outOfFuel (advance_ne_outOfFuel p false) fun q hq => ?_
      obtain ⟨identifier, r, hr⟩ : ∃ t r, consumeIdentifier q = (t, r) := ⟨_, _, rfl⟩
      simp only [hr]
      refine Outcome.bind_ne_outOfFuel (parseArityOptional_ne_outOfFuel r) ?_
      rintro ⟨suffix, value, s⟩ hs
      have hadvance := advance_rest_lt hq
      have hconsume : r.rest.length ≤ q.rest.length := consume_rest_length hr
      have harity : s.rest.length ≤ r.rest.length := (parseArityOptional_suffix hs).length_le
      exact ih (show s.rest.length < n by omega)

theorem parseRank_ne_outOfFuel {n : ℕ} {rank : ℤ} {modifiers : List ℤ} {p : Cursor}
    (h : p.rest.length < n) : parseRank n rank modifiers p ≠ .outOfFuel := by
  induction n generalizing rank modifiers p with
  | zero => exact absurd h (Nat.not_lt_zero _)
  | succ n ih =>
    have hgo (rank : ℤ) (modifiers : List ℤ) :
        (do parseRank n rank modifiers (← advance p true)) ≠ .outOfFuel := by
      refine Outcome.bind_ne_outOfFuel (advance_ne_outOfFuel p true) fun q hq => ih ?_
      have := advance_rest_lt hq
      omega
    rw [parseRank]
    split
    · rintro ⟨⟩
    · split
      · exact hgo _ _
      · split
        · exact hgo _ _
        · rintro ⟨⟩

theorem parseArrayModifiers_ne_outOfFuel {n : ℕ} {modifiers : List ℤ} {p : Cursor}
    (h : p.rest.length < n) : parseArrayModifiers n modifiers p ≠ .outOfFuel := by
  induction n generalizing modifiers p with
  | zero => exact absurd h (Nat.not_lt_zero _)
  | succ n ih =>
    have hskip := p.skipWhites_rest_length
    rw [parseArrayModifiers]
    simp only
    split_ifs
    · rintro ⟨⟩
    · rintro ⟨⟩
    · rintro ⟨⟩
    · refine Outcome.bind_ne_outOfFuel (advance_ne_outOfFuel _ true) fun q hq => ?_
      refine Outcome.bind_ne_outOfFuel (parseRank_ne_outOfFuel (Nat.lt_succ_self _)) ?_
      rintro ⟨modifiers', r⟩ hr
      have hadvance := advance_rest_lt hq
      have hrank : r.rest.length ≤ q.rest.length := (parseRank_suffix hr).length_le
      exact ih (show r.rest.length < n by omega)

theorem parseByRefModifiersOptional_ne_outOfFuel (modifiers : List ℤ) (p : Cursor) :
    parseByRefModifiersOptional modifiers p ≠ .outOfFuel := by
  rw [parseByRefModifiersOptional]
  split
  · split <;> rintro ⟨⟩
  · rintro ⟨⟩

theorem parseAssemblyNameOptional_ne_outOfFuel (accept : Bool) (p : Cursor) :
    parseAssemblyNameOptional accept p ≠ .outOfFuel := by
  rw [parseAssemblyNameOptional]
  split
  · rintro ⟨⟩
  · split
    · rintro ⟨⟩
    · exact Outcome.bind_ne_outOfFuel (advance_ne_outOfFuel p false) fun _ _ => by rintro ⟨⟩

theorem parseTypeArgumentsOptional_ne_outOfFuel
    {parse : Cursor → Outcome (List TypeNameParseInfo × Cursor)} {arity : Int32} {p : Cursor}
    (h : ∀ q : Cursor, q.rest.length < p.rest.length → parse q ≠ .outOfFuel) :
    parseTypeArgumentsOptional parse arity p ≠ .outOfFuel := by
  have hskip := p.skipWhites_rest_length
  rw [parseTypeArgumentsOptional]
  simp only
  split_ifs
  · rintro ⟨⟩
  · rintro ⟨⟩
  · rintro ⟨⟩
  · exact Outcome.bind_ne_outOfFuel (advance_ne_outOfFuel _ true) fun _ _ => by rintro ⟨⟩
  · refine Outcome.bind_ne_outOfFuel (advance_ne_outOfFuel _ true) fun q hq => ?_
    have hadvance := advance_rest_lt hq
    refine Outcome.bind_ne_outOfFuel (h q (by omega)) fun r _ => ?_
    split <;> rintro ⟨⟩

theorem parse_ne_outOfFuel (n : ℕ) :
    (∀ accept (p : Cursor), 2 * p.rest.length < n → parseInfo n accept p ≠ .outOfFuel) ∧
      ∀ infos (p : Cursor), 2 * p.rest.length + 1 < n →
        parseTypeArguments n infos p ≠ .outOfFuel := by
  induction n with
  | zero =>
    exact ⟨fun _ _ h => absurd h (Nat.not_lt_zero _), fun _ _ h => absurd h (Nat.not_lt_zero _)⟩
  | succ n ih =>
    constructor
    · intro accept p h
      have hskip := p.skipWhites_rest_length
      rw [parseInfo]
      simp only
      split
      · rintro ⟨⟩
      · refine Outcome.bind_ne_outOfFuel (parseTypeName_ne_outOfFuel _) ?_
        rintro ⟨namespaze, name, arity, q⟩ hq
        have hname : q.rest.length ≤ p.skipWhites.rest.length :=
          (parseTypeName_suffix hq).length_le
        refine Outcome.bind_ne_outOfFuel
          (parseNestedTypes_ne_outOfFuel (Nat.lt_succ_self _)) ?_
        rintro ⟨nested, arity', r⟩ hr
        have hnested : r.rest.length ≤ q.rest.length := (parseNestedTypes_suffix hr).length_le
        have hargs (s : Cursor) (hs : s.rest.length < r.rest.length) :
            parseTypeArguments n [] s ≠ .outOfFuel := ih.2 [] s (by omega)
        refine Outcome.bind_ne_outOfFuel (parseTypeArgumentsOptional_ne_outOfFuel hargs) ?_
        rintro ⟨typeArguments, s⟩ -
        refine Outcome.bind_ne_outOfFuel
          (parseArrayModifiers_ne_outOfFuel (Nat.lt_succ_self _)) ?_
        rintro ⟨modifiers, t⟩ -
        refine Outcome.bind_ne_outOfFuel (parseByRefModifiersOptional_ne_outOfFuel _ _) ?_
        rintro ⟨modifiers', u⟩ -
        exact Outcome.bind_ne_outOfFuel (parseAssemblyNameOptional_ne_outOfFuel _ _) fun _ _ =>
          by rintro ⟨⟩
    · intro infos p h
      have hgoesOn (infos : List TypeNameParseInfo) (q : Cursor)
          (hq : q.rest.length ≤ p.rest.length) :
          (if q.currentIs ']' then pure (infos, q)
            else if q.currentIs ',' then do parseTypeArguments n infos (← advance q true)
            else .reject) ≠ .outOfFuel := by
        split
        · rintro ⟨⟩
        · split
          · refine Outcome.bind_ne_outOfFuel (advance_ne_outOfFuel q true) fun r hr => ?_
            have hadvance := advance_rest_lt hr
            exact ih.2 infos r (by omega)
          · rintro ⟨⟩
      rw [parseTypeArguments]
      cases hbracket : p.currentIs '[' with
      | true =>
        simp only [if_true]
        refine Outcome.bind_ne_outOfFuel (advance_ne_outOfFuel p true) fun q hq => ?_
        have hopen := advance_rest_lt hq
        refine Outcome.bind_ne_outOfFuel (ih.1 true q (by omega)) ?_
        rintro ⟨info, r⟩ hr
        have hinfo : r.rest.length ≤ q.rest.length := (parseInfo_suffix hr).length_le
        have hskip := r.skipWhites_rest_length
        simp only
        split
        · rintro ⟨⟩
        · split
          · refine Outcome.bind_ne_outOfFuel (advance_ne_outOfFuel _ true) fun s hs => ?_
            have hclose := advance_rest_lt hs
            exact hgoesOn _ s (by omega)
          · rintro ⟨⟩
      | false =>
        simp only [Bool.false_eq_true, if_false, Outcome.done_bind]
        refine Outcome.bind_ne_outOfFuel (ih.1 false p (by omega)) ?_
        rintro ⟨info, r⟩ hr
        have hinfo : r.rest.length ≤ p.rest.length := (parseInfo_suffix hr).length_le
        have hskip := r.skipWhites_rest_length
        simp only
        split
        · rintro ⟨⟩
        · exact hgoesOn _ _ (by omega)

/-- **The parser of a type ends**: no text exhausts a bound of more than twice its length. -/
theorem parseInfo_ne_outOfFuel {n : ℕ} {p : Cursor} (accept : Bool) (h : 2 * p.rest.length < n) :
    parseInfo n accept p ≠ .outOfFuel :=
  (parse_ne_outOfFuel n).1 accept p h

end Il2Cpp
