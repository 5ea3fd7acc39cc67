import Il2Cpp.TypeName.CursorSpec
import Il2Cpp.TypeName.Fuel
import Il2Cpp.TypeName.TracedAgree

/-!
# The parser and the end of the text

The three steps of `TypeNameParser` that do not look for `_end` leave the text where it ends.

* `Exact` : each of the three steps leaves the text where it is not guarded.
* `inBounds_iff_guarded` : a parse stays inside of the text exactly if the three steps are guarded.
* `inBounds_of_end` : which they are unless the text ends with a backslash, an opening bracket, or a
  comma and white space.
* `parseInfo_ends` : the recorded parse is the parse, and it ends.
-/

namespace Il2Cpp.TypeNameParser

/-! ### The guards are needed -/

section

variable {text : List Char} {α : Type}

/-- A step that is not guarded leads out of the text. -/
abbrev Exact (text : List Char) (m : Parsing α) : Prop :=
  Traced.Reflects Event.Guarded (Event.InBounds text) m

theorem derefAt_exact (i : ℕ) : Exact text (derefAt i) :=
  (Traced.Reflects.emit fun _ => trivial).bind fun _ => Traced.Reflects.state.bind fun _ => .pure

theorem isEOL_exact : Exact text isEOL := Traced.Reflects.state.bind fun _ => .pure

theorem currentIs_exact (v : Char) : Exact text (currentIs v) :=
  isEOL_exact.bind fun _ => .ite .pure ((derefAt_exact 0).bind fun _ => .pure)

theorem incr_exact : Exact text incr :=
  Traced.Reflects.update.bind fun _ => .emit fun _ => trivial

theorem skipWhitesLoop_exact (n : ℕ) : Exact text (skipWhitesLoop n) := by
  induction n with
  | zero => exact .stop
  | succ n ih =>
    have hwhite : Exact text currentIsWhite :=
      (currentIs_exact _).bind fun _ => .ite .pure (currentIs_exact _)
    exact hwhite.bind fun _ => .ite
      (isEOL_exact.bind fun _ => .ite .pure (incr_exact.bind fun _ => ih)) .pure

theorem skipWhites_exact : Exact text skipWhites :=
  Traced.Reflects.state.bind fun _ => skipWhitesLoop_exact _

theorem next_exact (skip : Bool) : Exact text (next skip) :=
  incr_exact.bind fun _ => .ite (skipWhites_exact.bind fun _ => isEOL_exact.bind fun _ => .pure)
    (isEOL_exact.bind fun _ => .pure)

theorem advance_exact (skip : Bool) : Exact text (advance skip) :=
  (next_exact skip).bind fun _ => .ite .pure .stop

theorem nextWillBe_exact (v : Char) : Exact text (nextWillBe v) := by
  have hwhite : Exact text (whiteAt 1) :=
    (derefAt_exact 1).bind fun _ => .ite .pure ((derefAt_exact 1).bind fun _ => .pure)
  refine isEOL_exact.bind fun _ => .ite .pure (.emit_bind (fun p hsafe => ?_) ?_)
  · have hread : Event.read (ahead 1 p) ∈ (whiteAt 1 p).1 := Traced.mem_bind (.head _)
    have hne := (hsafe _ (Traced.mem_bind hread)).2
    rw [rest_ahead, ne_eq, List.drop_eq_nil_iff] at hne
    exact Nat.lt_of_not_le hne
  · exact hwhite.bind fun _ => Traced.Reflects.state.bind fun _ => .ite .pure
      ((derefAt_exact _).bind fun _ => .pure)

theorem pass_exact : Exact text pass :=
  Traced.Reflects.state.bind fun _ => incr_exact.bind fun _ => .pure

theorem passEscape_exact {taken : Bool} {f : List Char → Char → Parsing α}
    (hf : ∀ skipped passed, Exact text (f skipped passed)) :
    Exact text (do
      let skipped ← passEscape taken
      let passed ← pass
      f skipped passed) := by
  cases taken with
  | false => exact Traced.Reflects.pure.bind fun _ => pass_exact.bind fun _ => hf _ _
  | true =>
    intro p hsafe
    have htrace : ((do
        let skipped ← passEscape true
        let passed ← pass
        f skipped passed) p).1 =
        [.escape p, .moved p.incr] ++
          ([.moved p.incr.incr] ++ (f [p.deref] p.incr.deref p.incr.incr).1) := rfl
    rw [htrace] at hsafe ⊢
    obtain ⟨-, hsafe⟩ := List.forall_mem_append.1 hsafe
    obtain ⟨hmoved, hrest⟩ := List.forall_mem_append.1 hsafe
    have hguard : 2 ≤ p.rest.length := by
      have hpast := (List.forall_mem_singleton.1 hmoved).past
      obtain ⟨_ | ⟨c, _ | ⟨c', cs⟩⟩, n⟩ := p
      · exact absurd hpast (Nat.succ_ne_zero _)
      · exact absurd hpast (Nat.succ_ne_zero _)
      · simp
    refine List.forall_mem_append.2 ⟨?_, List.forall_mem_append.2 ⟨?_, hf _ _ _ hrest⟩⟩
    · simp [Event.Guarded, hguard]
    · simp [Event.Guarded]

theorem scanLoop_exact (stop : Char → Bool) (escape : Bool) (n : ℕ) :
    Exact text (scanLoop stop escape n) := by
  induction n with
  | zero => exact .stop
  | succ n ih =>
    exact (derefAt_exact 0).bind fun _ => .ite .pure (passEscape_exact fun _ _ =>
      isEOL_exact.bind fun _ => .ite .pure (ih.bind fun _ => .pure))

theorem scan_exact (stop : Char → Bool) (escape : Bool) : Exact text (scan stop escape) :=
  Traced.Reflects.state.bind fun _ => scanLoop_exact _ _ _

theorem consumeAssemblyIdentifier_exact : Exact text consumeAssemblyIdentifier := by
  refine .emit_bind (fun p hsafe => ?_) (scan_exact _ _)
  have hread : Event.read p ∈ (scanLoop (· ∈ assemblyIdentifierStops) true
      (p.rest.length + 1) p).1 := Traced.mem_bind (.head _)
  exact (hsafe _ hread).2

theorem digitsLoop_exact (n : ℕ) : Exact text (digitsLoop n) := by
  induction n with
  | zero => exact .stop
  | succ n ih =>
    exact (derefAt_exact 0).bind fun _ => .ite .pure
      ((next_exact _).bind fun _ => .ite (ih.bind fun _ => .pure) .pure)

theorem parseArityOptional_exact : Exact text parseArityOptional := by
  have hnumber : Exact text consumeNumber :=
    (derefAt_exact 0).bind fun _ => .ite .stop
      (Traced.Reflects.state.bind fun _ => (digitsLoop_exact _).bind fun _ => .pure)
  exact (currentIs_exact _).bind fun _ => .ite
    ((advance_exact _).bind fun _ => hnumber.bind fun _ => .pure) .pure

theorem parseIdentifiers_exact (n : ℕ) (namespaze : Option (List Char)) :
    Exact text (parseIdentifiers n namespaze) := by
  induction n generalizing namespaze with
  | zero => exact .stop
  | succ n ih =>
    exact (scan_exact _ _).bind fun _ => (currentIs_exact _).bind fun _ => .ite
      ((advance_exact _).bind fun _ => ih _) .pure

theorem parseNestedTypes_exact (n : ℕ) (nested : List (List Char)) (arity : Int32) :
    Exact text (parseNestedTypes n nested arity) := by
  induction n generalizing nested arity with
  | zero => exact .stop
  | succ n ih =>
    exact (currentIs_exact _).bind fun _ => .ite ((advance_exact _).bind fun _ =>
      (scan_exact _ _).bind fun _ => parseArityOptional_exact.bind fun _ => ih _ _) .pure

theorem parsePointerModifiers_exact (n : ℕ) (modifiers : List ℤ) :
    Exact text (parsePointerModifiers n modifiers) := by
  induction n generalizing modifiers with
  | zero => exact .stop
  | succ n ih =>
    exact (currentIs_exact _).bind fun _ => .ite
      ((next_exact _).bind fun _ => .ite (ih _) .pure) .pure

theorem parseRank_exact (n : ℕ) (rank : ℤ) (modifiers : List ℤ) :
    Exact text (parseRank n rank modifiers) := by
  induction n generalizing rank modifiers with
  | zero => exact .stop
  | succ n ih =>
    exact (currentIs_exact _).bind fun _ => .ite ((next_exact _).bind fun _ => .pure)
      ((currentIs_exact _).bind fun _ => .ite ((advance_exact _).bind fun _ => ih _ _)
        ((currentIs_exact _).bind fun _ => .ite ((advance_exact _).bind fun _ => ih _ _) .stop))

theorem opensArray_exact : Exact text opensArray :=
  (nextWillBe_exact _).bind fun _ => .ite .pure
    ((nextWillBe_exact _).bind fun _ => .ite .pure (nextWillBe_exact _))

theorem parseArrayModifiers_exact (n : ℕ) (modifiers : List ℤ) :
    Exact text (parseArrayModifiers n modifiers) := by
  induction n generalizing modifiers with
  | zero => exact .stop
  | succ n ih =>
    have hgo : Exact text (do
        advance true
        let modifiers ← parseRank ((← Traced.state).rest.length + 1) 1 modifiers
        parseArrayModifiers n modifiers) :=
      (advance_exact _).bind fun _ => Traced.Reflects.state.bind fun _ =>
        (parseRank_exact _ _ _).bind fun _ => ih _
    exact skipWhites_exact.bind fun _ => isEOL_exact.bind fun _ => .ite .pure
      ((currentIs_exact _).bind fun _ => .ite (opensArray_exact.bind fun _ => .ite hgo .pure) .pure)

theorem parseByRefModifiersOptional_exact (modifiers : List ℤ) :
    Exact text (parseByRefModifiersOptional modifiers) :=
  isEOL_exact.bind fun _ => .ite .pure ((currentIs_exact _).bind fun _ => .ite
    (.ite .stop ((next_exact _).bind fun _ => .pure)) .pure)

theorem parseProperties_exact (n : ℕ) (a : ParsedAssemblyName) :
    Exact text (parseProperties n a) := by
  have hproperty (a : ParsedAssemblyName) : Exact text (parseProperty a) :=
    (next_exact _).bind fun _ => .ite ((scan_exact _ _).bind fun _ =>
      (currentIs_exact _).bind fun _ => .ite ((next_exact _).bind fun _ => .ite
        ((scan_exact _ _).bind fun _ => .pure) .pure) .pure) .pure
  induction n generalizing a with
  | zero => exact .stop
  | succ n ih =>
    exact (currentIs_exact _).bind fun _ => .ite
      ((hproperty a).bind fun _ => .ite (ih _) .pure) .pure

theorem parseAssemblyName_exact (a : ParsedAssemblyName) : Exact text (parseAssemblyName a) :=
  consumeAssemblyIdentifier_exact.bind fun _ => skipWhites_exact.bind fun _ =>
    (Traced.Reflects.state.bind fun _ => parseProperties_exact _ _).bind fun _ => .pure

theorem parseAssemblyNameOptional_exact (accept : Bool) :
    Exact text (parseAssemblyNameOptional accept) :=
  .ite .pure ((currentIs_exact _).bind fun _ => .ite ((advance_exact _).bind fun _ =>
    skipWhites_exact.bind fun _ => parseAssemblyName_exact _) .pure)

theorem parseAssembly_exact : Exact text parseAssembly :=
  skipWhites_exact.bind fun _ => isEOL_exact.bind fun _ => .ite .stop (parseAssemblyName_exact _)

theorem parseTypeArgumentsOptional_exact {parseArguments : Parsing (List TypeNameParseInfo)}
    (hargs : Exact text parseArguments) (arity : Int32) :
    Exact text (parseTypeArgumentsOptional parseArguments arity) := by
  have hgo : Exact text (do
      let typeArguments ← parseArguments
      if (typeArguments.length : ℤ) ≠ arity.toInt then .stop .reject
      else
        let _ ← next true
        return typeArguments) :=
    hargs.bind fun _ => .ite .stop ((next_exact _).bind fun _ => .pure)
  exact skipWhites_exact.bind fun _ => isEOL_exact.bind fun _ => .ite .pure
    ((currentIs_exact _).bind fun _ => .ite (opensArray_exact.bind fun _ => .ite .pure
      ((advance_exact _).bind fun _ => .ite .stop hgo)) .pure)

theorem parseSeparator_exact (accept : Bool) : Exact text (parseSeparator accept) := by
  have hend : Exact text (do
      if ← currentIs ']' then return false
      else if ← currentIs ',' then
        advance true
        return true
      else .stop .reject) :=
    (currentIs_exact _).bind fun _ => .ite .pure ((currentIs_exact _).bind fun _ =>
      .ite ((advance_exact _).bind fun _ => .pure) .stop)
  exact skipWhites_exact.bind fun _ => isEOL_exact.bind fun _ => .ite .stop
    (.ite ((currentIs_exact _).bind fun _ => .ite ((advance_exact _).bind fun _ => hend) .stop)
      hend)

theorem parse_exact (n : ℕ) : (∀ accept, Exact text (parseInfo n accept)) ∧
    ∀ infos, Exact text (parseTypeArguments n infos) := by
  induction n with
  | zero => exact ⟨fun _ => .stop, fun _ => .stop⟩
  | succ n ih =>
    constructor
    · intro accept
      refine skipWhites_exact.bind fun _ => isEOL_exact.bind fun _ => .ite .stop ?_
      refine Traced.Reflects.bind (Traced.Reflects.state.bind fun _ =>
        (parseIdentifiers_exact _ _).bind fun _ => parseArityOptional_exact.bind fun _ => .pure)
        fun _ => ?_
      refine Traced.Reflects.bind (Traced.Reflects.state.bind fun _ =>
        parseNestedTypes_exact _ _ _) fun _ => ?_
      refine (parseTypeArgumentsOptional_exact (ih.2 []) _).bind fun _ => ?_
      refine Traced.Reflects.bind (isEOL_exact.bind fun _ => .ite .pure
        (Traced.Reflects.state.bind fun _ => parsePointerModifiers_exact _ _)) fun _ => ?_
      refine Traced.Reflects.bind (Traced.Reflects.state.bind fun _ =>
        parseArrayModifiers_exact _ _) fun _ => ?_
      exact (parseByRefModifiersOptional_exact _).bind fun _ =>
        (parseAssemblyNameOptional_exact accept).bind fun _ => .pure
    · intro infos
      have hgo (accept : Bool) : Exact text (do
          let info ← parseInfo n accept
          if ← parseSeparator accept then parseTypeArguments n (infos ++ [info])
          else return infos ++ [info]) :=
        (ih.1 accept).bind fun _ => (parseSeparator_exact accept).bind fun _ => .ite (ih.2 _) .pure
      exact (currentIs_exact _).bind fun bracket =>
        .ite ((advance_exact _).bind fun _ => hgo bracket) (hgo bracket)

end

/-! ### The cursor stays in the text -/

theorem guards_guarded (text : List Char) : Guards text Event.Guarded where
  escape _ _ hrest := by simp [Event.Guarded, hrest]
  lookAhead _ _ hrest := by simp [Event.Guarded, hrest]
  assemblyIdentifier _ _ hrest _ := by simp [Event.Guarded, hrest]

theorem guards_true {text : List Char} (hescape : ¬ ['\\'] <:+ text) (hopen : ¬ ['['] <:+ text)
    (hseparator : ¬ EndsInSeparator text) : Guards text fun _ => True where
  escape _ hp hrest := absurd (hrest ▸ hp.suffix) hescape
  lookAhead _ hp hrest := absurd (hrest ▸ hp.suffix) hopen
  assemblyIdentifier _ _ _ hend := absurd hend hseparator

/-- **The recorded parse is the parse, and it ends**: no text exhausts a bound of more than twice its
length. -/
theorem parseInfo_ends {text : List Char} {n : ℕ} (acceptAssemblyName : Bool)
    (hn : 2 * text.length < n) :
    runs (parseInfo n acceptAssemblyName) ⟨text, 0⟩ =
        Il2Cpp.parseInfo n acceptAssemblyName ⟨text, 0⟩ ∧
      Il2Cpp.parseInfo n acceptAssemblyName ⟨text, 0⟩ ≠ .outOfFuel :=
  ⟨(runs_parse n).1 acceptAssemblyName _, parseInfo_ne_outOfFuel acceptAssemblyName hn⟩

theorem parseInfo_ends_bracket : Il2Cpp.parseInfo 5 true ⟨['A', '['], 0⟩ ≠ .outOfFuel :=
  (parseInfo_ends true (by decide)).2

theorem within_start (text : List Char) : Within text ⟨text, 0⟩ := ⟨rfl, List.suffix_refl text⟩

/-- **The cursor stays in the text, and reads before its end, exactly if the three steps that do not
look whether the text ends are not taken at its end.**  This holds of a parse up to any nesting. -/
theorem inBounds_iff_guarded (text : List Char) (n : ℕ) (acceptAssemblyName : Bool) :
    ((∀ e ∈ (parseInfo n acceptAssemblyName ⟨text, 0⟩).1, e.InBounds text) ↔
      ∀ e ∈ (parseInfo n acceptAssemblyName ⟨text, 0⟩).1, e.Guarded) ∧
    ((∀ e ∈ (parseAssembly ⟨text, 0⟩).1, e.InBounds text) ↔
      ∀ e ∈ (parseAssembly ⟨text, 0⟩).1, e.Guarded) := by
  have hg := guards_guarded text
  have hstart := within_start text
  refine ⟨⟨(parse_exact n).1 acceptAssemblyName _, fun h => ?_⟩,
    ⟨parseAssembly_exact _, fun h => ?_⟩⟩
  · exact ((parse_spec hg n).1 acceptAssemblyName _ hstart h).1
  · exact (parseAssembly_spec hg _ hstart h).1

/-- **Texts that end otherwise are safe**: not with a backslash, not with an opening bracket, and
not with a comma, apart from white space. -/
theorem inBounds_of_end {text : List Char} (hescape : ¬ ['\\'] <:+ text) (hopen : ¬ ['['] <:+ text)
    (hseparator : ¬ EndsInSeparator text) (n : ℕ) (acceptAssemblyName : Bool) :
    (∀ e ∈ (parseInfo n acceptAssemblyName ⟨text, 0⟩).1, e.InBounds text) ∧
      ∀ e ∈ (parseAssembly ⟨text, 0⟩).1, e.InBounds text := by
  have hg := guards_true hescape hopen hseparator
  have hstart := within_start text
  exact ⟨((parse_spec hg n).1 acceptAssemblyName _ hstart fun _ _ => trivial).1,
    (parseAssembly_spec hg _ hstart fun _ _ => trivial).1⟩

theorem inBounds_of_end_name : (∀ e ∈ (parseInfo 3 true ⟨['A'], 0⟩).1, e.InBounds ['A']) ∧
    ∀ e ∈ (parseAssembly ⟨['A'], 0⟩).1, e.InBounds ['A'] :=
  inBounds_of_end (by decide) (by decide) (by simp [EndsInSeparator, List.suffix_cons_iff]) 3 true

/-- In a name that ends with a backslash the cursor moves over the terminator. -/
theorem not_inBounds : ¬ ∀ (text : List Char) (n : ℕ) (acceptAssemblyName : Bool),
    ∀ e ∈ (parseInfo n acceptAssemblyName ⟨text, 0⟩).1, e.InBounds text := by
  intro h
  have hmoved : Event.moved ⟨[], 1⟩ ∈ (parseInfo 1 true ⟨['A', '\\'], 0⟩).1 := by decide
  exact absurd (h _ _ _ _ hmoved).past (by decide)

end Il2Cpp.TypeNameParser
