import Il2Cpp.TypeName.TracedParser

/-!
# Where the parser reads

`TypeNameParser` looks for `_end` before it reads, but for three steps: a scan that takes a
backslash steps over the character behind it, `NextWillBe` reads the character behind `_p`, and
`ConsumeAssemblyIdentifier` reads the character that white space may have ended at.

* `Event.InBounds`, `Event.Guarded` : a read or movement inside of the text, and the three steps
  where the text goes on.
* `Spec` : the triples of the parsing functions, under `Guards` for the three steps.
* `parse_spec`, `parseAssembly_spec` : guarded parses stay inside of the text.
-/

namespace Il2Cpp.TypeNameParser

open Cursor (isWhite)

/-- The position is between the start of the text and `_end`. -/
structure Within (text : List Char) (p : Cursor) : Prop where
  past : p.past = 0
  suffix : p.rest <:+ text

/-- A read is before `_end`, and a movement does not leave the text. -/
def Event.InBounds (text : List Char) : Event → Prop
  | read p => Within text p ∧ p.rest ≠ []
  | moved p => Within text p
  | escape _ | lookAhead _ | assemblyIdentifier _ => True

/-- The three steps that do not look whether the text ends are not at its end: there is a character
behind the backslash, and behind the one where `NextWillBe` looks, and a character where the name of
an assembly begins. -/
def Event.Guarded : Event → Prop
  | read _ | moved _ => True
  | escape p | lookAhead p => 2 ≤ p.rest.length
  | assemblyIdentifier p => p.rest ≠ []

/-- The text ends with a comma, apart from white space. -/
def EndsInSeparator (text : List Char) : Prop :=
  ∃ ws, (∀ c ∈ ws, isWhite c = true) ∧ ',' :: ws <:+ text

/-- A property of events that excludes the three steps at the end of the text. -/
structure Guards (text : List Char) (good : Event → Prop) : Prop where
  escape : ∀ p, Within text p → p.rest = ['\\'] → ¬ good (.escape p)
  lookAhead : ∀ p, Within text p → p.rest = ['['] → ¬ good (.lookAhead p)
  assemblyIdentifier : ∀ p, Within text p → p.rest = [] → EndsInSeparator text →
    ¬ good (.assemblyIdentifier p)

section

variable {text : List Char} {good : Event → Prop} {P : Cursor → Prop} {α : Type}

/-- A triple about the events of a parsing function. -/
abbrev Spec (text : List Char) (good : Event → Prop) (P : Cursor → Prop) (m : Parsing α)
    (Q : α → Cursor → Prop) : Prop :=
  Traced.Triple good (Event.InBounds text) P m Q

/-- The position is before `_end`. -/
def Before (text : List Char) (p : Cursor) : Prop := Within text p ∧ p.rest ≠ []

theorem Within.incr {p : Cursor} (h : Within text p) (hne : p.rest ≠ []) :
    Within text p.incr := by
  obtain ⟨_ | ⟨c, cs⟩, n⟩ := p
  · exact absurd rfl hne
  · exact ⟨h.past, (List.suffix_cons c cs).trans h.suffix⟩

/-! ### Reading and moving -/

theorem isEOL_spec : Spec text good P isEOL fun b p => P p ∧ b = p.isEOL := by
  intro p hp _
  refine ⟨nofun, fun b q hr => ?_⟩
  cases hr
  exact ⟨hp, rfl⟩

theorem derefAt_zero_spec (hP : ∀ p, P p → Before text p) :
    Spec text good P (derefAt 0) fun c p => P p ∧ p.rest.head? = some c := by
  intro p hp _
  obtain ⟨hwithin, hne⟩ := hP p hp
  refine ⟨fun e he => ?_, fun c q hr => ?_⟩
  · obtain rfl := List.mem_singleton.1 he
    exact ⟨hwithin, hne⟩
  · cases hr
    obtain ⟨_ | ⟨c, cs⟩, n⟩ := p
    · exact absurd rfl hne
    · exact ⟨hp, rfl⟩

theorem currentIs_spec (hP : ∀ p, P p → Within text p) (v : Char) :
    Spec text good P (currentIs v) fun b p => P p ∧ (b = true → p.rest.head? = some v) := by
  refine isEOL_spec.bind fun b => .ite (fun hb => .pure fun p hp => ⟨hp.1, by rintro ⟨⟩⟩) fun hb => ?_
  have hread : Spec text good (fun p => P p ∧ b = p.isEOL) (derefAt 0)
      fun c p => (P p ∧ b = p.isEOL) ∧ p.rest.head? = some c := by
    refine derefAt_zero_spec fun p hp => ⟨hP p hp.1, ?_⟩
    obtain ⟨_ | _, _⟩ := p
    · exact absurd hp.2 hb
    · simp
  refine hread.bind fun c => .pure fun p hp => ⟨hp.1.1, fun hc => ?_⟩
  rw [hp.2, (beq_iff_eq.1 hc)]

theorem incr_spec {Q : Cursor → Prop} (hP : ∀ p, P p → Before text p)
    (hQ : ∀ p, P p → Q p.incr) : Spec text good P incr fun _ p => Within text p ∧ Q p := by
  have hupdate : Spec text good P (Traced.update Cursor.incr) fun _ p => Within text p ∧ Q p :=
    .update fun p hp => ⟨(hP p hp).1.incr (hP p hp).2, hQ p hp⟩
  refine hupdate.bind fun _ => (Traced.Triple.emit fun p hp _ => hp.1).weaken (fun _ hp => hp)
    fun _ p hp => hp.1

theorem state_spec {f : Cursor → Parsing α} {Q : α → Cursor → Prop}
    (h : ∀ p, Spec text good P (f p) Q) : Spec text good P (Traced.state >>= f) Q :=
  Traced.Triple.state.bind fun p => (h p).weaken (fun _ hp => hp.1) fun _ _ hq => hq

theorem currentIsWhite_spec (hP : ∀ p, P p → Within text p) :
    Spec text good P currentIsWhite fun b p =>
      P p ∧ (b = true → ∃ c, isWhite c = true ∧ p.rest.head? = some c) := by
  refine (currentIs_spec hP ' ').bind fun b => .ite (fun hb => .pure fun p hp => ⟨hp.1, fun _ =>
    ⟨' ', rfl, hp.2 hb⟩⟩) fun _ => ?_
  refine (currentIs_spec hP '\t').weaken (fun p hp => hp.1) fun b p hp => ⟨hp.1, fun hb => ?_⟩
  exact ⟨'\t', rfl, hp.2 hb⟩

theorem skipWhitesLoop_spec {I : Cursor → Prop}
    (hI : ∀ c cs, isWhite c = true → I ⟨c :: cs, 0⟩ → I ⟨cs, 0⟩) (n : ℕ) :
    Spec text good (fun p => Within text p ∧ I p) (skipWhitesLoop n)
      fun _ p => Within text p ∧ I p := by
  induction n with
  | zero => exact .stop
  | succ n ih =>
    refine (currentIsWhite_spec fun p hp => hp.1).bind fun white => .ite (fun hwhite => ?_)
      fun _ => .pure fun p hp => hp.1
    refine isEOL_spec.bind fun eol => .ite (fun _ => .pure fun p hp => hp.1.1) fun _ => ?_
    refine (incr_spec (Q := I) (fun p hp => ?_) fun p hp => ?_).bind fun _ => ih
    · obtain ⟨c, -, hc⟩ := hp.1.2 hwhite
      refine ⟨hp.1.1.1, fun hnil => ?_⟩
      rw [hnil] at hc
      cases hc
    · obtain ⟨c, hc, hhead⟩ := hp.1.2 hwhite
      obtain ⟨⟨hwithin, hi⟩, -⟩ := hp.1
      obtain ⟨_ | ⟨c', cs⟩, n⟩ := p
      · cases hhead
      · cases hhead
        obtain rfl : n = 0 := hwithin.past
        exact hI c cs hc hi

theorem skipWhites_spec' {I : Cursor → Prop}
    (hI : ∀ c cs, isWhite c = true → I ⟨c :: cs, 0⟩ → I ⟨cs, 0⟩) :
    Spec text good (fun p => Within text p ∧ I p) skipWhites fun _ p => Within text p ∧ I p :=
  state_spec fun _ => skipWhitesLoop_spec hI _

theorem skipWhites_spec : Spec text good (Within text) skipWhites fun _ => Within text :=
  (skipWhites_spec' (I := fun _ => True) fun _ _ _ _ => trivial).weaken
    (fun _ hp => ⟨hp, trivial⟩) fun _ _ hp => hp.1

theorem next_spec (skip : Bool) :
    Spec text good (Before text) (next skip)
      fun b p => Within text p ∧ (b = true → p.rest ≠ []) := by
  refine (incr_spec (Q := fun _ => True) (fun _ hp => hp) fun _ _ => trivial).bind fun _ => ?_
  have hrest : Spec text good (Within text) (do return !(← isEOL))
      fun b p => Within text p ∧ (b = true → p.rest ≠ []) := by
    refine isEOL_spec.bind fun b => .pure fun p hp => ⟨hp.1, fun hb hnil => ?_⟩
    obtain ⟨_, n⟩ := p
    cases hnil
    rw [hp.2] at hb
    cases hb
  cases skip with
  | true => exact (skipWhites_spec.weaken (fun _ hp => hp.1) fun _ _ hp => hp).bind fun _ => hrest
  | false => exact hrest.weaken (fun _ hp => hp.1) fun _ _ hp => hp

theorem advance_spec (skip : Bool) :
    Spec text good (Before text) (advance skip) fun _ => Before text :=
  (next_spec skip).bind fun _ => .ite (fun hb => .pure fun _ hp => ⟨hp.1, hp.2 hb⟩) fun _ => .stop

theorem before_of_head {p : Cursor} {v : Char} (h : Within text p) (hv : p.rest.head? = some v) :
    Before text p := by
  refine ⟨h, fun hnil => ?_⟩
  rw [hnil] at hv
  cases hv

theorem ifCurrentIs_spec {v : Char} {m m' : Parsing α} {Q : α → Cursor → Prop}
    (hm : Spec text good (fun p => Within text p ∧ p.rest.head? = some v) m Q)
    (hm' : Spec text good (Within text) m' Q) :
    Spec text good (Within text) (do if ← currentIs v then m else m') Q :=
  (currentIs_spec (fun _ hp => hp) v).bind fun _ => .ite
    (fun hb => hm.weaken (fun _ hp => ⟨hp.1, hp.2 hb⟩) fun _ _ hq => hq)
    fun _ => hm'.weaken (fun _ hp => hp.1) fun _ _ hq => hq

theorem ifCurrentIs_before {v : Char} {m m' : Parsing α} {Q : α → Cursor → Prop}
    (hm : Spec text good (Before text) m Q) (hm' : Spec text good (Within text) m' Q) :
    Spec text good (Within text) (do if ← currentIs v then m else m') Q :=
  ifCurrentIs_spec (hm.weaken (fun _ hp => before_of_head hp.1 hp.2) fun _ _ hq => hq) hm'

theorem ifNext_spec {skip : Bool} {m m' : Parsing α} {Q : α → Cursor → Prop}
    (hm : Spec text good (Before text) m Q) (hm' : Spec text good (Within text) m' Q) :
    Spec text good (Before text) (do if ← next skip then m else m') Q :=
  (next_spec skip).bind fun _ => .ite
    (fun hb => hm.weaken (fun _ hp => ⟨hp.1, hp.2 hb⟩) fun _ _ hq => hq)
    fun _ => hm'.weaken (fun _ hp => hp.1) fun _ _ hq => hq

theorem next_bind_spec {skip : Bool} {m : Parsing α} {Q : α → Cursor → Prop}
    (hm : Spec text good (Within text) m Q) :
    Spec text good (Before text) (do let _ ← next skip; m) Q :=
  (next_spec skip).bind fun _ => hm.weaken (fun _ hp => hp.1) fun _ _ hq => hq

theorem ifEOL_spec {m m' : Parsing α} {Q : α → Cursor → Prop}
    (hm : Spec text good (Within text) m Q) (hm' : Spec text good (Before text) m' Q) :
    Spec text good (Within text) (do if ← isEOL then m else m') Q := by
  refine isEOL_spec.bind fun b => .ite
    (fun _ => hm.weaken (fun _ hp => hp.1) fun _ _ hq => hq)
    fun hb => hm'.weaken (fun p hp => ⟨hp.1, fun hnil => hb ?_⟩) fun _ _ hq => hq
  obtain ⟨_, n⟩ := p
  cases hnil
  exact hp.2

/-! ### Scanning and looking ahead -/

theorem pass_spec {Q : Cursor → Prop} (hP : ∀ p, P p → Before text p) (hQ : ∀ p, P p → Q p.incr) :
    Spec text good P pass fun _ p => Within text p ∧ Q p :=
  state_spec fun _ => (incr_spec hP hQ).bind fun _ => .pure fun _ hp => hp

theorem passEscape_spec (hg : Guards text good) (taken : Bool) :
    Spec text good (fun p => Before text p ∧ (taken = true → p.rest.head? = some '\\'))
      (passEscape taken) fun _ => Before text := by
  refine .ite (fun htaken => ?_) fun _ => .pure fun p hp => hp.1
  refine (Traced.Triple.emit fun _ _ _ => trivial).bind fun _ => ?_
  refine (pass_spec (Q := fun p => p.rest ≠ []) (fun p hp => hp.1.1) fun p hp => ?_).bind
    fun _ => .pure fun p hp => hp
  obtain ⟨⟨⟨hwithin, -⟩, hhead⟩, hgood⟩ := hp
  have hhead := hhead htaken
  obtain ⟨_ | ⟨c, _ | ⟨c', cs⟩⟩, n⟩ := p
  · cases hhead
  · cases hhead
    exact absurd hgood (hg.escape _ hwithin rfl)
  · exact List.cons_ne_nil c' cs

theorem scanLoop_spec (hg : Guards text good) (stop : Char → Bool) (escape : Bool) (n : ℕ) :
    Spec text good (Before text) (scanLoop stop escape n) fun _ => Within text := by
  induction n with
  | zero => exact .stop
  | succ n ih =>
    refine (derefAt_zero_spec fun _ hp => hp).bind fun c => .ite (fun _ => .pure fun p hp => hp.1.1)
      fun _ => ?_
    have hescape := passEscape_spec hg (escape && c == '\\')
    refine (hescape.weaken (fun p hp => ⟨hp.1, fun h => ?_⟩) fun _ _ hq => hq).bind fun _ => ?_
    · rw [hp.2]
      simp only [Bool.and_eq_true, beq_iff_eq] at h
      rw [h.2]
    · refine (pass_spec (Q := fun _ => True) (fun _ hp => hp) fun _ _ => trivial).bind fun _ => ?_
      have hrest (last : List Char) (before : List Char → List Char) :
          Spec text good (Within text) (do
            if ← isEOL then return last else return before (← scanLoop stop escape n))
            fun _ => Within text :=
        ifEOL_spec (.pure fun _ hp => hp) (ih.bind fun _ => .pure fun _ hp => hp)
      exact (hrest _ _).weaken (fun _ hp => hp.1) fun _ _ hq => hq

theorem scan_spec (hg : Guards text good) (stop : Char → Bool) (escape : Bool) :
    Spec text good (Before text) (scan stop escape) fun _ => Within text :=
  state_spec fun _ => scanLoop_spec hg stop escape _

theorem rest_ahead (i : ℕ) (p : Cursor) : (ahead i p).rest = p.rest.drop i := by
  induction i generalizing p with
  | zero => rfl
  | succ i ih =>
    obtain ⟨_ | ⟨c, cs⟩, n⟩ := p
    · rw [ahead, ih]
      simp [Cursor.incr]
    · rw [ahead, ih]
      rfl

theorem past_ahead {i : ℕ} {p : Cursor} (h : i ≤ p.rest.length) : (ahead i p).past = p.past := by
  induction i generalizing p with
  | zero => rfl
  | succ i ih =>
    obtain ⟨_ | ⟨c, cs⟩, n⟩ := p
    · cases h
    · exact ih (Nat.le_of_succ_le_succ h)

theorem Within.ahead {p : Cursor} {i : ℕ} (h : Within text p) (hi : i < p.rest.length) :
    Before text (ahead i p) := by
  refine ⟨⟨?_, ?_⟩, ?_⟩
  · rw [past_ahead (Nat.le_of_lt hi), h.past]
  · rw [rest_ahead]
    exact (List.drop_suffix i p.rest).trans h.suffix
  · rw [rest_ahead]
    simpa using hi

theorem derefAt_spec {i : ℕ} (hP : ∀ p, P p → Before text (ahead i p)) :
    Spec text good P (derefAt i) fun _ => P := by
  intro p hp _
  refine ⟨fun e he => ?_, fun c q hr => ?_⟩
  · obtain rfl := List.mem_singleton.1 he
    exact hP p hp
  · cases hr
    exact hp

theorem nextWillBe_spec (hg : Guards text good) (v : Char) :
    Spec text good (fun p => Within text p ∧ p.rest.head? = some '[') (nextWillBe v)
      fun _ p => Within text p ∧ p.rest.head? = some '[' := by
  refine isEOL_spec.bind fun b => .ite (fun _ => .pure fun p hp => hp.1) fun _ => ?_
  have hemit : Spec text good
      (fun p => (Within text p ∧ p.rest.head? = some '[') ∧ b = p.isEOL) (Traced.emit .lookAhead)
      fun _ p => (Within text p ∧ p.rest.head? = some '[') ∧ 1 < p.rest.length := by
    refine (Traced.Triple.emit fun _ _ _ => trivial).weaken (fun _ hp => hp)
      fun _ p hp => ⟨hp.1.1, ?_⟩
    obtain ⟨⟨⟨hwithin, hhead⟩, -⟩, hgood⟩ := hp
    obtain ⟨_ | ⟨c, _ | ⟨c', cs⟩⟩, n⟩ := p
    · cases hhead
    · cases hhead
      exact absurd hgood (hg.lookAhead _ hwithin rfl)
    · simp
  have hread : Spec text good
      (fun p => (Within text p ∧ p.rest.head? = some '[') ∧ 1 < p.rest.length) (derefAt 1)
      fun _ p => (Within text p ∧ p.rest.head? = some '[') ∧ 1 < p.rest.length :=
    derefAt_spec fun p hp => hp.1.1.ahead hp.2
  have hwhite : Spec text good
      (fun p => (Within text p ∧ p.rest.head? = some '[') ∧ 1 < p.rest.length) (whiteAt 1)
      fun _ p => Within text p ∧ p.rest.head? = some '[' :=
    hread.bind fun _ => .ite (fun _ => .pure fun p hp => hp.1)
      fun _ => hread.bind fun _ => .pure fun p hp => hp.1
  refine hemit.bind fun _ => hwhite.bind fun white => ?_
  refine Traced.Triple.state.bind fun q => .ite (fun _ => .pure fun p hp => hp.1) fun hEOL => ?_
  refine (derefAt_spec fun p hp => hp.1.1.ahead ?_).bind fun _ => .pure fun p hp => hp.1
  rw [hp.2] at hEOL
  have hrest := rest_ahead (if white = true then 2 else 1) p
  rw [Cursor.isEOL, hrest] at hEOL
  simpa using hEOL

theorem opensArray_spec (hg : Guards text good) :
    Spec text good (fun p => Within text p ∧ p.rest.head? = some '[') opensArray
      fun _ p => Within text p ∧ p.rest.head? = some '[' :=
  (nextWillBe_spec hg _).bind fun _ => .ite (fun _ => .pure fun _ hp => hp) fun _ =>
    (nextWillBe_spec hg _).bind fun _ => .ite (fun _ => .pure fun _ hp => hp) fun _ =>
      nextWillBe_spec hg _

/-! ### The parsing functions -/

theorem done_spec {Q : Cursor → Prop} {a : α} :
    Spec text good Q (pure a : Parsing α) fun _ => Q :=
  .pure fun _ hp => hp

theorem digitsLoop_spec (n : ℕ) :
    Spec text good (Before text) (digitsLoop n) fun _ => Within text := by
  induction n with
  | zero => exact .stop
  | succ n ih =>
    refine (derefAt_zero_spec fun _ hp => hp).bind fun c => .ite
      (fun _ => .pure fun p hp => hp.1.1) fun _ => ?_
    have hgo (last : List Char) (before : List Char → List Char) :
        Spec text good (Before text) (do
          if ← next then return before (← digitsLoop n) else return last) fun _ => Within text :=
      ifNext_spec (ih.bind fun _ => done_spec) done_spec
    exact (hgo _ _).weaken (fun _ hp => hp.1) fun _ _ hq => hq

theorem consumeNumber_spec :
    Spec text good (Before text) consumeNumber fun _ => Within text := by
  refine (derefAt_zero_spec fun _ hp => hp).bind fun _ => .ite (fun _ => .stop) fun _ => ?_
  refine state_spec fun _ => ?_
  exact ((digitsLoop_spec _).weaken (fun _ hp => hp.1) fun _ _ hq => hq).bind fun _ => done_spec

theorem parseArityOptional_spec :
    Spec text good (Within text) parseArityOptional fun _ => Within text :=
  ifCurrentIs_before
    ((advance_spec _).bind fun _ => consumeNumber_spec.bind fun _ => done_spec) done_spec

theorem parsePointerModifiers_spec (n : ℕ) (modifiers : List ℤ) :
    Spec text good (Within text) (parsePointerModifiers n modifiers) fun _ => Within text := by
  induction n generalizing modifiers with
  | zero => exact .stop
  | succ n ih =>
    exact ifCurrentIs_before
      (ifNext_spec ((ih _).weaken (fun _ hp => hp.1) fun _ _ hq => hq) done_spec) done_spec

theorem parsePointerModifiersOptional_spec :
    Spec text good (Within text) parsePointerModifiersOptional fun _ => Within text :=
  ifEOL_spec done_spec (state_spec fun _ =>
    (parsePointerModifiers_spec _ _).weaken (fun _ hp => hp.1) fun _ _ hq => hq)

theorem parseRank_spec (n : ℕ) (rank : ℤ) (modifiers : List ℤ) :
    Spec text good (Within text) (parseRank n rank modifiers) fun _ => Within text := by
  induction n generalizing rank modifiers with
  | zero => exact .stop
  | succ n ih =>
    have hgo (rank : ℤ) (modifiers : List ℤ) : Spec text good (Before text) (do
        advance true
        parseRank n rank modifiers) fun _ => Within text :=
      (advance_spec _).bind fun _ => (ih _ _).weaken (fun _ hp => hp.1) fun _ _ hq => hq
    exact ifCurrentIs_before (next_bind_spec done_spec)
      (ifCurrentIs_before (hgo _ _) (ifCurrentIs_before (hgo _ _) .stop))

theorem parseByRefModifiersOptional_spec (modifiers : List ℤ) :
    Spec text good (Within text) (parseByRefModifiersOptional modifiers) fun _ => Within text :=
  ifEOL_spec done_spec ((ifCurrentIs_before
    (.ite (fun _ => .stop) fun _ => next_bind_spec done_spec) done_spec).weaken
    (fun _ hp => hp.1) fun _ _ hq => hq)

theorem parseProperty_spec (hg : Guards text good) (a : ParsedAssemblyName) :
    Spec text good (Before text) (parseProperty a) fun _ => Within text := by
  have hname := scan_spec hg (· == '=') false
  have hvalue := scan_spec hg (fun c => c == ',' || c == ']') false
  exact ifNext_spec (hname.bind fun _ => ifCurrentIs_before
    (ifNext_spec (hvalue.bind fun _ => done_spec) done_spec) done_spec) done_spec

theorem parseProperties_spec (hg : Guards text good) (n : ℕ) (a : ParsedAssemblyName) :
    Spec text good (Within text) (parseProperties n a) fun _ => Within text := by
  induction n generalizing a with
  | zero => exact .stop
  | succ n ih =>
    exact ifCurrentIs_before ((parseProperty_spec hg a).bind fun r =>
      .ite (fun _ => ih r.2) fun _ => done_spec) done_spec

theorem parsePropertiesOptional_spec (hg : Guards text good) (a : ParsedAssemblyName) :
    Spec text good (Within text) (parsePropertiesOptional a) fun _ => Within text :=
  state_spec fun _ => parseProperties_spec hg _ a

/-! ### Assembly names -/

/-- Between the position and the comma before it there is only white space. -/
def AfterSeparator (text : List Char) (p : Cursor) : Prop :=
  ∃ ws, (∀ c ∈ ws, isWhite c = true) ∧ ',' :: (ws ++ p.rest) <:+ text

theorem AfterSeparator.endsInSeparator {p : Cursor} (h : AfterSeparator text p)
    (hnil : p.rest = []) : EndsInSeparator text := by
  obtain ⟨ws, hws, hsuffix⟩ := h
  rw [hnil, List.append_nil] at hsuffix
  exact ⟨ws, hws, hsuffix⟩

theorem AfterSeparator.skip {c : Char} {cs : List Char} (hc : isWhite c = true)
    (h : AfterSeparator text ⟨c :: cs, 0⟩) : AfterSeparator text ⟨cs, 0⟩ := by
  obtain ⟨ws, hws, hsuffix⟩ := h
  refine ⟨ws ++ [c], fun c' hc' => ?_, by simpa using hsuffix⟩
  rcases List.mem_append.1 hc' with h | h
  · exact hws c' h
  · rw [List.mem_singleton.1 h, hc]

theorem consumeAssemblyIdentifier_spec (hg : Guards text good) :
    Spec text good (fun p => Within text p ∧ (p.rest = [] → EndsInSeparator text))
      consumeAssemblyIdentifier fun _ => Within text := by
  refine (Traced.Triple.emit fun _ _ _ => trivial).bind fun _ => ?_
  refine (scan_spec hg _ _).weaken (fun p hp => ⟨hp.1.1, fun hnil => ?_⟩) fun _ _ hq => hq
  exact hg.assemblyIdentifier p hp.1.1 hnil (hp.1.2 hnil) hp.2

theorem parseAssemblyName_spec (hg : Guards text good) (a : ParsedAssemblyName) :
    Spec text good (fun p => Within text p ∧ (p.rest = [] → EndsInSeparator text))
      (parseAssemblyName a) fun _ => Within text :=
  (consumeAssemblyIdentifier_spec hg).bind fun _ => skipWhites_spec.bind fun _ =>
    (parsePropertiesOptional_spec hg _).bind fun _ => done_spec

theorem advance_separator_spec :
    Spec text good (fun p => Within text p ∧ p.rest.head? = some ',') (advance false)
      fun _ p => Within text p ∧ AfterSeparator text p := by
  have hincr : Spec text good (fun p => Within text p ∧ p.rest.head? = some ',') incr
      fun _ p => Within text p ∧ AfterSeparator text p := by
    refine incr_spec (fun p hp => before_of_head hp.1 hp.2) fun p hp => ?_
    obtain ⟨hwithin, hhead⟩ := hp
    obtain ⟨_ | ⟨c, cs⟩, n⟩ := p
    · cases hhead
    · cases hhead
      exact ⟨[], nofun, hwithin.suffix⟩
  have hnext : Spec text good (fun p => Within text p ∧ p.rest.head? = some ',') (next false)
      fun _ p => Within text p ∧ AfterSeparator text p :=
    hincr.bind fun _ => isEOL_spec.bind fun _ => .pure fun _ hp => hp.1
  exact hnext.bind fun _ => .ite (fun _ => done_spec) fun _ => .stop

theorem parseAssemblyNameOptional_spec (hg : Guards text good) (accept : Bool) :
    Spec text good (Within text) (parseAssemblyNameOptional accept) fun _ => Within text := by
  refine .ite (fun _ => done_spec) fun _ => ifCurrentIs_spec ?_ done_spec
  refine advance_separator_spec.bind fun _ => ?_
  refine (skipWhites_spec' fun c cs hc hp => hp.skip hc).bind fun _ => ?_
  exact (parseAssemblyName_spec hg _).weaken (fun p hp => ⟨hp.1, hp.2.endsInSeparator⟩)
    fun _ _ hq => hq

theorem parseAssembly_spec (hg : Guards text good) :
    Spec text good (Within text) parseAssembly fun _ => Within text :=
  skipWhites_spec.bind fun _ => ifEOL_spec .stop
    ((parseAssemblyName_spec hg _).weaken (fun _ hp => ⟨hp.1, fun hnil => absurd hnil hp.2⟩)
      fun _ _ hq => hq)

/-! ### Types -/

theorem parseIdentifiers_spec (hg : Guards text good) (n : ℕ) (namespaze : Option (List Char)) :
    Spec text good (Before text) (parseIdentifiers n namespaze) fun _ => Within text := by
  induction n generalizing namespaze with
  | zero => exact .stop
  | succ n ih =>
    exact (scan_spec hg _ _).bind fun _ => ifCurrentIs_before
      ((advance_spec _).bind fun _ => ih _) done_spec

theorem parseTypeName_spec (hg : Guards text good) :
    Spec text good (Before text) parseTypeName fun _ => Within text :=
  state_spec fun _ => (parseIdentifiers_spec hg _ _).bind fun _ =>
    parseArityOptional_spec.bind fun _ => done_spec

theorem parseNestedTypes_spec (hg : Guards text good) (n : ℕ) (nested : List (List Char))
    (arity : Int32) :
    Spec text good (Within text) (parseNestedTypes n nested arity) fun _ => Within text := by
  induction n generalizing nested arity with
  | zero => exact .stop
  | succ n ih =>
    exact ifCurrentIs_before ((advance_spec _).bind fun _ => (scan_spec hg _ _).bind fun _ =>
      parseArityOptional_spec.bind fun _ => ih _ _) done_spec

theorem parseArrayModifiers_spec (hg : Guards text good) (n : ℕ) (modifiers : List ℤ) :
    Spec text good (Within text) (parseArrayModifiers n modifiers) fun _ => Within text := by
  induction n generalizing modifiers with
  | zero => exact .stop
  | succ n ih =>
    refine skipWhites_spec.bind fun _ => ifEOL_spec done_spec ?_
    refine (ifCurrentIs_spec ?_ done_spec).weaken (fun _ hp => hp.1) fun _ _ hq => hq
    refine (opensArray_spec hg).bind fun _ => .ite (fun _ => ?_) fun _ => .pure fun _ hp => hp.1
    refine ((advance_spec true).weaken (fun _ hp => before_of_head hp.1 hp.2)
      fun _ _ hq => hq.1).bind fun _ => ?_
    exact state_spec fun _ => (parseRank_spec _ _ _).bind fun _ => ih _

theorem parseTypeArgumentsOptional_spec (hg : Guards text good)
    {parseArguments : Parsing (List TypeNameParseInfo)}
    (hargs : Spec text good (Before text) parseArguments fun _ => Before text) (arity : Int32) :
    Spec text good (Within text) (parseTypeArgumentsOptional parseArguments arity)
      fun _ => Within text := by
  refine skipWhites_spec.bind fun _ => ifEOL_spec done_spec ?_
  refine (ifCurrentIs_spec ?_ done_spec).weaken (fun _ hp => hp.1) fun _ _ hq => hq
  refine (opensArray_spec hg).bind fun _ => .ite (fun _ => .pure fun _ hp => hp.1) fun _ => ?_
  refine ((advance_spec true).weaken (fun _ hp => before_of_head hp.1 hp.2)
    fun _ _ hq => hq).bind fun _ => .ite (fun _ => .stop) fun _ => ?_
  exact hargs.bind fun _ => .ite (fun _ => .stop) fun _ => next_bind_spec done_spec

theorem parseSeparator_spec (accept : Bool) :
    Spec text good (Within text) (parseSeparator accept) fun _ => Before text := by
  have hend : Spec text good (Before text) (do
      if ← currentIs ']' then return false
      else if ← currentIs ',' then
        advance true
        return true
      else .stop .reject) fun _ => Before text := by
    refine (currentIs_spec (fun _ hp => hp.1) _).bind fun _ => .ite
      (fun _ => .pure fun _ hp => hp.1) fun _ => ?_
    refine (currentIs_spec (fun _ hp => hp.1.1) _).bind fun _ => .ite (fun _ => ?_) fun _ => .stop
    exact ((advance_spec true).weaken (fun _ hp => hp.1.1) fun _ _ hq => hq).bind fun _ => done_spec
  refine skipWhites_spec.bind fun _ => ifEOL_spec .stop ?_
  refine .ite (fun _ => ?_) fun _ => hend
  exact (ifCurrentIs_before ((advance_spec true).bind fun _ => hend) .stop).weaken
    (fun _ hp => hp.1) fun _ _ hq => hq

theorem parse_spec (hg : Guards text good) (n : ℕ) :
    (∀ accept, Spec text good (Within text) (parseInfo n accept) fun _ => Within text) ∧
      ∀ infos, Spec text good (Before text) (parseTypeArguments n infos) fun _ => Before text := by
  induction n with
  | zero => exact ⟨fun _ => .stop, fun _ => .stop⟩
  | succ n ih =>
    constructor
    · intro accept
      refine skipWhites_spec.bind fun _ => ifEOL_spec .stop ?_
      refine (parseTypeName_spec hg).bind fun _ => ?_
      refine (state_spec fun _ => parseNestedTypes_spec hg _ _ _).bind fun _ => ?_
      refine (parseTypeArgumentsOptional_spec hg (ih.2 []) _).bind fun _ => ?_
      refine parsePointerModifiersOptional_spec.bind fun _ => ?_
      refine (state_spec fun _ => parseArrayModifiers_spec hg _ _).bind fun _ => ?_
      refine (parseByRefModifiersOptional_spec _).bind fun _ => ?_
      exact (parseAssemblyNameOptional_spec hg accept).bind fun _ => done_spec
    · intro infos
      have hgo (accept : Bool) : Spec text good (Before text) (do
          let info ← parseInfo n accept
          if ← parseSeparator accept then parseTypeArguments n (infos ++ [info])
          else return infos ++ [info]) fun _ => Before text :=
        ((ih.1 accept).weaken (fun _ hp => hp.1) fun _ _ hq => hq).bind fun _ =>
          (parseSeparator_spec accept).bind fun _ => .ite (fun _ => ih.2 _) fun _ => done_spec
      refine (currentIs_spec (fun _ hp => hp.1) _).bind fun bracket => .ite (fun _ => ?_)
        fun _ => ?_
      · exact ((advance_spec true).weaken (fun _ hp => hp.1) fun _ _ hq => hq).bind
          fun _ => hgo bracket
      · exact (hgo bracket).weaken (fun _ hp => hp.1) fun _ _ hq => hq

end

end Il2Cpp.TypeNameParser
