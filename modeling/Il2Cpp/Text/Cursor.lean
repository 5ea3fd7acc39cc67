import Il2Cpp.Text.CString

/-!
# A cursor in a text

The parsers of names move a pointer `_p` towards `_end` and may step over `_end`.

* `Cursor` : what is left before `_end`, and how far the pointer is behind it.
* `Cursor.skipWhites`, `Cursor.next`, `Cursor.nextWillBe` : the movements and the look-ahead.
* `Cursor.consume` : the scanning loops; they stop at a set of characters, and some of them take
  the character after a backslash unseen.  They return the text they moved over.
* `consume_append` : scanning over a text without a stop character.
-/

namespace Il2Cpp

/-- A position in a text: the characters from there to `_end`, or the distance behind `_end`. -/
structure Cursor where
  /-- The characters in `[_p, _end)`. -/
  rest : List Char
  /-- `_p - _end`, where that is positive. -/
  past : ℕ := 0
  deriving DecidableEq, Repr

namespace Cursor

/-- `IsEOL`. -/
def isEOL (p : Cursor) : Bool := p.rest.isEmpty

/-- `*_p`; at `_end` stands the terminator. -/
def deref (p : Cursor) : Char := p.rest.headD NUL

/-- `CurrentIs`. -/
def currentIs (p : Cursor) (v : Char) : Bool := !p.isEOL && p.deref == v

/-- `++_p`. -/
def incr : Cursor → Cursor
  | ⟨_ :: cs, n⟩ => ⟨cs, n⟩
  | ⟨[], n⟩ => ⟨[], n + 1⟩

/-- A character that `SkipWhites` passes. -/
def isWhite (c : Char) : Bool := c == ' ' || c == '\t'

/-- `SkipWhites`. -/
def skipWhites (p : Cursor) : Cursor := { p with rest := p.rest.dropWhile isWhite }

/-- `Next`, the movement; the result is `!isEOL` of the new position. -/
def next (p : Cursor) (skip : Bool := false) : Cursor := if skip then p.incr.skipWhites else p.incr

/-- `NextWillBe` with `skipWhites`. -/
def nextWillBe (p : Cursor) (v : Char) : Bool :=
  match p.rest with
  | [] => false
  | _ :: cs =>
    match (if isWhite (cs.headD NUL) then cs.tail else cs) with
    | [] => false
    | c :: _ => c == v

/-- The loop `do { switch (*_p) … } while (Next())` of the scanning functions: `stop` are the cases
that return, `escape` tells whether there is a case for the backslash.  The first result is the
text moved over, which shows the terminator where the pointer has left the text. -/
def consumeFrom (stop : Char → Bool) (escape : Bool) (past : ℕ) : List Char → List Char × Cursor
  | [] => ([NUL], ⟨[], past + 1⟩)
  | [c] =>
    if stop c then ([], ⟨[c], past⟩)
    else if escape && c == '\\' then ([c, NUL], ⟨[], past + 1⟩)
    else ([c], ⟨[], past⟩)
  | c :: c' :: cs =>
    if stop c then ([], ⟨c :: c' :: cs, past⟩)
    else if escape && c == '\\' then
      match cs with
      | [] => ([c, c'], ⟨[], past⟩)
      | _ :: _ => let (text, p) := consumeFrom stop escape past cs; (c :: c' :: text, p)
    else let (text, p) := consumeFrom stop escape past (c' :: cs); (c :: text, p)

/-- The scanning loop from a position. -/
def consume (stop : Char → Bool) (escape : Bool) (p : Cursor) : List Char × Cursor :=
  consumeFrom stop escape p.past p.rest

/-! ### Moving over known text -/

@[simp] theorem isEOL_cons (c : Char) (cs : List Char) (n : ℕ) : isEOL ⟨c :: cs, n⟩ = false := rfl

@[simp] theorem isEOL_nil (n : ℕ) : isEOL ⟨[], n⟩ = true := rfl

@[simp] theorem currentIs_cons (c v : Char) (cs : List Char) (n : ℕ) :
    currentIs ⟨c :: cs, n⟩ v = (c == v) := rfl

@[simp] theorem currentIs_nil (v : Char) (n : ℕ) : currentIs ⟨[], n⟩ v = false := rfl

@[simp] theorem incr_cons (c : Char) (cs : List Char) (n : ℕ) : incr ⟨c :: cs, n⟩ = ⟨cs, n⟩ := rfl

@[simp] theorem next_cons (c : Char) (cs : List Char) (n : ℕ) : next ⟨c :: cs, n⟩ = ⟨cs, n⟩ := rfl

/-- The text does not begin with white space. -/
def NoLeadingWhite (s : List Char) : Prop := ∀ c ∈ s.head?, isWhite c = false

@[simp] theorem noLeadingWhite_nil : NoLeadingWhite [] := by simp [NoLeadingWhite]

@[simp] theorem noLeadingWhite_cons {c : Char} {cs : List Char} :
    NoLeadingWhite (c :: cs) ↔ isWhite c = false := by simp [NoLeadingWhite]

theorem dropWhile_of_noLeadingWhite {s : List Char} (h : NoLeadingWhite s) :
    s.dropWhile isWhite = s := dropWhile_of_head h

@[simp] theorem skipWhites_of_noLeadingWhite {s : List Char} {n : ℕ} (h : NoLeadingWhite s) :
    skipWhites ⟨s, n⟩ = ⟨s, n⟩ := by
  simp [skipWhites, dropWhile_of_noLeadingWhite h]

theorem next_skip_cons {c : Char} {cs : List Char} {n : ℕ} (h : NoLeadingWhite cs) :
    next ⟨c :: cs, n⟩ true = ⟨cs, n⟩ := by
  simp [next, skipWhites_of_noLeadingWhite h]

/-! ### Scanning -/

variable {stop : Char → Bool} {escape : Bool}

theorem consume_stop {c : Char} {cs : List Char} {n : ℕ} (h : stop c = true) :
    consume stop escape ⟨c :: cs, n⟩ = ([], ⟨c :: cs, n⟩) := by
  cases cs <;> simp [consume, consumeFrom, h]

theorem consume_cons {c c' : Char} {cs : List Char} {n : ℕ} (hs : stop c = false)
    (he : escape = true → c ≠ '\\') :
    consume stop escape ⟨c :: c' :: cs, n⟩ =
      (c :: (consume stop escape ⟨c' :: cs, n⟩).1, (consume stop escape ⟨c' :: cs, n⟩).2) := by
  have h : (escape && c == '\\') = false := by
    cases escape
    · rfl
    · simpa using he rfl
  simp [consume, consumeFrom, hs, h]

theorem consume_append {s tail : List Char} {n : ℕ} (hs : ∀ c ∈ s, stop c = false)
    (he : escape = true → '\\' ∉ s) (hne : s ≠ [] ∨ tail ≠ [])
    (htail : ∀ c ∈ tail.head?, stop c = true) :
    consume stop escape ⟨s ++ tail, n⟩ = (s, ⟨tail, n⟩) := by
  induction s with
  | nil =>
    cases tail with
    | nil => simp at hne
    | cons c cs => exact consume_stop (htail c rfl)
  | cons c s ih =>
    have hc : stop c = false := hs c List.mem_cons_self
    have hec : escape = true → c ≠ '\\' := fun h hcb => he h (hcb ▸ List.mem_cons_self)
    rcases hst : s ++ tail with _ | ⟨c', cs⟩
    · obtain ⟨rfl, rfl⟩ := List.append_eq_nil_iff.1 hst
      have h : (escape && c == '\\') = false := by
        cases escape
        · rfl
        · simpa using hec rfl
      simp [consume, consumeFrom, hc, h]
    · have hne' : s ≠ [] ∨ tail ≠ [] := by
        by_contra h
        push Not at h
        simp [h.1, h.2] at hst
      have := ih (fun c hc => hs c (List.mem_cons_of_mem _ hc))
        (fun h hm => he h (List.mem_cons_of_mem _ hm)) hne'
      rw [hst] at this
      rw [List.cons_append, hst, consume_cons hc hec, this]

/-! ### Scanning moves forward -/

theorem consumeFrom_rest_length (n : ℕ) (s : List Char) :
    (consumeFrom stop escape n s).2.rest.length ≤ s.length := by
  fun_induction consumeFrom stop escape n s <;> simp_all <;> omega

theorem consume_rest_length {p q : Cursor} {text : List Char}
    (h : consume stop escape p = (text, q)) : q.rest.length ≤ p.rest.length := by
  have : (consumeFrom stop escape p.past p.rest).2.rest.length ≤ p.rest.length :=
    consumeFrom_rest_length _ _
  rwa [← consume, h] at this

theorem incr_rest_length (p : Cursor) : p.incr.rest.length = p.rest.length - 1 := by
  rcases p with ⟨_ | _, _⟩ <;> simp [incr]

theorem skipWhites_rest_length (p : Cursor) : p.skipWhites.rest.length ≤ p.rest.length :=
  List.length_dropWhile_le _ _

theorem next_rest_length (p : Cursor) (skip : Bool) :
    (p.next skip).rest.length ≤ p.rest.length - 1 := by
  rw [← incr_rest_length]
  unfold next
  split
  · exact skipWhites_rest_length _
  · exact le_rfl

end Cursor

end Il2Cpp
