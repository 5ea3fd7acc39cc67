import Il2Cpp.Data.Bitmap

/-!
# Programs that set bits of a buffer

A program that only sets bits of a buffer is described by the set of these bits.  A write outside of
the buffer is a fault, and the last bit that has been set is counted along.

* `Buffer.mark` : sets one bit, with the test that its word exists.
* `Marks` : a program sets exactly the bits of a set, if they are all in the buffer.
* `Marks.bind`, `Marks.foldlM`, `Marks.skipping` : the sets of programs one after the other are
  joined, and a program that is skipped sets no bits.
-/

namespace Il2Cpp

/-- A bitmap that is being filled, with the last bit that has been set. -/
structure Buffer (w : ℕ) where
  bitmap : Bitmap w
  maxSetBit : ℕ

namespace Buffer

variable {w : ℕ}

/-- A buffer of `words` words without a bit. -/
def zero (words : ℕ) : Buffer w := ⟨List.replicate words 0#w, 0⟩

/-- Sets bit `i`; `none` is a write outside of the buffer. -/
def mark (b : Buffer w) (i : ℕ) : Option (Buffer w) :=
  if i / w < b.bitmap.length then some ⟨b.bitmap.setBit (i / w) (i % w), max b.maxSetBit i⟩
  else none

@[simp] theorem length_zero (words : ℕ) : (zero words : Buffer w).bitmap.length = words :=
  List.length_replicate

@[simp] theorem testBit_zero (words i : ℕ) : (zero words : Buffer w).bitmap.testBit i = false := by
  have h := Bitmap.testBit_append_zeros (w := w) [] words i
  rw [List.nil_append] at h
  rw [zero, h]
  exact Bitmap.testBit_of_length_le (Nat.zero_le _)

end Buffer

section

variable {w : ℕ}

/-- On a buffer of `words` words, the program sets the bits of `S` and no others. -/
def Marks (words : ℕ) (program : Buffer w → Option (Buffer w)) (S : Set ℕ) : Prop :=
  ∀ b : Buffer w, b.bitmap.length = words → (∀ i ∈ S, i / w < words) →
    ∃ b', program b = some b' ∧ b'.bitmap.length = words ∧
      (∀ i, b'.bitmap.testBit i = true ↔ b.bitmap.testBit i = true ∨ i ∈ S) ∧
      ∀ n, b'.maxSetBit ≤ n ↔ b.maxSetBit ≤ n ∧ ∀ i ∈ S, i ≤ n

namespace Marks

variable {words : ℕ} {p q : Buffer w → Option (Buffer w)} {S S' : Set ℕ}

theorem congr (h : Marks words p S) (hS : S = S') : Marks words p S' := hS ▸ h

/-- A program that does nothing. -/
theorem pure : Marks words (some : Buffer w → Option (Buffer w)) ∅ :=
  fun b hb _ => ⟨b, rfl, hb, by simp, by simp⟩

theorem mark (hw : 0 < w) (i : ℕ) : Marks words (Buffer.mark (w := w) · i) {i} := by
  intro b hb hlt
  have hi : i / w < b.bitmap.length := hb ▸ hlt i rfl
  refine ⟨_, if_pos hi, by rw [Bitmap.length_setBit, hb], fun j => ?_, fun n => ?_⟩
  · rw [Bitmap.testBit_setBit hi (Nat.mod_lt _ hw), Nat.div_add_mod']
    rfl
  · simp only [Set.mem_singleton_iff, forall_eq]
    exact Nat.max_le

/-- One program after the other. -/
theorem bind (hp : Marks words p S) (hq : Marks words q S') :
    Marks words (fun b => (p b).bind q) (S ∪ S') := by
  intro b hb hlt
  obtain ⟨b₁, h₁, hlen₁, hbits₁, hmax₁⟩ := hp b hb fun i hi => hlt i (.inl hi)
  obtain ⟨b₂, h₂, hlen₂, hbits₂, hmax₂⟩ := hq b₁ hlen₁ fun i hi => hlt i (.inr hi)
  refine ⟨b₂, ?_, hlen₂, fun i => ?_, fun n => ?_⟩
  · simp only [h₁, Option.bind_some, h₂]
  · rw [hbits₂, hbits₁, or_assoc, Set.mem_union]
  · rw [hmax₂, hmax₁, and_assoc]
    exact and_congr_right fun _ => (forall₂_or_left ..).symm

/-- A program that is skipped in some cases. -/
theorem skipping {skip : Bool} (h : skip = false → Marks words p S) :
    Marks words (fun b => if skip then some b else p b) {i | skip = false ∧ i ∈ S} := by
  cases skip with
  | true => exact pure.congr (by simp)
  | false => exact (h rfl).congr (by simp)

/-- A loop over a list. -/
theorem foldlM {α : Type} {step : Buffer w → α → Option (Buffer w)} {T : α → Set ℕ} (xs : List α)
    (h : ∀ x ∈ xs, Marks words (step · x) (T x)) :
    Marks words (fun b => xs.foldlM step b) {i | ∃ x ∈ xs, i ∈ T x} := by
  induction xs with
  | nil => exact pure.congr (by simp)
  | cons x xs ih =>
    have hx := h x (.head _)
    have hxs := ih fun y hy => h y (.tail _ hy)
    have hcons : (fun b => (x :: xs).foldlM step b) =
        fun b => (step b x).bind fun b => xs.foldlM step b := rfl
    rw [hcons]
    refine (hx.bind hxs).congr ?_
    ext i
    simp

/-- Bits that are set in an empty buffer. -/
theorem run_zero (h : Marks words p S) (hlt : ∀ i ∈ S, i / w < words) :
    ∃ b, p (.zero words) = some b ∧ (∀ i, b.bitmap.testBit i = true ↔ i ∈ S) ∧
      ∀ n, b.maxSetBit ≤ n ↔ ∀ i ∈ S, i ≤ n := by
  obtain ⟨b, hb, -, hbits, hmax⟩ := h (.zero words) (Buffer.length_zero words) hlt
  refine ⟨b, hb, fun i => ?_, fun n => ?_⟩
  · rw [hbits, Buffer.testBit_zero]
    simp
  · rw [hmax]
    exact and_iff_right (Nat.zero_le n)

end Marks

end

end Il2Cpp
