import Il2Cpp.Data.Block
import Il2Cpp.Text.Utf8

/-!
# Strings in buffers of a fixed size

`PlatformInvoke::MarshalCSharpStringToCppStringFixed` and its `Il2CppChar` sibling copy a managed
string into a buffer of the caller.  The size counts the units of the buffer, and the UTF-8 function
takes it for the number of UTF-16 characters to convert.

* `KeepsPrefix` : the buffer holds the encoding of a prefix of the string, a terminator, and behind
  it what it held before.
* `marshalFixed_keepsPrefix_iff` : both functions do so if and only if the converted characters and
  the terminator fit.  The `Il2CppChar` function always does (`marshalWFixed_keepsPrefix`).
-/

namespace Il2Cpp

namespace FixedString

open Utf8

/-! ### The functions -/

/-- `strcpy` from a `c_str()`. -/
def strcpy (buffer string : List UInt8) : Option (List UInt8) :=
  writeBlock buffer 0 (string.takeWhile (· ≠ 0) ++ [0])

/-- `PlatformInvoke::MarshalCSharpStringToCppStringFixed`.  The characters of a managed string are
followed by a NUL; `none` is an access outside of the string or of the buffer. -/
def marshalCSharpStringToCppStringFixed (managedString : Option (List UInt16))
    (buffer : List UInt8) (numberOfCharacters : ℤ) : Option (List UInt8) :=
  match managedString with
  | none => writeBlock buffer 0 [0]
  | some chars =>
    (utf16ToUtf8 (chars ++ [0]) (numberOfCharacters - 1)).bind fun utf8String =>
      strcpy buffer utf8String

/-- The loop of `MarshalCSharpStringToCppWStringFixed` from its `i`-th character on. -/
def copyChars : ℕ → List UInt16 → List UInt16 → Option (List UInt16)
  | _, [], buffer => some buffer
  | i, c :: chars, buffer => (writeBlock buffer i [c]).bind (copyChars (i + 1) chars)

/-- `PlatformInvoke::MarshalCSharpStringToCppWStringFixed`. -/
def marshalCSharpStringToCppWStringFixed (managedString : Option (List UInt16))
    (buffer : List UInt16) (numberOfCharacters : ℤ) : Option (List UInt16) :=
  match managedString with
  | none => writeBlock buffer 0 [0]
  | some chars =>
    let stringLength := (min (chars.length : ℤ) (numberOfCharacters - 1)).toNat
    (copyChars 0 (chars.take stringLength) buffer).bind fun buffer =>
      writeBlock buffer stringLength [0]

/-! ### What the buffer is for -/

variable {α : Type} [OfNat α 0]

/-- The characters of a managed string, none for `NULL`. -/
def text (managedString : Option (List UInt16)) : List UInt16 := managedString.getD []

/-- Every buffer of `n` units is left with the encoding of a prefix of the text, a terminator, and
behind it what it held. -/
def KeepsPrefix (encode : List UInt16 → List α) (managedString : Option (List UInt16)) (n : ℕ)
    (marshal : List α → Option (List α)) : Prop :=
  ∀ buffer : List α, buffer.length = n → ∃ k ≤ (text managedString).length,
    marshal buffer = some (encode ((text managedString).take k) ++
      0 :: buffer.drop ((encode ((text managedString).take k)).length + 1))

variable {managedString : Option (List UInt16)} {chars : List UInt16} {n i : ℕ}

theorem keepsPrefix_none {encode : List UInt16 → List α} (hencode : encode [] = [])
    (hn : 1 ≤ n) : KeepsPrefix encode none n fun buffer => writeBlock buffer 0 [0] := by
  intro buffer hbuffer
  refine ⟨0, Nat.le_refl 0, ?_⟩
  rw [List.take_zero, hencode]
  exact writeBlock_of_le (by rw [List.length_singleton]; omega)

/-! ### UTF-16 -/

theorem copyChars_eq {buffer : List UInt16} (h : i + chars.length ≤ buffer.length) :
    copyChars i chars buffer = writeBlock buffer i chars := by
  induction chars generalizing i buffer with
  | nil =>
    rw [writeBlock_of_le h, List.append_nil, List.length_nil, Nat.add_zero,
      List.take_append_drop, copyChars]
  | cons c chars ih =>
    rw [List.length_cons] at h
    have hone : i + [c].length ≤ buffer.length := by
      rw [List.length_singleton]
      omega
    have happend := writeBlock_append buffer [c] chars i
    rw [List.singleton_append] at happend
    have hsame := length_writeBlock (writeBlock_of_le hone)
    rw [List.length_singleton] at hsame
    rw [copyChars, happend, writeBlock_of_le hone, Option.bind_some, Option.bind_some,
      List.length_singleton]
    exact ih (by omega)

theorem marshalWFixed_keepsPrefix (managedString : Option (List UInt16)) (hn : 1 ≤ n) :
    KeepsPrefix id managedString n
      (marshalCSharpStringToCppWStringFixed managedString · n) := by
  cases managedString with
  | none => exact keepsPrefix_none rfl hn
  | some chars =>
    intro buffer hbuffer
    obtain ⟨k, hk⟩ : ∃ k, (min (chars.length : ℤ) ((n : ℤ) - 1)).toNat = k := ⟨_, rfl⟩
    have hlength : (chars.take k).length = k := by
      rw [List.length_take]
      omega
    refine ⟨k, ?_, ?_⟩
    · change k ≤ chars.length
      omega
    · dsimp only
      rw [marshalCSharpStringToCppWStringFixed.eq_def]
      dsimp only
      have hfirst : copyChars 0 (chars.take k) buffer = writeBlock buffer 0 (chars.take k) :=
        copyChars_eq (by omega)
      have happend := writeBlock_append buffer (chars.take k) [0] 0
      rw [Nat.zero_add, hlength] at happend
      have hroom : 0 + (chars.take k ++ [0]).length ≤ buffer.length := by
        rw [List.length_append, hlength, List.length_singleton]
        omega
      rw [hk, hfirst, ← happend, writeBlock_of_le hroom, List.take_zero, List.nil_append,
        List.append_assoc, List.length_append, List.length_singleton, Nat.zero_add]
      rfl

/-! ### UTF-8 -/

/-- The characters that are converted for a buffer of `n` bytes: those before the first NUL, and no
more than `n - 1` unless `n` is 1. -/
def converted (chars : List UInt16) (n : ℕ) : List UInt16 :=
  (if n = 1 then chars else chars.take (n - 1)).takeWhile (· ≠ 0)

theorem converted_eq_take (chars : List UInt16) (n : ℕ) :
    converted chars n = chars.take (converted chars n).length := by
  refine List.prefix_iff_eq_take.1 ((List.takeWhile_prefix _).trans ?_)
  split_ifs
  · exact List.prefix_rfl
  · exact List.take_prefix _ _

theorem length_converted_le (chars : List UInt16) (n : ℕ) :
    (converted chars n).length ≤ chars.length := by
  rw [converted_eq_take, List.length_take]
  exact Nat.min_le_right _ _

theorem zero_notMem_converted (chars : List UInt16) (n : ℕ) : 0 ∉ converted chars n :=
  fun hmem => by simpa using List.mem_takeWhile_imp hmem

theorem takeWhile_append_zero (chars : List UInt16) :
    (chars ++ [0]).takeWhile (· ≠ 0) = chars.takeWhile (· ≠ 0) := by
  induction chars with
  | nil => rfl
  | cons c chars ih => rw [List.cons_append, List.takeWhile_cons, List.takeWhile_cons, ih]

theorem scan_eq_converted (chars : List UInt16) (hn : 1 ≤ n) :
    scan ((n : ℤ) - 1) 0 (chars ++ [0]) = some (converted chars n) := by
  have hzero : 0 ∈ chars ++ [0] := by simp
  rw [converted]
  split_ifs with hone
  · rw [scan_of_le (by omega) hzero, takeWhile_append_zero]
  · have hlimit : ((n : ℤ) - 1).toNat - 0 = n - 1 := by omega
    rw [scan_of_lt (by omega) (Or.inl hzero), hlimit]
    rcases Nat.lt_or_ge chars.length (n - 1) with hlt | hle
    · rw [List.take_of_length_le (l := chars ++ [0]) (by simpa using hlt.nat_succ_le),
        takeWhile_append_zero, List.take_of_length_le hlt.le]
    · rw [List.take_append_of_le_length hle]

theorem marshalFixed_eq (chars : List UInt16) (buffer : List UInt8) (hn : 1 ≤ n) :
    marshalCSharpStringToCppStringFixed (some chars) buffer n =
      writeBlock buffer 0 (utf16to8 (converted chars n) ++ [0]) := by
  have hbytes : (utf16to8 (converted chars n)).takeWhile (· ≠ 0) =
      utf16to8 (converted chars n) := by
    refine List.takeWhile_eq_self_iff.2 fun byte hbyte => ?_
    have hne : byte ≠ 0 := fun hzero =>
      zero_notMem_utf16to8 (zero_notMem_converted chars n) (hzero ▸ hbyte)
    simpa using hne
  rw [marshalCSharpStringToCppStringFixed.eq_def]
  dsimp only
  rw [utf16ToUtf8, scan_eq_converted chars hn, Option.map_some, Option.bind_some, strcpy, hbytes]

/-- Every character needs a byte of its own, but the size leaves no room for a second one. -/
theorem marshalFixed_keepsPrefix_iff (managedString : Option (List UInt16)) (hn : 1 ≤ n) :
    KeepsPrefix utf16to8 managedString n
        (marshalCSharpStringToCppStringFixed managedString · n) ∧
      KeepsPrefix id managedString n (marshalCSharpStringToCppWStringFixed managedString · n) ↔
    (utf16to8 (converted (text managedString) n)).length < n := by
  refine (and_iff_left (marshalWFixed_keepsPrefix managedString hn)).trans ?_
  cases managedString with
  | none =>
    refine iff_of_true (keepsPrefix_none rfl hn) ?_
    have hnone : converted (text none) n = [] :=
      List.eq_nil_of_length_eq_zero (Nat.le_zero.1 (length_converted_le _ n))
    rw [hnone]
    exact hn
  | some chars =>
    constructor
    · intro hkeeps
      obtain ⟨k, -, hk⟩ := hkeeps (List.replicate n 0) List.length_replicate
      dsimp only at hk
      rw [marshalFixed_eq chars _ hn] at hk
      have hroom := (writeBlock_eq_some hk).1
      rw [List.length_append, List.length_replicate, List.length_singleton] at hroom
      change (utf16to8 (converted chars n)).length < n
      omega
    · intro hlt buffer hbuffer
      have hroom : 0 + (utf16to8 (converted chars n) ++ [0]).length ≤ buffer.length := by
        rw [List.length_append, List.length_singleton, hbuffer]
        change (utf16to8 (converted chars n)).length < n at hlt
        omega
      refine ⟨(converted chars n).length, length_converted_le chars n, ?_⟩
      dsimp only [text, Option.getD_some]
      rw [← converted_eq_take, marshalFixed_eq chars buffer hn, writeBlock_of_le hroom,
        List.take_zero, List.nil_append, List.append_assoc, List.length_append,
        List.length_singleton, Nat.zero_add]
      rfl

theorem marshalFixed_keepsPrefix_ascii :
    KeepsPrefix utf16to8 (some [0x61, 0x62]) 2
        (marshalCSharpStringToCppStringFixed (some [0x61, 0x62]) · (2 : ℕ)) ∧
      KeepsPrefix id (some [0x61, 0x62]) 2
        (marshalCSharpStringToCppWStringFixed (some [0x61, 0x62]) · (2 : ℕ)) :=
  (marshalFixed_keepsPrefix_iff (some [0x61, 0x62]) (by decide)).2 (by decide)

/-- The two bytes of é and the terminator do not fit in two bytes. -/
theorem not_marshalFixed_keepsPrefix : ¬(
    KeepsPrefix utf16to8 (some [0xe9]) 2
        (marshalCSharpStringToCppStringFixed (some [0xe9]) · (2 : ℕ)) ∧
      KeepsPrefix id (some [0xe9]) 2
        (marshalCSharpStringToCppWStringFixed (some [0xe9]) · (2 : ℕ))) := by
  rintro ⟨hkeeps, -⟩
  obtain ⟨k, -, hk⟩ := hkeeps [0, 0] rfl
  have hnone : marshalCSharpStringToCppStringFixed (some [0xe9]) [0, 0] (2 : ℕ) = none := by decide
  exact Option.some_ne_none _ (hk.symm.trans hnone)

end FixedString

end Il2Cpp
