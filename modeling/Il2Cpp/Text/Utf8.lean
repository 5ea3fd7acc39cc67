import Mathlib

/-!
# UTF-8

`StringUtils::Utf16ToUtf8` scans UTF-16 for its length, and `utf8::unchecked::utf16to8` converts it.

* `utf16to8` : the conversion; surrogates without their other half become U+FFFD.
* `zero_notMem_utf16to8` : UTF-8 has no zero byte but for zero characters.
* `scan` : the characters up to a NUL or to a number of characters, and `scan_eq` : which they are.
-/

namespace Il2Cpp

namespace Utf8

/-! ### The conversion -/

/-- `utf8::internal::SURROGATE_OFFSET`. -/
def surrogateOffset : UInt32 := (0x10000 : UInt32) - (0xd800 : UInt32) <<< 10 - (0xdc00 : UInt32)

/-- `utf8::internal::is_lead_surrogate`. -/
def isLeadSurrogate (cp : UInt16) : Bool := 0xd800 ≤ cp && cp ≤ 0xdbff

/-- `utf8::internal::is_trail_surrogate`. -/
def isTrailSurrogate (cp : UInt16) : Bool := 0xdc00 ≤ cp && cp ≤ 0xdfff

/-- `replacement_marker`. -/
def replacementMarker : UInt32 := 0xfffd

/-- `utf8::unchecked::append`. -/
def append (cp : UInt32) : List UInt8 :=
  if cp < 0x80 then [cp.toUInt8]
  else if cp < 0x800 then [(cp >>> 6 ||| 0xc0).toUInt8, (cp &&& 0x3f ||| 0x80).toUInt8]
  else if cp < 0x10000 then
    [(cp >>> 12 ||| 0xe0).toUInt8, (cp >>> 6 &&& 0x3f ||| 0x80).toUInt8,
      (cp &&& 0x3f ||| 0x80).toUInt8]
  else
    [(cp >>> 18 ||| 0xf0).toUInt8, (cp >>> 12 &&& 0x3f ||| 0x80).toUInt8,
      (cp >>> 6 &&& 0x3f ||| 0x80).toUInt8, (cp &&& 0x3f ||| 0x80).toUInt8]

/-- `utf8::unchecked::utf16to8`. -/
def utf16to8 : List UInt16 → List UInt8
  | [] => []
  | [cp] =>
    if isLeadSurrogate cp || isTrailSurrogate cp then append replacementMarker
    else append cp.toUInt32
  | cp :: cp' :: cps =>
    if isLeadSurrogate cp then
      -- the next character is read whatever it is
      if isTrailSurrogate cp' then
        append (cp.toUInt32 <<< 10 + cp'.toUInt32 + surrogateOffset) ++ utf16to8 cps
      else append replacementMarker ++ utf16to8 cps
    else if isTrailSurrogate cp then append replacementMarker ++ utf16to8 (cp' :: cps)
    else append cp.toUInt32 ++ utf16to8 (cp' :: cps)

/-! ### Zero bytes -/

theorem zero_notMem_append {cp : UInt32} (h : cp ≠ 0) : 0 ∉ append cp := by
  have hne : cp.toNat ≠ 0 := fun hzero => h (UInt32.toNat_inj.1 hzero)
  rw [append]
  split_ifs with hlt
  · have hlt' : cp.toNat < 0x80 := UInt32.lt_iff_toNat_lt.1 hlt
    have hbyte : cp.toUInt8 ≠ 0 := by
      intro hzero
      have hmod := congrArg UInt8.toNat hzero
      rw [UInt32.toNat_toUInt8, UInt8.toNat_zero] at hmod
      omega
    simpa using Ne.symm hbyte
  all_goals simp [eq_comm (a := (0 : UInt8)), UInt8.or_eq_zero_iff]

theorem pair_ne_zero {cp cp' : UInt16} (h : isLeadSurrogate cp = true)
    (h' : isTrailSurrogate cp' = true) :
    cp.toUInt32 <<< 10 + cp'.toUInt32 + surrogateOffset ≠ 0 := by
  rw [isLeadSurrogate, Bool.and_eq_true, decide_eq_true_eq, decide_eq_true_eq,
    UInt16.le_iff_toNat_le, UInt16.le_iff_toNat_le] at h
  rw [isTrailSurrogate, Bool.and_eq_true, decide_eq_true_eq, decide_eq_true_eq,
    UInt16.le_iff_toNat_le, UInt16.le_iff_toNat_le] at h'
  have hlead : 55296 ≤ cp.toNat ∧ cp.toNat ≤ 56319 := h
  have htrail : 56320 ≤ cp'.toNat ∧ cp'.toNat ≤ 57343 := h'
  have hoffset : surrogateOffset.toNat = 4238353408 := rfl
  intro hzero
  have hnat := congrArg UInt32.toNat hzero
  rw [UInt32.toNat_add, UInt32.toNat_add, UInt32.toNat_shiftLeft, UInt16.toNat_toUInt32,
    UInt16.toNat_toUInt32, hoffset, Nat.shiftLeft_eq] at hnat
  have hten : (10 : UInt32).toNat % 32 = 10 := rfl
  rw [hten, UInt32.toNat_zero] at hnat
  omega

theorem zero_notMem_utf16to8 {cps : List UInt16} (h : 0 ∉ cps) : 0 ∉ utf16to8 cps := by
  have hreplacement : 0 ∉ append replacementMarker := by decide
  have happend {cp : UInt16} (hne : ¬0 = cp) : 0 ∉ append cp.toUInt32 :=
    zero_notMem_append fun hzero => hne (UInt16.toUInt32_inj.1 hzero).symm
  induction cps using utf16to8.induct with
  | case1 => exact List.not_mem_nil
  | case2 cp hsurrogate =>
    rw [utf16to8, if_pos hsurrogate]
    exact hreplacement
  | case3 cp hsurrogate =>
    rw [List.mem_singleton] at h
    rw [utf16to8, if_neg hsurrogate]
    exact happend h
  | case4 cp cp' cps hlead htrail ih =>
    rw [List.mem_cons, List.mem_cons, not_or, not_or] at h
    rw [utf16to8, if_pos hlead, if_pos htrail, List.mem_append, not_or]
    exact ⟨zero_notMem_append (pair_ne_zero hlead htrail), ih h.2.2⟩
  | case5 cp cp' cps hlead htrail ih =>
    rw [List.mem_cons, List.mem_cons, not_or, not_or] at h
    rw [utf16to8, if_pos hlead, if_neg htrail, List.mem_append, not_or]
    exact ⟨hreplacement, ih h.2.2⟩
  | case6 cp cp' cps hlead htrail ih =>
    rw [List.mem_cons, not_or] at h
    rw [utf16to8, if_neg hlead, if_pos htrail, List.mem_append, not_or]
    exact ⟨hreplacement, ih h.2⟩
  | case7 cp cp' cps hlead htrail ih =>
    rw [List.mem_cons, not_or] at h
    rw [utf16to8, if_neg hlead, if_neg htrail, List.mem_append, not_or]
    exact ⟨happend h.1, ih h.2⟩

/-! ### The scan -/

/-- The loop of `StringUtils::Utf16ToUtf8` after `length` characters: the characters that it goes
over, `none` when it reads behind the memory. -/
def scan (maximumSize : ℤ) : ℕ → List UInt16 → Option (List UInt16)
  | _, [] => none
  | length, c :: memory =>
    if c = 0 then some []
    else if maximumSize ≠ -1 ∧ ((length + 1 : ℕ) : ℤ) = maximumSize then some [c]
    else (scan maximumSize (length + 1) memory).map (c :: ·)

/-- `StringUtils::Utf16ToUtf8`. -/
def utf16ToUtf8 (memory : List UInt16) (maximumSize : ℤ) : Option (List UInt8) :=
  (scan maximumSize 0 memory).map utf16to8

variable {maximumSize : ℤ} {length : ℕ} {memory : List UInt16}

theorem scan_of_le (h : maximumSize ≤ length) (hmem : 0 ∈ memory) :
    scan maximumSize length memory = some (memory.takeWhile (· ≠ 0)) := by
  induction memory generalizing length with
  | nil => exact absurd hmem List.not_mem_nil
  | cons c memory ih =>
    rw [scan]
    by_cases hc : c = 0
    · rw [if_pos hc, List.takeWhile_cons_of_neg (by simpa using hc)]
    · have hlimit : ¬(maximumSize ≠ -1 ∧ ((length + 1 : ℕ) : ℤ) = maximumSize) := by omega
      have htail : 0 ∈ memory := (List.mem_cons.1 hmem).resolve_left (Ne.symm hc)
      rw [if_neg hc, if_neg hlimit, ih (by omega) htail, Option.map_some,
        List.takeWhile_cons_of_pos (by simpa using hc)]

theorem scan_of_lt (h : (length : ℤ) < maximumSize)
    (hmem : 0 ∈ memory ∨ maximumSize ≤ length + memory.length) :
    scan maximumSize length memory =
      some ((memory.take (maximumSize.toNat - length)).takeWhile (· ≠ 0)) := by
  induction memory generalizing length with
  | nil =>
    rw [List.length_nil] at hmem
    exact absurd (hmem.resolve_left List.not_mem_nil) (by omega)
  | cons c memory ih =>
    obtain ⟨more, hmore⟩ : ∃ more, maximumSize.toNat - length = more + 1 :=
      Nat.exists_eq_succ_of_ne_zero (by omega)
    rw [scan, hmore, List.take_succ_cons]
    by_cases hc : c = 0
    · rw [if_pos hc, List.takeWhile_cons_of_neg (by simpa using hc)]
    rw [if_neg hc, List.takeWhile_cons_of_pos (by simpa using hc)]
    by_cases hlast : ((length + 1 : ℕ) : ℤ) = maximumSize
    · have hzero : more = 0 := by omega
      rw [if_pos ⟨by omega, hlast⟩, hzero, List.take_zero, List.takeWhile_nil]
    · have htail : 0 ∈ memory ∨ maximumSize ≤ (length + 1 : ℕ) + (memory.length : ℤ) := by
        rw [List.mem_cons, List.length_cons] at hmem
        refine hmem.imp (fun hzero => hzero.resolve_left (Ne.symm hc)) fun hle => ?_
        omega
      have hrest : maximumSize.toNat - (length + 1) = more := by omega
      rw [if_neg fun hlimit => hlast hlimit.2, ih (by omega) htail, hrest, Option.map_some]

end Utf8

end Il2Cpp
