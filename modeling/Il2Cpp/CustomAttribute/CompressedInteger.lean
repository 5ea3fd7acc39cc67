import Il2Cpp.CustomAttribute.BlobReader
import Il2Cpp.Data.MachineInt

/-!
# Compressed integers

The encodings that `ReadCompressedUInt32` of `MemoryRead.cpp` reads, and the folding of the sign in
`ReadCompressedInt32`.

* `Encodes` : the forms of one, two, four and five bytes, and the two special bytes.
* `exists_encodes` : every number has an encoding.
* `readCompressedUInt32_returns` : an encoding is read up to its end, whatever follows.
* `decodeInt32` : the folding, with its arithmetic.
* `decodeInt32_bijective` : every `int32_t` is the folding of exactly one number.
* `compressed_integers` : the three together.
-/

namespace Il2Cpp

namespace CustomAttribute

open Decoder

/-- The bytes are an encoding of the number.  The forms of two and four bytes have the high byte
first, after the bits that tell the form; the form of five bytes has the low byte first. -/
inductive Encodes : List UInt8 → ℕ → Prop
  | one {b : UInt8} (h : b < 0x80) : Encodes [b] b.toNat
  | two {hi b : UInt8} (h : hi < 0x40) : Encodes [0x80 + hi, b] (256 * hi.toNat + b.toNat)
  | four {hi b₁ b₂ b₃ : UInt8} (h : hi < 0x20) :
      Encodes [0xC0 + hi, b₁, b₂, b₃]
        (256 * (256 * (256 * hi.toNat + b₁.toNat) + b₂.toNat) + b₃.toNat)
  | five {b₀ b₁ b₂ b₃ : UInt8} :
      Encodes [0xF0, b₀, b₁, b₂, b₃]
        (b₀.toNat + 256 * (b₁.toNat + 256 * (b₂.toNat + 256 * b₃.toNat)))
  | almostMax : Encodes [0xFE] 0xFFFFFFFE
  | max : Encodes [0xFF] 0xFFFFFFFF

theorem toNat_ofNat_mod (n : ℕ) : (UInt8.ofNat (n % 256)).toNat = n % 256 := by
  rw [UInt8.toNat_ofNat']
  omega

theorem exists_encodes {v : ℕ} (hv : v < 2 ^ 32) : ∃ e, Encodes e v := by
  have h₀ := toNat_ofNat_mod v
  have h₁ := toNat_ofNat_mod (v / 256)
  have h₂ := toNat_ofNat_mod (v / 256 / 256)
  have h₃ := toNat_ofNat_mod (v / 256 / 256 / 256)
  have h : Encodes [0xF0, .ofNat (v % 256), .ofNat (v / 256 % 256), .ofNat (v / 256 / 256 % 256),
    .ofNat (v / 256 / 256 / 256 % 256)] _ := .five
  rw [h₀, h₁, h₂, h₃] at h
  have hval : v % 256 + 256 * (v / 256 % 256 +
      256 * (v / 256 / 256 % 256 + 256 * (v / 256 / 256 / 256 % 256))) = v := by omega
  exact ⟨_, hval ▸ h⟩

theorem Encodes.lt {e : List UInt8} {v : ℕ} (h : Encodes e v) : v < 2 ^ 32 := by
  cases h with
  | @one b => exact b.toNat_lt.trans (by norm_num)
  | @two hi b h =>
    have hhi : hi.toNat < 64 := h
    have := b.toNat_lt
    omega
  | @four hi b₁ b₂ b₃ h =>
    have hhi : hi.toNat < 32 := h
    have := b₁.toNat_lt
    have := b₂.toNat_lt
    have := b₃.toNat_lt
    omega
  | @five b₀ b₁ b₂ b₃ =>
    have := b₀.toNat_lt
    have := b₁.toNat_lt
    have := b₂.toNat_lt
    have := b₃.toNat_lt
    omega
  | almostMax | max => norm_num

/-! ### Reading -/

section Reads

variable {W : Type}

theorem readLittleEndian_returns (before bs rest : List UInt8) :
    (readLittleEndian (before ++ (bs ++ rest)) bs.length : Decoder W ℕ).Returns before.length
      (bs.foldr (fun b acc => b.toNat + 256 * acc) 0) (before.length + bs.length) := by
  refine returns_bind.2 ⟨bs, _, returns_readBytes.2 ⟨by simp, by simp, rfl⟩, ?_⟩
  exact returns_pure.2 ⟨rfl, rfl⟩

theorem take_one_of_getElem? {bytes : List UInt8} {pos : ℕ} {b : UInt8}
    (h : bytes[pos]? = some b) : pos + 1 ≤ bytes.length ∧ [b] = (bytes.drop pos).take 1 := by
  obtain ⟨hlt, rfl⟩ := List.getElem?_eq_some_iff.1 h
  refine ⟨hlt, ?_⟩
  rw [List.drop_eq_getElem_cons hlt, List.take_succ_cons, List.take_zero]

theorem bind_read8_returns {α : Type} {bytes : List UInt8} {b : UInt8} {f : UInt32 → Decoder W α}
    {a : α} {pos p : ℕ} (hb : bytes[pos]? = some b) (h : (f b.toUInt32).Returns (pos + 1) a p) :
    ((UInt8.toUInt32 <$> read8 bytes) >>= f).Returns pos a p := by
  obtain ⟨hle, htake⟩ := take_one_of_getElem? hb
  refine returns_bind.2 ⟨_, _, returns_map.2 ⟨b, ?_, rfl⟩, h⟩
  refine returns_map.2 ⟨b.toNat, ?_, by simp⟩
  refine returns_bind.2 ⟨[b], _, returns_readBytes.2 ⟨hle, htake, rfl⟩, ?_⟩
  exact returns_pure.2 ⟨by simp, rfl⟩

theorem or_byte (n k : ℕ) (b : UInt8) :
    n * 2 ^ (k + 8) ||| b.toNat * 2 ^ k = (256 * n + b.toNat) * 2 ^ k := by
  have hb : b.toNat * 2 ^ k < 2 ^ (k + 8) := by
    have := b.toNat_lt
    rw [Nat.add_comm, Nat.pow_add]
    exact Nat.mul_lt_mul_of_pos_right this (by positivity)
  rw [← Nat.shiftLeft_eq, ← Nat.shiftLeft_add_eq_or_of_lt hb, Nat.shiftLeft_eq, Nat.pow_add]
  ring

theorem forall_byte {P : UInt8 → Prop} (h : ∀ n < 256, P (.ofNat n)) (b : UInt8) : P b := by
  simpa using h b.toNat b.toNat_lt

theorem form_one : ∀ b : UInt8, b < 0x80 → b.toUInt32 &&& 0x80 = 0 :=
  forall_byte (by decide +kernel)

theorem form_two : ∀ hi : UInt8, hi < 0x40 →
    ((0x80 + hi).toUInt32 &&& 0x80 ≠ 0 ∧ (0x80 + hi).toUInt32 &&& 0xC0 = 0x80) ∧
      (0x80 + hi).toUInt32 &&& ~~~0x80 = hi.toUInt32 :=
  forall_byte (by decide +kernel)

theorem form_four : ∀ hi : UInt8, hi < 0x20 →
    ((0xC0 + hi).toUInt32 &&& 0x80 ≠ 0 ∧ (0xC0 + hi).toUInt32 &&& 0xC0 ≠ 0x80 ∧
      (0xC0 + hi).toUInt32 &&& 0xE0 = 0xC0) ∧
      (0xC0 + hi).toUInt32 &&& ~~~0xC0 = hi.toUInt32 :=
  forall_byte (by decide +kernel)

theorem value_two {hi b : UInt8} (h : hi < 0x40) :
    hi.toUInt32 <<< 8 ||| b.toUInt32 = UInt32.ofNat (256 * hi.toNat + b.toNat) := by
  have hhi : hi.toNat < 64 := h
  have hb := b.toNat_lt
  have hor := or_byte hi.toNat 0 b
  apply UInt32.toNat_inj.1
  simp only [UInt32.toNat_or, UInt32.toNat_shiftLeft, UInt8.toNat_toUInt32, UInt32.toNat_ofNat',
    UInt32.reduceToNat, Nat.shiftLeft_eq]
  norm_num at hor ⊢
  rw [Nat.mod_eq_of_lt (by omega), hor]
  omega

theorem value_four {hi b₁ b₂ b₃ : UInt8} (h : hi < 0x20) :
    hi.toUInt32 <<< 24 ||| b₁.toUInt32 <<< 16 ||| b₂.toUInt32 <<< 8 ||| b₃.toUInt32 =
      UInt32.ofNat (256 * (256 * (256 * hi.toNat + b₁.toNat) + b₂.toNat) + b₃.toNat) := by
  have hhi : hi.toNat < 32 := h
  have hb₁ := b₁.toNat_lt
  have hb₂ := b₂.toNat_lt
  have hb₃ := b₃.toNat_lt
  have h₁ := or_byte hi.toNat 16 b₁
  have h₂ := or_byte (256 * hi.toNat + b₁.toNat) 8 b₂
  have h₃ := or_byte (256 * (256 * hi.toNat + b₁.toNat) + b₂.toNat) 0 b₃
  apply UInt32.toNat_inj.1
  simp only [UInt32.toNat_or, UInt32.toNat_shiftLeft, UInt8.toNat_toUInt32, UInt32.toNat_ofNat',
    UInt32.reduceToNat, Nat.shiftLeft_eq]
  norm_num at h₁ h₂ h₃ ⊢
  rw [Nat.mod_eq_of_lt (by omega), Nat.mod_eq_of_lt (by omega), Nat.mod_eq_of_lt (by omega), h₁, h₂,
    h₃]
  omega

theorem readCompressedUInt32_returns {e : List UInt8} {v : ℕ} (h : Encodes e v)
    (before rest : List UInt8) :
    (readCompressedUInt32 (before ++ (e ++ rest)) : Decoder W UInt32).Returns before.length
      (.ofNat v) (before.length + e.length) := by
  have hget : ∀ i, (before ++ (e ++ rest))[before.length + i]? = (e ++ rest)[i]? := fun i => by
    rw [List.getElem?_append_right (by omega), Nat.add_sub_cancel_left]
  unfold readCompressedUInt32
  cases h with
  | @one b hb =>
    refine bind_read8_returns (hget 0) ?_
    rw [if_pos (form_one b hb)]
    exact returns_pure.2 ⟨UInt32.toNat_inj.1 (by simp), rfl⟩
  | @two hi b hhi =>
    obtain ⟨⟨h₁, h₂⟩, h₃⟩ := form_two hi hhi
    refine bind_read8_returns (hget 0) ?_
    rw [if_neg h₁, if_pos h₂, h₃]
    refine bind_read8_returns (hget 1) ?_
    exact returns_pure.2 ⟨value_two hhi, rfl⟩
  | @four hi b₁ b₂ b₃ hhi =>
    obtain ⟨⟨h₁, h₂, h₃⟩, h₄⟩ := form_four hi hhi
    refine bind_read8_returns (hget 0) ?_
    rw [if_neg h₁, if_neg h₂, if_pos h₃, h₄]
    refine bind_read8_returns (hget 1) (bind_read8_returns (hget 2) ?_)
    refine bind_read8_returns (hget 3) ?_
    exact returns_pure.2 ⟨value_four hhi, rfl⟩
  | @five b₀ b₁ b₂ b₃ =>
    refine bind_read8_returns (hget 0) ?_
    rw [if_neg (by decide), if_neg (by decide), if_neg (by decide), if_pos (by decide)]
    have h := readLittleEndian_returns (W := W) (before ++ [0xF0]) [b₀, b₁, b₂, b₃] rest
    refine returns_map.2 ⟨_, ?_, rfl⟩
    simpa [add_assoc] using h
  | almostMax =>
    refine bind_read8_returns (hget 0) ?_
    exact returns_pure.2 ⟨rfl, rfl⟩
  | max =>
    refine bind_read8_returns (hget 0) ?_
    exact returns_pure.2 ⟨rfl, rfl⟩

end Reads

/-! ### The sign -/

open Computed in
/-- `ReadCompressedInt32`, after the number is read. -/
def decodeInt32 (encoded : UInt32) : Computed Unit ℤ :=
  if encoded = 0xFFFFFFFF then pure (-2 ^ 31)
  else do
    let isNegative := encoded &&& 1
    let encoded := encoded >>> 1
    if isNegative = 1 then do
      let successor ← arith () .uint32 (encoded.toNat + 1)
      let cast ← arith () .int32 successor
      arith () .int32 (-cast)
    else arith () .int32 encoded.toNat

/-- The integer that a number stands for. -/
def unfolded (encoded : ℕ) : ℤ :=
  if encoded = 2 ^ 32 - 1 then -2 ^ 31
  else if encoded % 2 = 1 then -(encoded / 2 + 1) else encoded / 2

theorem and_one_eq_one_iff {n : UInt32} : n &&& 1 = 1 ↔ n.toNat % 2 = 1 := by
  have h := Nat.and_one_is_mod n.toNat
  rw [← UInt32.toNat_inj, UInt32.toNat_and, ← h]
  rfl

theorem toNat_shiftRight_one (n : UInt32) : (n >>> 1).toNat = n.toNat / 2 := by
  simp [UInt32.toNat_shiftRight, Nat.shiftRight_eq_div_pow]

theorem eq_max_iff {n : UInt32} : n = 0xFFFFFFFF ↔ n.toNat = 2 ^ 32 - 1 := UInt32.toNat_inj.symm

theorem decodeInt32_eq (encoded : UInt32) :
    decodeInt32 encoded = pure (unfolded encoded.toNat) := by
  have hlt := encoded.toNat_lt
  unfold decodeInt32 unfolded
  simp only [eq_max_iff, and_one_eq_one_iff, toNat_shiftRight_one]
  split_ifs with h₁ h₂
  · rfl
  · -- the successor is at most `2 ^ 31 - 1`, since the largest odd number was taken out
    rw [Computed.arith_of_fits (by simp; omega), Computed.pure_bind',
      Computed.arith_of_fits (by simp; omega), Computed.pure_bind',
      Computed.arith_of_fits (by simp; omega)]
    simp
  · rw [Computed.arith_of_fits (by simp; omega)]
    simp

theorem fits_unfolded {encoded : ℕ} (h : encoded < 2 ^ 32) :
    IntType.int32.Fits (unfolded encoded) := by
  unfold unfolded
  rw [IntType.fits_int32]
  split_ifs <;> omega

/-- The values of `int32_t`. -/
abbrev Int32Value : Type := {x : ℤ // IntType.int32.Fits x}

/-- The folding, as a function between the values of the two types. -/
def decoded (encoded : UInt32) : Int32Value :=
  ⟨unfolded encoded.toNat, fits_unfolded encoded.toNat_lt⟩

theorem decoded_bijective : Function.Bijective decoded := by
  constructor
  · intro m n h
    have hm := m.toNat_lt
    have hn := n.toNat_lt
    have heq : unfolded m.toNat = unfolded n.toNat := congrArg Subtype.val h
    unfold unfolded at heq
    apply UInt32.toNat_inj.1
    split_ifs at heq <;> omega
  · rintro ⟨x, hx⟩
    rw [IntType.fits_int32] at hx
    let encoded : ℕ := if x = -2 ^ 31 then 2 ^ 32 - 1 else if x < 0 then (-2 * x - 1).toNat else
      (2 * x).toNat
    have hlt : encoded < 2 ^ 32 := by
      simp only [encoded]
      split_ifs <;> omega
    refine ⟨.ofNat encoded, Subtype.ext ?_⟩
    show unfolded (UInt32.ofNat encoded).toNat = x
    rw [UInt32.toNat_ofNat', Nat.mod_eq_of_lt hlt]
    simp only [encoded, unfolded]
    split_ifs <;> omega

theorem readCompressedInt32_eq {W : Type} (bytes : List UInt8) :
    (readCompressedInt32 bytes : Decoder W ℤ) =
      (fun encoded => (decodeInt32 encoded).value) <$> readCompressedUInt32 bytes := by
  show (readCompressedUInt32 bytes >>= _) = (readCompressedUInt32 bytes >>= _)
  congr 1
  funext encoded
  show _ = (pure (decodeInt32 encoded).value : Decoder W ℤ)
  rw [decodeInt32_eq, Computed.value_pure]
  simp only [eq_max_iff, and_one_eq_one_iff, toNat_shiftRight_one, unfolded]
  split_ifs <;> simp

/-- Every number has an encoding; an encoding is read up to its end, whatever follows; and reading
goes on without overflow to an `int32_t`, of which each stands for exactly one number. -/
theorem compressed_integers :
    (∀ v < 2 ^ 32, ∃ e, Encodes e v) ∧
    (∀ (e : List UInt8) (v : ℕ), Encodes e v → v < 2 ^ 32 ∧ ∀ before rest : List UInt8,
      (readCompressedUInt32 (before ++ (e ++ rest)) : Decoder Unit UInt32).Returns before.length
        (.ofNat v) (before.length + e.length)) ∧
    (∀ bytes, (readCompressedInt32 bytes : Decoder Unit ℤ) =
      (fun encoded => (decodeInt32 encoded).value) <$> readCompressedUInt32 bytes) ∧
    (∀ encoded, decodeInt32 encoded = pure (decoded encoded).val) ∧
    Function.Bijective decoded :=
  ⟨fun _ hv => exists_encodes hv, fun _ _ h => ⟨h.lt, readCompressedUInt32_returns h⟩,
    readCompressedInt32_eq, decodeInt32_eq, decoded_bijective⟩

theorem compressed_integers_two_bytes :
    (readCompressedUInt32 [1, 0x81, 0x02, 7] : Decoder Unit UInt32).Returns 1 258 3 := by
  have h : Encodes [0x80 + 1, 2] 258 := .two (by decide)
  exact (compressed_integers.2.1 _ _ h).2 [1] [7]

end CustomAttribute

end Il2Cpp
