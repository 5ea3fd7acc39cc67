import Il2Cpp.Data.Block
import Il2Cpp.Data.MachineInt
import Il2Cpp.Text.Utf8

/-!
# String builders in native memory

`PlatformInvoke::MarshalStringBuilder` and `PlatformInvoke::MarshalWStringBuilder`.  A string
builder is a chain of chunks, the newest first, and only the first `chunkLength` characters of the
array of a chunk are text.  Both functions copy whole arrays: the UTF-8 function up to the first NUL
and from the oldest chunk on, the UTF-16 function from the newest chunk on, so that an older array
comes over a newer one.

* `Holds` : the buffer that is returned has the encoded text, a terminator, and nothing else that
  counts.
* `marshalStringBuilder_holds_iff`, `marshalWStringBuilder_holds_iff` : the chains for which each of
  the functions does so, and `marshals_hold_iff` for both.
-/

namespace Il2Cpp

namespace StringBuilder

open Utf8

/-! ### Chunks -/

/-- An `Il2CppStringBuilder`, without the chunk before it. -/
structure Chunk where
  /-- The elements of the array; its `max_length` is their number. -/
  chunkChars : List UInt16
  chunkLength : ℕ
  chunkOffset : ℕ
  chunkLength_le : chunkLength ≤ chunkChars.length
  /-- `Array::NewSpecific` makes no longer one. -/
  length_lt : chunkChars.length < 2 ^ 31

/-- The characters of a chunk that are text. -/
def Chunk.text (chunk : Chunk) : List UInt16 := chunk.chunkChars.take chunk.chunkLength

/-- The text of a chain of chunks, the newest chunk first. -/
def text : List Chunk → List UInt16
  | [] => []
  | chunk :: older => text older ++ chunk.text

/-- The offset of every chunk is the length of the text before it. -/
def OffsetsFit : List Chunk → Prop
  | [] => True
  | chunk :: older => chunk.chunkOffset = (text older).length ∧ OffsetsFit older

/-! ### Memory -/

variable {α : Type}

/-- `PlatformInvoke::MarshalAllocateStringBuffer`, where the memory is as it was left. -/
def marshalAllocateStringBuffer (memory : ℕ → α) (numberOfCharacters : ℕ) : List α :=
  (List.range numberOfCharacters).map memory

/-- `memcpy` of `n` bytes from `source` to an offset in a block. -/
def memcpy (block : List α) (offset : ℤ) (source : List α) (n : ℤ) : Option (List α) :=
  if 0 ≤ offset ∧ 0 ≤ n ∧ n ≤ source.length then
    writeBlock block offset.toNat (source.take n.toNat)
  else none

/-! ### UTF-8 -/

/-- `Utf16ToUtf8` of the array of a chunk. -/
def Chunk.utf8String (chunk : Chunk) : Option (List UInt8) :=
  utf16ToUtf8 chunk.chunkChars (IntType.int32.wrap chunk.chunkChars.length)

/-- The loop of `PlatformInvoke::MarshalEmptyStringBuilder`: the `builders` with their `utf8Chunks`,
and the `stringLength`. -/
def collectChunks : List Chunk → Option (List (Chunk × List UInt8) × ℕ)
  | [] => some ([], 0)
  | currentBuilder :: chunkPrevious =>
    currentBuilder.utf8String.bind fun utf8String =>
      (collectChunks chunkPrevious).map fun (chunks, stringLength) =>
        ((currentBuilder, utf8String) :: chunks,
          max currentBuilder.chunkChars.length utf8String.length + stringLength)

/-- `PlatformInvoke::MarshalEmptyStringBuilder`. -/
def marshalEmptyStringBuilder (memory : ℕ → UInt8) (stringBuilder : List Chunk) :
    Option (List UInt8 × List (Chunk × List UInt8) × ℕ) :=
  (collectChunks stringBuilder).bind fun (chunks, stringLength) =>
    (writeBlock (marshalAllocateStringBuffer memory (stringLength + 1)) 0
      (List.replicate (stringLength + 1) 0)).map fun nativeString =>
        (nativeString, chunks, stringLength)

/-- The loop of `PlatformInvoke::MarshalStringBuilder`, from the oldest chunk on, with its
`offsetAdjustment`; `none` when the adjustment overflows. -/
def copyChunks : List (Chunk × List UInt8) → List UInt8 → Option (List UInt8 × ℤ)
  | [], nativeString => some (nativeString, 0)
  | (builder, utf8String) :: older, nativeString =>
    (copyChunks older nativeString).bind fun (nativeString, offsetAdjustment) =>
      (memcpy nativeString (builder.chunkOffset + offsetAdjustment) utf8String
        (IntType.int32.wrap utf8String.length)).bind fun nativeString =>
          let offsetAdjustment :=
            offsetAdjustment + (IntType.int32.wrap utf8String.length - builder.chunkLength)
          if IntType.int32.Fits offsetAdjustment then some (nativeString, offsetAdjustment)
          else none

/-- `PlatformInvoke::MarshalStringBuilder`: `some none` is `NULL`, and `none` an access outside of
an array or of the buffer, or an overflow. -/
def marshalStringBuilder (memory : ℕ → UInt8) (stringBuilder : List Chunk) :
    Option (Option (List UInt8)) :=
  if stringBuilder = [] then some none
  else
    (marshalEmptyStringBuilder memory stringBuilder).bind fun (nativeString, chunks, stringLength) =>
      if stringLength > 0 then
        (copyChunks chunks nativeString).map fun (nativeString, _) => some nativeString
      else some (some nativeString)

/-! ### UTF-16 -/

/-- `PlatformInvoke::MarshalEmptyWStringBuilder`: its `stringLength`. -/
def wStringLength : List Chunk → ℕ
  | [] => 0
  | currentBuilder :: chunkPrevious =>
    currentBuilder.chunkChars.length + wStringLength chunkPrevious

/-- The loop of `PlatformInvoke::MarshalWStringBuilder`. -/
def copyWChunks : List Chunk → List UInt16 → Option (List UInt16)
  | [], nativeString => some nativeString
  | currentBuilder :: chunkPrevious, nativeString =>
    (memcpy nativeString currentBuilder.chunkOffset currentBuilder.chunkChars
      (IntType.int32.wrap currentBuilder.chunkChars.length)).bind fun nativeString =>
        copyWChunks chunkPrevious nativeString

/-- `PlatformInvoke::MarshalWStringBuilder`. -/
def marshalWStringBuilder (memory : ℕ → UInt16) (stringBuilder : List Chunk) :
    Option (Option (List UInt16)) :=
  if stringBuilder = [] then some none
  else
    let stringLength := wStringLength stringBuilder
    let nativeString := marshalAllocateStringBuffer memory (stringLength + 1)
    (if stringLength > 0 then copyWChunks stringBuilder nativeString
      else some nativeString).bind fun nativeString =>
        (writeBlock nativeString stringLength [0]).map fun nativeString => some nativeString

/-! ### What is promised -/

/-- A string builder: the chunks have their places in the text. -/
structure Chain where
  chunks : List Chunk
  ne_nil : chunks ≠ []
  offsetsFit : OffsetsFit chunks

/-- Whatever the memory was, it ends up with the encoding of the text and a terminator. -/
def Holds [OfNat α 0] (encode : List UInt16 → List α)
    (marshal : (ℕ → α) → List Chunk → Option (Option (List α))) (stringBuilder : Chain) : Prop :=
  ∀ memory : ℕ → α, ∃ rest, marshal memory stringBuilder.chunks =
    some (some (encode (text stringBuilder.chunks) ++ 0 :: rest))

/-! ### The bytes that are copied -/

/-- The UTF-8 of an array, up to its first NUL. -/
def Chunk.bytes (chunk : Chunk) : List UInt8 := utf16to8 (chunk.chunkChars.takeWhile (· ≠ 0))

/-- The number of bytes, as an `int`. -/
def Chunk.count (chunk : Chunk) : ℤ := IntType.int32.wrap chunk.bytes.length

/-- The bytes of all chunks, the oldest first; of each as many as its count says. -/
def pieces : List Chunk → List UInt8
  | [] => []
  | chunk :: older => pieces older ++ chunk.bytes.take chunk.count.toNat

/-- The bytes that are allocated before the terminator. -/
def byteLength : List Chunk → ℕ
  | [] => 0
  | chunk :: older => max chunk.chunkChars.length chunk.bytes.length + byteLength older

/-- No count and no adjustment overflows. -/
def CountsFit : List Chunk → Prop
  | [] => True
  | chunk :: older => CountsFit older ∧ 0 ≤ chunk.count ∧ IntType.int32.Fits
      ((pieces (chunk :: older)).length - (text (chunk :: older)).length)

instance decidableCountsFit : (chunks : List Chunk) → Decidable (CountsFit chunks)
  | [] => .isTrue trivial
  | _ :: older =>
    have := decidableCountsFit older
    inferInstanceAs (Decidable (_ ∧ _ ∧ _))

variable {chunk : Chunk} {chunks : List Chunk} {nativeString : List UInt8}

theorem count_le (chunk : Chunk) : chunk.count ≤ chunk.bytes.length := by
  rw [Chunk.count, IntType.int32, IntType.wrap]
  omega

theorem zero_notMem_bytes (chunk : Chunk) : 0 ∉ chunk.bytes :=
  zero_notMem_utf16to8 fun hmem => by simpa using List.mem_takeWhile_imp hmem

theorem zero_notMem_pieces (chunks : List Chunk) : 0 ∉ pieces chunks := by
  induction chunks with
  | nil => exact List.not_mem_nil
  | cons chunk older ih =>
    rw [pieces, List.mem_append, not_or]
    exact ⟨ih, fun hmem => zero_notMem_bytes chunk (List.mem_of_mem_take hmem)⟩

theorem length_pieces_le (chunks : List Chunk) : (pieces chunks).length ≤ byteLength chunks := by
  induction chunks with
  | nil => exact Nat.le_refl 0
  | cons chunk older ih =>
    rw [pieces, byteLength, List.length_append, List.length_take]
    omega

theorem length_chunk_text (chunk : Chunk) : chunk.text.length = chunk.chunkLength :=
  List.length_take_of_le chunk.chunkLength_le

theorem utf8String_of_ne_nil (h : chunk.chunkChars ≠ []) : chunk.utf8String = some chunk.bytes := by
  have hpos := List.length_pos_iff.2 h
  have hlt := chunk.length_lt
  have hfits : IntType.int32.Fits chunk.chunkChars.length := by
    rw [IntType.fits_int32]
    omega
  rw [Chunk.utf8String, utf16ToUtf8, IntType.wrap_of_fits hfits,
    scan_of_lt (by omega) (Or.inr (by omega)), Option.map_some]
  simp [Chunk.bytes]

theorem memcpy_of_nonneg {block source : List α} {n : ℤ} (place : ℕ) (h : 0 ≤ n)
    (hle : n ≤ source.length) :
    memcpy block place source n = writeBlock block place (source.take n.toNat) :=
  if_pos ⟨Int.natCast_nonneg place, h, hle⟩

theorem memcpy_of_neg {block source : List α} {offset n : ℤ} (h : ¬0 ≤ n) :
    memcpy block offset source n = none :=
  if_neg fun hcopy => h hcopy.2.1

theorem utf8String_of_eq_nil (h : chunk.chunkChars = []) : chunk.utf8String = none := by
  rw [Chunk.utf8String, h]
  rfl

theorem collectChunks_of_ne_nil (h : ∀ chunk ∈ chunks, chunk.chunkChars ≠ []) :
    collectChunks chunks =
      some (chunks.map fun chunk => (chunk, chunk.bytes), byteLength chunks) := by
  induction chunks with
  | nil => rfl
  | cons chunk older ih =>
    rw [List.forall_mem_cons] at h
    rw [collectChunks, utf8String_of_ne_nil h.1, Option.bind_some, ih h.2]
    rfl

theorem collectChunks_of_eq_nil (hmem : chunk ∈ chunks) (h : chunk.chunkChars = []) :
    collectChunks chunks = none := by
  induction chunks with
  | nil => exact absurd hmem List.not_mem_nil
  | cons current older ih =>
    rw [collectChunks]
    rcases List.mem_cons.1 hmem with rfl | hmem
    · rw [utf8String_of_eq_nil h, Option.bind_none]
    · rw [ih hmem]
      exact Option.bind_fun_none current.utf8String

theorem adjustment_cons (chunk : Chunk) (older : List Chunk) (h : 0 ≤ chunk.count) :
    ((pieces older).length : ℤ) - (text older).length + (chunk.count - chunk.chunkLength) =
      (pieces (chunk :: older)).length - (text (chunk :: older)).length := by
  have hle := count_le chunk
  rw [pieces, text, List.length_append, List.length_append, List.length_take, length_chunk_text]
  omega

theorem copyChunks_eq (h : OffsetsFit chunks) :
    copyChunks (chunks.map fun chunk => (chunk, chunk.bytes)) nativeString =
      if CountsFit chunks then
        (writeBlock nativeString 0 (pieces chunks)).map fun nativeString =>
          (nativeString, ((pieces chunks).length : ℤ) - (text chunks).length)
      else none := by
  induction chunks with
  | nil =>
    have hnil : CountsFit [] := trivial
    rw [if_pos hnil, List.map_nil, copyChunks, pieces, writeBlock_of_le (Nat.zero_le _)]
    simp [text]
  | cons chunk older ih =>
    obtain ⟨hoffset, hfit⟩ := h
    have hplace : (chunk.chunkOffset : ℤ) + ((pieces older).length - (text older).length) =
        ((pieces older).length : ℕ) := by
      rw [hoffset]
      omega
    rw [List.map_cons, copyChunks, ih hfit]
    by_cases holder : CountsFit older
    · have happend := writeBlock_append nativeString (pieces older)
        (chunk.bytes.take chunk.count.toNat) 0
      rw [Nat.zero_add] at happend
      rw [if_pos holder, pieces, happend]
      cases writeBlock nativeString 0 (pieces older) with
      | none => exact (ite_self _).symm
      | some nativeString =>
        rw [Option.map_some, Option.bind_some, Option.bind_some]
        dsimp only
        rw [hplace, ← Chunk.count]
        by_cases hcount : 0 ≤ chunk.count
        · rw [memcpy_of_nonneg _ hcount (count_le chunk)]
          cases writeBlock nativeString (pieces older).length
              (chunk.bytes.take chunk.count.toNat) with
          | none => exact (ite_self _).symm
          | some nativeString =>
            rw [Option.bind_some, adjustment_cons chunk older hcount]
            exact if_congr ⟨fun hfits => ⟨holder, hcount, hfits⟩, fun hcounts => hcounts.2.2⟩
              rfl rfl
        · rw [memcpy_of_neg hcount, Option.bind_none, if_neg fun hcounts => hcount hcounts.2.1]
    · rw [if_neg holder, if_neg fun hcounts => holder hcounts.1, Option.bind_none]

/-! ### UTF-8 -/

theorem append_replicate_eq_iff {copied : List UInt8} {size : ℕ} (encoded : List UInt8)
    (hzero : 0 ∉ copied) (hle : copied.length ≤ size) :
    (∃ rest, copied ++ List.replicate (size + 1 - copied.length) 0 = encoded ++ 0 :: rest) ↔
      encoded.length ≤ size ∧
        encoded = copied ++ List.replicate (encoded.length - copied.length) 0 := by
  constructor
  · rintro ⟨rest, heq⟩
    rcases List.append_eq_append_iff.1 heq with ⟨zeros, rfl, hzeros⟩ | ⟨more, hmore, hrest⟩
    · have hall : zeros = List.replicate zeros.length 0 := by
        refine List.eq_replicate_iff.2 ⟨rfl, fun byte hbyte => ?_⟩
        have hmem : byte ∈ List.replicate (size + 1 - copied.length) (0 : UInt8) := by
          rw [hzeros]
          exact List.mem_append_left _ hbyte
        exact (List.mem_replicate.1 hmem).2
      have hlength := congrArg List.length hzeros
      rw [List.length_replicate, List.length_append, List.length_cons] at hlength
      rw [List.length_append, Nat.add_sub_cancel_left, ← hall]
      exact ⟨by omega, rfl⟩
    · cases more with
      | nil =>
        rw [List.append_nil] at hmore
        rw [← hmore, Nat.sub_self, List.replicate_zero, List.append_nil]
        exact ⟨hle, rfl⟩
      | cons byte more =>
        -- the terminator would be a zero among the copied bytes
        rw [List.cons_append, List.cons.injEq] at hrest
        rw [hmore, ← hrest.1] at hzero
        exact absurd (List.mem_append_right _ List.mem_cons_self) hzero
  · rintro ⟨hsize, heq⟩
    refine ⟨List.replicate (size - encoded.length) 0, ?_⟩
    have hlength : copied.length ≤ encoded.length := by
      rw [heq, List.length_append]
      exact Nat.le_add_right _ _
    have hsplit : size + 1 - copied.length =
        encoded.length - copied.length + (size - encoded.length + 1) := by omega
    rw [hsplit, List.replicate_add, ← List.append_assoc, ← heq, List.replicate_succ]

theorem byteLength_pos {chunks : List Chunk} (hne : chunks ≠ [])
    (h : ∀ chunk ∈ chunks, chunk.chunkChars ≠ []) : 0 < byteLength chunks := by
  cases chunks with
  | nil => exact absurd rfl hne
  | cons chunk older =>
    have hpos := List.length_pos_iff.2 (h chunk List.mem_cons_self)
    rw [byteLength]
    omega

theorem marshalStringBuilder_eq (memory : ℕ → UInt8) (stringBuilder : Chain)
    (h : ∀ chunk ∈ stringBuilder.chunks, chunk.chunkChars ≠ []) :
    marshalStringBuilder memory stringBuilder.chunks =
      if CountsFit stringBuilder.chunks then
        some (some (pieces stringBuilder.chunks ++ List.replicate
          (byteLength stringBuilder.chunks + 1 - (pieces stringBuilder.chunks).length) 0))
      else none := by
  obtain ⟨chunks, hne, hoffsets⟩ := stringBuilder
  dsimp only at h ⊢
  have hmemset : writeBlock (marshalAllocateStringBuffer memory (byteLength chunks + 1)) 0
      (List.replicate (byteLength chunks + 1) 0) =
        some (List.replicate (byteLength chunks + 1) 0) := by
    refine writeBlock_all ?_
    rw [marshalAllocateStringBuffer, List.length_replicate, List.length_map, List.length_range]
  have hroom : 0 + (pieces chunks).length ≤
      (List.replicate (byteLength chunks + 1) (0 : UInt8)).length := by
    have hle := length_pieces_le chunks
    rw [List.length_replicate]
    omega
  rw [marshalStringBuilder, if_neg hne, marshalEmptyStringBuilder, collectChunks_of_ne_nil h,
    Option.bind_some]
  dsimp only
  rw [hmemset, Option.map_some, Option.bind_some]
  dsimp only
  rw [if_pos (byteLength_pos hne h), copyChunks_eq hoffsets, writeBlock_of_le hroom]
  split_ifs
  · rw [Option.map_some, Option.map_some, List.take_zero, List.nil_append, Nat.zero_add,
      List.drop_replicate]
  · rfl

theorem marshalStringBuilder_of_eq_nil (memory : ℕ → UInt8) {stringBuilder : Chain} {chunk : Chunk}
    (hmem : chunk ∈ stringBuilder.chunks) (h : chunk.chunkChars = []) :
    marshalStringBuilder memory stringBuilder.chunks = none := by
  rw [marshalStringBuilder, if_neg stringBuilder.ne_nil, marshalEmptyStringBuilder,
    collectChunks_of_eq_nil hmem h, Option.bind_none, Option.bind_none]

/-- The UTF-8 of the text is the UTF-8 of the arrays, each up to its first NUL, in the order of the
text, but for NULs that have room behind it. -/
def CopiesText (chunks : List Chunk) : Prop :=
  (∀ chunk ∈ chunks, chunk.chunkChars ≠ []) ∧ CountsFit chunks ∧
    (utf16to8 (text chunks)).length ≤ byteLength chunks ∧
    utf16to8 (text chunks) = pieces chunks ++
      List.replicate ((utf16to8 (text chunks)).length - (pieces chunks).length) 0

theorem marshalStringBuilder_holds_iff (stringBuilder : Chain) :
    Holds utf16to8 marshalStringBuilder stringBuilder ↔ CopiesText stringBuilder.chunks := by
  have hbuffer := append_replicate_eq_iff (utf16to8 (text stringBuilder.chunks))
    (zero_notMem_pieces _) (length_pieces_le stringBuilder.chunks)
  constructor
  · intro hholds
    obtain ⟨rest, hrest⟩ := hholds fun _ => 0
    have hne : ∀ chunk ∈ stringBuilder.chunks, chunk.chunkChars ≠ [] := by
      intro chunk hmem hnil
      rw [marshalStringBuilder_of_eq_nil _ hmem hnil] at hrest
      exact absurd hrest.symm (Option.some_ne_none _)
    rw [marshalStringBuilder_eq _ stringBuilder hne] at hrest
    split_ifs at hrest with hcounts
    exact ⟨hne, hcounts, hbuffer.1 ⟨rest, Option.some.inj (Option.some.inj hrest)⟩⟩
  · rintro ⟨hne, hcounts, hencoded⟩ memory
    obtain ⟨rest, hrest⟩ := hbuffer.2 hencoded
    exact ⟨rest, by rw [marshalStringBuilder_eq _ stringBuilder hne, if_pos hcounts, hrest]⟩

/-! ### UTF-16 -/

/-- The character that the oldest chunk whose array reaches a place has there. -/
def reaching : List Chunk → ℕ → Option UInt16
  | [], _ => none
  | chunk :: older, place => (reaching older place).or
      (if chunk.chunkOffset ≤ place then chunk.chunkChars[place - chunk.chunkOffset]? else none)

theorem reaching_isSome {place : ℕ} (h : OffsetsFit chunks)
    (hplace : place < (text chunks).length) :
    (reaching chunks place).isSome := by
  induction chunks with
  | nil => exact absurd hplace (Nat.not_lt_zero place)
  | cons chunk older ih =>
    obtain ⟨hoffset, hfit⟩ := h
    rw [reaching, Option.isSome_or, Bool.or_eq_true]
    rcases Nat.lt_or_ge place (text older).length with hlt | hge
    · exact Or.inl (ih hfit hlt)
    · have hle := chunk.chunkLength_le
      rw [text, List.length_append, length_chunk_text] at hplace
      rw [if_pos (by omega), List.getElem?_eq_getElem (by omega)]
      exact Or.inr rfl

theorem length_text_le (chunks : List Chunk) : (text chunks).length ≤ wStringLength chunks := by
  induction chunks with
  | nil => exact Nat.le_refl 0
  | cons chunk older ih =>
    have hle := chunk.chunkLength_le
    rw [text, wStringLength, List.length_append, length_chunk_text]
    omega

theorem length_text_eq_iff (chunks : List Chunk) : (text chunks).length = wStringLength chunks ↔
    ∀ chunk ∈ chunks, chunk.chunkChars.length = chunk.chunkLength := by
  induction chunks with
  | nil => exact iff_of_true rfl fun _ hmem => absurd hmem List.not_mem_nil
  | cons chunk older ih =>
    have hle := chunk.chunkLength_le
    have hle' := length_text_le older
    rw [List.forall_mem_cons, ← ih, text, wStringLength, List.length_append, length_chunk_text]
    omega

theorem getElem?_writeBlock {block block' cells : List α} {start place : ℕ}
    (h : writeBlock block start cells = some block') : block'[place]? =
      (if start ≤ place then cells[place - start]? else none).or block[place]? := by
  by_cases hinside : start ≤ place ∧ place < start + cells.length
  · obtain ⟨i, rfl⟩ := Nat.exists_eq_add_of_le hinside.1
    have hi : i < cells.length := by omega
    rw [getElem?_writeBlock_of_inside h hi, if_pos hinside.1, Nat.add_sub_cancel_left,
      List.getElem?_eq_getElem hi, Option.some_or]
  · rw [getElem?_writeBlock_of_outside h (by omega)]
    split_ifs with hle
    · rw [List.getElem?_eq_none (l := cells) (by omega), Option.none_or]
    · rw [Option.none_or]

theorem copyWChunks_eq_some {nativeString : List UInt16} (h : OffsetsFit chunks)
    (hroom : wStringLength chunks < nativeString.length) :
    ∃ copied, copyWChunks chunks nativeString = some copied ∧
      copied.length = nativeString.length ∧
      ∀ place, copied[place]? = (reaching chunks place).or nativeString[place]? := by
  induction chunks generalizing nativeString with
  | nil => exact ⟨nativeString, rfl, rfl, fun _ => rfl⟩
  | cons chunk older ih =>
    obtain ⟨hoffset, hfit⟩ := h
    have hlt := chunk.length_lt
    have hfits : IntType.int32.Fits chunk.chunkChars.length := by
      rw [IntType.fits_int32]
      omega
    have hle := length_text_le older
    rw [wStringLength] at hroom
    have hwrite : writeBlock nativeString chunk.chunkOffset chunk.chunkChars = some _ :=
      writeBlock_of_le (by omega)
    obtain ⟨copied, hcopied, hlength, hplaces⟩ :=
      ih hfit (by rw [length_writeBlock hwrite]; omega)
    refine ⟨copied, ?_, hlength.trans (length_writeBlock hwrite), fun place => ?_⟩
    · rw [copyWChunks, IntType.wrap_of_fits hfits, memcpy_of_nonneg _ (by omega) (Int.le_refl _),
        Int.toNat_natCast, List.take_length, hwrite, Option.bind_some, hcopied]
    · rw [hplaces, reaching, getElem?_writeBlock hwrite, Option.or_assoc]

theorem exists_eq_append_cons_iff {block cells : List α} {terminator : α} :
    (∃ rest, block = cells ++ terminator :: rest) ↔
      (∀ place < cells.length, block[place]? = cells[place]?) ∧
        block[cells.length]? = some terminator := by
  constructor
  · rintro ⟨rest, rfl⟩
    exact ⟨fun place hplace => List.getElem?_append_left hplace, by simp⟩
  · rintro ⟨hplaces, hterminator⟩
    obtain ⟨hlt, hget⟩ := List.getElem?_eq_some_iff.1 hterminator
    have htake : block.take cells.length = cells := by
      refine List.ext_getElem? fun place => ?_
      rw [List.getElem?_take]
      split_ifs with hplace
      · exact hplaces place hplace
      · exact (List.getElem?_eq_none (Nat.le_of_not_lt hplace)).symm
    refine ⟨block.drop (cells.length + 1), ?_⟩
    calc block = block.take cells.length ++ block.drop cells.length :=
          (List.take_append_drop _ _).symm
      _ = cells ++ terminator :: block.drop (cells.length + 1) := by
          rw [htake, List.drop_eq_getElem_cons hlt, hget]

theorem marshalWStringBuilder_eq (memory : ℕ → UInt16) (stringBuilder : Chain) :
    ∃ copied, marshalWStringBuilder memory stringBuilder.chunks = some (some copied) ∧
      copied[wStringLength stringBuilder.chunks]? = some 0 ∧
      ∀ place < wStringLength stringBuilder.chunks,
        copied[place]? = (reaching stringBuilder.chunks place).or (some (memory place)) := by
  obtain ⟨chunks, hne, hoffsets⟩ := stringBuilder
  dsimp only
  obtain ⟨nativeString, hnative⟩ : ∃ nativeString,
      marshalAllocateStringBuffer memory (wStringLength chunks + 1) = nativeString := ⟨_, rfl⟩
  have hlength : nativeString.length = wStringLength chunks + 1 := by
    rw [← hnative, marshalAllocateStringBuffer, List.length_map, List.length_range]
  have hmemory {place : ℕ} (hplace : place < wStringLength chunks) :
      nativeString[place]? = some (memory place) := by
    rw [← hnative, marshalAllocateStringBuffer, List.getElem?_map,
      List.getElem?_range (Nat.lt_succ_of_lt hplace), Option.map_some]
  obtain ⟨copied, hcopied, hsame, hplaces⟩ : ∃ copied,
      (if wStringLength chunks > 0 then copyWChunks chunks nativeString else some nativeString) =
        some copied ∧ copied.length = nativeString.length ∧
      ∀ place < wStringLength chunks,
        copied[place]? = (reaching chunks place).or nativeString[place]? := by
    split_ifs with hpos
    · obtain ⟨copied, hcopied, hsame, hplaces⟩ :=
        copyWChunks_eq_some hoffsets (hlength ▸ Nat.lt_succ_self _ : _ < nativeString.length)
      exact ⟨copied, hcopied, hsame, fun place _ => hplaces place⟩
    · exact ⟨nativeString, rfl, rfl, fun place hplace => absurd hplace (by omega)⟩
  have hwrite : writeBlock copied (wStringLength chunks) [0] = some _ :=
    writeBlock_of_le (by rw [hsame, hlength, List.length_singleton])
  refine ⟨_, ?_, (getElem?_writeBlock_of_inside hwrite Nat.one_pos).trans rfl,
    fun place hplace => ?_⟩
  · rw [marshalWStringBuilder, if_neg hne]
    dsimp only
    rw [hnative, hcopied, Option.bind_some, hwrite, Option.map_some]
  · rw [getElem?_writeBlock_of_outside hwrite (Or.inl hplace), hplaces place hplace,
      hmemory hplace]

/-- At every place of the text the oldest array that reaches it has the character of the text, and
behind the text a NUL, unless there is no character that is not text. -/
def CopiesWText (chunks : List Chunk) : Prop :=
  (∀ place < (text chunks).length, reaching chunks place = (text chunks)[place]?) ∧
    (reaching chunks (text chunks).length = some 0 ∨
      ∀ chunk ∈ chunks, chunk.chunkChars.length = chunk.chunkLength)

theorem marshalWStringBuilder_holds_iff (stringBuilder : Chain) :
    Holds id marshalWStringBuilder stringBuilder ↔ CopiesWText stringBuilder.chunks := by
  have hle := length_text_le stringBuilder.chunks
  have hreaching {place : ℕ} (hplace : place < (text stringBuilder.chunks).length) :=
    Option.isSome_iff_exists.1 (reaching_isSome stringBuilder.offsetsFit hplace)
  rw [CopiesWText, ← length_text_eq_iff]
  constructor
  · intro hholds
    -- the memory behind the text may hold anything
    obtain ⟨rest, hrest⟩ := hholds fun _ => 1
    obtain ⟨copied, hcopied, -, hplaces⟩ := marshalWStringBuilder_eq (fun _ => 1) stringBuilder
    have heq : copied = text stringBuilder.chunks ++ 0 :: rest :=
      Option.some.inj (Option.some.inj (hcopied.symm.trans hrest))
    obtain ⟨htext, hterminator⟩ := exists_eq_append_cons_iff.1 ⟨rest, heq⟩
    refine ⟨fun place hplace => ?_, ?_⟩
    · obtain ⟨c, hc⟩ := hreaching hplace
      rw [← htext place hplace, hplaces place (Nat.lt_of_lt_of_le hplace hle), hc, Option.some_or]
    · refine (Nat.lt_or_eq_of_le hle).imp (fun hlt => ?_) id
      have hend := (hplaces _ hlt).symm.trans hterminator
      cases hc : reaching stringBuilder.chunks (text stringBuilder.chunks).length with
      | none =>
        rw [hc] at hend
        exact absurd (Option.some.inj hend) (by decide)
      | some c => rwa [hc] at hend
  · rintro ⟨htext, hend⟩ memory
    obtain ⟨copied, hcopied, hterminator, hplaces⟩ := marshalWStringBuilder_eq memory stringBuilder
    obtain ⟨rest, hrest⟩ : ∃ rest, copied = text stringBuilder.chunks ++ 0 :: rest := by
      refine exists_eq_append_cons_iff.2 ⟨fun place hplace => ?_, ?_⟩
      · obtain ⟨c, hc⟩ := hreaching hplace
        rw [hplaces place (Nat.lt_of_lt_of_le hplace hle), ← htext place hplace, hc,
          Option.some_or]
      · rcases Nat.lt_or_eq_of_le hle with hlt | heq
        · have hzero := hend.resolve_right (Nat.ne_of_lt hlt)
          rw [hplaces _ hlt, hzero, Option.some_or]
        · rwa [heq]
    exact ⟨rest, by rw [hcopied, hrest]; rfl⟩

/-! ### Both -/

theorem marshals_hold_iff (stringBuilder : Chain) :
    Holds utf16to8 marshalStringBuilder stringBuilder ∧
        Holds id marshalWStringBuilder stringBuilder ↔
      CopiesText stringBuilder.chunks ∧ CopiesWText stringBuilder.chunks :=
  and_congr (marshalStringBuilder_holds_iff stringBuilder)
    (marshalWStringBuilder_holds_iff stringBuilder)

/-- "a", with a "b" behind it that has been removed from the text. -/
def shortened : Chain where
  chunks := [⟨[0x61, 0x62], 1, 0, by decide, by decide⟩]
  ne_nil := List.cons_ne_nil _ _
  offsetsFit := ⟨rfl, trivial⟩

theorem not_holds_shortened : ¬(Holds utf16to8 marshalStringBuilder shortened ∧
    Holds id marshalWStringBuilder shortened) := by
  rintro ⟨hholds, -⟩
  obtain ⟨rest, hrest⟩ := hholds fun _ => 0
  have hboth : marshalStringBuilder (fun _ => 0) shortened.chunks =
      some (some [0x61, 0x62, 0]) := by decide
  have heq := Option.some.inj (Option.some.inj (hboth.symm.trans hrest))
  have hsecond : some 0x62 = some (0 : UInt8) := congrArg (·[1]?) heq
  exact absurd hsecond (by decide)

end StringBuilder

end Il2Cpp
