import Il2Cpp.TypeName.Printer

/-!
# Names of types in chunks

`Type::GetNameChunkedRecurse` reports the name of a type piece by piece.  A piece is an array that
the callback reads as a C string; short pieces are collected in a buffer first.

* `ChunkWriter` : the chunks reported so far and the buffer.
* `getNameChunkedRecurse` : the chunks of a type.
* `chunksText` : their concatenation; there is none where a chunk has no terminator.
* `Compares` : a text that is not longer than its chunks, which compares in sequence piece by piece.
* `getNameChunkedRecurse_eq_getName_iff` : exactly when the chunks make up the plain name.
-/

namespace Il2Cpp

open Il2CppTypeNameFormat

/-- `kNameChunkBufferSize`. -/
def kNameChunkBufferSize : ℕ := 8

/-! ### Chunks -/

/-- A chunk: the array that the callback gets a pointer to. -/
abbrev Chunk := List Char

/-- The array of a C string. -/
def cString (s : List Char) : Chunk := s ++ [NUL]

/-- The C string in an array, if it ends inside the array. -/
def Chunk.text (chunk : Chunk) : Option (List Char) :=
  if NUL ∈ chunk then some (cStr chunk) else none

/-- One text after the other, where both exist. -/
def catText (s t : Option (List Char)) : Option (List Char) := s.bind fun s => t.map (s ++ ·)

/-- The concatenation of the chunks. -/
def chunksText (chunks : List Chunk) : Option (List Char) :=
  chunks.foldr (fun c t => catText c.text t) (some [])

/-! ### The buffer -/

/-- The chunks reported so far, and what stands between `bufferPtr` and `bufferIter`. -/
structure ChunkWriter where
  chunks : List Chunk := []
  buffer : List Char := []

namespace ChunkWriter

/-- `*bufferIter++ = c`. -/
def put (w : ChunkWriter) (c : Char) : ChunkWriter := { w with buffer := w.buffer ++ [c] }

/-- The buffer as an array: zero behind what was written since it was cleared. -/
def bufferChunk (w : ChunkWriter) : Chunk :=
  w.buffer ++ List.replicate (kNameChunkBufferSize + 1 - w.buffer.length) NUL

/-- `chunkReportFunc`, some number of times, with other arrays than the buffer. -/
def report (w : ChunkWriter) (chunks : List Chunk) : ChunkWriter :=
  { w with chunks := w.chunks ++ chunks }

/-- `flushChunkBuffer`. -/
def flush (w : ChunkWriter) : ChunkWriter := ⟨w.chunks ++ [w.bufferChunk], []⟩

/-- A loop that writes a text into the buffer and flushes the buffer whenever it is `full`, a
condition on `bufferIter - bufferPtr`. -/
def write (full : ℕ → Bool) (w : ChunkWriter) (s : List Char) : ChunkWriter :=
  s.foldl (fun w c => if full (w.put c).buffer.length then (w.put c).flush else w.put c) w

end ChunkWriter

/-- No slot of the buffer is empty. -/
def noSlot (n : ℕ) : Bool := n == kNameChunkBufferSize

/-- Fewer than two slots of the buffer are empty. -/
def fewSlots (n : ℕ) : Bool := kNameChunkBufferSize < n + 2

/-! ### The printer -/

/-- `PublicKeyTokenToCStringChunk`: the array has no room for a terminator. -/
def publicKeyTokenToCStringChunk (token : List UInt8) : Chunk := publicKeyTokenToString token

/-- `AssemblyName::AssemblyNameReportChunked`. -/
def assemblyNameReportChunked (aname : Il2CppAssemblyName) : List Chunk :=
  [cString aname.name.chars, cString ", Version=".toList,
    cString (formatInt aname.major.toInt ++ ".".toList),
    cString (formatInt aname.minor.toInt ++ ".".toList),
    cString (formatInt aname.build.toInt ++ ".".toList),
    cString (formatInt aname.build.toInt),
    cString (formatInt aname.revision.toInt),
    cString ", Culture=".toList, cString (cultureName aname.culture),
    cString ", PublicKeyToken=".toList] ++
  [if aname.publicKeyToken.headD 0 ≠ 0 then publicKeyTokenToCStringChunk aname.publicKeyToken
    else cString "null".toList] ++
  [cString (if retargetable aname.flags then ", Retargetable=Yes".toList else [])] ++
  (if aname.name.chars = "WindowsRuntimeMetadata".toList then
    [cString ", ContentType=WindowsRuntime".toList] else [])

/-- The end of all cases but those of generic parameters: `&`, a flush, and the assembly. -/
def finishChunks (format : Il2CppTypeNameFormat) (byref : Bool) (aname : Il2CppAssemblyName)
    (w : ChunkWriter) : List Chunk :=
  let w := if byref then w.put '&' else w
  let w := w.flush
  if format = assemblyQualified then
    let w := w.put ','
    let w := w.report [w.bufferChunk]
    (w.report (assemblyNameReportChunked aname)).chunks
  else w.chunks

/-- `klass->name`: through the buffer in the IL format, else as a chunk of its own. -/
def simpleNameChunks (format : Il2CppTypeNameFormat) (name : CString) (w : ChunkWriter) :
    ChunkWriter :=
  let w :=
    if format = il then w.write noSlot (name.chars.takeWhile (· != '\x60'))
    else w.report [cString name.chars]
  if w.buffer ≠ [] then w.flush else w

/-- The name of a class with its declaring classes or its namespace. -/
def classNameChunks (format : Il2CppTypeNameFormat) : ClassName → ChunkWriter
  | .topLevel namespaze name =>
    let w : ChunkWriter :=
      if namespaze.chars ≠ [] then (ChunkWriter.report {} [cString namespaze.chars]).put '.' else {}
    simpleNameChunks format name w
  | .nested declaringType name =>
    let w : ChunkWriter := { chunks := (classNameChunks format declaringType).chunks }
    simpleNameChunks format name (w.put (nestedSeparator format))

/-- The loop over the parameters of a generic type definition. -/
def genericParameterChunks (first : Bool) (w : ChunkWriter) : List GenericParameter → ChunkWriter
  | [] => w
  | parameter :: parameters =>
    let w := if first then w else w.put ','
    genericParameterChunks false (w.write fewSlots parameter.name.chars) parameters

/-- The parameters of a generic type definition, in the formats that print them. -/
def genericContainerChunks (format : Il2CppTypeNameFormat) (definition : TypeDefinition)
    (w : ChunkWriter) : ChunkWriter :=
  match definition.genericContainer with
  | some parameters =>
    if format ≠ fullName ∧ format ≠ assemblyQualified then
      (genericParameterChunks true (w.put (openBracket format)) parameters).put
        (closeBracket format)
    else w
  | none => w

mutual

/-- `Type::GetNameChunkedRecurseInternal` without `is_nested`, for a type with the given `byref`
flag. -/
def getNameChunkedRecurseInternal (format : Il2CppTypeNameFormat) (byref : Bool) :
    TypeShape → List Chunk
  | .array etype rank =>
    let w : ChunkWriter := { chunks := getNameChunkedRecurseInternal format.element false etype }
    let w := w.put '['
    let w := if rank = 1 then w.put '*' else w
    let w := w.write fewSlots (List.replicate (rank - 1) ',')
    finishChunks format byref etype.assembly (w.put ']')
  | .szarray type =>
    let w : ChunkWriter := { chunks := getNameChunkedRecurseInternal format.element false type }
    finishChunks format byref type.assembly ((w.put '[').put ']')
  | .ptr type =>
    let w : ChunkWriter := { chunks := getNameChunkedRecurseInternal format.element false type }
    finishChunks format byref type.assembly (w.put '*')
  | .var parameter | .mvar parameter =>
    let w := ChunkWriter.report {} [cString parameter.name.chars]
    if byref then
      let w := w.put '&'
      (w.report [w.bufferChunk]).chunks
    else w.chunks
  | .klass definition =>
    finishChunks format byref definition.assembly
      (genericContainerChunks format definition (classNameChunks format definition.className))
  | .genericinst definition typeArgv =>
    let w := (classNameChunks format definition.className).put (openBracket format)
    let w := genericArgumentChunks format.nested true w typeArgv
    finishChunks format byref definition.assembly (w.put (closeBracket format))

/-- The loop over the generic arguments; `first` is `i == 0`. -/
def genericArgumentChunks (nestedFormat : Il2CppTypeNameFormat) (first : Bool) (w : ChunkWriter) :
    List (Bool × TypeShape) → ChunkWriter
  | [] => w
  | (byref, t) :: typeArgv =>
    let w := if first then w else w.put ','
    let w := if nestedFormat = assemblyQualified ∧ !t.isVar then w.put '[' else w
    let w := w.flush.report (getNameChunkedRecurseInternal nestedFormat byref t)
    let w := if nestedFormat = assemblyQualified ∧ !t.isVar then w.put ']' else w
    genericArgumentChunks nestedFormat false w typeArgv

end

/-- `Type::GetNameChunkedRecurse`. -/
def getNameChunkedRecurse (type : RuntimeType) (format : Il2CppTypeNameFormat) : List Chunk :=
  getNameChunkedRecurseInternal format type.byref type.shape

/-! ### Concatenation -/

@[simp] theorem catText_some (s t : List Char) : catText (some s) (some t) = some (s ++ t) := rfl

@[simp] theorem catText_nil (s : Option (List Char)) : catText s (some []) = s := by
  cases s <;> simp [catText]

@[simp] theorem nil_catText (s : Option (List Char)) : catText (some []) s = s := by
  cases s <;> simp [catText]

theorem catText_assoc (s t u : Option (List Char)) :
    catText (catText s t) u = catText s (catText t u) := by
  cases s <;> cases t <;> cases u <;> simp [catText]

@[simp] theorem chunksText_nil : chunksText [] = some [] := rfl

@[simp] theorem chunksText_cons (c : Chunk) (cs : List Chunk) :
    chunksText (c :: cs) = catText c.text (chunksText cs) := rfl

@[simp] theorem chunksText_append (cs ds : List Chunk) :
    chunksText (cs ++ ds) = catText (chunksText cs) (chunksText ds) := by
  induction cs with
  | nil => simp
  | cons c cs ih => simp [ih, catText_assoc]

theorem chunksText_eq_none {c : Chunk} {cs : List Chunk} (hc : c ∈ cs) (h : c.text = none) :
    chunksText cs = none := by
  induction cs with
  | nil => simp at hc
  | cons d cs ih =>
    rcases List.mem_cons.1 hc with rfl | hc
    · simp [h, catText]
    · simp [ih hc, catText]

theorem text_append_replicate {s : List Char} (hs : NUL ∉ s) (n : ℕ) :
    Chunk.text (s ++ List.replicate (n + 1) NUL) = some s := by
  have hmem : NUL ∈ s ++ List.replicate (n + 1) NUL := by simp
  rw [Chunk.text, if_pos hmem, cStr, List.takeWhile_append_of_pos]
  · simp [List.replicate_succ]
  · exact fun c hc => by simpa using fun hn : c = NUL => hs (hn ▸ hc)

@[simp] theorem text_cString {s : List Char} (hs : NUL ∉ s) : (cString s).text = some s :=
  text_append_replicate hs 0

namespace ChunkWriter

/-- What has been written: the chunks and then the buffer. -/
def text (w : ChunkWriter) : Option (List Char) := catText (chunksText w.chunks) (some w.buffer)

/-- The buffer has room for `k` more characters, and no terminator has been written into it. -/
structure Room (w : ChunkWriter) (k : ℕ) : Prop where
  length : w.buffer.length + k ≤ kNameChunkBufferSize
  noNul : NUL ∉ w.buffer

variable {w : ChunkWriter} {k : ℕ} {c : Char} {s : List Char}

theorem Room.mono {j : ℕ} (h : w.Room k) (hj : j ≤ k) : w.Room j :=
  ⟨(Nat.add_le_add_left hj _).trans h.length, h.noNul⟩

theorem room_of_buffer_eq_nil (h : w.buffer = []) : w.Room kNameChunkBufferSize := by
  constructor <;> simp [h]

@[simp] theorem put_chunks : (w.put c).chunks = w.chunks := rfl

@[simp] theorem put_buffer : (w.put c).buffer = w.buffer ++ [c] := rfl

@[simp] theorem flush_buffer : w.flush.buffer = [] := rfl

@[simp] theorem report_buffer (cs : List Chunk) : (w.report cs).buffer = w.buffer := rfl

@[simp] theorem report_chunks (cs : List Chunk) : (w.report cs).chunks = w.chunks ++ cs := rfl

theorem Room.put (h : w.Room (k + 1)) (hc : c ≠ NUL) : (w.put c).Room k := by
  refine ⟨?_, ?_⟩
  · have := h.length
    simp only [put_buffer, List.length_append, List.length_singleton]
    omega
  · simpa [h.noNul] using hc.symm

@[simp] theorem text_put : (w.put c).text = catText w.text (some [c]) := by
  simp [text, catText_assoc]

theorem text_bufferChunk (h : w.Room 0) : w.bufferChunk.text = some w.buffer := by
  have hl := h.length
  obtain ⟨n, hn⟩ : ∃ n, kNameChunkBufferSize + 1 - w.buffer.length = n + 1 :=
    ⟨kNameChunkBufferSize - w.buffer.length, by omega⟩
  rw [bufferChunk, hn, text_append_replicate h.noNul]

theorem text_of_buffer_eq_nil (h : w.buffer = []) : w.text = chunksText w.chunks := by
  simp [text, h]

theorem text_flush (h : w.Room 0) : w.flush.text = w.text := by
  simp [text, flush, text_bufferChunk h]

theorem text_report (h : w.buffer = []) (cs : List Chunk) :
    (w.report cs).text = catText w.text (chunksText cs) := by
  simp [text, h]

theorem text_write_step {full : ℕ → Bool} (h : w.Room 1) (hc : c ≠ NUL) :
    (if full (w.put c).buffer.length then (w.put c).flush else w.put c).text =
      catText w.text (some [c]) := by
  split_ifs
  · rw [text_flush (h.put hc), text_put]
  · exact text_put

theorem room_write_step {full : ℕ → Bool}
    (hfull : ∀ n ≤ kNameChunkBufferSize, full n = false → n + k ≤ kNameChunkBufferSize)
    (hk : k ≤ kNameChunkBufferSize) (h : w.Room 1) (hc : c ≠ NUL) :
    (if full (w.put c).buffer.length then (w.put c).flush else w.put c).Room k := by
  split_ifs with hf
  · exact (room_of_buffer_eq_nil flush_buffer).mono hk
  · exact ⟨hfull _ (h.put hc).length (by simpa using hf), (h.put hc).noNul⟩

theorem write_spec {full : ℕ → Bool}
    (hfull : ∀ n ≤ kNameChunkBufferSize, full n = false → n + k ≤ kNameChunkBufferSize)
    (h₁ : 1 ≤ k) (hk : k ≤ kNameChunkBufferSize) (h : w.Room 1) (hs : NUL ∉ s) :
    (w.write full s).text = catText w.text (some s) ∧
      (s ≠ [] ∨ w.Room k → (w.write full s).Room k) := by
  induction s generalizing w with
  | nil => simp [write]
  | cons c s ih =>
    have hc : c ≠ NUL := fun hn => hs (hn ▸ List.mem_cons_self)
    have hroom := room_write_step hfull hk h hc
    obtain ⟨htext, hroom'⟩ := ih (hroom.mono h₁) fun hn => hs (List.mem_cons_of_mem _ hn)
    refine ⟨?_, fun _ => hroom' (.inr hroom)⟩
    rw [write, List.foldl_cons, ← write, htext, text_write_step h hc, catText_assoc]
    rfl

end ChunkWriter

/-! ### Comparing a text with chunks -/

/-- The chunks `q` are at least as long as the text `p`, and agree with it exactly if `agree`. -/
structure Compares (p : List Char) (q : Option (List Char)) (agree : Prop) : Prop where
  length_le : ∀ s ∈ q, p.length ≤ s.length
  eq_iff : q = some p ↔ agree

namespace Compares

variable {p p' : List Char} {q q' : Option (List Char)} {a a' : Prop}

theorem refl (p : List Char) : Compares p (some p) True :=
  ⟨fun s hs => by cases hs; rfl, by simp⟩

/-- Texts that are not longer than their chunks agree in sequence if they agree one by one. -/
theorem cat (h : Compares p q a) (h' : Compares p' q' a') :
    Compares (p ++ p') (catText q q') (a ∧ a') := by
  rcases q with _ | s
  · have ha : ¬ a := fun ha => nomatch h.eq_iff.2 ha
    exact ⟨fun s hs => (nomatch hs), by simp [catText, ha]⟩
  rcases q' with _ | s'
  · have ha' : ¬ a' := fun ha' => nomatch h'.eq_iff.2 ha'
    exact ⟨fun s hs => (nomatch hs), by simp [catText, ha']⟩
  have hl := h.length_le s rfl
  have hl' := h'.length_le s' rfl
  refine ⟨fun t ht => ?_, ?_⟩
  · cases ht
    simp only [List.length_append]
    omega
  · rw [← h.eq_iff, ← h'.eq_iff, catText_some]
    simp only [Option.some.injEq]
    refine ⟨fun heq => ?_, fun ⟨hs, hs'⟩ => by rw [hs, hs']⟩
    have hlen := congrArg List.length heq
    simp only [List.length_append] at hlen
    exact List.append_inj heq (by omega)

theorem append (h : Compares p q a) (s : List Char) : Compares (p ++ s) (catText q (some s)) a := by
  simpa using h.cat (refl s)

theorem congr (h : Compares p q a) (haa' : a ↔ a') : Compares p q a' :=
  ⟨h.length_le, h.eq_iff.trans haa'⟩

end Compares

/-! ### Assembly names -/

theorem noNul_formatInt (n : ℤ) : NUL ∉ formatInt n := mem_formatInt_ne (by decide) (by decide)

theorem chunksText_assemblyNameReportChunked {aname : Il2CppAssemblyName}
    (h : ¬ aname.publicKeyToken.headD 0 ≠ 0) :
    chunksText (assemblyNameReportChunked aname) = some (aname.name.chars ++ ", Version=".toList ++
      formatInt aname.major.toInt ++ ".".toList ++ formatInt aname.minor.toInt ++ ".".toList ++
      formatInt aname.build.toInt ++ ".".toList ++ formatInt aname.build.toInt ++
      formatInt aname.revision.toInt ++ ", Culture=".toList ++ cultureName aname.culture ++
      ", PublicKeyToken=".toList ++ "null".toList ++
      (if retargetable aname.flags then ", Retargetable=Yes".toList else []) ++
      (if aname.name.chars = "WindowsRuntimeMetadata".toList then
        ", ContentType=WindowsRuntime".toList else [])) := by
  have hdot : ∀ n : ℤ, (cString (formatInt n ++ ".".toList)).text =
      some (formatInt n ++ ".".toList) := fun n => by
    have hne : NUL ≠ '.' := by decide
    exact text_cString (by simp [noNul_formatInt, hne])
  have hint : ∀ n : ℤ, (cString (formatInt n)).text = some (formatInt n) :=
    fun n => text_cString (noNul_formatInt n)
  have hflag : ∀ b : Bool, (cString (if b then ", Retargetable=Yes".toList else [])).text =
      some (if b then ", Retargetable=Yes".toList else []) := by decide
  have hcontent : chunksText (if aname.name.chars = "WindowsRuntimeMetadata".toList then
        [cString ", ContentType=WindowsRuntime".toList] else []) =
      some (if aname.name.chars = "WindowsRuntimeMetadata".toList then
        ", ContentType=WindowsRuntime".toList else []) := by
    split_ifs
    · decide
    · rfl
  have hlit : ∀ s ∈ [", Version=".toList, ", Culture=".toList, ", PublicKeyToken=".toList,
      "null".toList], (cString s).text = some s := by decide
  simp only [List.forall_mem_cons] at hlit
  obtain ⟨hv, hc, hp, hn, -⟩ := hlit
  simp only [assemblyNameReportChunked, if_neg h, chunksText_append, chunksText_cons,
    chunksText_nil, text_cString aname.name.noNul, text_cString (noNul_cultureName _), hdot, hint,
    hflag, hcontent, hv, hc, hp, hn, catText_some, List.append_assoc, List.append_nil]

theorem chunksText_assemblyNameReportChunked_token {aname : Il2CppAssemblyName}
    (h : aname.publicKeyToken.headD 0 ≠ 0) : chunksText (assemblyNameReportChunked aname) = none := by
  refine chunksText_eq_none (c := publicKeyTokenToCStringChunk aname.publicKeyToken) ?_ ?_
  · rw [assemblyNameReportChunked, if_pos h]
    exact List.mem_append_left _ (List.mem_append_left _ (List.mem_append_right _
      (List.mem_singleton_self _)))
  · exact if_neg fun hn => absurd (isAlphanum_of_mem_publicKeyTokenToString hn) (by decide)

theorem mem_of_append_eq_concat {s t u : List Char} {c : Char} (h : s ++ t = u ++ [c])
    (ht : t ≠ []) : c ∈ t := by
  obtain ⟨t, d, rfl⟩ := t.eq_nil_or_concat.resolve_left ht
  rw [List.concat_eq_append, ← List.append_assoc] at h
  have := (List.append_inj' h rfl).2
  simp_all

theorem compares_assembly (aname : Il2CppAssemblyName) :
    Compares (", ".toList ++ assemblyNameToString aname)
      (catText (some [',']) (chunksText (assemblyNameReportChunked aname))) False := by
  by_cases h : aname.publicKeyToken.headD 0 ≠ 0
  · rw [chunksText_assemblyNameReportChunked_token h]
    exact ⟨fun s hs => (nomatch hs), by simp [catText]⟩
  rw [chunksText_assemblyNameReportChunked h, assemblyNameToString, if_neg h, catText_some]
  generalize (if retargetable aname.flags then ", Retargetable=Yes".toList else []) = flag
  generalize (if aname.name.chars = "WindowsRuntimeMetadata".toList then
    ", ContentType=WindowsRuntime".toList else []) = content
  have hbuild := List.length_pos_iff.2 (formatInt_ne_nil aname.build.toInt)
  refine ⟨fun s hs => ?_, iff_of_false (fun heq => ?_) not_false⟩
  · obtain rfl := Option.some.inj hs
    have hcomma : ", ".toList.length = 2 := rfl
    have hdot : ".".toList.length = 1 := rfl
    simp only [List.length_append, List.length_singleton, hcomma, hdot]
    omega
  · -- what stands before the revision ends in a dot on one side and in a digit on the other
    have heq := Option.some.inj heq
    simp only [← List.append_assoc, List.append_cancel_right_eq] at heq
    exact mem_formatInt_ne (by decide) (by decide)
      (mem_of_append_eq_concat heq (List.length_pos_iff.1 hbuild))

theorem compares_finish {format : Il2CppTypeNameFormat} {p : List Char} {agree : Prop}
    {w : ChunkWriter} (byref : Bool) (aname : Il2CppAssemblyName) (hw : w.Room 1)
    (h : Compares p w.text agree) :
    Compares (p ++ byrefSuffix byref ++ assemblySuffix format aname)
      (chunksText (finishChunks format byref aname w)) (agree ∧ format ≠ assemblyQualified) := by
  have hbyref : ∃ v, finishChunks format byref aname w = finishChunks format false aname v ∧
      v.Room 0 ∧ Compares (p ++ byrefSuffix byref) v.text agree := by
    cases byref with
    | false => exact ⟨w, rfl, hw.mono (by omega), by simpa [byrefSuffix] using h⟩
    | true => exact ⟨w.put '&', rfl, hw.put (by decide), by
        simpa [byrefSuffix] using h.append ['&']⟩
  obtain ⟨v, hv, hroom, hcmp⟩ := hbyref
  rw [← ChunkWriter.text_flush hroom] at hcmp
  rw [hv]
  unfold finishChunks assemblySuffix
  by_cases hf : format = assemblyQualified
  · have hcomma : (v.flush.put ',').bufferChunk.text = some [','] :=
      ChunkWriter.text_bufferChunk (w := v.flush.put ',')
        (((ChunkWriter.room_of_buffer_eq_nil rfl).mono (by decide)).put (by decide))
    have htext : chunksText v.flush.chunks = v.flush.text :=
      (ChunkWriter.text_of_buffer_eq_nil rfl).symm
    have hchunks : (if (true : Bool) = false then v.put '&' else v) = v := rfl
    simp only [if_pos hf, Bool.false_eq_true, if_false, ChunkWriter.report_chunks,
      ChunkWriter.put_chunks, chunksText_append, chunksText_cons, chunksText_nil, hcomma,
      catText_nil, htext, catText_assoc]
    exact (hcmp.cat (compares_assembly aname)).congr (by simp [hf])
  · have htext : chunksText v.flush.chunks = v.flush.text :=
      (ChunkWriter.text_of_buffer_eq_nil rfl).symm
    simp only [if_neg hf, Bool.false_eq_true, if_false, htext, List.append_nil]
    exact hcmp.congr (by simp [hf])

/-! ### Class names -/

/-- The separators that are printed too late agree if nothing or only separators follow them. -/
def SeparatorsAgree (format : Il2CppTypeNameFormat) : ClassName → Prop
  | .topLevel namespaze name =>
    format = il ∨ namespaze.chars = [] ∨ ∀ c ∈ name.chars, c = '.'
  | .nested declaringType name =>
    SeparatorsAgree format declaringType ∧ (format = il ∨ ∀ c ∈ name.chars, c = '+')

theorem concat_eq_cons_iff {c : Char} {s : List Char} : s ++ [c] = c :: s ↔ ∀ d ∈ s, d = c := by
  induction s with
  | nil => simp
  | cons d s ih =>
    simp only [List.cons_append, List.cons.injEq, List.forall_mem_cons]
    refine and_congr_right fun hd => ?_
    subst hd
    exact ih

theorem nestedSeparator_ne (format : Il2CppTypeNameFormat) : nestedSeparator format ≠ NUL := by
  cases format <;> decide

theorem flush_if_buffer (w : ChunkWriter) :
    (if w.buffer ≠ [] then w.flush else w).buffer = [] := by
  split_ifs with hb
  · rfl
  · exact not_not.1 hb

theorem classNameChunks_buffer (format : Il2CppTypeNameFormat) (c : ClassName) :
    (classNameChunks format c).buffer = [] := by
  cases c <;> exact flush_if_buffer _

theorem text_flush_if {w : ChunkWriter} (h : w.Room 0) :
    chunksText (if w.buffer ≠ [] then w.flush else w).chunks = w.text := by
  split_ifs with hb
  · rw [← ChunkWriter.text_flush h, ChunkWriter.text_of_buffer_eq_nil rfl]
  · rw [ChunkWriter.text_of_buffer_eq_nil (not_not.1 hb)]

theorem chunksText_simpleNameChunks_il {name : CString} {w : ChunkWriter} (hw : w.Room 1) :
    chunksText (simpleNameChunks il name w).chunks =
      catText w.text (some (simpleName il name)) := by
  have hname : NUL ∉ name.chars.takeWhile (· != '\x60') :=
    fun h => name.noNul ((List.takeWhile_sublist _).mem h)
  have hfull : ∀ n ≤ kNameChunkBufferSize, noSlot n = false → n + 1 ≤ kNameChunkBufferSize := by
    decide
  obtain ⟨htext, hroom⟩ := ChunkWriter.write_spec hfull le_rfl (by decide) hw hname
  have hroom := (hroom (.inr hw)).mono (Nat.zero_le 1)
  exact (text_flush_if hroom).trans htext

theorem chunksText_simpleNameChunks {format : Il2CppTypeNameFormat} (hf : format ≠ il)
    {name : CString} {w : ChunkWriter} (hw : w.Room 0) :
    chunksText (simpleNameChunks format name w).chunks =
      catText (chunksText w.chunks) (some (name.chars ++ w.buffer)) := by
  have hroom : (w.report [cString name.chars]).Room 0 := ⟨hw.length, hw.noNul⟩
  have hchunks : simpleNameChunks format name w =
      if (w.report [cString name.chars]).buffer ≠ [] then (w.report [cString name.chars]).flush
      else w.report [cString name.chars] := by
    simp only [simpleNameChunks, if_neg hf]
  rw [hchunks, text_flush_if hroom]
  simp only [ChunkWriter.text, ChunkWriter.report_chunks, ChunkWriter.report_buffer,
    chunksText_append, chunksText_cons, chunksText_nil, text_cString name.noNul, catText_nil,
    catText_assoc, catText_some]

theorem compares_className (format : Il2CppTypeNameFormat) (c : ClassName) :
    Compares (classNameText format c) (chunksText (classNameChunks format c).chunks)
      (SeparatorsAgree format c) := by
  have hsep : ∀ c : Char, ∀ name : CString,
      Compares (c :: name.chars) (some (name.chars ++ [c])) (∀ d ∈ name.chars, d = c) := by
    intro c name
    refine ⟨fun s hs => ?_, ?_⟩
    · obtain rfl := Option.some.inj hs
      simp
    · rw [Option.some.injEq, concat_eq_cons_iff]
  have hroom : ∀ (chunks : List Chunk) (k : ℕ), k ≤ kNameChunkBufferSize →
      (ChunkWriter.mk chunks []).Room k :=
    fun _ _ hk => (ChunkWriter.room_of_buffer_eq_nil rfl).mono hk
  induction c with
  | topLevel namespaze name =>
    rw [classNameText, classNameChunks]
    by_cases hns : namespaze.chars = []
    · rw [if_neg (not_not.2 hns), if_neg (not_not.2 hns), List.nil_append]
      have hagree : SeparatorsAgree format (.topLevel namespaze name) := .inr (.inl hns)
      by_cases hf : format = il
      · subst hf
        rw [chunksText_simpleNameChunks_il (hroom _ _ (by decide))]
        exact (Compares.refl _).congr (by simpa using hagree)
      · rw [chunksText_simpleNameChunks hf (hroom _ _ (by decide)), List.append_nil, simpleName,
          if_neg hf]
        exact (Compares.refl _).congr (by simpa using hagree)
    · have hput : ∀ k < kNameChunkBufferSize,
          ((ChunkWriter.report {} [cString namespaze.chars]).put '.').Room k :=
        fun k hk => (hroom _ _ hk).put (by decide)
      rw [if_pos hns, if_pos hns]
      by_cases hf : format = il
      · subst hf
        rw [chunksText_simpleNameChunks_il (hput 1 (by decide))]
        have htext : ((ChunkWriter.report {} [cString namespaze.chars]).put '.').text =
            some (namespaze.chars ++ ['.']) := by
          simp [ChunkWriter.text, text_cString namespaze.noNul]
        rw [htext]
        exact (Compares.refl _).congr (by simp [SeparatorsAgree])
      · rw [chunksText_simpleNameChunks hf (hput 0 (by decide)), simpleName, if_neg hf]
        have htext : chunksText ((ChunkWriter.report {} [cString namespaze.chars]).put '.').chunks =
            some namespaze.chars := by
          simp [text_cString namespaze.noNul]
        rw [htext, List.append_assoc]
        exact ((Compares.refl _).cat (hsep '.' name)).congr (by simp [SeparatorsAgree, hf, hns])
  | nested declaringType name ih =>
    have hput : ∀ k < kNameChunkBufferSize,
        (ChunkWriter.put { chunks := (classNameChunks format declaringType).chunks }
          (nestedSeparator format)).Room k :=
      fun k hk => (hroom _ _ hk).put (nestedSeparator_ne format)
    rw [classNameText, classNameChunks]
    by_cases hf : format = il
    · subst hf
      rw [chunksText_simpleNameChunks_il (hput 1 (by decide)), ChunkWriter.text_put, catText_assoc]
      simpa [SeparatorsAgree, ChunkWriter.text] using ih.append _
    · rw [chunksText_simpleNameChunks hf (hput 0 (by decide))]
      have hchar : nestedSeparator format = '+' := if_neg hf
      have htext : simpleName format name = name.chars := if_neg hf
      simpa [SeparatorsAgree, hf, hchar, htext] using ih.cat (hsep '+' name)

/-! ### Types -/

mutual

/-- Where the two printers agree: in the IL format; and in the others where no assembly is printed
and no class with a separator before its name. -/
def ChunksAgree (format : Il2CppTypeNameFormat) : TypeShape → Prop
  | .array t _ | .szarray t | .ptr t => ChunksAgree format.element t ∧ format ≠ assemblyQualified
  | .var _ | .mvar _ => True
  | .klass definition => SeparatorsAgree format definition.className ∧ format ≠ assemblyQualified
  | .genericinst definition typeArgv =>
    (SeparatorsAgree format definition.className ∧ AllChunksAgree format.nested typeArgv) ∧
      format ≠ assemblyQualified

/-- `ChunksAgree` for all arguments. -/
def AllChunksAgree (nestedFormat : Il2CppTypeNameFormat) : List (Bool × TypeShape) → Prop
  | [] => True
  | (_, t) :: typeArgv => ChunksAgree nestedFormat t ∧ AllChunksAgree nestedFormat typeArgv

end

theorem fewSlots_spec :
    ∀ n ≤ kNameChunkBufferSize, fewSlots n = false → n + 2 ≤ kNameChunkBufferSize := by decide

theorem text_arraySuffix (chunks : List Chunk) (rank : ℕ) :
    let w := (ChunkWriter.mk chunks []).put '['
    let w := if rank = 1 then w.put '*' else w
    let w := (w.write fewSlots (List.replicate (rank - 1) ',')).put ']'
    w.Room 1 ∧ w.text = catText (chunksText chunks) (some (arraySuffix rank)) := by
  intro w₀ w₁ w₂
  have hstart : (ChunkWriter.mk chunks []).Room 8 := ChunkWriter.room_of_buffer_eq_nil rfl
  have h₀ : w₀.Room 7 := hstart.put (by decide)
  have h₁ : w₁.Room 6 ∧ w₁.text =
      catText (chunksText chunks) (some ('[' :: if rank = 1 then ['*'] else [])) := by
    have htext : w₀.text = catText (chunksText chunks) (some ['[']) := by
      simp [w₀, ChunkWriter.text]
    simp only [w₁]
    split_ifs
    · exact ⟨h₀.put (by decide), by rw [ChunkWriter.text_put, htext, catText_assoc]; rfl⟩
    · exact ⟨h₀.mono (by omega), htext⟩
  have hcommas : NUL ∉ List.replicate (rank - 1) ',' := fun h =>
    absurd (List.eq_of_mem_replicate h) (by decide)
  obtain ⟨htext, hroom⟩ := ChunkWriter.write_spec fewSlots_spec (by omega) (by decide)
    (h₁.1.mono (by omega)) hcommas
  refine ⟨(hroom (.inr (h₁.1.mono (by omega)))).put (by decide), ?_⟩
  rw [ChunkWriter.text_put, htext, h₁.2, catText_assoc, catText_assoc]
  simp [arraySuffix]

theorem openBracket_ne (format : Il2CppTypeNameFormat) : openBracket format ≠ NUL := by
  cases format <;> decide

theorem closeBracket_ne (format : Il2CppTypeNameFormat) : closeBracket format ≠ NUL := by
  cases format <;> decide

theorem commaSeparated_cons (s : List Char) (parts : List (List Char)) :
    commaSeparated (s :: parts) =
      s ++ ((if parts = [] then [] else [',']) ++ commaSeparated parts) := by
  cases parts <;> simp [commaSeparated, List.intercalate]

theorem text_genericParameterChunks {w : ChunkWriter} (first : Bool)
    (parameters : List GenericParameter) (hw : w.Room 2) :
    (genericParameterChunks first w parameters).Room 2 ∧
      (genericParameterChunks first w parameters).text =
        catText w.text (some ((if first ∨ parameters = [] then [] else [',']) ++
          commaSeparated (parameters.map (·.name.chars)))) := by
  induction parameters generalizing w first with
  | nil => simpa [genericParameterChunks, commaSeparated] using hw
  | cons parameter parameters ih =>
    have hcomma : (if first then w else w.put ',').Room 1 ∧ (if first then w else w.put ',').text =
        catText w.text (some (if first then [] else [','])) := by
      cases first
      · exact ⟨hw.put (by decide), ChunkWriter.text_put⟩
      · exact ⟨hw.mono (by omega), by simp⟩
    obtain ⟨htext, hroom⟩ := ChunkWriter.write_spec fewSlots_spec (by omega) (by decide) hcomma.1
      parameter.name.noNul
    obtain ⟨hroom', htext'⟩ := ih false (hroom (.inl parameter.name_ne_nil))
    refine ⟨hroom', htext'.trans ?_⟩
    rw [htext, hcomma.2, catText_assoc, catText_assoc]
    simp [commaSeparated_cons]

theorem text_genericContainerChunks (format : Il2CppTypeNameFormat) (definition : TypeDefinition)
    {w : ChunkWriter} (hw : w.buffer = []) :
    (genericContainerChunks format definition w).Room 1 ∧
      (genericContainerChunks format definition w).text =
        catText (chunksText w.chunks) (some (genericParametersText format definition)) := by
  have hroom := ChunkWriter.room_of_buffer_eq_nil hw
  have htext := ChunkWriter.text_of_buffer_eq_nil hw
  simp only [genericContainerChunks, genericParametersText]
  cases definition.genericContainer with
  | none => exact ⟨hroom.mono (by decide), by simpa using htext⟩
  | some parameters =>
    simp only
    split_ifs
    · obtain ⟨hroom', htext'⟩ := text_genericParameterChunks true parameters
        (((hroom.mono (by decide)).put (openBracket_ne format)).mono (k := 7) (by omega))
      refine ⟨hroom'.put (closeBracket_ne format), ?_⟩
      rw [ChunkWriter.text_put, htext', ChunkWriter.text_put, htext, catText_assoc, catText_assoc]
      simp
    · exact ⟨hroom.mono (by decide), by simpa using htext⟩

theorem compares_genericParameter (byref : Bool) (parameter : GenericParameter) :
    Compares (parameter.name.chars ++ byrefSuffix byref)
      (chunksText
        (let w := ChunkWriter.report {} [cString parameter.name.chars]
        if byref then
          let w := w.put '&'
          (w.report [w.bufferChunk]).chunks
        else w.chunks)) True := by
  have hbuffer : ((ChunkWriter.report {} [cString parameter.name.chars]).put '&').bufferChunk.text =
      some ['&'] :=
    ChunkWriter.text_bufferChunk (((ChunkWriter.room_of_buffer_eq_nil rfl).mono
      (by decide)).put (by decide))
  cases byref with
  | false => simpa [byrefSuffix, text_cString parameter.name.noNul] using Compares.refl _
  | true => simpa [byrefSuffix, text_cString parameter.name.noNul, hbuffer] using Compares.refl _

theorem compares_put_if {c : Char} (hc : c ≠ NUL) (cond : Prop) [Decidable cond] {p : List Char}
    {agree : Prop} {w : ChunkWriter} {k : ℕ} (hw : w.Room (k + 1)) (h : Compares p w.text agree) :
    (if cond then w.put c else w).Room k ∧
      Compares (p ++ if cond then [c] else []) (if cond then w.put c else w).text agree := by
  split_ifs
  · exact ⟨hw.put hc, by simpa using h.append [c]⟩
  · exact ⟨hw.mono (Nat.le_succ k), by simpa using h⟩

theorem compares_genericArgument (first bracket : Prop) [Decidable first] [Decidable bracket]
    {p q : List Char} {agree agree' : Prop} {w : ChunkWriter} {chunks : List Chunk}
    (hw : w.Room 7) (h : Compares p w.text agree) (h' : Compares q (chunksText chunks) agree') :
    let v := if first then w else w.put ','
    let v := if bracket then v.put '[' else v
    let v := v.flush.report chunks
    let v := if bracket then v.put ']' else v
    v.Room 7 ∧ Compares (p ++ ((if first then [] else [',']) ++
      (if bracket then '[' :: q ++ [']'] else q))) v.text (agree ∧ agree') := by
  intro v₁ v₂ v₃ v₄
  obtain ⟨hroom₁, hcmp₁⟩ := compares_put_if (c := ',') (by decide) (¬ first) hw h
  simp only [ite_not] at hroom₁ hcmp₁
  obtain ⟨hroom₂, hcmp₂⟩ := compares_put_if (c := '[') (by decide) bracket hroom₁ hcmp₁
  have hcmp₃ : Compares (p ++ (if first then [] else [',']) ++ (if bracket then ['['] else []) ++ q)
      v₃.text (agree ∧ agree') := by
    rw [ChunkWriter.text_report ChunkWriter.flush_buffer, ChunkWriter.text_flush
      (hroom₂.mono (Nat.zero_le _))]
    exact hcmp₂.cat h'
  have hroom₃ : v₃.Room 8 := ChunkWriter.room_of_buffer_eq_nil rfl
  obtain ⟨hroom₄, hcmp₄⟩ := compares_put_if (c := ']') (by decide) bracket hroom₃ hcmp₃
  refine ⟨hroom₄, ?_⟩
  convert hcmp₄ using 1
  split_ifs <;> simp

mutual

theorem compares_getName (format : Il2CppTypeNameFormat) (byref : Bool) : (t : TypeShape) →
    Compares (getNameInternal format byref t)
      (chunksText (getNameChunkedRecurseInternal format byref t)) (ChunksAgree format t)
  | .array t rank => by
    obtain ⟨hroom, htext⟩ :=
      text_arraySuffix (getNameChunkedRecurseInternal format.element false t) rank
    rw [getNameInternal, getNameChunkedRecurseInternal]
    refine compares_finish byref _ hroom ?_
    rw [htext]
    exact (compares_getName format.element false t).append _
  | .szarray t => by
    have hstart : (ChunkWriter.mk (getNameChunkedRecurseInternal format.element false t) []).Room 3 :=
      (ChunkWriter.room_of_buffer_eq_nil rfl).mono (by decide)
    rw [getNameInternal, getNameChunkedRecurseInternal]
    refine compares_finish byref _ ((hstart.put (by decide)).put (by decide)) ?_
    simpa [ChunkWriter.text] using (compares_getName format.element false t).append ['[', ']']
  | .ptr t => by
    have hstart : (ChunkWriter.mk (getNameChunkedRecurseInternal format.element false t) []).Room 2 :=
      (ChunkWriter.room_of_buffer_eq_nil rfl).mono (by decide)
    rw [getNameInternal, getNameChunkedRecurseInternal]
    refine compares_finish byref _ (hstart.put (by decide)) ?_
    simpa [ChunkWriter.text] using (compares_getName format.element false t).append ['*']
  | .var parameter => by
    rw [getNameInternal, getNameChunkedRecurseInternal]
    exact compares_genericParameter byref parameter
  | .mvar parameter => by
    rw [getNameInternal, getNameChunkedRecurseInternal]
    exact compares_genericParameter byref parameter
  | .klass definition => by
    obtain ⟨hroom, htext⟩ := text_genericContainerChunks format definition
      (classNameChunks_buffer format definition.className)
    rw [getNameInternal, getNameChunkedRecurseInternal]
    refine compares_finish byref _ hroom ?_
    rw [htext]
    exact (compares_className format definition.className).append _
  | .genericinst definition typeArgv => by
    have hbuffer := classNameChunks_buffer format definition.className
    have hroom := ((ChunkWriter.room_of_buffer_eq_nil hbuffer).mono (by decide)).put (k := 7)
      (openBracket_ne format)
    have hclass := (compares_className format definition.className).append [openBracket format]
    rw [← ChunkWriter.text_of_buffer_eq_nil hbuffer, ← ChunkWriter.text_put] at hclass
    obtain ⟨hroom', hargs⟩ := compares_genericArguments format.nested true hroom hclass typeArgv
    rw [getNameInternal, getNameChunkedRecurseInternal]
    refine compares_finish byref _ ((hroom'.mono (by omega)).put (closeBracket_ne format)) ?_
    rw [ChunkWriter.text_put]
    simpa using hargs.append [closeBracket format]

theorem compares_genericArguments (nestedFormat : Il2CppTypeNameFormat) (first : Bool)
    {p : List Char} {agree : Prop} {w : ChunkWriter} (hw : w.Room 7)
    (h : Compares p w.text agree) : (typeArgv : List (Bool × TypeShape)) →
    (genericArgumentChunks nestedFormat first w typeArgv).Room 7 ∧
    Compares (p ++ genericArgumentsText nestedFormat first typeArgv)
      (genericArgumentChunks nestedFormat first w typeArgv).text
      (agree ∧ AllChunksAgree nestedFormat typeArgv)
  | [] => ⟨hw, by simpa [genericArgumentsText, genericArgumentChunks, AllChunksAgree] using h⟩
  | (byref, t) :: typeArgv => by
    obtain ⟨hroom, hcmp⟩ := compares_genericArgument (first = true)
      (nestedFormat = assemblyQualified ∧ !t.isVar) hw h (compares_getName nestedFormat byref t)
    obtain ⟨hroom', hrest⟩ := compares_genericArguments nestedFormat false hroom hcmp typeArgv
    rw [genericArgumentsText, genericArgumentChunks, AllChunksAgree]
    refine ⟨hroom', ?_⟩
    simpa only [List.append_assoc, and_assoc] using hrest

end

/-- **The chunks of a type and its name agree exactly if** `ChunksAgree` holds: in the IL format,
and in the others for types that print no assembly and no separator before a name. -/
theorem getNameChunkedRecurse_eq_getName_iff (type : RuntimeType) (format : Il2CppTypeNameFormat) :
    chunksText (getNameChunkedRecurse type format) = some (getName type format) ↔
      ChunksAgree format type.shape :=
  (compares_getName format type.byref type.shape).eq_iff

/-- The chunks of `System.String` are `System`, `String`, `.`. -/
theorem chunks_of_string_ne :
    chunksText (getNameChunkedRecurse ⟨false, stringShape⟩ fullName) ≠
      some (getName ⟨false, stringShape⟩ fullName) := by
  decide

end Il2Cpp
