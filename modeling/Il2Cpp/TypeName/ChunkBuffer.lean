import Il2Cpp.TypeName.Chunked

/-!
# The buffer of the chunks

`Type::GetNameChunkedRecurseInternal` writes into its buffer without looking at its size; the tests
between the writes decide when it is flushed.  Here every write is checked: one for which
`bufferIter - bufferPtr` would exceed `kNameChunkBufferSize` ends the printer.

* `ChunkWriter.put?`, `ChunkWriter.write?` : the checked writes.
* `getNameChunkedRecurse?` : the printer with checked writes.
* `nameChunk_writes_in_buffer` : it reports the chunks of every type, so no write goes too far.
-/

namespace Il2Cpp

open Il2CppTypeNameFormat

/-! ### Checked writes -/

namespace ChunkWriter

/-- `*bufferIter++ = c`, if `bufferIter - bufferPtr` is not `kNameChunkBufferSize` already. -/
def put? (w : ChunkWriter) (c : Char) : Option ChunkWriter :=
  if w.buffer.length < kNameChunkBufferSize then some (w.put c) else none

/-- The same under a condition. -/
def putIf? (cond : Bool) (w : ChunkWriter) (c : Char) : Option ChunkWriter :=
  if cond then w.put? c else some w

/-- A loop that writes a text into the buffer and flushes it whenever it is `full`. -/
def write? (full : ℕ → Bool) (w : ChunkWriter) : List Char → Option ChunkWriter
  | [] => some w
  | c :: s => do
    let w ← w.put? c
    write? full (if full w.buffer.length then w.flush else w) s

end ChunkWriter

/-! ### The printer with checked writes -/

/-- `finishChunks`, checked. -/
def finishChunks? (format : Il2CppTypeNameFormat) (byref : Bool) (aname : Il2CppAssemblyName)
    (w : ChunkWriter) : Option (List Chunk) := do
  let w ← w.putIf? byref '&'
  let w := w.flush
  if format = assemblyQualified then
    let w ← w.put? ','
    let w := w.report [w.bufferChunk]
    return (w.report (assemblyNameReportChunked aname)).chunks
  else return w.chunks

/-- `simpleNameChunks`, checked. -/
def simpleNameChunks? (format : Il2CppTypeNameFormat) (name : CString) (w : ChunkWriter) :
    Option ChunkWriter := do
  let w ←
    if format = il then w.write? noSlot (name.chars.takeWhile (· != '\x60'))
    else some (w.report [cString name.chars])
  return if w.buffer ≠ [] then w.flush else w

/-- `classNameChunks`, checked. -/
def classNameChunks? (format : Il2CppTypeNameFormat) : ClassName → Option ChunkWriter
  | .topLevel namespaze name => do
    let w ← if namespaze.chars ≠ [] then (ChunkWriter.report {} [cString namespaze.chars]).put? '.'
      else some {}
    simpleNameChunks? format name w
  | .nested declaringType name => do
    let w ← classNameChunks? format declaringType
    let w ← ChunkWriter.put? { chunks := w.chunks } (nestedSeparator format)
    simpleNameChunks? format name w

/-- `genericParameterChunks`, checked. -/
def genericParameterChunks? (first : Bool) (w : ChunkWriter) :
    List GenericParameter → Option ChunkWriter
  | [] => some w
  | parameter :: parameters => do
    let w ← w.putIf? (!first) ','
    let w ← w.write? fewSlots parameter.name.chars
    genericParameterChunks? false w parameters

/-- `genericContainerChunks`, checked. -/
def genericContainerChunks? (format : Il2CppTypeNameFormat) (definition : TypeDefinition)
    (w : ChunkWriter) : Option ChunkWriter :=
  match definition.genericContainer with
  | some parameters =>
    if format ≠ fullName ∧ format ≠ assemblyQualified then do
      let w ← w.put? (openBracket format)
      let w ← genericParameterChunks? true w parameters
      w.put? (closeBracket format)
    else some w
  | none => some w

mutual

/-- `Type::GetNameChunkedRecurseInternal`, checked. -/
def getNameChunkedRecurseInternal? (format : Il2CppTypeNameFormat) (byref : Bool) :
    TypeShape → Option (List Chunk)
  | .array etype rank => do
    let chunks ← getNameChunkedRecurseInternal? format.element false etype
    let w ← ChunkWriter.put? { chunks } '['
    let w ← w.putIf? (rank == 1) '*'
    let w ← w.write? fewSlots (List.replicate (rank - 1) ',')
    let w ← w.put? ']'
    finishChunks? format byref etype.assembly w
  | .szarray type => do
    let chunks ← getNameChunkedRecurseInternal? format.element false type
    let w ← ChunkWriter.put? { chunks } '['
    let w ← w.put? ']'
    finishChunks? format byref type.assembly w
  | .ptr type => do
    let chunks ← getNameChunkedRecurseInternal? format.element false type
    let w ← ChunkWriter.put? { chunks } '*'
    finishChunks? format byref type.assembly w
  | .var parameter | .mvar parameter => do
    let w := ChunkWriter.report {} [cString parameter.name.chars]
    if byref then
      let w ← w.put? '&'
      return (w.report [w.bufferChunk]).chunks
    else return w.chunks
  | .klass definition => do
    let w ← classNameChunks? format definition.className
    let w ← genericContainerChunks? format definition w
    finishChunks? format byref definition.assembly w
  | .genericinst definition typeArgv => do
    let w ← classNameChunks? format definition.className
    let w ← w.put? (openBracket format)
    let w ← genericArgumentChunks? format.nested true w typeArgv
    let w ← w.put? (closeBracket format)
    finishChunks? format byref definition.assembly w

/-- `genericArgumentChunks`, checked. -/
def genericArgumentChunks? (nestedFormat : Il2CppTypeNameFormat) (first : Bool) (w : ChunkWriter) :
    List (Bool × TypeShape) → Option ChunkWriter
  | [] => some w
  | (byref, t) :: typeArgv => do
    let w ← w.putIf? (!first) ','
    let w ← w.putIf? (decide (nestedFormat = assemblyQualified) && !t.isVar) '['
    let chunks ← getNameChunkedRecurseInternal? nestedFormat byref t
    let w := w.flush.report chunks
    let w ← w.putIf? (decide (nestedFormat = assemblyQualified) && !t.isVar) ']'
    genericArgumentChunks? nestedFormat false w typeArgv

end

/-- `Type::GetNameChunkedRecurse`, checked. -/
def getNameChunkedRecurse? (type : RuntimeType) (format : Il2CppTypeNameFormat) :
    Option (List Chunk) :=
  getNameChunkedRecurseInternal? format type.byref type.shape

/-! ### No write goes too far -/

namespace ChunkWriter

variable {w : ChunkWriter} {k : ℕ} {c : Char}

theorem Room.put?_eq (h : w.Room (k + 1)) (c : Char) : w.put? c = some (w.put c) := by
  have hlength := h.length
  exact if_pos (by omega)

theorem Room.putIf?_eq (h : w.Room (k + 1)) (cond : Bool) (c : Char) :
    w.putIf? cond c = some (if cond then w.put c else w) := by
  rw [putIf?, h.put?_eq c]
  split_ifs <;> rfl

theorem Room.putIf (h : w.Room (k + 1)) (cond : Prop) [Decidable cond] (hc : c ≠ NUL) :
    (if cond then w.put c else w).Room k := by
  split_ifs
  · exact h.put hc
  · exact h.mono (Nat.le_succ k)

theorem Room.write?_eq {full : ℕ → Bool}
    (hfull : ∀ n ≤ kNameChunkBufferSize, full n = false → n + k ≤ kNameChunkBufferSize)
    (h₁ : 1 ≤ k) (hk : k ≤ kNameChunkBufferSize) (h : w.Room 1) {s : List Char} (hs : NUL ∉ s) :
    w.write? full s = some (w.write full s) := by
  induction s generalizing w with
  | nil => rfl
  | cons c s ih =>
    have hc : c ≠ NUL := fun hn => hs (hn ▸ List.mem_cons_self)
    have hroom := (room_write_step hfull hk h hc).mono h₁
    rw [write?, h.put?_eq c, Option.bind_eq_bind, Option.bind_some,
      ih hroom fun hn => hs (List.mem_cons_of_mem _ hn)]
    rfl

theorem room_mk (chunks : List Chunk) : (ChunkWriter.mk chunks []).Room 8 :=
  room_of_buffer_eq_nil rfl

end ChunkWriter

open ChunkWriter

theorem noSlot_spec :
    ∀ n ≤ kNameChunkBufferSize, noSlot n = false → n + 1 ≤ kNameChunkBufferSize := by decide

theorem finishChunks?_eq {format : Il2CppTypeNameFormat} {byref : Bool} {w : ChunkWriter}
    (hw : w.Room 1) (aname : Il2CppAssemblyName) :
    finishChunks? format byref aname w = some (finishChunks format byref aname w) := by
  have hflushed (v : ChunkWriter) : v.flush.Room 8 := room_of_buffer_eq_nil flush_buffer
  rw [finishChunks?, hw.putIf?_eq, Option.bind_eq_bind, Option.bind_some]
  unfold finishChunks
  simp only [(hflushed _).put?_eq]
  split_ifs <;> rfl

theorem simpleNameChunks?_eq (format : Il2CppTypeNameFormat) (name : CString) {w : ChunkWriter}
    (hw : w.Room 1) : simpleNameChunks? format name w = some (simpleNameChunks format name w) := by
  have hname : NUL ∉ name.chars.takeWhile (· != '\x60') :=
    fun h => name.noNul ((List.takeWhile_sublist _).mem h)
  rw [simpleNameChunks?, hw.write?_eq noSlot_spec (Nat.le_refl 1) (by decide) hname]
  unfold simpleNameChunks
  split_ifs <;> rfl

theorem classNameChunks?_eq (format : Il2CppTypeNameFormat) (c : ClassName) :
    classNameChunks? format c = some (classNameChunks format c) := by
  induction c with
  | topLevel namespaze name =>
    have hput := (room_mk [cString namespaze.chars]).put?_eq '.'
    rw [classNameChunks?, classNameChunks]
    split_ifs with hns
    · rw [show ChunkWriter.report {} [cString namespaze.chars] = ⟨[cString namespaze.chars], []⟩
        from rfl, hput, Option.bind_eq_bind, Option.bind_some]
      exact simpleNameChunks?_eq format name
        (((room_mk _).mono (j := 2) (by decide)).put (by decide))
    · exact simpleNameChunks?_eq format name ((room_mk []).mono (by decide))
  | nested declaringType name ih =>
    have hroom := (room_mk (classNameChunks format declaringType).chunks).mono (j := 2) (by decide)
    rw [classNameChunks?, ih, Option.bind_eq_bind, Option.bind_some, hroom.put?_eq,
      Option.bind_some]
    exact simpleNameChunks?_eq format name (hroom.put (nestedSeparator_ne format))

theorem genericParameterChunks?_eq {w : ChunkWriter} (first : Bool)
    (parameters : List GenericParameter) (hw : w.Room 2) :
    genericParameterChunks? first w parameters =
      some (genericParameterChunks first w parameters) := by
  induction parameters generalizing w first with
  | nil => rfl
  | cons parameter parameters ih =>
    have hcomma : (if (!first) = true then w.put ',' else w).Room 1 :=
      hw.putIf ((!first) = true) (by decide)
    have hnext := (write_spec fewSlots_spec (by decide) (by decide) hcomma
      parameter.name.noNul).2 (.inl parameter.name_ne_nil)
    rw [genericParameterChunks?, hw.putIf?_eq, Option.bind_eq_bind, Option.bind_some,
      hcomma.write?_eq fewSlots_spec (by decide) (by decide) parameter.name.noNul,
      Option.bind_some, ih false hnext]
    cases first <;> rfl

theorem genericContainerChunks?_eq (format : Il2CppTypeNameFormat) (definition : TypeDefinition)
    {w : ChunkWriter} (hw : w.buffer = []) :
    genericContainerChunks? format definition w =
      some (genericContainerChunks format definition w) := by
  have hroom := room_of_buffer_eq_nil hw
  rw [genericContainerChunks?, genericContainerChunks]
  cases definition.genericContainer with
  | none => rfl
  | some parameters =>
    simp only
    split_ifs
    · have hopen : (w.put (openBracket format)).Room 2 :=
        (hroom.mono (j := 3) (by decide)).put (openBracket_ne format)
      have hclose := (text_genericParameterChunks true parameters hopen).1
      rw [hroom.put?_eq, Option.bind_eq_bind, Option.bind_some,
        genericParameterChunks?_eq true parameters hopen, Option.bind_some, hclose.put?_eq]
    · rfl

theorem arrayChunks?_eq (chunks : List Chunk) (rank : ℕ) : (do
    let w ← ChunkWriter.put? { chunks } '['
    let w ← w.putIf? (rank == 1) '*'
    let w ← w.write? fewSlots (List.replicate (rank - 1) ',')
    w.put? ']') =
      let w := (ChunkWriter.mk chunks []).put '['
      let w := if rank = 1 then w.put '*' else w
      some ((w.write fewSlots (List.replicate (rank - 1) ',')).put ']') := by
  have hcommas : NUL ∉ List.replicate (rank - 1) ',' := fun h =>
    absurd (List.eq_of_mem_replicate h) (by decide)
  have hopen : ((ChunkWriter.mk chunks []).put '[').Room 7 := (room_mk chunks).put (by decide)
  have hstar := hopen.putIf (rank = 1) (c := '*') (by decide)
  have hclose := (write_spec fewSlots_spec (by decide) (by decide) (hstar.mono (by decide))
    hcommas).2 (.inr (hstar.mono (by decide)))
  simp only [(room_mk chunks).put?_eq, hopen.putIf?_eq, Option.bind_eq_bind, Option.bind_some,
    beq_iff_eq, (hstar.mono (j := 1) (by decide)).write?_eq fewSlots_spec (by decide) (by decide)
    hcommas, hclose.put?_eq]

mutual

theorem getNameChunkedRecurseInternal?_eq (format : Il2CppTypeNameFormat) (byref : Bool) :
    (t : TypeShape) → getNameChunkedRecurseInternal? format byref t =
      some (getNameChunkedRecurseInternal format byref t)
  | .array t rank => by
    have hroom := (text_arraySuffix (getNameChunkedRecurseInternal format.element false t) rank).1
    have harray := arrayChunks?_eq (getNameChunkedRecurseInternal format.element false t) rank
    rw [getNameChunkedRecurseInternal?, getNameChunkedRecurseInternal,
      getNameChunkedRecurseInternal?_eq format.element false t, Option.bind_eq_bind,
      Option.bind_some, ← finishChunks?_eq hroom]
    simp only [Option.bind_eq_bind, ← Option.bind_assoc] at harray ⊢
    rw [harray, Option.bind_some]
  | .szarray t => by
    have hopen := (room_mk (getNameChunkedRecurseInternal format.element false t)).put
      (c := '[') (by decide)
    have hclose := hopen.put (c := ']') (by decide)
    rw [getNameChunkedRecurseInternal?, getNameChunkedRecurseInternal,
      getNameChunkedRecurseInternal?_eq format.element false t, ← finishChunks?_eq
      (hclose.mono (by decide))]
    simp only [Option.bind_eq_bind, Option.bind_some, (room_mk _).put?_eq, hopen.put?_eq]
  | .ptr t => by
    have hstar := (room_mk (getNameChunkedRecurseInternal format.element false t)).put
      (c := '*') (by decide)
    rw [getNameChunkedRecurseInternal?, getNameChunkedRecurseInternal,
      getNameChunkedRecurseInternal?_eq format.element false t, ← finishChunks?_eq
      (hstar.mono (by decide))]
    simp only [Option.bind_eq_bind, Option.bind_some, (room_mk _).put?_eq]
  | .var parameter => by
    rw [getNameChunkedRecurseInternal?, getNameChunkedRecurseInternal]
    cases byref <;> rfl
  | .mvar parameter => by
    rw [getNameChunkedRecurseInternal?, getNameChunkedRecurseInternal]
    cases byref <;> rfl
  | .klass definition => by
    have hbuffer := classNameChunks_buffer format definition.className
    have hroom := (text_genericContainerChunks format definition hbuffer).1
    rw [getNameChunkedRecurseInternal?, getNameChunkedRecurseInternal, classNameChunks?_eq,
      ← finishChunks?_eq hroom]
    simp only [Option.bind_eq_bind, Option.bind_some, genericContainerChunks?_eq format definition
      hbuffer]
  | .genericinst definition typeArgv => by
    have hbuffer := classNameChunks_buffer format definition.className
    have hopen : ((classNameChunks format definition.className).put (openBracket format)).Room 7 :=
      (room_of_buffer_eq_nil hbuffer).put (openBracket_ne format)
    obtain ⟨heq, hroom⟩ := genericArgumentChunks?_eq format.nested true hopen typeArgv
    have hclose := hroom.put (closeBracket_ne format)
    rw [getNameChunkedRecurseInternal?, getNameChunkedRecurseInternal, classNameChunks?_eq,
      ← finishChunks?_eq (hclose.mono (by decide))]
    simp only [Option.bind_eq_bind, Option.bind_some, (room_of_buffer_eq_nil hbuffer).put?_eq, heq,
      hroom.put?_eq]

theorem genericArgumentChunks?_eq (nestedFormat : Il2CppTypeNameFormat) (first : Bool)
    {w : ChunkWriter} (hw : w.Room 7) : (typeArgv : List (Bool × TypeShape)) →
    genericArgumentChunks? nestedFormat first w typeArgv =
        some (genericArgumentChunks nestedFormat first w typeArgv) ∧
      (genericArgumentChunks nestedFormat first w typeArgv).Room 7
  | [] => ⟨rfl, hw⟩
  | (byref, t) :: typeArgv => by
    let bracket := decide (nestedFormat = assemblyQualified) && !t.isVar
    let u := if (!first) = true then w.put ',' else w
    let v := if bracket = true then u.put '[' else u
    let v' := v.flush.report (getNameChunkedRecurseInternal nestedFormat byref t)
    have hcomma : u.Room 6 := hw.putIf ((!first) = true) (by decide)
    have hempty : v'.Room 8 := room_of_buffer_eq_nil rfl
    have hclose : (if bracket = true then v'.put ']' else v').Room 7 :=
      hempty.putIf (bracket = true) (by decide)
    have hchunks : genericArgumentChunks nestedFormat first w ((byref, t) :: typeArgv) =
        genericArgumentChunks nestedFormat false (if bracket = true then v'.put ']' else v')
          typeArgv := by
      rw [genericArgumentChunks]
      cases first <;> simp [bracket, u, v, v']
    obtain ⟨heq, hroom⟩ := genericArgumentChunks?_eq nestedFormat false hclose typeArgv
    rw [hchunks, ← heq, genericArgumentChunks?, hw.putIf?_eq]
    refine ⟨?_, hroom⟩
    rw [Option.bind_eq_bind, Option.bind_some, hcomma.putIf?_eq, Option.bind_some,
      getNameChunkedRecurseInternal?_eq nestedFormat byref t, Option.bind_eq_bind, Option.bind_some]
    change (v'.putIf? bracket ']').bind _ = _
    rw [hempty.putIf?_eq, Option.bind_some]

end

/-- **No write goes too far.**  For every type and format, the printer with checked writes reports
the same chunks.  It rests on the names of generic parameters not being empty. -/
theorem nameChunk_writes_in_buffer (type : RuntimeType) (format : Il2CppTypeNameFormat) :
    getNameChunkedRecurse? type format = some (getNameChunkedRecurse type format) :=
  getNameChunkedRecurseInternal?_eq format type.byref type.shape

end Il2Cpp
