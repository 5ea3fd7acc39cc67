import Il2Cpp.CustomAttribute.BlobReader

/-!
# The reader of custom attributes

The functions of `CustomAttributeDataReader.cpp`.  An attribute is visited, or it is only skipped
(`ReadLazyCustomAttributeData`) and visited later from the recorded start and length.

* `VisitorCall` : the calls of the visitor.
* `readAndVisitCustomAttributeImpl` : one attribute, which is decoded or skipped.
* `readLazyCustomAttributeData`, `visitLazy`, `visitCustomAttributeData` : the two ways to visit.
* `readAndVisitCustomAttributeImpl_skippedBy` : an attribute that is decoded is skipped up to the
  same position.
* `lazy_visit_agrees` : an attribute that is visited is visited alike from the recorded data.
-/

namespace Il2Cpp

namespace CustomAttribute

open Decoder

/-- `CustomAttributeArgument`. -/
structure CustomAttributeArgument (C : Type) where
  klass : Option C
  data : Value C

/-- The calls of a `CustomAttributeReaderVisitor`.  A field or a property is a class and an index
in its table. -/
inductive VisitorCall (M C : Type)
  | moveNext (ctor : M)
  | visitArgumentSizes (argumentCount fieldCount propertyCount : UInt32)
  | visitArgument (argument : CustomAttributeArgument C) (index : ℕ)
  | visitCtor (ctor : M) (args : List (CustomAttributeArgument C)) (argumentCount : UInt32)
  | visitField (arg : CustomAttributeArgument C) (field : C × ℤ) (index : ℕ)
  | visitProperty (arg : CustomAttributeArgument C) (prop : C × ℤ) (index : ℕ)

/-- `LazyCustomAttributeData`. -/
structure LazyCustomAttributeData (M : Type) where
  ctor : M
  dataStart : ℕ
  dataLength : UInt32

/-- `CustomAttributeDataIterator`. -/
structure CustomAttributeDataIterator (M : Type) where
  ctorBuffer : ℕ
  dataBuffer : ℕ
  filter : M → Bool

/-- `CustomAttributeDataReader`, on a range of the attribute data. -/
structure CustomAttributeDataReader where
  bufferStart : ℕ
  bufferEnd : ℕ
  count : UInt32

variable {M C : Type} (rt : Runtime M C) (data : AttributeData)

/-- The deepest that the values may be nested. -/
def AttributeData.depth : ℕ := data.bytes.length + 1

/-- The class of an array is that of the managed array. -/
def argumentClass (type : Il2CppTypeEnum) (klass : Option C) : Value C → Option C
  | .array arrayClass _ => if type = .szarray then some arrayClass else klass
  | _ => klass

/-- `ReadAttributeDataValue`. -/
def readAttributeDataValue (deserialize : Bool) :
    Decoder (VisitorCall M C) (CustomAttributeArgument C) := do
  let type ← readEncodedTypeEnum rt data.bytes
  let value ← getConstantValueFromBlob rt data.bytes deserialize data.depth type.1
  pure ⟨if deserialize then argumentClass type.1 type.2 value else type.2, value⟩

/-- `ReadCustomAttributeNamedArgumentClassAndIndex`. -/
def readCustomAttributeNamedArgumentClassAndIndex (attrClass : C) :
    Decoder (VisitorCall M C) (C × ℤ) := do
  let memberIndex ← readCompressedInt32 data.bytes
  if memberIndex ≥ 0 then pure (attrClass, memberIndex)
  else do
    let typeIndex ← readCompressedUInt32 data.bytes
    let declaringClass ← deref (rt.getTypeInfoFromTypeDefinitionIndex typeIndex)
    pure (declaringClass, -(memberIndex + 1))

/-- The arguments of the constructor, of which `i` are visited. -/
def visitArguments (deserialize : Bool) :
    ℕ → ℕ → Decoder (VisitorCall M C) (List (CustomAttributeArgument C))
  | 0, _ => pure []
  | n + 1, i => do
    let arg ← readAttributeDataValue rt data deserialize
    log (.visitArgument arg i)
    let args ← visitArguments deserialize n (i + 1)
    pure (arg :: args)

/-- The fields or the properties, of which `i` are visited. -/
def visitMembers (deserialize : Bool) (attrClass : C)
    (call : CustomAttributeArgument C → C × ℤ → ℕ → VisitorCall M C) :
    ℕ → ℕ → Decoder (VisitorCall M C) Unit
  | 0, _ => pure ()
  | n + 1, i => do
    let arg ← readAttributeDataValue rt data deserialize
    let member ← readCustomAttributeNamedArgumentClassAndIndex rt data attrClass
    log (call arg member i)
    visitMembers deserialize attrClass call n (i + 1)

/-- An attribute, after the counts of its arguments. -/
def visitBody (ctor : M) (deserialize : Bool) (argumentCount fieldCount propertyCount : UInt32) :
    Decoder (VisitorCall M C) Unit := do
  log (.moveNext ctor)
  log (.visitArgumentSizes argumentCount fieldCount propertyCount)
  let args ← visitArguments rt data deserialize argumentCount.toNat 0
  log (.visitCtor ctor args argumentCount)
  visitMembers rt data deserialize (rt.klass ctor) .visitField fieldCount.toNat 0
  visitMembers rt data deserialize (rt.klass ctor) .visitProperty propertyCount.toNat 0

/-- `ReadAndVisitCustomAttributeImpl`. -/
def readAndVisitCustomAttributeImpl (bufferEnd : ℕ) (ctor : M) (deserialize : Bool) :
    Decoder (VisitorCall M C) Unit := do
  let argumentCount ← readCompressedUInt32 data.bytes
  let fieldCount ← readCompressedUInt32 data.bytes
  let propertyCount ← readCompressedUInt32 data.bytes
  let pos ← position
  if pos > bufferEnd then fail .invalid
  else visitBody rt data ctor deserialize argumentCount fieldCount propertyCount

namespace CustomAttributeDataReader

variable (r : CustomAttributeDataReader)

/-- The reader of the attributes of a member. -/
def ofBuffer (buffer bufferEnd : ℕ) : Except DecodeError CustomAttributeDataReader :=
  match (readCompressedUInt32 data.bytes : Decoder Unit UInt32) buffer with
  | (_, .ok (count, bufferStart)) => .ok ⟨bufferStart, bufferEnd, count⟩
  | (_, .error e) => .error e

/-- `GetDataBufferStart`. -/
def getDataBufferStart : ℕ := r.bufferStart + 4 * r.count.toNat

/-- `GetDataIterator`. -/
def getDataIterator (filter : M → Bool) : CustomAttributeDataIterator M :=
  ⟨r.bufferStart, r.getDataBufferStart, filter⟩

/-- `IterateAttributeCtorsImpl`, from the position of the next constructor on. -/
def iterateAttributeCtorsImpl : Decoder (VisitorCall M C) (Option M) := do
  let ctorBuffer ← position
  if ctorBuffer < r.getDataBufferStart then
    (fun ctorIndex => some (rt.getMethodInfoFromMethodDefinitionIndex ctorIndex)) <$>
      read32 data.bytes
  else pure none

/-- `ReadPastCustomAttribute`: the position after the attribute.  The visitor does nothing. -/
def readPastCustomAttribute (ctor : M) (dataBuffer : ℕ) : Except DecodeError ℕ :=
  Prod.snd <$> (readAndVisitCustomAttributeImpl rt data r.bufferEnd ctor false dataBuffer).2

/-- `ReadLazyCustomAttributeData`. -/
def readLazyCustomAttributeData (iter : CustomAttributeDataIterator M) :
    Except DecodeError (Option (LazyCustomAttributeData M) × CustomAttributeDataIterator M) := do
  match ← (iterateAttributeCtorsImpl rt data r iter.ctorBuffer).2 with
  | (none, ctorBuffer) => pure (none, { iter with ctorBuffer })
  | (some ctor, ctorBuffer) =>
    let dataBuffer ← r.readPastCustomAttribute rt data ctor iter.dataBuffer
    let dataLength := UInt32.ofInt (dataBuffer - iter.dataBuffer)
    pure (some ⟨ctor, iter.dataBuffer, dataLength⟩, { iter with ctorBuffer, dataBuffer })

/-- The static `VisitCustomAttributeData`, on recorded data. -/
def visitLazy (lazyData : LazyCustomAttributeData M) :
    List (VisitorCall M C) × Except DecodeError Unit :=
  let bufferEnd := lazyData.dataStart + lazyData.dataLength.toNat
  let visit := readAndVisitCustomAttributeImpl rt data bufferEnd lazyData.ctor true
    lazyData.dataStart
  (visit.1, Prod.fst <$> visit.2)

/-- The loop of `VisitCustomAttributeData`, at most `n` times. -/
def visitLoop : ℕ → CustomAttributeDataIterator M →
    List (VisitorCall M C) × Except DecodeError (Bool × CustomAttributeDataIterator M)
  | 0, iter => ([], .ok (false, iter))
  | n + 1, iter =>
    match (iterateAttributeCtorsImpl rt data r iter.ctorBuffer).2 with
    | .error e => ([], .error e)
    | .ok (none, ctorBuffer) => ([], .ok (false, { iter with ctorBuffer }))
    | .ok (some ctor, ctorBuffer) =>
      if iter.filter ctor then
        let visit := readAndVisitCustomAttributeImpl rt data r.bufferEnd ctor true iter.dataBuffer
        (visit.1, (fun v => (true, { iter with ctorBuffer, dataBuffer := v.2 })) <$> visit.2)
      else
        match r.readPastCustomAttribute rt data ctor iter.dataBuffer with
        | .error e => ([], .error e)
        | .ok dataBuffer => visitLoop n { iter with ctorBuffer, dataBuffer }

/-- `VisitCustomAttributeData`.  Each constructor that the loop passes takes four bytes. -/
def visitCustomAttributeData (iter : CustomAttributeDataIterator M) :
    List (VisitorCall M C) × Except DecodeError (Bool × CustomAttributeDataIterator M) :=
  visitLoop rt data r (r.getDataBufferStart - iter.ctorBuffer + 1) iter

end CustomAttributeDataReader

/-! ### An attribute is skipped as it is decoded -/

variable {rt data}

theorem readAttributeDataValue_skippedBy :
    (readAttributeDataValue rt data true).SkippedBy (readAttributeDataValue rt data false) :=
  .bind_same _ fun type => (getConstantValueFromBlob_skippedBy _ type.1).bind fun _ _ => .pure _ _

theorem visitArguments_skippedBy : ∀ n i,
    (visitArguments rt data true n i).SkippedBy (visitArguments rt data false n i)
  | 0, _ => .refl _
  | n + 1, i => readAttributeDataValue_skippedBy.bind fun _ _ => (SkippedBy.log _ _).bind fun _ _ =>
      (visitArguments_skippedBy n (i + 1)).bind fun _ _ => .pure _ _

theorem visitMembers_skippedBy {attrClass : C}
    {call : CustomAttributeArgument C → C × ℤ → ℕ → VisitorCall M C} : ∀ n i,
    (visitMembers rt data true attrClass call n i).SkippedBy
      (visitMembers rt data false attrClass call n i)
  | 0, _ => .refl _
  | n + 1, i => readAttributeDataValue_skippedBy.bind fun _ _ => .bind_same _ fun _ =>
      (SkippedBy.log _ _).bind fun _ _ => visitMembers_skippedBy n (i + 1)

/-- **An attribute that is decoded is skipped up to the same position.** -/
theorem readAndVisitCustomAttributeImpl_skippedBy (bufferEnd : ℕ) (ctor : M) :
    (readAndVisitCustomAttributeImpl rt data bufferEnd ctor true).SkippedBy
      (readAndVisitCustomAttributeImpl rt data bufferEnd ctor false) := by
  refine .bind_same _ fun argumentCount => .bind_same _ fun fieldCount => ?_
  refine .bind_same _ fun propertyCount => .bind_same _ fun pos => .ite (.refl _) ?_
  refine .bind_same _ fun _ => .bind_same _ fun _ => ?_
  refine (visitArguments_skippedBy _ _).bind fun _ _ => (SkippedBy.log _ _).bind fun _ _ => ?_
  exact (visitMembers_skippedBy _ _).bind fun _ _ => visitMembers_skippedBy _ _

/-! ### An attribute ends after its start -/

theorem total_readAttributeDataValue :
    (readAttributeDataValue rt data true).Total data.bytes.length := by
  refine (advances_readEncodedTypeEnum.total shallow_readEncodedTypeEnum).bind fun type => ?_
  refine Total.bind ⟨getConstantValueFromBlob_advances data.size_lt _ type.1, fun pos hle => ?_⟩
    fun _ => total_pure _
  exact getConstantValueFromBlob_not_overflows data.size_lt _ type.1 pos hle
    (by rw [AttributeData.depth]; omega)

theorem total_visitArguments : ∀ n i, (visitArguments rt data true n i).Total data.bytes.length
  | 0, _ => total_pure _
  | n + 1, i => total_readAttributeDataValue.bind fun _ => (total_log _).bind fun _ =>
      (total_visitArguments n (i + 1)).bind fun _ => total_pure _

theorem total_readCustomAttributeNamedArgumentClassAndIndex (attrClass : C) :
    (readCustomAttributeNamedArgumentClassAndIndex rt data attrClass).Total data.bytes.length := by
  refine Advances.total ?_ ?_
  · exact advances_readCompressedInt32.bind fun _ => .ite (advances_pure _)
      (advances_readCompressedUInt32.bind fun _ => (advances_deref _).bind fun _ =>
        advances_pure _)
  · exact shallow_readCompressedInt32.bind fun _ => .ite (shallow_pure _)
      (shallow_readCompressedUInt32.bind fun _ => (shallow_deref _).bind fun _ => shallow_pure _)

theorem total_visitMembers {attrClass : C}
    {call : CustomAttributeArgument C → C × ℤ → ℕ → VisitorCall M C} : ∀ n i,
    (visitMembers rt data true attrClass call n i).Total data.bytes.length
  | 0, _ => total_pure _
  | n + 1, i => total_readAttributeDataValue.bind fun _ =>
      (total_readCustomAttributeNamedArgumentClassAndIndex attrClass).bind fun _ =>
        (total_log _).bind fun _ => total_visitMembers n (i + 1)

theorem total_visitBody (ctor : M) (argumentCount fieldCount propertyCount : UInt32) :
    (visitBody rt data ctor true argumentCount fieldCount propertyCount).Total
      data.bytes.length :=
  (total_log _).bind fun _ => (total_log _).bind fun _ => (total_visitArguments _ _).bind fun _ =>
    (total_log _).bind fun _ => (total_visitMembers _ _).bind fun _ => total_visitMembers _ _

theorem readAndVisitCustomAttributeImpl_bufferEnd {bufferEnd bufferEnd' pos pos' : ℕ} {ctor : M}
    (h : (readAndVisitCustomAttributeImpl rt data bufferEnd ctor true).Returns pos () pos')
    (hpos : pos ≤ data.bytes.length) (hend : pos' ≤ bufferEnd') :
    pos ≤ pos' ∧ pos' ≤ data.bytes.length ∧
      readAndVisitCustomAttributeImpl rt data bufferEnd' ctor true pos =
        readAndVisitCustomAttributeImpl rt data bufferEnd ctor true pos := by
  obtain ⟨argumentCount, p₁, h₁, h⟩ := returns_bind.1 h
  obtain ⟨fieldCount, p₂, h₂, h⟩ := returns_bind.1 h
  obtain ⟨propertyCount, p₃, h₃, h⟩ := returns_bind.1 h
  obtain ⟨p, p₄, h₄, h⟩ := returns_bind.1 h
  obtain ⟨rfl, rfl⟩ := returns_position.1 h₄
  obtain ⟨hle₁, hin₁⟩ := advances_readCompressedUInt32 _ _ _ h₁ hpos
  obtain ⟨hle₂, hin₂⟩ := advances_readCompressedUInt32 _ _ _ h₂ hin₁
  obtain ⟨hle₃, hin₃⟩ := advances_readCompressedUInt32 _ _ _ h₃ hin₂
  split_ifs at h with hb
  · exact absurd h not_returns_fail
  · obtain ⟨hle, hin⟩ := (total_visitBody _ _ _ _).advances _ _ _ h hin₃
    refine ⟨by omega, hin, bind_congr h₁ (bind_congr h₂ (bind_congr h₃ (bind_congr h₄ ?_)))⟩
    rw [if_neg (by omega), if_neg hb]

/-! ### The two ways to visit -/

theorem add_toNat_ofInt_sub {m n : ℕ} (hle : m ≤ n) (hn : n < 2 ^ 31) :
    m + (UInt32.ofInt (n - m)).toNat = n := by
  have hlt : (((n : ℤ) - m) % 2 ^ 32).toNat < UInt32.size := by
    have : UInt32.size = 2 ^ 32 := rfl
    omega
  rw [UInt32.ofInt, UInt32.toNat_ofNat_of_lt' hlt]
  omega

namespace CustomAttributeDataReader

variable {r : CustomAttributeDataReader} {iter iter' : CustomAttributeDataIterator M}
  {calls : List (VisitorCall M C)}

theorem exists_of_visitCustomAttributeData (hfilter : ∀ ctor, iter.filter ctor = true)
    (h : r.visitCustomAttributeData rt data iter = (calls, .ok (true, iter'))) :
    ∃ ctor ctorBuffer dataBuffer,
      (iterateAttributeCtorsImpl rt data r iter.ctorBuffer).2 = .ok (some ctor, ctorBuffer) ∧
      readAndVisitCustomAttributeImpl rt data r.bufferEnd ctor true iter.dataBuffer =
        (calls, .ok ((), dataBuffer)) ∧
      iter' = { iter with ctorBuffer, dataBuffer } := by
  unfold visitCustomAttributeData visitLoop at h
  rcases hctor : (iterateAttributeCtorsImpl rt data r iter.ctorBuffer).2 with
    e | ⟨_ | ctor, ctorBuffer⟩
  · rw [hctor] at h; cases h
  · rw [hctor] at h; cases h
  · rw [hctor] at h
    rcases hvisit : readAndVisitCustomAttributeImpl rt data r.bufferEnd ctor true iter.dataBuffer
      with ⟨w, e | ⟨u, dataBuffer⟩⟩
    · simp only [hfilter, if_true, hvisit] at h
      cases h
    · simp only [hfilter, if_true, hvisit] at h
      cases h
      exact ⟨ctor, ctorBuffer, dataBuffer, rfl, hvisit, rfl⟩

/-- **An attribute that is decoded is skipped up to the same position, and visited alike from the
recorded data.** -/
theorem lazy_visit_agrees (rt : Runtime M C) (data : AttributeData) :
    (∀ (bufferEnd : ℕ) (ctor : M) (pos pos' : ℕ),
      (readAndVisitCustomAttributeImpl rt data bufferEnd ctor true).Returns pos () pos' →
      (readAndVisitCustomAttributeImpl rt data bufferEnd ctor false).Returns pos () pos') ∧
    ∀ (r : CustomAttributeDataReader) (iter iter' : CustomAttributeDataIterator M)
      (calls : List (VisitorCall M C)), (∀ ctor, iter.filter ctor = true) →
      r.visitCustomAttributeData rt data iter = (calls, .ok (true, iter')) →
      ∃ lazyData, r.readLazyCustomAttributeData rt data iter = .ok (some lazyData, iter') ∧
        visitLazy rt data lazyData = (calls, .ok ()) := by
  have hskip (bufferEnd : ℕ) (ctor : M) (pos pos' : ℕ)
      (h : (readAndVisitCustomAttributeImpl rt data bufferEnd ctor true).Returns pos () pos') :
      (readAndVisitCustomAttributeImpl rt data bufferEnd ctor false).Returns pos () pos' := by
    obtain ⟨_, h'⟩ := readAndVisitCustomAttributeImpl_skippedBy bufferEnd ctor _ _ _ h
    exact h'
  refine ⟨hskip, fun r iter iter' calls hfilter h => ?_⟩
  obtain ⟨ctor, ctorBuffer, dataBuffer, hctor, hvisit, rfl⟩ :=
    exists_of_visitCustomAttributeData hfilter h
  have hreturns : (readAndVisitCustomAttributeImpl rt data r.bufferEnd ctor true).Returns
      iter.dataBuffer () dataBuffer := by rw [Returns, hvisit]
  have hpast : r.readPastCustomAttribute rt data ctor iter.dataBuffer = .ok dataBuffer := by
    have h := hskip _ _ _ _ hreturns
    rw [Returns] at h
    rw [readPastCustomAttribute, h]
    rfl
  refine ⟨⟨ctor, iter.dataBuffer, UInt32.ofInt (dataBuffer - iter.dataBuffer)⟩, ?_, ?_⟩
  · simp only [readLazyCustomAttributeData, hctor, bind, Except.bind, hpast]
    rfl
  · have hpos : iter.dataBuffer ≤ data.bytes.length := by
      obtain ⟨_, _, hcount, -⟩ := returns_bind.1 hreturns
      exact le_length_of_returns_readCompressedUInt32 hcount
    obtain ⟨hle, hin, heq⟩ :=
      readAndVisitCustomAttributeImpl_bufferEnd hreturns hpos (le_refl dataBuffer)
    have hlt := data.size_lt
    unfold visitLazy
    simp only [add_toNat_ofInt_sub hle (by omega), heq, hvisit]
    rfl

/-- The calls for the next attribute by way of the recorded data: none, if it cannot be skipped. -/
def lazyCalls (rt : Runtime M C) (data : AttributeData) (r : CustomAttributeDataReader)
    (iter : CustomAttributeDataIterator M) : List (VisitorCall M C) :=
  match r.readLazyCustomAttributeData rt data iter with
  | .ok (some lazyData, _) => (visitLazy rt data lazyData).1
  | _ => []

/-- A runtime in which every index is that of its class, and every enumeration is of `int`. -/
def exampleRuntime : Runtime UInt32 ℕ where
  getTypeInfoFromTypeIndex index := if index = -1 then none else some index.toNat
  getTypeInfoFromTypeDefinitionIndex index := some index.toNat
  getMethodInfoFromMethodDefinitionIndex index := index
  getEnumBaseType _ := some .i4
  fromIl2CppTypeEnum _ := some 0
  arrayClass := 1
  getArrayClass klass := klass + 2
  klass _ := 3

/-- One attribute, with a string, an array of an integer and a null string, a boolean field, and a
property that is an enumeration and is declared by a base class. -/
def exampleData : AttributeData where
  bytes := [1, 7, 0, 0, 0, 2, 1, 1, 0x0e, 4, 0x68, 0x69, 0x1d, 4, 0x1c, 1, 8, 10, 0x0e, 1,
    2, 1, 0, 0x55, 0, 2, 1, 5]
  size_lt := by decide

theorem lazy_visit_agrees_example :
    ∃ (calls : List (VisitorCall UInt32 ℕ)) (lazyData : LazyCustomAttributeData UInt32)
      (iter' : CustomAttributeDataIterator UInt32),
      calls.length = 7 ∧ iter'.dataBuffer = 28 ∧
      readLazyCustomAttributeData exampleRuntime exampleData ⟨1, 28, 1⟩ ⟨1, 5, fun _ => true⟩ =
        .ok (some lazyData, iter') ∧
      visitLazy exampleRuntime exampleData lazyData = (calls, .ok ()) := by
  obtain ⟨lazyData, hlazy, hvisit⟩ := (lazy_visit_agrees exampleRuntime exampleData).2 ⟨1, 28, 1⟩
    ⟨1, 5, fun _ => true⟩ _ _ (fun _ => rfl) rfl
  exact ⟨_, lazyData, _, rfl, rfl, hlazy, hvisit⟩

/-- An attribute whose argument has no type that can be read is visited up to the argument; it
cannot be skipped. -/
theorem lazy_visit_invalid :
    ¬ ∀ (data : AttributeData) (r : CustomAttributeDataReader)
      (iter : CustomAttributeDataIterator UInt32), (∀ ctor, iter.filter ctor = true) →
      lazyCalls exampleRuntime data r iter =
        (r.visitCustomAttributeData exampleRuntime data iter).1 := by
  intro h
  have heq := h ⟨[1, 7, 0, 0, 0, 1, 0, 0, 0], by decide⟩ ⟨1, 9, 1⟩ ⟨1, 5, fun _ => true⟩
    fun _ => rfl
  exact absurd (congrArg List.length heq) (by decide)

end CustomAttributeDataReader

end CustomAttribute

end Il2Cpp
