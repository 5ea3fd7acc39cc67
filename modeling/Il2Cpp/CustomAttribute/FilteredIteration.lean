import Il2Cpp.CustomAttribute.DataReader

/-!
# Iteration with a filter

The constructors and the data of the attributes are two sequences.  `GetCount` and
`IterateAttributeCtors` go through the constructors only; `VisitCustomAttributeData` goes through
both, and skips the data of an attribute whose constructor does not satisfy the filter.

* `getCount`, `iterateAttributeCtors` : the functions, and `attributeCtors` the calls of the second
  one after another.
* `visits` : the calls of `VisitCustomAttributeData` one after another.
* `Left` : the number of constructors that are left, on which the iterations are by induction.
* `allCtors`, `allVisits` : what the iterations find, and `lastVisit` where the unfiltered one ends.
* `Passes` : the iteration goes on past an attribute that does not satisfy the filter.
* `filtered_iteration` : the filtered iterations are those of the constructors and the attributes
  that satisfy the filter, as far as the attributes can be decoded.
* `filtered_iteration_passes` : an attribute that cannot be decoded may be skipped.
-/

namespace Il2Cpp

namespace CustomAttribute

open Decoder

namespace CustomAttributeDataReader

variable {M C : Type} (rt : Runtime M C) (data : AttributeData) (r : CustomAttributeDataReader)

/-- The loop of `GetCount`, at most `n` times. -/
def countLoop (filter : M → Bool) : ℕ → ℕ → UInt32 → Except DecodeError UInt32
  | 0, _, count => .ok count
  | n + 1, ctorBuffer, count =>
    match (iterateAttributeCtorsImpl rt data r ctorBuffer).2 with
    | .error e => .error e
    | .ok (none, _) => .ok count
    | .ok (some ctor, ctorBuffer) =>
      countLoop filter n ctorBuffer (if filter ctor then count + 1 else count)

/-- The number of constructors from a position on. -/
def left (ctorBuffer : ℕ) : ℕ := (r.getDataBufferStart - ctorBuffer) / 4

/-- `GetCount`, with a filter. -/
def getCount (filter : M → Bool) : Except DecodeError UInt32 :=
  countLoop rt data r filter (r.left r.bufferStart + 1) r.bufferStart 0

/-- The loop of `IterateAttributeCtors`, at most `n` times. -/
def iterateLoop (filter : M → Bool) : ℕ → ℕ → Except DecodeError (Option M × ℕ)
  | 0, ctorBuffer => .ok (none, ctorBuffer)
  | n + 1, ctorBuffer =>
    match (iterateAttributeCtorsImpl rt data r ctorBuffer).2 with
    | .error e => .error e
    | .ok (none, ctorBuffer) => .ok (none, ctorBuffer)
    | .ok (some ctor, ctorBuffer) =>
      if filter ctor then .ok (some ctor, ctorBuffer) else iterateLoop filter n ctorBuffer

/-- `IterateAttributeCtors`. -/
def iterateAttributeCtors (filter : M → Bool) (ctorBuffer : ℕ) :
    Except DecodeError (Option M × ℕ) :=
  iterateLoop rt data r filter (r.left ctorBuffer + 1) ctorBuffer

/-- At most `n` calls of `IterateAttributeCtors` one after another: the constructors, and the
error at which they end. -/
def attributeCtors (filter : M → Bool) : ℕ → ℕ → List M × Option DecodeError
  | 0, _ => ([], none)
  | n + 1, ctorBuffer =>
    match r.iterateAttributeCtors rt data filter ctorBuffer with
    | .error e => ([], some e)
    | .ok (none, _) => ([], none)
    | .ok (some ctor, ctorBuffer) =>
      let rest := attributeCtors filter n ctorBuffer
      (ctor :: rest.1, rest.2)

/-- The attributes that were visited, each with its calls of the visitor, and the error at which the
iteration ends, with the calls before it. -/
structure Visits (M C : Type) where
  visited : List (List (VisitorCall M C))
  failure : Option (List (VisitorCall M C) × DecodeError)

/-- At most `n` calls of `VisitCustomAttributeData` one after another. -/
def visits : ℕ → CustomAttributeDataIterator M → Visits M C
  | 0, _ => ⟨[], none⟩
  | n + 1, iter =>
    match r.visitCustomAttributeData rt data iter with
    | (calls, .error e) => ⟨[], some (calls, e)⟩
    | (_, .ok (false, _)) => ⟨[], none⟩
    | (calls, .ok (true, iter)) =>
      let rest := visits n iter
      ⟨calls :: rest.visited, rest.failure⟩

/-- Where the last of these calls starts. -/
def lastCall : ℕ → CustomAttributeDataIterator M → CustomAttributeDataIterator M
  | 0, iter => iter
  | n + 1, iter =>
    match r.visitCustomAttributeData rt data iter with
    | (_, .ok (true, iter)) => lastCall n iter
    | _ => iter

/-- All constructors, and all visits. -/
def allCtors (filter : M → Bool) : List M × Option DecodeError :=
  attributeCtors rt data r filter (r.count.toNat + 1) r.bufferStart

def allVisits (filter : M → Bool) : Visits M C :=
  visits rt data r (r.count.toNat + 1) (r.getDataIterator filter)

/-- Where the unfiltered iteration ends. -/
def lastVisit : CustomAttributeDataIterator M :=
  lastCall rt data r (r.count.toNat + 1) (r.getDataIterator fun _ => true)

/-- The iteration goes on past an attribute that does not satisfy the filter. -/
def Passes (filter : M → Bool) (iter : CustomAttributeDataIterator M) : Prop :=
  ∃ ctor ctorBuffer dataBuffer,
    (iterateAttributeCtorsImpl rt data r iter.ctorBuffer).2 = .ok (some ctor, ctorBuffer) ∧
    filter ctor = false ∧ r.readPastCustomAttribute rt data ctor iter.dataBuffer = .ok dataBuffer

/-- The constructor that the visitor was called with satisfies the filter. -/
def Satisfies (filter : M → Bool) : List (VisitorCall M C) → Bool
  | .moveNext ctor :: _ => filter ctor
  | _ => false

/-! ### The next constructor -/

variable {rt data r}

/-- `k` constructors are left. -/
def Left (r : CustomAttributeDataReader) (k ctorBuffer : ℕ) : Prop :=
  ctorBuffer + 4 * k = r.getDataBufferStart

theorem left_bufferStart (r : CustomAttributeDataReader) : r.Left r.count.toNat r.bufferStart := rfl

theorem Left.left_eq {k ctorBuffer : ℕ} (h : r.Left k ctorBuffer) : r.left ctorBuffer = k := by
  unfold Left at h
  unfold left
  omega

theorem Left.next {k ctorBuffer : ℕ} (h : r.Left (k + 1) ctorBuffer) :
    r.Left k (ctorBuffer + 4) := by
  unfold Left at h ⊢
  omega

/-- The constructor at a position. -/
def ctorAt (rt : Runtime M C) (data : AttributeData) (ctorBuffer : ℕ) : Except DecodeError M :=
  (fun read => rt.getMethodInfoFromMethodDefinitionIndex read.1) <$>
    ((read32 data.bytes : Decoder (VisitorCall M C) UInt32) ctorBuffer).2

theorem iterateAttributeCtorsImpl_zero {ctorBuffer : ℕ} (h : r.Left 0 ctorBuffer) :
    (iterateAttributeCtorsImpl rt data r ctorBuffer).2 = .ok (none, ctorBuffer) := by
  have hnot : ¬ ctorBuffer < r.getDataBufferStart := by
    unfold Left at h
    omega
  unfold iterateAttributeCtorsImpl
  show ((ite _ _ _ : Decoder (VisitorCall M C) (Option M)) ctorBuffer).2 = _
  rw [if_neg hnot]
  rfl

theorem returns_read32 {W : Type} {bytes : List UInt8} {pos pos' : ℕ} {n : UInt32}
    (h : (read32 bytes : Decoder W _).Returns pos n pos') : pos' = pos + 4 := by
  obtain ⟨n, h, -⟩ := returns_map.1 h
  obtain ⟨l, p, hl, hp⟩ := returns_bind.1 h
  obtain ⟨-, -, rfl⟩ := returns_readBytes.1 hl
  exact (returns_pure.1 hp).2.symm

theorem iterateAttributeCtorsImpl_succ {k ctorBuffer : ℕ} (h : r.Left (k + 1) ctorBuffer) :
    (iterateAttributeCtorsImpl rt data r ctorBuffer).2 =
      (fun ctor => (some ctor, ctorBuffer + 4)) <$> ctorAt rt data ctorBuffer := by
  have hlt : ctorBuffer < r.getDataBufferStart := by
    unfold Left at h
    omega
  unfold iterateAttributeCtorsImpl ctorAt
  show ((ite _ _ _ : Decoder (VisitorCall M C) (Option M)) ctorBuffer).2 = _
  rw [if_pos hlt]
  show (Decoder.bind _ _ ctorBuffer).2 = _
  unfold Decoder.bind
  rcases hread : (read32 data.bytes : Decoder (VisitorCall M C) UInt32) ctorBuffer with
    ⟨w, e | ⟨n, p⟩⟩
  · rfl
  · have hreturns :
        (read32 data.bytes : Decoder (VisitorCall M C) UInt32).Returns ctorBuffer n p := by
      rw [Returns, hread]
    rw [returns_read32 hreturns]
    rfl

/-! ### The constructors -/

variable {filter : M → Bool} {k n ctorBuffer : ℕ}

theorem iterateAttributeCtors_zero (h : r.Left 0 ctorBuffer) :
    r.iterateAttributeCtors rt data filter ctorBuffer = .ok (none, ctorBuffer) := by
  rw [iterateAttributeCtors, h.left_eq, iterateLoop, iterateAttributeCtorsImpl_zero h]

theorem iterateAttributeCtors_succ (h : r.Left (k + 1) ctorBuffer) :
    r.iterateAttributeCtors rt data filter ctorBuffer =
      match ctorAt rt data ctorBuffer with
      | .error e => .error e
      | .ok ctor =>
        if filter ctor then .ok (some ctor, ctorBuffer + 4)
        else r.iterateAttributeCtors rt data filter (ctorBuffer + 4) := by
  rw [iterateAttributeCtors, h.left_eq, iterateLoop, iterateAttributeCtorsImpl_succ h]
  cases ctorAt rt data ctorBuffer with
  | error e => rfl
  | ok ctor =>
    rw [iterateAttributeCtors, h.next.left_eq]
    rfl

theorem attributeCtors_zero (h : r.Left 0 ctorBuffer) :
    attributeCtors rt data r filter (n + 1) ctorBuffer = ([], none) := by
  rw [attributeCtors, iterateAttributeCtors_zero h]

theorem attributeCtors_succ (h : r.Left (k + 1) ctorBuffer) :
    attributeCtors rt data r filter (n + 1) ctorBuffer =
      match ctorAt rt data ctorBuffer with
      | .error e => ([], some e)
      | .ok ctor =>
        if filter ctor then
          (ctor :: (attributeCtors rt data r filter n (ctorBuffer + 4)).1,
            (attributeCtors rt data r filter n (ctorBuffer + 4)).2)
        else attributeCtors rt data r filter (n + 1) (ctorBuffer + 4) := by
  rw [attributeCtors, iterateAttributeCtors_succ h]
  cases ctorAt rt data ctorBuffer with
  | error e => rfl
  | ok ctor =>
    cases hfilter : filter ctor with
    | true => simp [hfilter]
    | false =>
      simp only [hfilter, Bool.false_eq_true, if_false]
      rfl

theorem attributeCtors_filter {m : ℕ} (h : r.Left k ctorBuffer) (hn : k < n) (hm : k < m) :
    attributeCtors rt data r filter m ctorBuffer =
      ((attributeCtors rt data r (fun _ => true) n ctorBuffer).1.filter filter,
        (attributeCtors rt data r (fun _ => true) n ctorBuffer).2) := by
  induction k generalizing n m ctorBuffer with
  | zero =>
    obtain ⟨n, rfl⟩ := Nat.exists_eq_add_one.2 hn
    obtain ⟨m, rfl⟩ := Nat.exists_eq_add_one.2 hm
    rw [attributeCtors_zero h, attributeCtors_zero h]
    rfl
  | succ k ih =>
    obtain ⟨n, rfl⟩ := Nat.exists_eq_add_one.2 (Nat.zero_lt_of_lt hn)
    obtain ⟨m, rfl⟩ := Nat.exists_eq_add_one.2 (Nat.zero_lt_of_lt hm)
    rw [attributeCtors_succ h, attributeCtors_succ h]
    cases ctorAt rt data ctorBuffer with
    | error e => rfl
    | ok ctor =>
      simp only [if_true]
      cases hfilter : filter ctor with
      | true =>
        rw [if_pos rfl, List.filter_cons_of_pos hfilter, ih h.next (n := n) (by omega) (by omega)]
      | false =>
        rw [if_neg Bool.false_ne_true, List.filter_cons_of_neg (by simp [hfilter]),
          ih h.next (n := n) (by omega) (by omega)]

theorem length_attributeCtors_le (h : r.Left k ctorBuffer) (hn : k < n) :
    (attributeCtors rt data r (fun _ => true) n ctorBuffer).1.length ≤ k := by
  induction k generalizing n ctorBuffer with
  | zero =>
    obtain ⟨n, rfl⟩ := Nat.exists_eq_add_one.2 hn
    rw [attributeCtors_zero h]
    rfl
  | succ k ih =>
    obtain ⟨n, rfl⟩ := Nat.exists_eq_add_one.2 (Nat.zero_lt_of_lt hn)
    rw [attributeCtors_succ h]
    cases ctorAt rt data ctorBuffer with
    | error e => exact Nat.zero_le _
    | ok ctor => exact Nat.succ_le_succ (ih h.next (by omega))

theorem countLoop_eq {m : ℕ} {count : UInt32} (h : r.Left k ctorBuffer) (hn : k < n) (hm : k < m) :
    countLoop rt data r filter m ctorBuffer count =
      match (attributeCtors rt data r (fun _ => true) n ctorBuffer).2 with
      | some e => .error e
      | none => .ok (count + UInt32.ofNat
          ((attributeCtors rt data r (fun _ => true) n ctorBuffer).1.countP filter)) := by
  induction k generalizing n m ctorBuffer count with
  | zero =>
    obtain ⟨n, rfl⟩ := Nat.exists_eq_add_one.2 hn
    obtain ⟨m, rfl⟩ := Nat.exists_eq_add_one.2 hm
    rw [attributeCtors_zero h, countLoop, iterateAttributeCtorsImpl_zero h]
    simp
  | succ k ih =>
    obtain ⟨n, rfl⟩ := Nat.exists_eq_add_one.2 (Nat.zero_lt_of_lt hn)
    obtain ⟨m, rfl⟩ := Nat.exists_eq_add_one.2 (Nat.zero_lt_of_lt hm)
    rw [attributeCtors_succ h, countLoop, iterateAttributeCtorsImpl_succ h]
    cases ctorAt rt data ctorBuffer with
    | error e => rfl
    | ok ctor =>
      -- the loop itself goes over all the constructors and tests each
      show countLoop rt data r filter m (ctorBuffer + 4) _ = _
      simp only [if_true]
      rw [ih h.next (n := n) (by omega) (by omega)]
      cases (attributeCtors rt data r (fun _ => true) n (ctorBuffer + 4)).2 with
      | some e => rfl
      | none =>
        cases hfilter : filter ctor with
        | true =>
          rw [List.countP_cons_of_pos hfilter]
          simp [UInt32.add_assoc, UInt32.add_comm 1]
        | false =>
          rw [List.countP_cons_of_neg (by simp [hfilter])]
          rfl

/-! ### The constructor of a visit -/

theorem silent_readCompressedUInt32 {W : Type} {bytes : List UInt8} :
    (readCompressedUInt32 bytes : Decoder W UInt32).Silent := by
  have hread (n : ℕ) : (readLittleEndian bytes n : Decoder W ℕ).Silent :=
    (silent_readBytes bytes n).bind fun _ => silent_pure _
  have h8 : (UInt8.toUInt32 <$> read8 bytes : Decoder W UInt32).Silent := ((hread 1).map _).map _
  refine h8.bind fun read => .ite (silent_pure _) (.ite ?_ (.ite ?_ (.ite ?_ ?_)))
  · exact h8.bind fun _ => silent_pure _
  · exact h8.bind fun _ => h8.bind fun _ => h8.bind fun _ => silent_pure _
  · exact (hread 4).map _
  · exact .ite (silent_pure _) (.ite (silent_pure _) (silent_pure _))

theorem satisfies_of_visit {bufferEnd pos pos' : ℕ} {ctor : M} {deserialize : Bool}
    {calls : List (VisitorCall M C)}
    (h : readAndVisitCustomAttributeImpl rt data bufferEnd ctor deserialize pos =
      (calls, .ok ((), pos'))) : Satisfies filter calls = filter ctor := by
  have hreturns : (readAndVisitCustomAttributeImpl rt data bufferEnd ctor deserialize).Returns
      pos () pos' := by rw [Returns, h]
  have hcalls : calls =
      (readAndVisitCustomAttributeImpl rt data bufferEnd ctor deserialize pos).1 := by rw [h]
  -- no visitor is called while the three counts are read
  obtain ⟨argumentCount, p₁, h₁, hreturns⟩ := returns_bind.1 hreturns
  obtain ⟨fieldCount, p₂, h₂, hreturns⟩ := returns_bind.1 hreturns
  obtain ⟨propertyCount, p₃, h₃, hreturns⟩ := returns_bind.1 hreturns
  obtain ⟨p, p₄, h₄, hreturns⟩ := returns_bind.1 hreturns
  split_ifs at hreturns with hend
  · exact absurd hreturns not_returns_fail
  · rw [hcalls, readAndVisitCustomAttributeImpl, logged_bind h₁, silent_readCompressedUInt32,
      logged_bind h₂, silent_readCompressedUInt32, logged_bind h₃, silent_readCompressedUInt32,
      logged_bind h₄, silent_position, if_neg hend]
    rfl

/-! ### The attributes -/

variable {dataBuffer : ℕ}

theorem visitLoop_zero {iter : CustomAttributeDataIterator M} (h : r.Left 0 iter.ctorBuffer) :
    r.visitLoop rt data (n + 1) iter = ([], .ok (false, iter)) := by
  rw [visitLoop, iterateAttributeCtorsImpl_zero h]

theorem visitLoop_succ {iter : CustomAttributeDataIterator M}
    (h : r.Left (k + 1) iter.ctorBuffer) :
    r.visitLoop rt data (n + 1) iter =
      match ctorAt rt data iter.ctorBuffer with
      | .error e => ([], .error e)
      | .ok ctor =>
        let ctorBuffer := iter.ctorBuffer + 4
        if iter.filter ctor then
          let visit := readAndVisitCustomAttributeImpl rt data r.bufferEnd ctor true iter.dataBuffer
          (visit.1, (fun v => (true, { iter with ctorBuffer, dataBuffer := v.2 })) <$> visit.2)
        else
          match r.readPastCustomAttribute rt data ctor iter.dataBuffer with
          | .error e => ([], .error e)
          | .ok dataBuffer => r.visitLoop rt data n { iter with ctorBuffer, dataBuffer } := by
  rw [visitLoop, iterateAttributeCtorsImpl_succ h]
  cases ctorAt rt data iter.ctorBuffer with
  | error e => rfl
  | ok ctor => rfl

theorem visitLoop_congr {m : ℕ} {iter : CustomAttributeDataIterator M}
    (h : r.Left k iter.ctorBuffer) (hn : k < n) (hm : k < m) :
    r.visitLoop rt data n iter = r.visitLoop rt data m iter := by
  induction k generalizing n m iter with
  | zero =>
    obtain ⟨n, rfl⟩ := Nat.exists_eq_add_one.2 hn
    obtain ⟨m, rfl⟩ := Nat.exists_eq_add_one.2 hm
    rw [visitLoop_zero h, visitLoop_zero h]
  | succ k ih =>
    obtain ⟨n, rfl⟩ := Nat.exists_eq_add_one.2 (Nat.zero_lt_of_lt hn)
    obtain ⟨m, rfl⟩ := Nat.exists_eq_add_one.2 (Nat.zero_lt_of_lt hm)
    rw [visitLoop_succ h, visitLoop_succ h]
    cases ctorAt rt data iter.ctorBuffer with
    | error e => rfl
    | ok ctor =>
      dsimp only
      cases r.readPastCustomAttribute rt data ctor iter.dataBuffer with
      | error e => rfl
      | ok dataBuffer =>
        dsimp only
        split_ifs
        · rfl
        · exact ih h.next (by omega) (by omega)

theorem visitCustomAttributeData_zero {iter : CustomAttributeDataIterator M}
    (h : r.Left 0 iter.ctorBuffer) :
    r.visitCustomAttributeData rt data iter = ([], .ok (false, iter)) :=
  visitLoop_zero h

theorem visitCustomAttributeData_eq {iter : CustomAttributeDataIterator M}
    (h : r.Left k iter.ctorBuffer) (hn : k < n) :
    r.visitCustomAttributeData rt data iter = r.visitLoop rt data n iter := by
  refine visitLoop_congr h ?_ hn
  unfold Left at h
  omega

theorem visits_zero (h : r.Left 0 ctorBuffer) :
    visits rt data r (n + 1) ⟨ctorBuffer, dataBuffer, filter⟩ = ⟨[], none⟩ := by
  rw [visits, visitCustomAttributeData_zero h]

theorem visits_succ (h : r.Left (k + 1) ctorBuffer) :
    visits rt data r (n + 1) ⟨ctorBuffer, dataBuffer, filter⟩ =
      match ctorAt rt data ctorBuffer with
      | .error e => ⟨[], some ([], e)⟩
      | .ok ctor =>
        if filter ctor then
          match readAndVisitCustomAttributeImpl rt data r.bufferEnd ctor true dataBuffer with
          | (calls, .error e) => ⟨[], some (calls, e)⟩
          | (calls, .ok (_, dataBuffer)) =>
            let rest := visits rt data r n ⟨ctorBuffer + 4, dataBuffer, filter⟩
            ⟨calls :: rest.visited, rest.failure⟩
        else
          match r.readPastCustomAttribute rt data ctor dataBuffer with
          | .error e => ⟨[], some ([], e)⟩
          | .ok dataBuffer => visits rt data r (n + 1) ⟨ctorBuffer + 4, dataBuffer, filter⟩ := by
  rw [visits, visitCustomAttributeData_eq (n := k + 2) h (by omega), visitLoop_succ h]
  dsimp only
  cases ctorAt rt data ctorBuffer with
  | error e => rfl
  | ok ctor =>
    dsimp only
    by_cases hfilter : filter ctor = true
    · rw [if_pos hfilter, if_pos hfilter]
      rcases readAndVisitCustomAttributeImpl rt data r.bufferEnd ctor true dataBuffer with
        ⟨calls, e | ⟨u, dataBuffer⟩⟩ <;> rfl
    · rw [if_neg hfilter, if_neg hfilter]
      cases r.readPastCustomAttribute rt data ctor dataBuffer with
      | error e => rfl
      | ok dataBuffer =>
        -- one more call of the iteration would start where this one goes on
        have hloop : r.visitCustomAttributeData rt data ⟨ctorBuffer + 4, dataBuffer, filter⟩ =
            r.visitLoop rt data (k + 1) ⟨ctorBuffer + 4, dataBuffer, filter⟩ :=
          visitCustomAttributeData_eq h.next (by omega)
        dsimp only
        rw [visits, hloop]

theorem lastCall_succ (h : r.Left (k + 1) ctorBuffer) :
    lastCall rt data r (n + 1) ⟨ctorBuffer, dataBuffer, fun _ => true⟩ =
      match ctorAt rt data ctorBuffer with
      | .error _ => ⟨ctorBuffer, dataBuffer, fun _ => true⟩
      | .ok ctor =>
        match (readAndVisitCustomAttributeImpl rt data r.bufferEnd ctor true dataBuffer).2 with
        | .error _ => ⟨ctorBuffer, dataBuffer, fun _ => true⟩
        | .ok (_, dataBuffer) =>
          lastCall rt data r n ⟨ctorBuffer + 4, dataBuffer, fun _ => true⟩ := by
  rw [lastCall, visitCustomAttributeData_eq (n := k + 2) h (by omega), visitLoop_succ h]
  dsimp only
  cases ctorAt rt data ctorBuffer with
  | error e => rfl
  | ok ctor =>
    simp only [if_true]
    rcases readAndVisitCustomAttributeImpl rt data r.bufferEnd ctor true dataBuffer with
      ⟨calls, e | ⟨u, dataBuffer⟩⟩ <;> rfl

theorem readPastCustomAttribute_of_visit {bufferEnd pos pos' : ℕ} {ctor : M}
    {calls : List (VisitorCall M C)} (hend : r.bufferEnd = bufferEnd)
    (h : readAndVisitCustomAttributeImpl rt data bufferEnd ctor true pos = (calls, .ok ((), pos'))) :
    r.readPastCustomAttribute rt data ctor pos = .ok pos' := by
  have hreturns : (readAndVisitCustomAttributeImpl rt data bufferEnd ctor true).Returns
      pos () pos' := by rw [Returns, h]
  obtain ⟨_, hskip⟩ := readAndVisitCustomAttributeImpl_skippedBy bufferEnd ctor _ _ _ hreturns
  rw [Returns] at hskip
  rw [readPastCustomAttribute, hend, hskip]
  rfl

theorem visits_filter (rt : Runtime M C) (data : AttributeData) (filter : M → Bool) {m : ℕ}
    (h : r.Left k ctorBuffer) (dataBuffer : ℕ) (hn : k < n) (hm : k < m) :
    ∃ rest, (visits rt data r m ⟨ctorBuffer, dataBuffer, filter⟩).visited =
        (visits rt data r n ⟨ctorBuffer, dataBuffer, fun _ => true⟩).visited.filter
          (Satisfies filter) ++ rest ∧
      (¬ Passes rt data r filter (lastCall rt data r n ⟨ctorBuffer, dataBuffer, fun _ => true⟩) →
        rest = []) ∧
      ((visits rt data r n ⟨ctorBuffer, dataBuffer, fun _ => true⟩).failure = none →
        rest = [] ∧ (visits rt data r m ⟨ctorBuffer, dataBuffer, filter⟩).failure = none) := by
  induction k generalizing n m ctorBuffer dataBuffer with
  | zero =>
    obtain ⟨n, rfl⟩ := Nat.exists_eq_add_one.2 hn
    obtain ⟨m, rfl⟩ := Nat.exists_eq_add_one.2 hm
    rw [visits_zero h, visits_zero h]
    exact ⟨[], rfl, fun _ => rfl, fun _ => ⟨rfl, rfl⟩⟩
  | succ k ih =>
    obtain ⟨n, rfl⟩ := Nat.exists_eq_add_one.2 (Nat.zero_lt_of_lt hn)
    obtain ⟨m, rfl⟩ := Nat.exists_eq_add_one.2 (Nat.zero_lt_of_lt hm)
    have hnext : (iterateAttributeCtorsImpl rt data r ctorBuffer).2 = _ :=
      iterateAttributeCtorsImpl_succ h
    rw [visits_succ h, visits_succ h, lastCall_succ h]
    cases hctor : ctorAt rt data ctorBuffer with
    | error e => exact ⟨[], rfl, fun _ => rfl, nofun⟩
    | ok ctor =>
      rw [hctor] at hnext
      simp only [if_true]
      rcases hvisit : readAndVisitCustomAttributeImpl rt data r.bufferEnd ctor true dataBuffer with
        ⟨calls, e | ⟨u, dataBuffer'⟩⟩
      · -- the unfiltered iteration ends here
        by_cases hfilter : filter ctor = true
        · rw [if_pos hfilter]
          exact ⟨[], rfl, fun _ => rfl, nofun⟩
        · rw [if_neg hfilter]
          cases hpast : r.readPastCustomAttribute rt data ctor dataBuffer with
          | error e => exact ⟨[], rfl, fun _ => rfl, nofun⟩
          | ok dataBuffer' =>
            -- skipping creates no arrays, so the filtered iteration may go on
            refine ⟨_, rfl, fun hnot => absurd ?_ hnot, nofun⟩
            exact ⟨ctor, _, _, hnext, Bool.eq_false_iff.2 hfilter, hpast⟩
      · -- both iterations go on behind the attribute, visited or skipped
        by_cases hfilter : filter ctor = true
        · rw [if_pos hfilter]
          obtain ⟨rest, heq, hpasses, hnone⟩ :=
            ih (n := n) (m := m) h.next dataBuffer' (by omega) (by omega)
          refine ⟨rest, ?_, hpasses, hnone⟩
          have hsat : Satisfies filter calls = true := (satisfies_of_visit hvisit).trans hfilter
          rw [List.filter_cons_of_pos hsat, List.cons_append, ← heq]
        · rw [if_neg hfilter, readPastCustomAttribute_of_visit rfl hvisit]
          obtain ⟨rest, heq, hpasses, hnone⟩ :=
            ih (n := n) (m := m + 1) h.next dataBuffer' (by omega) (by omega)
          refine ⟨rest, ?_, hpasses, hnone⟩
          have hsat : ¬ Satisfies filter calls = true := by rwa [satisfies_of_visit hvisit]
          rw [List.filter_cons_of_neg hsat, heq]

theorem getCount_eq (rt : Runtime M C) (data : AttributeData) (r : CustomAttributeDataReader)
    (filter : M → Bool) :
    UInt32.toNat <$> r.getCount rt data filter =
      match (r.allCtors rt data fun _ => true).2 with
      | some e => .error e
      | none => .ok ((r.allCtors rt data fun _ => true).1.countP filter) := by
  have hleft := left_bufferStart r
  have hlength : (r.allCtors rt data fun _ => true).1.length ≤ r.count.toNat :=
    length_attributeCtors_le hleft (Nat.lt_succ_self _)
  have hcount : (r.allCtors rt data fun _ => true).1.countP filter < UInt32.size :=
    (List.countP_le_length.trans hlength).trans_lt r.count.toNat_lt
  rw [getCount, hleft.left_eq, countLoop_eq hleft (Nat.lt_succ_self _) (Nat.lt_succ_self _)]
  change UInt32.toNat <$> (match (r.allCtors rt data fun _ => true).2 with
    | some e => Except.error e
    | none => Except.ok (0 + UInt32.ofNat ((r.allCtors rt data fun _ => true).1.countP filter))) = _
  cases (r.allCtors rt data fun _ => true).2 with
  | some e => rfl
  | none =>
    show Except.ok (0 + UInt32.ofNat _).toNat = _
    rw [UInt32.zero_add, UInt32.toNat_ofNat_of_lt' hcount]

/-- **The iterations with a filter**: the constructors are those of the unfiltered iteration that
satisfy the filter, and they are counted.  The attributes that are visited are first those of the
unfiltered iteration whose constructor satisfies the filter, each with the same calls of the
visitor; there are others only if the unfiltered iteration fails at an attribute that does not
satisfy the filter and can be skipped. -/
theorem filtered_iteration (rt : Runtime M C) (data : AttributeData)
    (r : CustomAttributeDataReader) (filter : M → Bool) :
    r.allCtors rt data filter =
      ((r.allCtors rt data fun _ => true).1.filter filter,
        (r.allCtors rt data fun _ => true).2) ∧
    (UInt32.toNat <$> r.getCount rt data filter =
      match (r.allCtors rt data fun _ => true).2 with
      | some e => .error e
      | none => .ok ((r.allCtors rt data fun _ => true).1.countP filter)) ∧
    (r.allVisits rt data fun _ => true).visited.filter (Satisfies filter) <+:
      (r.allVisits rt data filter).visited ∧
    (¬ Passes rt data r filter (r.lastVisit rt data) →
      (r.allVisits rt data filter).visited =
        (r.allVisits rt data fun _ => true).visited.filter (Satisfies filter)) ∧
    ((r.allVisits rt data fun _ => true).failure = none →
      r.allVisits rt data filter =
        ⟨(r.allVisits rt data fun _ => true).visited.filter (Satisfies filter), none⟩) := by
  have hleft := left_bufferStart r
  have hlt := Nat.lt_succ_self r.count.toNat
  obtain ⟨rest, heq, hpasses, hnone⟩ :=
    visits_filter rt data filter hleft r.getDataBufferStart hlt hlt
  refine ⟨attributeCtors_filter hleft hlt hlt, getCount_eq rt data r filter, ?_, ?_, ?_⟩
  · exact ⟨rest, heq.symm⟩
  · intro hnot
    rw [hpasses hnot, List.append_nil] at heq
    exact heq
  · intro hfailure
    obtain ⟨hrest, hfailure⟩ := hnone hfailure
    rw [hrest, List.append_nil] at heq
    exact congr (congrArg Visits.mk heq) hfailure

/-- Two attributes, the first one with an integer. -/
def twoAttributes : AttributeData where
  bytes := [7, 0, 0, 0, 8, 0, 0, 0, 1, 0, 0, 8, 10, 0, 0, 0]
  size_lt := by decide

theorem filtered_iteration_twoAttributes :
    (allCtors exampleRuntime twoAttributes ⟨0, 16, 2⟩ fun ctor => ctor = 8).1 = [8] ∧
    allVisits exampleRuntime twoAttributes ⟨0, 16, 2⟩ (fun ctor => ctor = 8) =
      ⟨[[.moveNext 8, .visitArgumentSizes 0 0 0, .visitCtor 8 [] 0]], none⟩ := by
  obtain ⟨hctors, -, -, -, hvisits⟩ :=
    filtered_iteration exampleRuntime twoAttributes ⟨0, 16, 2⟩ fun ctor => ctor = 8
  exact ⟨congrArg Prod.fst hctors, hvisits rfl⟩

/-- An array of `-2` elements cannot be made, which ends the unfiltered iteration at the first
attribute, but it can be skipped, and the second attribute is visited. -/
theorem filtered_iteration_passes :
    ¬ ∀ (data : AttributeData) (r : CustomAttributeDataReader) (filter : UInt32 → Bool),
      (r.allVisits exampleRuntime data filter).visited =
        (r.allVisits exampleRuntime data fun _ => true).visited.filter (Satisfies filter) := by
  intro h
  have heq := h ⟨[7, 0, 0, 0, 8, 0, 0, 0, 1, 0, 0, 0x1d, 3, 8, 0, 0, 0, 0], by decide⟩ ⟨0, 18, 2⟩
    fun ctor => ctor = 8
  exact absurd (congrArg List.length heq) (by decide)

end CustomAttributeDataReader

end CustomAttribute

end Il2Cpp
