import Il2Cpp.Data.Fueled

/-!
# Compression streams

`WriteZStream`, `Flush` and `CloseZStream` give a stream's input to `deflate`, and hand the output,
which is collected in a buffer, to a callback.  `deflate` is given.

* `writeZStream`, `flush`, `closeZStream` : the functions.
* `run` : calls on a stream, and then `CloseZStream`.
* `Streaming` : what `deflate` does.
-/

namespace Il2Cpp

namespace ZStream

def BUFFER_SIZE : ℕ := 4096

def ARGUMENT_ERROR : ℤ := -10

def IO_ERROR : ℤ := -11

def Z_OK : ℤ := 0

def Z_STREAM_END : ℤ := 1

inductive FlushMode
  | Z_NO_FLUSH
  | Z_PARTIAL_FLUSH
  | Z_FINISH

/-- What a call of `deflate` does: it takes `consumed` bytes of the input. -/
structure DeflateResult (σ : Type*) where
  state : σ
  consumed : ℕ
  output : List UInt8
  status : ℤ

/-- A call of the callback. -/
structure Delivery where
  bytes : List UInt8
  result : ℤ
  /-- In a pass of `CloseZStream`, what `deflate` has returned in it. -/
  closing : Option ℤ
deriving DecidableEq

/-- `ZStream` and its `z_stream`. -/
structure State (σ : Type*) where
  z : σ
  /-- The `avail_in` bytes at `next_in`. -/
  availIn : List UInt8
  /-- The bytes of `buffer` before `next_out`. -/
  buffer : List UInt8
  totalIn : ℕ
  compress : Bool
  eof : Bool
  /-- The calls of the callback. -/
  log : List Delivery

variable {σ : Type*}

/-- `CreateZStream` -/
def createZStream (compress : Bool) (z : σ) : State σ := ⟨z, [], [], 0, compress, false, []⟩

def State.availOut (s : State σ) : ℕ := BUFFER_SIZE - s.buffer.length

/-- `write_to_managed`.  The callback returns `func k` in its `k`-th call. -/
def writeToManaged (func : ℕ → ℤ) (closing : Option ℤ) (s : State σ) : ℤ × State σ :=
  if s.availOut ≠ BUFFER_SIZE then
    let n := func s.log.length
    (if n < 0 then IO_ERROR else 0,
      { s with buffer := [], log := s.log ++ [⟨s.buffer, n, closing⟩] })
  else (0, s)

-- `deflate` is given its input and the room for its output, and `total_in` has `w` bits
variable (w : ℕ) (deflate : σ → FlushMode → List UInt8 → ℕ → DeflateResult σ) (func : ℕ → ℤ)

def callDeflate (mode : FlushMode) (s : State σ) : ℤ × State σ :=
  let r := deflate s.z mode s.availIn s.availOut
  (r.status, { s with
    z := r.state
    availIn := s.availIn.drop r.consumed
    buffer := s.buffer ++ r.output
    totalIn := (s.totalIn + r.consumed) % 2 ^ w })

/-- `flush_internal`.  It is final where it is given the status of a pass of `CloseZStream`. -/
def flushInternal (isFinal : Option ℤ) (s : State σ) : ℤ × State σ :=
  if !s.compress then (0, s)
  else if isFinal = none ∧ s.availIn ≠ [] then
    let (status, s) := callDeflate w deflate .Z_PARTIAL_FLUSH s
    if status ≠ Z_OK ∧ status ≠ Z_STREAM_END then (status, s) else writeToManaged func isFinal s
  else writeToManaged func isFinal s

def flush (s : State σ) : ℤ × State σ := flushInternal w deflate func none s

/-- A pass of the loop of `WriteZStream`, and what it returns from the function. -/
def writePass (s : State σ) : Option ℤ × State σ :=
  let s := if s.availOut = 0 then { s with buffer := [] } else s
  let (status, s) := callDeflate w deflate .Z_NO_FLUSH s
  if status ≠ Z_OK ∧ status ≠ Z_STREAM_END then (some status, s)
  else if s.availOut = 0 then
    let (n, s) := writeToManaged func none s
    (if n < 0 then some n else none, s)
  else (none, s)

/-- `while (zs->avail_in > 0)` -/
def writeLoop (s : State σ) : Fueled (Option ℤ × State σ) :=
  if s.availIn ≠ [] then
    Fueled.doWhile (fun st => writePass w deflate func st.2)
      (fun st => st.1 = none ∧ st.2.availIn ≠ []) (none, s)
  else .pure (none, s)

/-- `WriteZStream` with the first `length` bytes of a buffer, `none` for `NULL`. -/
def writeZStream (zbuffer : Option (List UInt8)) (length : ℤ) (s : State σ) :
    Fueled (ℤ × State σ) :=
  match zbuffer with
  | none => .pure (ARGUMENT_ERROR, s)
  | some buffer =>
    if length < 0 then .pure (ARGUMENT_ERROR, s)
    else if s.eof then .pure (IO_ERROR, s)
    else (writeLoop w deflate func { s with availIn := buffer.take length.toNat }).bind fun st =>
      .pure (st.1.getD length, st.2)

/-- A pass of the loop of `CloseZStream`, with its `status` and `flush_status`. -/
def closePass (s : State σ) : (ℤ × ℤ) × State σ :=
  let (status, s) := callDeflate w deflate .Z_FINISH s
  let (flushStatus, s) := flushInternal w deflate func (some status) s
  ((status, flushStatus), s)

def closeLoop (s : State σ) : Fueled ((ℤ × ℤ) × State σ) :=
  Fueled.doWhile (fun st => closePass w deflate func st.2) (fun st => st.1.1 = Z_OK) ((0, 0), s)

def closeZStream (s : State σ) : Fueled (ℤ × State σ) :=
  if s.compress then
    if s.totalIn > 0 then
      (closeLoop w deflate func s).bind fun st =>
        .pure (if st.1.1 = Z_STREAM_END then st.1.2 else st.1.1, st.2)
    else .pure (0, s)
  else .pure (0, s)

/-! ### Runs -/

inductive Call
  | write (zbuffer : Option (List UInt8)) (length : ℤ)
  | flush

/-- The bytes that a call writes. -/
def Call.bytes : Call → List UInt8
  | write (some buffer) length => buffer.take length.toNat
  | write none _ => []
  | flush => []

/-- A call without a buffer, or with a negative length. -/
def Call.Rejected : Call → Prop
  | write (some _) length => length < 0
  | write none _ => True
  | flush => False

def runCall (s : State σ) : Call → Fueled (ℤ × State σ)
  | .write zbuffer length => writeZStream w deflate func zbuffer length s
  | .flush => .pure (flush w deflate func s)

/-- The calls, and then `CloseZStream`, with what they return. -/
def run : List Call → State σ → Fueled (List ℤ × State σ)
  | [], s => (closeZStream w deflate func s).bind fun r => .pure ([r.1], r.2)
  | call :: calls, s =>
    (runCall w deflate func s call).bind fun r =>
      (run calls r.2).bind fun rest => .pure (r.1 :: rest.1, rest.2)

def written (calls : List Call) : List UInt8 := calls.flatMap Call.bytes

/-- What the callback has been given. -/
def delivered (log : List Delivery) : List UInt8 := log.flatMap Delivery.bytes

/-- A call of the callback has failed. -/
def Failed (log : List Delivery) : Prop := ∃ d ∈ log, d.result < 0

instance (log : List Delivery) : Decidable (Failed log) :=
  inferInstanceAs (Decidable (∃ d ∈ log, _))

/-- Every byte is delivered, or the failure is reported. -/
def Delivers (compress : List UInt8 → List UInt8) (calls : List Call) (r : List ℤ × State σ) :
    Prop :=
  (¬Failed r.2.log → delivered r.2.log = compress (written calls)) ∧
    (Failed r.2.log → ∃ n ∈ r.1, n < 0)

/-! ### `deflate` -/

/-- What `deflate` does.  `Stream z c i o`: it has been given the bytes `i` and has put out `o`, and
what it will have put out once it is finished after the bytes `j` is `c j`.
`Finishing z i full o`: it is being finished, has `i` still to take and `o` put out of `full`. -/
structure Streaming (compress : List UInt8 → List UInt8) (z : σ)
    (Stream : σ → (List UInt8 → List UInt8) → List UInt8 → List UInt8 → Prop)
    (Finishing : σ → List UInt8 → List UInt8 → List UInt8 → Prop) : Prop where
  init : Stream z compress [] []
  /-- The end of the output is only put out when it is finished. -/
  stream : ∀ {z c i o}, Stream z c i o → o <+: c i ∧ o ≠ c i
  finishing : ∀ {z i full o}, Finishing z i full o → o <+: full
  consumed_le : ∀ z mode input availOut,
    (deflate z mode input availOut).consumed ≤ input.length
  output_le : ∀ z mode input availOut,
    (deflate z mode input availOut).output.length ≤ availOut
  noFlush : ∀ {z c i o input availOut}, Stream z c i o → input ≠ [] → 0 < availOut →
    let r := deflate z .Z_NO_FLUSH input availOut
    r.status = Z_OK ∧ (r.consumed = input.length ∨ r.output.length = availOut) ∧
      Stream r.state c (i ++ input.take r.consumed) (o ++ r.output)
  /-- A flush may change what will be put out. -/
  partialFlush : ∀ {z c i o input availOut}, Stream z c i o → input ≠ [] → 0 < availOut →
    let r := deflate z .Z_PARTIAL_FLUSH input availOut
    r.status = Z_OK ∧ ∃ c', Stream r.state c' (i ++ input.take r.consumed) (o ++ r.output)
  finish_stream : ∀ {z c i o}, Stream z c i o → ∀ input, Finishing z input (c (i ++ input)) o
  finish : ∀ {z input full o availOut}, Finishing z input full o → 0 < availOut →
    let r := deflate z .Z_FINISH input availOut
    r.status = Z_STREAM_END ∧ o ++ r.output = full ∨
      r.status = Z_OK ∧ r.output.length = availOut ∧
        Finishing r.state (input.drop r.consumed) full (o ++ r.output)

/-! ### Passes -/

variable {w deflate func} {compress c : List UInt8 → List UInt8} {z₀ : σ}
  {Stream : σ → (List UInt8 → List UInt8) → List UInt8 → List UInt8 → Prop}
  {Finishing : σ → List UInt8 → List UInt8 → List UInt8 → Prop}
  {s t u : State σ} {i o input input' output output' full : List UInt8}
  {added added' : List Delivery}

@[simp] theorem failed_nil : ¬Failed [] := nofun

@[simp] theorem failed_append : Failed (added ++ added') ↔ Failed added ∨ Failed added' := by
  simp [Failed, or_and_right, exists_or]

@[simp] theorem delivered_append :
    delivered (added ++ added') = delivered added ++ delivered added' :=
  List.flatMap_append

theorem availOut_pos_iff : 0 < s.availOut ↔ s.buffer.length < BUFFER_SIZE := by
  rw [State.availOut]
  exact Nat.sub_pos_iff_lt

/-- From `s` to `t`, `deflate` has been given `input` and has put out `output`, and `added` has been
delivered. -/
structure Moved (w : ℕ) (s t : State σ) (input output : List UInt8) (added : List Delivery) :
    Prop where
  availIn : s.availIn = input ++ t.availIn
  totalIn : t.totalIn % 2 ^ w = (s.totalIn + input.length) % 2 ^ w
  totalIn_lt : s.totalIn < 2 ^ w → t.totalIn < 2 ^ w
  log : t.log = s.log ++ added
  sent : delivered added ++ t.buffer = s.buffer ++ output
  compress : t.compress = s.compress
  eof : t.eof = s.eof

theorem Moved.refl (w : ℕ) (s : State σ) : Moved w s s [] [] [] where
  availIn := rfl
  totalIn := rfl
  totalIn_lt := id
  log := (List.append_nil _).symm
  sent := (List.append_nil _).symm
  compress := rfl
  eof := rfl

theorem Moved.trans (h : Moved w s t input output added) (h' : Moved w t u input' output' added') :
    Moved w s u (input ++ input') (output ++ output') (added ++ added') where
  availIn := by rw [h.availIn, h'.availIn, List.append_assoc]
  totalIn := by
    rw [h'.totalIn, ← Nat.mod_add_mod, h.totalIn, Nat.mod_add_mod, List.length_append,
      Nat.add_assoc]
  totalIn_lt := h'.totalIn_lt ∘ h.totalIn_lt
  log := by rw [h'.log, h.log, List.append_assoc]
  sent := by
    rw [delivered_append, List.append_assoc, h'.sent, ← List.append_assoc, h.sent,
      List.append_assoc]
  compress := h'.compress.trans h.compress
  eof := h'.eof.trans h.eof

theorem moved_callDeflate (mode : FlushMode)
    (hle : (deflate s.z mode s.availIn s.availOut).consumed ≤ s.availIn.length) :
    Moved w s (callDeflate w deflate mode s).2
      (s.availIn.take (deflate s.z mode s.availIn s.availOut).consumed)
      (deflate s.z mode s.availIn s.availOut).output [] where
  availIn := (List.take_append_drop _ _).symm
  totalIn := by
    rw [List.length_take, Nat.min_eq_left hle]
    exact Nat.mod_mod _ _
  totalIn_lt := fun _ => Nat.mod_lt _ (Nat.two_pow_pos w)
  log := (List.append_nil _).symm
  sent := rfl
  compress := rfl
  eof := rfl

theorem writeToManaged_spec (func : ℕ → ℤ) (closing : Option ℤ)
    (hle : s.buffer.length ≤ BUFFER_SIZE) :
    ∃ added t, writeToManaged func closing s = (if Failed added then IO_ERROR else 0, t) ∧
      Moved w s t [] [] added ∧ t.buffer = [] ∧ t.z = s.z ∧
      ∀ d ∈ added, d.closing = closing := by
  rw [writeToManaged]
  split_ifs with hout
  · have hmoved : Moved w s
        { s with
          buffer := []
          log := s.log ++ [⟨s.buffer, func s.log.length, closing⟩] } [] []
        [⟨s.buffer, func s.log.length, closing⟩] :=
      ⟨rfl, rfl, id, rfl, by simp [delivered], rfl, rfl⟩
    exact ⟨_, _, by simp [Failed], hmoved, rfl, rfl, by simp⟩
  · have hbuffer : s.buffer = [] := by
      rw [State.availOut] at hout
      exact List.eq_nil_of_length_eq_zero (by omega)
    exact ⟨[], s, by simp, Moved.refl w s, hbuffer, rfl, nofun⟩

/-- From `s` to `t`, `deflate` has gone on with its stream. -/
structure Advanced (w : ℕ)
    (Stream : σ → (List UInt8 → List UInt8) → List UInt8 → List UInt8 → Prop)
    (c : List UInt8 → List UInt8) (i o : List UInt8) (s t : State σ) (input output : List UInt8)
    (added : List Delivery) : Prop extends Moved w s t input output added where
  stream : Stream t.z c (i ++ input) (o ++ output)
  room : t.buffer.length < BUFFER_SIZE
  outside : ∀ d ∈ added, d.closing = none

theorem Advanced.refl (w : ℕ) (hstream : Stream s.z c i o) (hroom : s.buffer.length < BUFFER_SIZE) :
    Advanced w Stream c i o s s [] [] [] where
  toMoved := Moved.refl w s
  stream := by simpa using hstream
  room := hroom
  outside := nofun

theorem Advanced.trans (h : Advanced w Stream c i o s t input output added)
    (h' : Advanced w Stream c (i ++ input) (o ++ output) t u input' output' added') :
    Advanced w Stream c i o s u (input ++ input') (output ++ output') (added ++ added') where
  toMoved := h.toMoved.trans h'.toMoved
  stream := by simpa only [List.append_assoc] using h'.stream
  room := h'.room
  outside := fun d hd => (List.mem_append.1 hd).elim (h.outside d) (h'.outside d)

theorem length_callDeflate (h : Streaming deflate compress z₀ Stream Finishing) (mode : FlushMode)
    (hroom : s.buffer.length < BUFFER_SIZE) :
    (callDeflate w deflate mode s).2.buffer.length ≤ BUFFER_SIZE := by
  have houtput : (deflate s.z mode s.availIn s.availOut).output.length ≤
      BUFFER_SIZE - s.buffer.length := h.output_le s.z mode s.availIn s.availOut
  have hlength : (callDeflate w deflate mode s).2.buffer.length =
      s.buffer.length + (deflate s.z mode s.availIn s.availOut).output.length := List.length_append
  omega

theorem callDeflate_noFlush (h : Streaming deflate compress z₀ Stream Finishing)
    (hstream : Stream s.z c i o) (hin : s.availIn ≠ []) (hroom : s.buffer.length < BUFFER_SIZE) :
    ∃ t input output, callDeflate w deflate .Z_NO_FLUSH s = (Z_OK, t) ∧
      Moved w s t input output [] ∧ Stream t.z c (i ++ input) (o ++ output) ∧
      t.buffer.length ≤ BUFFER_SIZE ∧ (t.availIn = [] ∨ output ≠ []) := by
  have hpos : 0 < s.availOut := availOut_pos_iff.2 hroom
  obtain ⟨hstatus, hprogress, hnext⟩ := h.noFlush hstream hin hpos
  refine ⟨_, _, _, Prod.ext hstatus rfl, moved_callDeflate .Z_NO_FLUSH (h.consumed_le ..), hnext,
    length_callDeflate h .Z_NO_FLUSH hroom, hprogress.imp (fun htaken => ?_) fun hfilled hnil => ?_⟩
  · exact List.drop_eq_nil_of_le (Nat.le_of_eq htaken.symm)
  · rw [hnil] at hfilled
    exact Nat.ne_of_lt hpos hfilled

theorem callDeflate_partialFlush (h : Streaming deflate compress z₀ Stream Finishing)
    (hstream : Stream s.z c i o) (hin : s.availIn ≠ []) (hroom : s.buffer.length < BUFFER_SIZE) :
    ∃ t input output c', callDeflate w deflate .Z_PARTIAL_FLUSH s = (Z_OK, t) ∧
      Moved w s t input output [] ∧ Stream t.z c' (i ++ input) (o ++ output) ∧
      t.buffer.length ≤ BUFFER_SIZE := by
  obtain ⟨hstatus, c', hnext⟩ := h.partialFlush hstream hin (availOut_pos_iff.2 hroom)
  exact ⟨_, _, _, c', Prod.ext hstatus rfl, moved_callDeflate .Z_PARTIAL_FLUSH (h.consumed_le ..),
    hnext, length_callDeflate h .Z_PARTIAL_FLUSH hroom⟩

theorem callDeflate_finish (h : Streaming deflate compress z₀ Stream Finishing)
    (hfinishing : Finishing s.z s.availIn full o) (hroom : s.buffer.length < BUFFER_SIZE) :
    ∃ status t input output, callDeflate w deflate .Z_FINISH s = (status, t) ∧
      Moved w s t input output [] ∧ t.buffer.length ≤ BUFFER_SIZE ∧
      (status = Z_STREAM_END ∧ o ++ output = full ∨
        status = Z_OK ∧ output ≠ [] ∧ Finishing t.z t.availIn full (o ++ output)) := by
  have hpos : 0 < s.availOut := availOut_pos_iff.2 hroom
  refine ⟨_, _, _, _, rfl, moved_callDeflate .Z_FINISH (h.consumed_le ..),
    length_callDeflate h .Z_FINISH hroom, (h.finish hfinishing hpos).imp_right ?_⟩
  rintro ⟨hstatus, hfilled, hnext⟩
  refine ⟨hstatus, fun hnil => ?_, hnext⟩
  rw [hnil] at hfilled
  exact Nat.ne_of_lt hpos hfilled

theorem writePass_spec (h : Streaming deflate compress z₀ Stream Finishing) (func : ℕ → ℤ)
    (hstream : Stream s.z c i o) (hin : s.availIn ≠ []) (hroom : s.buffer.length < BUFFER_SIZE) :
    ∃ t input output added,
      writePass w deflate func s = (if Failed added then some IO_ERROR else none, t) ∧
      Advanced w Stream c i o s t input output added ∧ (t.availIn = [] ∨ output ≠ []) := by
  have hreset : ¬s.availOut = 0 := Nat.pos_iff_ne_zero.1 (availOut_pos_iff.2 hroom)
  obtain ⟨t, input, output, hcall, hmoved, hnext, hlength, hprogress⟩ :=
    callDeflate_noFlush (w := w) h hstream hin hroom
  simp only [writePass, if_neg hreset, hcall, ne_eq, not_true_eq_false, false_and, if_false]
  by_cases hfull : t.availOut = 0
  · obtain ⟨added, u, hmanaged, hmoved', hbuffer, hz, hclosing⟩ :=
      writeToManaged_spec (w := w) func none hlength
    rw [if_pos hfull, hmanaged]
    refine ⟨u, input, output, added, ?_, ⟨?_, hz ▸ hnext, ?_, hclosing⟩, ?_⟩
    · by_cases hfailed : Failed added
      · simp [hfailed, IO_ERROR]
      · simp [hfailed]
    · simpa using hmoved.trans hmoved'
    · simp [hbuffer, BUFFER_SIZE]
    · exact hprogress.imp_left fun hnil => hmoved'.availIn.symm.trans hnil
  · rw [if_neg hfull]
    exact ⟨t, input, output, [], by simp,
      ⟨hmoved, hnext, availOut_pos_iff.1 (Nat.pos_iff_ne_zero.2 hfull), nofun⟩, hprogress⟩

theorem Advanced.variant_lt (h : Streaming deflate compress z₀ Stream Finishing)
    (hadvanced : Advanced w Stream c i o s t input output added) (hin : s.availIn ≠ [])
    (hprogress : t.availIn = [] ∨ output ≠ []) :
    Prod.Lex (· < ·) (· < ·)
      (t.availIn.length, (c (i ++ input)).length - (o ++ output).length)
      (s.availIn.length, (c i).length - o.length) := by
  have havail : s.availIn.length = input.length + t.availIn.length := by
    rw [hadvanced.availIn, List.length_append]
  cases input with
  | nil =>
    have hsame : s.availIn = t.availIn := hadvanced.availIn
    have hout : 0 < output.length :=
      List.length_pos_iff.2 (hprogress.resolve_left (hsame ▸ hin))
    obtain ⟨hle, hne⟩ := h.stream hadvanced.stream
    have hlt := Nat.lt_of_le_of_ne hle.length_le fun heq => hne (hle.eq_of_length heq)
    rw [List.append_nil, List.length_append] at hlt
    rw [hsame, List.append_nil, List.length_append]
    exact Prod.Lex.right _ (by omega)
  | cons => exact Prod.Lex.left _ _ (by rw [havail, List.length_cons]; omega)

theorem writeLoop_spec (h : Streaming deflate compress z₀ Stream Finishing) (func : ℕ → ℤ)
    (hstream : Stream s.z c i o) (hroom : s.buffer.length < BUFFER_SIZE) :
    ∃ r, (writeLoop w deflate func s).Returns r ∧ ∃ input output added,
      r.1 = (if Failed added then some IO_ERROR else none) ∧
      Advanced w Stream c i o s r.2 input output added ∧ (¬Failed added → r.2.availIn = []) := by
  rw [writeLoop]
  split_ifs with hin
  · refine Fueled.exists_returns_doWhile (Prod.lex Nat.lt_wfRel Nat.lt_wfRel).wf
      (fun (variant : ℕ × ℕ) (st : Option ℤ × State σ) => ∃ input output added,
        variant = (st.2.availIn.length, (c (i ++ input)).length - (o ++ output).length) ∧
        st.2.availIn ≠ [] ∧ ¬Failed added ∧ Advanced w Stream c i o s st.2 input output added) _
      ?_ ⟨[], [], [], rfl, hin, failed_nil, Advanced.refl w hstream hroom⟩
    rintro _ ⟨_, t⟩ ⟨input, output, added, rfl, hin, hnone, hadvanced⟩
    obtain ⟨u, input', output', added', hpass, hadvanced', hprogress⟩ :=
      writePass_spec (w := w) h func hadvanced.stream hin hadvanced.room
    simp only [hpass]
    have hnext := hadvanced.trans hadvanced'
    have hadded : Failed (added ++ added') ↔ Failed added' :=
      failed_append.trans (or_iff_right hnone)
    by_cases hfailed : Failed added'
    · rw [if_pos hfailed, if_neg fun h => Option.some_ne_none _ h.1]
      exact ⟨_, _, _, (if_pos (hadded.2 hfailed)).symm, hnext,
        fun hnot => absurd (hadded.2 hfailed) hnot⟩
    · have hnone' : ¬Failed (added ++ added') := fun h => hfailed (hadded.1 h)
      by_cases hdone : u.availIn = []
      · rw [if_neg fun hagain => hagain.2 hdone, if_neg hfailed]
        exact ⟨_, _, _, (if_neg hnone').symm, hnext, fun _ => hdone⟩
      · rw [if_pos ⟨if_neg hfailed, hdone⟩]
        have hlt := hadvanced'.variant_lt h hin hprogress
        rw [List.append_assoc, List.append_assoc] at hlt
        exact ⟨_, hlt, _, _, _, rfl, hdone, hnone', hnext⟩
  · exact ⟨_, Fueled.returns_pure_iff.2 rfl, [], [], [], by simp, Advanced.refl w hstream hroom,
      fun _ => Decidable.not_not.1 hin⟩

theorem flush_spec (h : Streaming deflate compress z₀ Stream Finishing) (func : ℕ → ℤ)
    (hstream : Stream s.z c i o) (hcompress : s.compress = true)
    (hroom : s.buffer.length < BUFFER_SIZE) :
    ∃ t c' input output added,
      flush w deflate func s = (if Failed added then IO_ERROR else 0, t) ∧
      Advanced w Stream c' i o s t input output added ∧ (s.availIn = [] → c' = c) := by
  have hempty : ([] : List UInt8).length < BUFFER_SIZE := by decide
  simp only [flush, flushInternal, hcompress, Bool.not_true, Bool.false_eq_true, if_false, true_and]
  by_cases hin : s.availIn = []
  · obtain ⟨added, t, hmanaged, hmoved, hbuffer, hz, houtside⟩ :=
      writeToManaged_spec (w := w) func none (Nat.le_of_lt hroom)
    rw [if_neg fun hne => hne hin, hmanaged]
    exact ⟨t, c, [], [], added, rfl,
      ⟨hmoved, by simpa [hz] using hstream, hbuffer ▸ hempty, houtside⟩, fun _ => rfl⟩
  · obtain ⟨t, input, output, c', hcall, hmoved, hnext, hlength⟩ :=
      callDeflate_partialFlush (w := w) h hstream hin hroom
    obtain ⟨added, u, hmanaged, hmoved', hbuffer, hz, houtside⟩ :=
      writeToManaged_spec (w := w) func none hlength
    rw [if_pos hin, hcall]
    simp only [ne_eq, not_true_eq_false, false_and, if_false]
    rw [hmanaged]
    exact ⟨u, c', input, output, added, rfl,
      ⟨by simpa using hmoved.trans hmoved', hz ▸ hnext, hbuffer ▸ hempty, houtside⟩,
      fun hnil => absurd hnil hin⟩

theorem closePass_spec (h : Streaming deflate compress z₀ Stream Finishing) (func : ℕ → ℤ)
    (hfinishing : Finishing s.z s.availIn full o) (hcompress : s.compress = true)
    (hroom : s.buffer.length < BUFFER_SIZE) :
    ∃ status t input output added,
      closePass w deflate func s = ((status, if Failed added then IO_ERROR else 0), t) ∧
      Moved w s t input output added ∧ t.buffer = [] ∧ (∀ d ∈ added, d.closing = some status) ∧
      (status = Z_STREAM_END ∧ o ++ output = full ∨
        status = Z_OK ∧ output ≠ [] ∧ Finishing t.z t.availIn full (o ++ output)) := by
  obtain ⟨status, t, input, output, hcall, hmoved, hlength, hnext⟩ :=
    callDeflate_finish (w := w) h hfinishing hroom
  obtain ⟨added, u, hmanaged, hmoved', hbuffer, hz, hclosing⟩ :=
    writeToManaged_spec (w := w) func (some status) hlength
  have havail : t.availIn = u.availIn := hmoved'.availIn
  simp only [closePass, hcall, flushInternal, hmoved.compress, hcompress, hmanaged, reduceCtorEq,
    false_and, if_false, Bool.not_true, Bool.false_eq_true]
  refine ⟨status, u, input, output, added, rfl, by simpa using hmoved.trans hmoved', hbuffer,
    hclosing, ?_⟩
  rwa [hz, ← havail]

theorem closeLoop_spec (h : Streaming deflate compress z₀ Stream Finishing) (func : ℕ → ℤ)
    (hfinishing : Finishing s.z s.availIn full o) (hcompress : s.compress = true)
    (hroom : s.buffer.length < BUFFER_SIZE) :
    ∃ r, (closeLoop w deflate func s).Returns r ∧ ∃ input output earlier last,
      r.1 = (Z_STREAM_END, if Failed last then IO_ERROR else 0) ∧
      Moved w s r.2 input output (earlier ++ last) ∧ r.2.buffer = [] ∧ o ++ output = full ∧
      (∀ d ∈ earlier, d.closing = some Z_OK) ∧ ∀ d ∈ last, d.closing = some Z_STREAM_END := by
  refine Fueled.exists_returns_doWhile Nat.lt_wfRel.wf
    (fun (variant : ℕ) (st : (ℤ × ℤ) × State σ) => ∃ input output earlier,
      variant = full.length - (o ++ output).length ∧ Moved w s st.2 input output earlier ∧
      st.2.buffer.length < BUFFER_SIZE ∧ Finishing st.2.z st.2.availIn full (o ++ output) ∧
      ∀ d ∈ earlier, d.closing = some Z_OK) _ ?_
    ⟨[], [], [], rfl, Moved.refl w s, hroom, by simpa using hfinishing, nofun⟩
  rintro _ ⟨_, t⟩ ⟨input, output, earlier, rfl, hmoved, hroom, hfinishing, hearlier⟩
  obtain ⟨status, u, input', output', added, hpass, hmoved', hbuffer, hclosing, hnext⟩ :=
    closePass_spec (w := w) h func hfinishing (hmoved.compress.trans hcompress) hroom
  simp only [hpass]
  rcases hnext with ⟨rfl, hfull⟩ | ⟨rfl, hne, hnext⟩
  · rw [if_neg (by decide)]
    exact ⟨_, _, earlier, added, rfl, hmoved.trans hmoved', hbuffer, by simpa using hfull, hearlier,
      hclosing⟩
  · rw [if_pos rfl]
    have hlt : full.length - (o ++ output ++ output').length <
        full.length - (o ++ output).length := by
      have hle := (h.finishing hnext).length_le
      have hpos := List.length_pos_iff.2 hne
      rw [List.length_append] at hle ⊢
      omega
    rw [List.append_assoc] at hnext hlt
    refine ⟨_, hlt, _, _, earlier ++ added, rfl, hmoved.trans hmoved', ?_, hnext, fun d hd => ?_⟩
    · rw [hbuffer]
      decide
    · exact (List.mem_append.1 hd).elim (hearlier d) (hclosing d)

end ZStream

end Il2Cpp
