import Il2Cpp.Compression.ZStream

/-!
# What a compression stream delivers

A run of `WriteZStream` and `Flush` ends with `CloseZStream`.  What the callback has been given is
what `deflate` puts out for the bytes that were written, and a failure of the callback is reported,
except where `CloseZStream` goes on with another pass, or does not finish because `total_in` has
come back to 0.

* `run_delivers_iff` : the runs that deliver every byte and report every failure.
-/

namespace Il2Cpp

namespace ZStream

variable {σ : Type*} {w : ℕ} {deflate : σ → FlushMode → List UInt8 → ℕ → DeflateResult σ}
  {func : ℕ → ℤ} {compress c : List UInt8 → List UInt8} {z₀ : σ}
  {Stream : σ → (List UInt8 → List UInt8) → List UInt8 → List UInt8 → Prop}
  {Finishing : σ → List UInt8 → List UInt8 → List UInt8 → Prop}
  {s t : State σ} {i o input output : List UInt8} {added : List Delivery}

/-! ### Calls -/

/-- Between the calls, with the bytes that have been written. -/
structure Open (w : ℕ) (compress : List UInt8 → List UInt8)
    (Stream : σ → (List UInt8 → List UInt8) → List UInt8 → List UInt8 → Prop)
    (bytes : List UInt8) (s : State σ) : Prop where
  compressing : s.compress = true
  eof : s.eof = false
  room : s.buffer.length < BUFFER_SIZE
  totalIn_lt : s.totalIn < 2 ^ w
  /-- Until the callback fails, `deflate` has been given exactly the bytes. -/
  live : ∃ c i o, Stream s.z c i o ∧
    (¬Failed s.log → c = compress ∧ i = bytes ∧ o = delivered s.log ++ s.buffer)
  availIn : ¬Failed s.log → s.availIn = []
  totalIn : ¬Failed s.log → s.totalIn = bytes.length % 2 ^ w

theorem open_createZStream (h : Streaming deflate compress z₀ Stream Finishing) :
    Open w compress Stream [] (createZStream true z₀) where
  compressing := rfl
  eof := rfl
  room := (by decide : 0 < BUFFER_SIZE)
  totalIn_lt := Nat.two_pow_pos w
  live := ⟨compress, [], [], h.init, fun _ => ⟨rfl, rfl, rfl⟩⟩
  availIn _ := rfl
  totalIn _ := (Nat.zero_mod _).symm

theorem open_of_advanced {bytes written : List UInt8}
    (hadvanced : Advanced w Stream c i o s t input output added) (hcompress : s.compress = true)
    (heof : s.eof = false) (hlt : s.totalIn < 2 ^ w)
    (hexact : ¬Failed t.log → s.availIn = bytes ∧ t.availIn = [] ∧ c = compress ∧ i = written ∧
      o = delivered s.log ++ s.buffer ∧ s.totalIn = written.length % 2 ^ w) :
    Open w compress Stream (written ++ bytes) t := by
  have hinput (hnone : ¬Failed t.log) : input = bytes := by
    obtain ⟨havail, htaken, -⟩ := hexact hnone
    rw [← havail, hadvanced.availIn, htaken, List.append_nil]
  refine ⟨hadvanced.compress.trans hcompress, hadvanced.eof.trans heof, hadvanced.room,
    hadvanced.totalIn_lt hlt, ⟨c, _, _, hadvanced.stream, fun hnone => ?_⟩,
    fun hnone => (hexact hnone).2.1, fun hnone => ?_⟩
  · obtain ⟨-, -, hc, rfl, rfl, -⟩ := hexact hnone
    refine ⟨hc, by rw [hinput hnone], ?_⟩
    rw [hadvanced.log, delivered_append, List.append_assoc, List.append_assoc, hadvanced.sent]
  · obtain ⟨-, -, -, -, -, htotal⟩ := hexact hnone
    rw [← Nat.mod_eq_of_lt (hadvanced.totalIn_lt hlt), hadvanced.totalIn, htotal, Nat.mod_add_mod,
      List.length_append, hinput hnone]

theorem flush_open (h : Streaming deflate compress z₀ Stream Finishing) (func : ℕ → ℤ)
    {written : List UInt8} (hopen : Open w compress Stream written s) :
    ∃ t added, flush w deflate func s = (if Failed added then IO_ERROR else 0, t) ∧
      t.log = s.log ++ added ∧ (∀ d ∈ added, d.closing = none) ∧
      Open w compress Stream written t := by
  obtain ⟨c, i, o, hstream, hexact⟩ := hopen.live
  obtain ⟨t, c', input, output, added, hflush, hadvanced, hsame⟩ :=
    flush_spec (w := w) h func hstream hopen.compressing hopen.room
  refine ⟨t, added, hflush, hadvanced.log, hadvanced.outside, ?_⟩
  rw [← List.append_nil written]
  refine open_of_advanced hadvanced hopen.compressing hopen.eof hopen.totalIn_lt fun hnone => ?_
  have hbefore : ¬Failed s.log := fun hfailed => by simp [hadvanced.log, hfailed] at hnone
  obtain ⟨rfl, rfl, rfl⟩ := hexact hbefore
  have hempty := hopen.availIn hbefore
  exact ⟨hempty, (List.append_eq_nil_iff.1 (hadvanced.availIn.symm.trans hempty)).2, hsame hempty,
    rfl, rfl, hopen.totalIn hbefore⟩

theorem writeLoop_open (h : Streaming deflate compress z₀ Stream Finishing) (func : ℕ → ℤ)
    {written : List UInt8} (hopen : Open w compress Stream written s) (bytes : List UInt8) :
    ∃ r added, (writeLoop w deflate func { s with availIn := bytes }).Returns r ∧
      r.1 = (if Failed added then some IO_ERROR else none) ∧
      r.2.log = s.log ++ added ∧ (∀ d ∈ added, d.closing = none) ∧
      Open w compress Stream (written ++ bytes) r.2 := by
  obtain ⟨c, i, o, hstream, hexact⟩ := hopen.live
  obtain ⟨r, hreturns, input, output, added, hstatus, hadvanced, htaken⟩ :=
    writeLoop_spec (w := w) (s := { s with availIn := bytes }) h func hstream hopen.room
  have hlog : r.2.log = s.log ++ added := hadvanced.log
  refine ⟨r, added, hreturns, hstatus, hlog, hadvanced.outside, ?_⟩
  refine open_of_advanced hadvanced hopen.compressing hopen.eof hopen.totalIn_lt fun hnone => ?_
  rw [hlog, failed_append, not_or] at hnone
  obtain ⟨hbefore, hnone⟩ := hnone
  obtain ⟨hc, hi, ho⟩ := hexact hbefore
  exact ⟨rfl, htaken hnone, hc, hi, ho, hopen.totalIn hbefore⟩

theorem runCall_spec (h : Streaming deflate compress z₀ Stream Finishing) (func : ℕ → ℤ)
    {written : List UInt8} (hopen : Open w compress Stream written s) (call : Call) :
    ∃ r added, (runCall w deflate func s call).Returns r ∧ r.2.log = s.log ++ added ∧
      (∀ d ∈ added, d.closing = none) ∧ (r.1 < 0 ↔ call.Rejected ∨ Failed added) ∧
      Open w compress Stream (written ++ call.bytes) r.2 := by
  have hsame : s.log = s.log ++ [] := (List.append_nil _).symm
  cases call with
  | flush =>
    obtain ⟨t, added, hflush, hlog, houtside, hopen'⟩ := flush_open h func hopen
    refine ⟨_, added, Fueled.returns_pure_iff.2 rfl, ?_, houtside, ?_, ?_⟩
    · rw [hflush]
      exact hlog
    · rw [hflush]
      by_cases hfailed : Failed added
      · simp [hfailed, IO_ERROR]
      · simp [hfailed, Call.Rejected]
    · rw [hflush, Call.bytes, List.append_nil]
      exact hopen'
  | write zbuffer length =>
    cases zbuffer with
    | none =>
      refine ⟨_, [], Fueled.returns_pure_iff.2 rfl, hsame, List.forall_mem_nil _, iff_of_true ?_ (Or.inl trivial),
        ?_⟩
      · exact (by decide : ARGUMENT_ERROR < 0)
      · rwa [Call.bytes, List.append_nil]
    | some buffer =>
      rw [runCall, writeZStream]
      by_cases hlength : length < 0
      · rw [if_pos hlength]
        refine ⟨_, [], Fueled.returns_pure_iff.2 rfl, hsame, List.forall_mem_nil _,
          iff_of_true ?_ (Or.inl hlength), ?_⟩
        · exact (by decide : ARGUMENT_ERROR < 0)
        · rwa [Call.bytes, Int.toNat_of_nonpos (Int.le_of_lt hlength), List.take_zero,
            List.append_nil]
      · have heof : ¬s.eof = true := by simp [hopen.eof]
        rw [if_neg hlength, if_neg heof]
        obtain ⟨r, added, hreturns, hstatus, hlog, houtside, hopen'⟩ :=
          writeLoop_open h func hopen (buffer.take length.toNat)
        refine ⟨_, added, (Fueled.returns_bind hreturns).2 (Fueled.returns_pure_iff.2 rfl), hlog,
          houtside, ?_, hopen'⟩
        rw [hstatus]
        by_cases hfailed : Failed added
        · simp [hfailed, IO_ERROR]
        · simp [hfailed, Call.Rejected]

/-! ### Closing -/

/-- The callback has failed where the failure is reported: not in a pass of `CloseZStream` after
which there is another one. -/
def Reported (log : List Delivery) : Prop :=
  ∃ d ∈ log, d.result < 0 ∧ d.closing ≠ some Z_OK

theorem reported_append_of_outside {added added' : List Delivery}
    (houtside : ∀ d ∈ added, d.closing = none) :
    Reported (added ++ added') ↔ Failed added ∨ Reported added' := by
  simp only [Reported, Failed, List.mem_append, or_and_right, exists_or]
  refine or_congr (exists_congr fun d => and_congr_right fun hd => ?_) Iff.rfl
  simp [houtside d hd]

theorem closeZStream_spec (h : Streaming deflate compress z₀ Stream Finishing) (func : ℕ → ℤ)
    {written : List UInt8} (hopen : Open w compress Stream written s) :
    ∃ r added, (closeZStream w deflate func s).Returns r ∧ r.2.log = s.log ++ added ∧
      (r.1 < 0 ↔ Reported added) ∧
      (¬Failed r.2.log →
        (delivered r.2.log = compress written ↔ written.length % 2 ^ w ≠ 0)) := by
  obtain ⟨c, i, o, hstream, hexact⟩ := hopen.live
  rw [closeZStream, if_pos hopen.compressing]
  by_cases htotal : s.totalIn > 0
  · rw [if_pos htotal]
    obtain ⟨r, hreturns, input, output, earlier, last, hstatus, hmoved, hbuffer, hfull, hearlier,
      hlast⟩ := closeLoop_spec (w := w) h func (h.finish_stream hstream s.availIn)
        hopen.compressing hopen.room
    refine ⟨_, earlier ++ last, (Fueled.returns_bind hreturns).2 (Fueled.returns_pure_iff.2 rfl),
      hmoved.log, ?_, fun hnone => ?_⟩
    · have hreported : Reported (earlier ++ last) ↔ Failed last := by
        constructor
        · rintro ⟨d, hd, hfailed, hne⟩
          exact ⟨d, (List.mem_append.1 hd).resolve_left fun hd => hne (hearlier d hd), hfailed⟩
        · rintro ⟨d, hd, hfailed⟩
          exact ⟨d, List.mem_append_right _ hd, hfailed, by simp [hlast d hd, Z_OK, Z_STREAM_END]⟩
      rw [hreported, hstatus]
      by_cases hfailed : Failed last
      · simp [hfailed, IO_ERROR]
      · simp [hfailed]
    · have hbefore : ¬Failed s.log := fun hfailed => by simp [hmoved.log, hfailed] at hnone
      obtain ⟨rfl, rfl, rfl⟩ := hexact hbefore
      have hsent := hmoved.sent
      rw [hbuffer, List.append_nil] at hsent
      refine iff_of_true ?_ ?_
      · change delivered r.2.log = _
        rw [hmoved.log, delivered_append, hsent, ← List.append_assoc, hfull,
          hopen.availIn hbefore, List.append_nil]
      · rw [← hopen.totalIn hbefore]
        exact Nat.pos_iff_ne_zero.1 htotal
  · rw [if_neg htotal]
    have hzero : s.totalIn = 0 := Nat.eq_zero_of_not_pos htotal
    refine ⟨_, [], Fueled.returns_pure_iff.2 rfl, (List.append_nil _).symm, by simp [Reported],
      fun hnone => ?_⟩
    obtain ⟨rfl, rfl, rfl⟩ := hexact hnone
    obtain ⟨hle, hne⟩ := h.stream hstream
    refine iff_of_false (fun hall => hne (hle.eq_of_length_le ?_)) fun hmod => hmod ?_
    · rw [← hall, List.length_append]
      exact Nat.le_add_right _ _
    · rw [← hopen.totalIn hnone, hzero]

/-! ### Runs -/

theorem run_spec (h : Streaming deflate compress z₀ Stream Finishing) (func : ℕ → ℤ)
    (calls : List Call) {before : List UInt8} (hopen : Open w compress Stream before s) :
    ∃ r added, (run w deflate func calls s).Returns r ∧ r.2.log = s.log ++ added ∧
      ((∃ n ∈ r.1, n < 0) ↔ (∃ call ∈ calls, call.Rejected) ∨ Reported added) ∧
      (¬Failed r.2.log → (delivered r.2.log = compress (before ++ written calls) ↔
        (before ++ written calls).length % 2 ^ w ≠ 0)) := by
  induction calls generalizing s before with
  | nil =>
    obtain ⟨r, added, hreturns, hlog, hstatus, hall⟩ := closeZStream_spec h func hopen
    refine ⟨_, added, (Fueled.returns_bind hreturns).2 (Fueled.returns_pure_iff.2 rfl), hlog,
      ?_, ?_⟩
    · simpa using hstatus
    · simpa [written] using hall
  | cons call calls ih =>
    obtain ⟨r, added, hreturns, hlog, houtside, hstatus, hopen'⟩ := runCall_spec h func hopen call
    obtain ⟨rest, added', hreturns', hlog', hstatus', hall⟩ := ih hopen'
    refine ⟨_, added ++ added', (Fueled.returns_bind hreturns).2 ((Fueled.returns_bind hreturns').2
      (Fueled.returns_pure_iff.2 rfl)), ?_, ?_, ?_⟩
    · change rest.2.log = _
      rw [hlog', hlog, List.append_assoc]
    · rw [reported_append_of_outside houtside]
      simp only [List.mem_cons, exists_eq_or_imp, hstatus, hstatus']
      exact or_or_or_comm
    · simpa [written] using hall

/-- Which runs deliver every byte and report every failure: if the callback does not fail, the
number of bytes must not be 0 in `total_in`, and if it fails, then also where it is reported. -/
theorem run_delivers_iff (h : Streaming deflate compress z₀ Stream Finishing) (func : ℕ → ℤ)
    (calls : List Call) :
    ∃ r, (run w deflate func calls (createZStream true z₀)).Returns r ∧
      (Delivers compress calls r ↔
        (¬Failed r.2.log → (written calls).length % 2 ^ w ≠ 0) ∧
        (Failed r.2.log → Reported r.2.log ∨ ∃ call ∈ calls, call.Rejected)) := by
  obtain ⟨r, added, hreturns, hlog, hstatus, hall⟩ :=
    run_spec h func calls (open_createZStream (w := w) h)
  have hlog : r.2.log = added := hlog
  refine ⟨r, hreturns, and_congr (forall_congr' hall) (forall_congr' fun _ => ?_)⟩
  rw [hstatus, or_comm, hlog]

/-! ### A compressor that keeps its input -/

/-- What is put out in one call, when there is no more input. -/
def putOut (input output : List UInt8) (availOut : ℕ) : DeflateResult (List UInt8 ⊕ List UInt8) :=
  ⟨.inr (output.drop availOut), input.length, output.take availOut,
    if output.length ≤ availOut then Z_STREAM_END else Z_OK⟩

/-- A `deflate` that keeps its input until it is finished: its state is the input, or what is left
of the output. -/
def keepingDeflate (compress : List UInt8 → List UInt8) (z : List UInt8 ⊕ List UInt8)
    (mode : FlushMode) (input : List UInt8) (availOut : ℕ) :
    DeflateResult (List UInt8 ⊕ List UInt8) :=
  match z, mode with
  | .inl i, .Z_FINISH => putOut input (compress (i ++ input)) availOut
  | .inr rest, .Z_FINISH => putOut input rest availOut
  | .inl i, _ => ⟨.inl (i ++ input), input.length, [], Z_OK⟩
  | .inr rest, _ => ⟨.inr rest, input.length, [], Z_OK⟩

def KeepingStream (compress : List UInt8 → List UInt8) (z : List UInt8 ⊕ List UInt8)
    (c : List UInt8 → List UInt8) (i o : List UInt8) : Prop :=
  c = compress ∧ z = .inl i ∧ o = []

def KeepingFinishing (compress : List UInt8 → List UInt8) (z : List UInt8 ⊕ List UInt8)
    (input full o : List UInt8) : Prop :=
  match z with
  | .inl i => o = [] ∧ full = compress (i ++ input)
  | .inr rest => o ++ rest = full

theorem putOut_spec {o output full : List UInt8} {n : ℕ} (input : List UInt8)
    (hfull : o ++ output = full) :
    let r := putOut input output n
    r.status = Z_STREAM_END ∧ o ++ r.output = full ∨
      r.status = Z_OK ∧ r.output.length = n ∧
        KeepingFinishing compress r.state (input.drop r.consumed) full (o ++ r.output) := by
  by_cases hle : output.length ≤ n
  · exact Or.inl ⟨if_pos hle, by rw [← hfull, putOut, List.take_of_length_le hle]⟩
  · refine Or.inr ⟨if_neg hle, List.length_take_of_le (Nat.le_of_not_le hle), ?_⟩
    change o ++ output.take n ++ output.drop n = full
    rw [List.append_assoc, List.take_append_drop, hfull]

theorem streaming_keepingDeflate (hne : ∀ i, compress i ≠ []) :
    Streaming (keepingDeflate compress) compress (.inl []) (KeepingStream compress)
      (KeepingFinishing compress) where
  init := ⟨rfl, rfl, rfl⟩
  stream := by
    rintro _ c i _ ⟨rfl, -, rfl⟩
    exact ⟨List.nil_prefix, (hne i).symm⟩
  finishing {z i full o} h := by
    cases z with
    | inl j => exact h.1 ▸ List.nil_prefix
    | inr rest => exact ⟨rest, h⟩
  consumed_le z mode input n := by
    cases z <;> cases mode <;> exact Nat.le_refl _
  output_le z mode input n := by
    cases z <;> cases mode
    case inl.Z_FINISH | inr.Z_FINISH => exact List.length_take_le _ _
    all_goals exact Nat.zero_le n
  noFlush := by
    rintro _ c i _ input n ⟨rfl, rfl, rfl⟩ - -
    exact ⟨rfl, Or.inl rfl, rfl, by simp [keepingDeflate], rfl⟩
  partialFlush := by
    rintro _ c i _ input n ⟨rfl, rfl, rfl⟩ - -
    exact ⟨rfl, c, rfl, by simp [keepingDeflate], rfl⟩
  finish_stream := by
    rintro _ c i _ ⟨rfl, rfl, rfl⟩ input
    exact ⟨rfl, rfl⟩
  finish {z input full o n} h _ := by
    cases z with
    | inl i =>
      obtain ⟨rfl, rfl⟩ := h
      exact putOut_spec input (List.nil_append _)
    | inr rest => exact putOut_spec input h

/-- What zlib puts out for `a`, and for a few bytes that it cannot compress. -/
def rawDeflate (i : List UInt8) : List UInt8 :=
  if i = [0x61] then [0x4B, 0x04, 0x00]
  else
    let lo := UInt8.ofNat i.length
    let hi := UInt8.ofNat (i.length / 256)
    0x01 :: lo :: hi :: ~~~lo :: ~~~hi :: i

theorem rawDeflate_ne_nil (i : List UInt8) : rawDeflate i ≠ [] := by
  rw [rawDeflate]
  split_ifs <;> simp

theorem run_delivers_iff_letter : ∃ r,
    (run 64 (keepingDeflate rawDeflate) (fun _ => 0) [.write (some [0x61]) 1, .flush]
      (createZStream true (.inl []))).Returns r ∧
    (Delivers rawDeflate [.write (some [0x61]) 1, .flush] r ↔
      (¬Failed r.2.log → (written [.write (some [0x61]) 1, .flush]).length % 2 ^ 64 ≠ 0) ∧
      (Failed r.2.log → Reported r.2.log ∨
        ∃ call ∈ [Call.write (some [0x61]) 1, .flush], call.Rejected)) :=
  run_delivers_iff (streaming_keepingDeflate rawDeflate_ne_nil) (fun _ => 0)
    [.write (some [0x61]) 1, .flush]

/-- 4092 bytes that look random. -/
def noise : List UInt8 :=
  (List.iterate (fun x => (x * 1103515245 + 12345) % 2 ^ 31) 1 4092).map fun x =>
    UInt8.ofNat (x / 65536)

theorem length_noise : noise.length = 4092 :=
  (List.length_map _).trans (List.length_iterate _ _ _)

theorem length_rawDeflate_noise : (rawDeflate noise).length = 4097 := by
  have hne : noise ≠ [0x61] := fun h => by simpa [h] using length_noise
  simp [rawDeflate, hne, length_noise]

theorem closePass_keepingDeflate {z : List UInt8 ⊕ List UInt8} {output : List UInt8} {total : ℕ}
    (log : List Delivery) (func : ℕ → ℤ)
    (hz : keepingDeflate compress z .Z_FINISH [] BUFFER_SIZE = putOut [] output BUFFER_SIZE)
    (hne : output ≠ []) (hlt : total < 2 ^ w) :
    closePass w (keepingDeflate compress) func ⟨z, [], [], total, true, false, log⟩ =
      (((putOut [] output BUFFER_SIZE).status, if func log.length < 0 then IO_ERROR else 0),
        ⟨.inr (output.drop BUFFER_SIZE), [], [], total, true, false, log ++
          [⟨output.take BUFFER_SIZE, func log.length,
            some (putOut [] output BUFFER_SIZE).status⟩]⟩) := by
  have hout : ¬BUFFER_SIZE - min BUFFER_SIZE output.length = BUFFER_SIZE := by
    have hpos := List.length_pos_iff.2 hne
    rw [BUFFER_SIZE]
    omega
  have hcall : callDeflate w (keepingDeflate compress) .Z_FINISH
      ⟨z, [], [], total, true, false, log⟩ =
      ((putOut [] output BUFFER_SIZE).status, ⟨.inr (output.drop BUFFER_SIZE), [],
        output.take BUFFER_SIZE, total, true, false, log⟩) := by
    simp [callDeflate, State.availOut, hz, putOut, Nat.mod_eq_of_lt hlt]
  simp [closePass, hcall, flushInternal, writeToManaged, State.availOut, hout]

theorem run_keepingDeflate {bytes : List UInt8} (hne : bytes ≠ []) (hlt : bytes.length < 2 ^ w)
    (hmore : BUFFER_SIZE < (compress bytes).length)
    (hle : (compress bytes).length ≤ 2 * BUFFER_SIZE) (func : ℕ → ℤ) :
    ∃ s, (run w (keepingDeflate compress) func [.write (some bytes) bytes.length]
        (createZStream true (.inl []))).Returns
        ([(bytes.length : ℤ), if func 1 < 0 then IO_ERROR else 0], s) ∧
      s.log = [⟨(compress bytes).take BUFFER_SIZE, func 0, some Z_OK⟩,
        ⟨(compress bytes).drop BUFFER_SIZE, func 1, some Z_STREAM_END⟩] := by
  have hwrite : (writeZStream w (keepingDeflate compress) func (some bytes) bytes.length
      (createZStream true (.inl []))).Returns
      (bytes.length, ⟨.inl bytes, [], [], bytes.length, true, false, []⟩) := by
    have hloop : (writeLoop w (keepingDeflate compress) func
        ⟨.inl [], bytes, [], 0, true, false, []⟩).Returns
        (none, ⟨.inl bytes, [], [], bytes.length, true, false, []⟩) := by
      rw [writeLoop, if_pos hne, Fueled.returns_doWhile_step_iff]
      simp [writePass, callDeflate, keepingDeflate, State.availOut, BUFFER_SIZE, Z_OK,
        Nat.mod_eq_of_lt hlt]
    rw [writeZStream, if_neg (Int.not_lt.2 (Int.natCast_nonneg _)), createZStream,
      if_neg Bool.false_ne_true, Int.toNat_natCast, List.take_length]
    exact (Fueled.returns_bind hloop).2 (Fueled.returns_pure_iff.2 rfl)
  have hrest : (compress bytes).drop BUFFER_SIZE ≠ [] := by
    rw [← List.length_pos_iff, List.length_drop]
    omega
  have hclose : (closeZStream w (keepingDeflate compress) func
      ⟨.inl bytes, [], [], bytes.length, true, false, []⟩).Returns
      (if func 1 < 0 then IO_ERROR else 0, ⟨.inr [], [], [], bytes.length, true, false,
        [⟨(compress bytes).take BUFFER_SIZE, func 0, some Z_OK⟩,
        ⟨(compress bytes).drop BUFFER_SIZE, func 1, some Z_STREAM_END⟩]⟩) := by
    have hz : keepingDeflate compress (.inl bytes) .Z_FINISH [] BUFFER_SIZE =
        putOut [] (compress bytes) BUFFER_SIZE := by
      rw [keepingDeflate, List.append_nil]
    have hfirst := closePass_keepingDeflate [] func hz
      (List.ne_nil_of_length_pos (Nat.zero_lt_of_lt hmore)) hlt
    have hsecond := closePass_keepingDeflate
      [⟨(compress bytes).take BUFFER_SIZE, func 0, some Z_OK⟩] func
      (rfl : keepingDeflate compress (.inr ((compress bytes).drop BUFFER_SIZE)) .Z_FINISH []
        BUFFER_SIZE = _) hrest hlt
    have hok : (putOut [] (compress bytes) BUFFER_SIZE).status = Z_OK :=
      if_neg (Nat.not_le_of_lt hmore)
    have hlength : ((compress bytes).drop BUFFER_SIZE).length ≤ BUFFER_SIZE := by
      rw [List.length_drop]
      omega
    have hend : (putOut [] ((compress bytes).drop BUFFER_SIZE) BUFFER_SIZE).status =
        Z_STREAM_END := if_pos hlength
    rw [closeZStream, if_pos rfl, if_pos (List.length_pos_iff.2 hne)]
    have hloop : (closeLoop w (keepingDeflate compress) func
        ⟨.inl bytes, [], [], bytes.length, true, false, []⟩).Returns
        ((Z_STREAM_END, if func 1 < 0 then IO_ERROR else 0),
          ⟨.inr [], [], [], bytes.length, true, false,
            [⟨(compress bytes).take BUFFER_SIZE, func 0, some Z_OK⟩,
            ⟨(compress bytes).drop BUFFER_SIZE, func 1, some Z_STREAM_END⟩]⟩) := by
      rw [hok, List.nil_append, List.length_nil] at hfirst
      rw [hend, List.take_of_length_le hlength, List.drop_eq_nil_of_le hlength] at hsecond
      rw [closeLoop, Fueled.returns_doWhile_step_iff, hfirst, if_pos rfl,
        Fueled.returns_doWhile_step_iff]
      dsimp only
      rw [hsecond, if_neg (by decide : Z_STREAM_END ≠ Z_OK)]
      rfl
    exact (Fueled.returns_bind hloop).2 (Fueled.returns_pure_iff.2 rfl)
  have hrun : (run w (keepingDeflate compress) func []
      ⟨.inl bytes, [], [], bytes.length, true, false, []⟩).Returns
      ([if func 1 < 0 then IO_ERROR else 0], _) :=
    (Fueled.returns_bind hclose).2 (Fueled.returns_pure_iff.2 rfl)
  exact ⟨_, (Fueled.returns_bind hwrite).2 ((Fueled.returns_bind hrun).2
    (Fueled.returns_pure_iff.2 rfl)), rfl⟩

/-- The callback fails in a pass of `CloseZStream` that is not the last one. -/
theorem run_not_delivers :
    Streaming (keepingDeflate rawDeflate) rawDeflate (.inl []) (KeepingStream rawDeflate)
      (KeepingFinishing rawDeflate) ∧
    ¬∀ r, (run 64 (keepingDeflate rawDeflate) (fun k => if k = 0 then -1 else 0)
      [.write (some noise) noise.length] (createZStream true (.inl []))).Returns r →
      Delivers rawDeflate [.write (some noise) noise.length] r := by
  refine ⟨streaming_keepingDeflate rawDeflate_ne_nil, fun hdelivers => ?_⟩
  have hne : noise ≠ [] := List.ne_nil_of_length_pos (by rw [length_noise]; decide)
  have hlt : noise.length < 2 ^ 64 := by
    rw [length_noise]
    decide
  have hmore : BUFFER_SIZE < (rawDeflate noise).length := by
    rw [length_rawDeflate_noise]
    decide
  have hle : (rawDeflate noise).length ≤ 2 * BUFFER_SIZE := by
    rw [length_rawDeflate_noise]
    decide
  obtain ⟨s, hreturns, hlog⟩ :=
    run_keepingDeflate hne hlt hmore hle fun k => if k = 0 then -1 else 0
  have hfailed : Failed s.log := by simp [hlog, Failed]
  obtain ⟨n, hn, hneg⟩ := (hdelivers _ hreturns).2 hfailed
  simp at hn
  omega

end ZStream

end Il2Cpp
