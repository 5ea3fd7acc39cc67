import Il2Cpp.Data.Fueled

/-!
# Time zones

`TimeZone::GetTimeZoneData` looks for the transitions between standard and daylight saving time in a
year, by asking the C library for the offset at one time of each day.  Where the offset has changed
it goes back by hours and then on by minutes.

* `getTimeZoneData` : the function.
* `TwoTransitions` : a year with two transitions.
* `Tells` : the transitions are reported, with what is in force before and after each.
* `getTimeZoneData_reports` : what is reported.  There is one offset, and one name, for the time
  before the first transition and after the second.
-/

namespace Il2Cpp

namespace TimeZone

/-! ### The function -/

/-- The fields of `struct tm`. -/
structure Tm where
  sec : ℤ
  min : ℤ
  hour : ℤ
  mday : ℤ
  mon : ℤ
  year : ℤ
  isdst : Bool
  gmtoff : ℤ
  /-- What `strftime` writes for `%Z`. -/
  zone : String

/-- The C library. -/
structure Libc where
  localtime : ℤ → Tm
  gmtime : ℤ → Tm
  /-- The time of a local time.  Its argument becomes the local time of the result. -/
  mktime : Tm → ℤ
  time : ℤ

/-- What is written through the parameters. -/
structure TimeZoneData where
  data : Fin 4 → ℤ
  names : Fin 2 → String
  daylightInverted : Bool

/-- `TZ_EPOCH_ADJUST`. -/
def tzEpochAdjust : ℤ := 62135596800

/-- A local time in DateTime ticks. -/
def ticks (t : ℤ) : ℤ := (t + tzEpochAdjust) * 10000000

/-- January 1 of a year. -/
def january (year : ℤ) : Tm := ⟨0, 0, 0, 1, 0, year - 1900, false, 0, ""⟩

section

variable (libc : Libc) (haveTmGmtoff : Bool)

/-- `GMTOffset`, with and without `HAVE_TM_GMTOFF`. -/
def gmtOffset (tm : Tm) (t : ℤ) : ℤ :=
  if haveTmGmtoff then tm.gmtoff
  else t - libc.mktime { libc.gmtime t with isdst := tm.isdst }

/-- The offset at a time. -/
def offset (t : ℤ) : ℤ := gmtOffset libc haveTmGmtoff (libc.localtime t) t

/-- The hour, and then the minute of a transition that is before `t`. -/
def findTransition (gmtoff t : ℤ) : Fueled ℤ :=
  (Fueled.doWhile (· - 3600) (fun t1 => offset libc haveTmGmtoff t1 ≠ gmtoff) t).bind
    (Fueled.doWhile (· + 60) fun t1 => offset libc haveTmGmtoff t1 = gmtoff)

/-- The variables of the loop over the days. -/
structure Scan where
  t : ℤ
  gmtoff : ℤ
  isTransitioned : Bool
  out : TimeZoneData

/-- What is written at the first transition. -/
def writeFirst (isdst : Bool) (gmtoffStart gmtoff gmtoff' t1 : ℤ) (tzone : String)
    (out : TimeZoneData) : TimeZoneData where
  data :=
    let data := Function.update out.data 0 (ticks t1)
    if !out.daylightInverted then
      Function.update (Function.update data 2 (gmtoff * 10000000)) 3
        ((gmtoff' - gmtoff) * 10000000)
    else
      Function.update (Function.update data 2 ((gmtoffStart + (gmtoff' - gmtoff)) * 10000000)) 3
        ((gmtoff - gmtoff') * 10000000)
  names := Function.update out.names (if !isdst then 1 else 0) tzone
  daylightInverted := out.daylightInverted

/-- What is written at the second transition. -/
def writeSecond (isdst : Bool) (t1 : ℤ) (tzone : String) (out : TimeZoneData) : TimeZoneData :=
  { out with
    data := Function.update out.data 1 (ticks t1)
    names := Function.update out.names (if !isdst then 0 else 1) tzone }

/-- The loop, for the given number of days.  It returns at the second transition, which is the first
component of the result. -/
def scanDays (isdst : Bool) (gmtoffStart : ℤ) : ℕ → Scan → Fueled (Bool × Scan)
  | 0, s => .pure (false, s)
  | days + 1, s =>
    let t := s.t + 3600 * 24
    let tt := libc.localtime t
    if gmtOffset libc haveTmGmtoff tt t ≠ s.gmtoff then
      (findTransition libc haveTmGmtoff s.gmtoff t).bind fun t1 =>
        let t1 := t1 + s.gmtoff
        if s.isTransitioned then
          .pure (true, { s with t, out := writeSecond isdst t1 tt.zone s.out })
        else
          scanDays isdst gmtoffStart days
            { t
              gmtoff := gmtOffset libc haveTmGmtoff tt t
              isTransitioned := true
              out := writeFirst isdst gmtoffStart s.gmtoff (gmtOffset libc haveTmGmtoff tt t) t1
                tt.zone s.out }
    else scanDays isdst gmtoffStart days { s with t }

/-- `TimeZone::GetTimeZoneData`, which returns true. -/
def getTimeZoneData (year : ℤ) (out : TimeZoneData) : Fueled TimeZoneData :=
  let t := libc.mktime (january year)
  if year < 1970 ∨ year > 2037 ∨ t = -1 then
    let tzone := (libc.localtime libc.time).zone
    .pure { out with names := fun _ => tzone, daylightInverted := false }
  else
    let start := libc.localtime t
    let gmtoff := gmtOffset libc haveTmGmtoff start t
    (scanDays libc haveTmGmtoff start.isdst gmtoff 365
      ⟨t, gmtoff, false, { out with daylightInverted := start.isdst }⟩).bind fun (returned, s) =>
        if returned then .pure s.out
        else if !s.isTransitioned then
          .pure
            { data :=
                Function.update (Function.update (Function.update (Function.update s.out.data 0 0)
                  1 0) 2 (s.gmtoff * 10000000)) 3 0
              names := fun _ => (libc.localtime s.t).zone
              daylightInverted := false }
        else .pure s.out

end

/-! ### Years with two transitions -/

/-- The start of a year. -/
def yearStart (libc : Libc) (year : ℤ) : ℤ := libc.mktime (january year)

def daysInYear (year : ℤ) : ℤ :=
  if year % 4 = 0 ∧ (year % 100 ≠ 0 ∨ year % 400 = 0) then 366 else 365

/-- One value before the first transition, one between them, and one after the second. -/
def piecewise {α : Type*} (first second : ℤ) (before between after : α) (t : ℤ) : α :=
  if t < first then before else if t < second then between else after

/-- In a year the offset, and with it the name, changes twice, in whole minutes from the start of
the year: the second time a day or more after the first, and not on the last day. -/
structure TwoTransitions (libc : Libc) (haveTmGmtoff : Bool) (year : ℤ) where
  first : ℤ
  second : ℤ
  before : ℤ
  between : ℤ
  after : ℤ
  nameBefore : String
  nameBetween : String
  nameAfter : String
  offset_eq : ∀ t, yearStart libc year ≤ t →
    t < yearStart libc year + 86400 * daysInYear year →
    offset libc haveTmGmtoff t = piecewise first second before between after t
  zone_eq : ∀ t, yearStart libc year ≤ t →
    t < yearStart libc year + 86400 * daysInYear year →
    (libc.localtime t).zone = piecewise first second nameBefore nameBetween nameAfter t
  before_ne : before ≠ between
  between_ne : between ≠ after
  start_lt : yearStart libc year < first
  apart : first + 86400 ≤ second
  notLast : second < yearStart libc year + 86400 * (daysInYear year - 1)
  minute_first : 60 ∣ first - yearStart libc year
  minute_second : 60 ∣ second - yearStart libc year

namespace TimeZoneData

/-- The offset of standard time. -/
def standardOffset (out : TimeZoneData) : ℤ := out.data 2

/-- The offset of daylight saving time. -/
def daylightOffset (out : TimeZoneData) : ℤ := out.data 2 + out.data 3

/-- The offset before the first transition and after the second. -/
def outerOffset (out : TimeZoneData) : ℤ :=
  if out.daylightInverted then out.daylightOffset else out.standardOffset

/-- The offset between the transitions. -/
def innerOffset (out : TimeZoneData) : ℤ :=
  if out.daylightInverted then out.standardOffset else out.daylightOffset

/-- The name before the first transition and after the second. -/
def outerName (out : TimeZoneData) : String :=
  if out.daylightInverted then out.names 1 else out.names 0

/-- The name between the transitions. -/
def innerName (out : TimeZoneData) : String :=
  if out.daylightInverted then out.names 0 else out.names 1

end TimeZoneData

section

variable {libc : Libc} {haveTmGmtoff : Bool} {year : ℤ}

/-- Both transitions are reported, in the local time up to them, with the offsets and names in force
before and after each. -/
structure Tells (x : TwoTransitions libc haveTmGmtoff year) (out : TimeZoneData) : Prop where
  first : out.data 0 = ticks (x.first + x.before)
  second : out.data 1 = ticks (x.second + x.between)
  before : out.outerOffset = x.before * 10000000
  between : out.innerOffset = x.between * 10000000
  after : out.outerOffset = x.after * 10000000
  nameBefore : out.outerName = x.nameBefore
  nameBetween : out.innerName = x.nameBetween
  nameAfter : out.outerName = x.nameAfter

/-- What is reported: of the outer offsets the first, and of the outer names the second. -/
structure Reports (x : TwoTransitions libc haveTmGmtoff year) (out : TimeZoneData) : Prop where
  first : out.data 0 = ticks (x.first + x.before)
  second : out.data 1 = ticks (x.second + x.between)
  before : out.outerOffset = x.before * 10000000
  between : out.innerOffset = x.between * 10000000
  nameBetween : out.innerName = x.nameBetween
  nameAfter : out.outerName = x.nameAfter

/-! ### Loops -/

theorem iterate_sub (d t : ℤ) (n : ℕ) : (· - d)^[n] t = t - d * n := by
  induction n with
  | zero => simp
  | succ n ih =>
    rw [Function.iterate_succ_apply', ih, Int.natCast_succ, Int.mul_add, Int.mul_one]
    omega

theorem iterate_add (d t : ℤ) (n : ℕ) : (· + d)^[n] t = t + d * n := by
  induction n with
  | zero => simp
  | succ n ih =>
    rw [Function.iterate_succ_apply', ih, Int.natCast_succ, Int.mul_add, Int.mul_one]
    omega

theorem returns_hours {gmtoff t transition : ℤ}
    (hbefore : ∀ x, t - 86400 ≤ x → x < transition → offset libc haveTmGmtoff x = gmtoff)
    (hafter : ∀ x, transition ≤ x → x ≤ t → offset libc haveTmGmtoff x ≠ gmtoff)
    (hlt : t - 86400 < transition) (hle : transition ≤ t) :
    ∃ n : ℕ, t - 3600 * (n + 1) < transition ∧ t - 86400 ≤ t - 3600 * (n + 1) ∧
      (Fueled.doWhile (· - 3600) (fun t1 => offset libc haveTmGmtoff t1 ≠ gmtoff) t).Returns
        (t - 3600 * (n + 1)) := by
  obtain ⟨n, hn, hn'⟩ : ∃ n : ℕ, transition ≤ t - 3600 * n ∧ t - 3600 * (n + 1) < transition :=
    ⟨((t - transition) / 3600).toNat, by omega, by omega⟩
  refine ⟨n, hn', by omega, Fueled.returns_doWhile_iff.2 ⟨n, fun i hi => ?_, ?_, ?_⟩⟩
  · rw [iterate_sub]
    exact hafter _ (by push_cast; omega) (by push_cast; omega)
  · rw [iterate_sub, not_not]
    exact hbefore _ (by push_cast; omega) (by push_cast; omega)
  · rw [iterate_sub]
    push_cast
    rfl

theorem returns_minutes {gmtoff t transition : ℤ}
    (hbefore : ∀ x, t ≤ x → x < transition → offset libc haveTmGmtoff x = gmtoff)
    (hat : offset libc haveTmGmtoff transition ≠ gmtoff) (hlt : t < transition)
    (hminute : 60 ∣ transition - t) :
    (Fueled.doWhile (· + 60) (fun t1 => offset libc haveTmGmtoff t1 = gmtoff) t).Returns
      transition := by
  obtain ⟨n, hn⟩ : ∃ n : ℕ, transition = t + 60 * (n + 1) :=
    ⟨((transition - t) / 60 - 1).toNat, by omega⟩
  refine Fueled.returns_doWhile_iff.2 ⟨n, fun i hi => ?_, ?_, ?_⟩
  · rw [iterate_add]
    exact hbefore _ (by push_cast; omega) (by push_cast; omega)
  · rw [iterate_add]
    push_cast
    rwa [← hn]
  · rw [iterate_add]
    push_cast
    exact hn

theorem findTransition_returns {gmtoff t transition : ℤ}
    (hbefore : ∀ x, t - 86400 ≤ x → x < transition → offset libc haveTmGmtoff x = gmtoff)
    (hafter : ∀ x, transition ≤ x → x ≤ t → offset libc haveTmGmtoff x ≠ gmtoff)
    (hlt : t - 86400 < transition) (hle : transition ≤ t) (hminute : 60 ∣ transition - t) :
    (findTransition libc haveTmGmtoff gmtoff t).Returns transition := by
  obtain ⟨n, hn, hday, hhours⟩ := returns_hours hbefore hafter hlt hle
  rw [findTransition, Fueled.returns_bind hhours]
  exact returns_minutes (fun x hx => hbefore x (by omega)) (hafter _ (Int.le_refl _) hle) hn
    (by omega)

theorem scanDays_add {isdst : Bool} {gmtoffStart : ℤ} {s : Scan} {k : ℕ} (days : ℕ)
    (hsame : ∀ j : ℕ, 1 ≤ j → j ≤ k → offset libc haveTmGmtoff (s.t + 86400 * j) = s.gmtoff) :
    scanDays libc haveTmGmtoff isdst gmtoffStart (k + days) s =
      scanDays libc haveTmGmtoff isdst gmtoffStart days { s with t := s.t + 86400 * k } := by
  induction k generalizing s with
  | zero => simp
  | succ k ih =>
    have hfirst : gmtOffset libc haveTmGmtoff (libc.localtime (s.t + 3600 * 24))
        (s.t + 3600 * 24) = s.gmtoff := hsame 1 le_rfl (by omega)
    rw [Nat.add_right_comm, scanDays, if_neg (not_not.2 hfirst), ih]
    · dsimp only
      congr 2
      push_cast
      omega
    · intro j hj hjk
      have hnext := hsame (j + 1) (by omega) (by omega)
      rw [← hnext]
      congr 1
      push_cast
      omega

theorem scanDays_transition (isdst : Bool) (gmtoffStart : ℤ) (s : Scan) (days : ℕ)
    {gmtoff transition : ℤ}
    (hbefore : ∀ x, s.t ≤ x → x < transition → offset libc haveTmGmtoff x = s.gmtoff)
    (hafter : ∀ x, transition ≤ x → x < transition + 86400 → offset libc haveTmGmtoff x = gmtoff)
    (hne : s.gmtoff ≠ gmtoff) (hlt : s.t < transition) (hminute : 60 ∣ transition - s.t)
    (hdays : transition ≤ s.t + 86400 * days) :
    ∃ (left : ℕ) (t : ℤ), transition ≤ t ∧ t < transition + 86400 ∧
      t + 86400 * left = s.t + 86400 * days ∧
      ∀ r, (scanDays libc haveTmGmtoff isdst gmtoffStart days s).Returns r ↔
        (if s.isTransitioned then
          Fueled.pure (true,
            { s with
              t
              out := writeSecond isdst (transition + s.gmtoff) (libc.localtime t).zone s.out })
        else
          scanDays libc haveTmGmtoff isdst gmtoffStart left
            { t
              gmtoff
              isTransitioned := true
              out := writeFirst isdst gmtoffStart s.gmtoff gmtoff (transition + s.gmtoff)
                (libc.localtime t).zone s.out }).Returns r := by
  obtain ⟨k, hk, hk'⟩ : ∃ k : ℕ, s.t + 86400 * k < transition ∧
      transition ≤ s.t + 86400 * (k + 1) :=
    ⟨((transition - s.t - 1) / 86400).toNat, by omega, by omega⟩
  obtain ⟨left, hleft⟩ : ∃ left, days = k + (left + 1) := ⟨days - k - 1, by omega⟩
  have hscan : scanDays libc haveTmGmtoff isdst gmtoffStart days s =
      scanDays libc haveTmGmtoff isdst gmtoffStart (left + 1) { s with t := s.t + 86400 * k } := by
    rw [hleft]
    exact scanDays_add _ fun j _ _ => hbefore _ (by omega) (by omega)
  have hchanged : gmtOffset libc haveTmGmtoff (libc.localtime (s.t + 86400 * k + 3600 * 24))
      (s.t + 86400 * k + 3600 * 24) = gmtoff := hafter _ (by omega) (by omega)
  have hfound : (findTransition libc haveTmGmtoff s.gmtoff
      (s.t + 86400 * k + 3600 * 24)).Returns transition := by
    refine findTransition_returns (fun x hx => hbefore x (by omega)) (fun x hx hx' => ?_)
      (by omega) (by omega) (by omega)
    rw [hafter x hx (by omega)]
    exact hne.symm
  refine ⟨left, s.t + 86400 * k + 3600 * 24, by omega, by omega, by omega, fun r => ?_⟩
  rw [hscan, scanDays]
  dsimp only
  rw [hchanged, if_pos hne.symm, Fueled.returns_bind hfound]

/-! ### Two transitions -/

theorem daysInYear_le (year : ℤ) : daysInYear year ≤ 366 := by
  rw [daysInYear]
  split_ifs <;> omega

theorem le_daysInYear (year : ℤ) : 365 ≤ daysInYear year := by
  rw [daysInYear]
  split_ifs <;> omega

namespace TwoTransitions

variable (x : TwoTransitions libc haveTmGmtoff year)

theorem offset_before {t : ℤ} (ht : yearStart libc year ≤ t) (ht' : t < x.first) :
    offset libc haveTmGmtoff t = x.before := by
  have := x.apart
  have := x.notLast
  rw [x.offset_eq t ht (by omega), piecewise, if_pos ht']

theorem offset_between {t : ℤ} (ht : x.first ≤ t) (ht' : t < x.second) :
    offset libc haveTmGmtoff t = x.between := by
  have := x.start_lt
  have := x.notLast
  rw [x.offset_eq t (by omega) (by omega), piecewise, if_neg (by omega), if_pos ht']

theorem offset_after {t : ℤ} (ht : x.second ≤ t) (ht' : t < x.second + 86400) :
    offset libc haveTmGmtoff t = x.after := by
  have := x.start_lt
  have := x.apart
  have := x.notLast
  rw [x.offset_eq t (by omega) (by omega), piecewise, if_neg (by omega), if_neg (by omega)]

theorem zone_between {t : ℤ} (ht : x.first ≤ t) (ht' : t < x.second) :
    (libc.localtime t).zone = x.nameBetween := by
  have := x.start_lt
  have := x.notLast
  rw [x.zone_eq t (by omega) (by omega), piecewise, if_neg (by omega), if_pos ht']

theorem zone_after {t : ℤ} (ht : x.second ≤ t) (ht' : t < x.second + 86400) :
    (libc.localtime t).zone = x.nameAfter := by
  have := x.start_lt
  have := x.apart
  have := x.notLast
  rw [x.zone_eq t (by omega) (by omega), piecewise, if_neg (by omega), if_neg (by omega)]

/-- What has been written after the second transition. -/
def report (out : TimeZoneData) : TimeZoneData :=
  let isdst := (libc.localtime (yearStart libc year)).isdst
  writeSecond isdst (x.second + x.between) x.nameAfter
    (writeFirst isdst x.before x.before x.between (x.first + x.before) x.nameBetween
      { out with daylightInverted := isdst })

theorem scanDays_returns (isdst : Bool) (out : TimeZoneData) :
    ∃ t, (scanDays libc haveTmGmtoff isdst x.before 365
        ⟨yearStart libc year, x.before, false, out⟩).Returns
        (true, ⟨t, x.between, true,
          writeSecond isdst (x.second + x.between) x.nameAfter
            (writeFirst isdst x.before x.before x.between (x.first + x.before) x.nameBetween
              out)⟩) := by
  have hstart := x.start_lt
  have hapart := x.apart
  have hlast := x.notLast
  have hdays := daysInYear_le year
  have hfirst := x.minute_first
  have hsecond := x.minute_second
  obtain ⟨left, t, ht, ht', hleft, hscan⟩ := scanDays_transition isdst x.before
    ⟨yearStart libc year, x.before, false, out⟩ 365 (fun t ht ht' => x.offset_before ht ht')
    (fun t ht ht' => x.offset_between ht (by omega)) x.before_ne hstart hfirst
    (by dsimp only; omega)
  obtain ⟨left', t', ht₂, ht₂', -, hscan'⟩ := scanDays_transition isdst x.before
    ⟨t, x.between, true, writeFirst isdst x.before x.before x.between (x.first + x.before)
      (libc.localtime t).zone out⟩ left
    (fun u hu => x.offset_between (by dsimp only at hu; omega))
    (fun u hu hu' => x.offset_after hu hu') x.between_ne (by dsimp only; omega)
    (by dsimp only at hleft ⊢; omega) (by dsimp only at hleft ⊢; omega)
  refine ⟨t', (hscan _).2 ?_⟩
  rw [if_neg Bool.false_ne_true, hscan', if_pos rfl, Fueled.returns_pure_iff,
    x.zone_between ht (by omega), x.zone_after ht₂ ht₂']

theorem getTimeZoneData_returns (hyear : 1970 ≤ year ∧ year ≤ 2037)
    (hmktime : yearStart libc year ≠ -1) (out : TimeZoneData) :
    (getTimeZoneData libc haveTmGmtoff year out).Returns (x.report out) := by
  obtain ⟨t, hscan⟩ := x.scanDays_returns (libc.localtime (yearStart libc year)).isdst
    { out with daylightInverted := (libc.localtime (yearStart libc year)).isdst }
  have hgmtoff : gmtOffset libc haveTmGmtoff (libc.localtime (libc.mktime (january year)))
      (libc.mktime (january year)) = x.before := x.offset_before (Int.le_refl _) x.start_lt
  have hrange : ¬(year < 1970 ∨ year > 2037 ∨ libc.mktime (january year) = -1) := by
    rintro (h | h | h)
    · omega
    · omega
    · exact hmktime h
  rw [getTimeZoneData]
  dsimp only
  rw [if_neg hrange, hgmtoff]
  exact (Fueled.returns_bind hscan).2 (Fueled.returns_pure_iff.2 rfl)

theorem reports_report (out : TimeZoneData) : Reports x (x.report out) := by
  rw [report]
  generalize (libc.localtime (yearStart libc year)).isdst = isdst
  cases isdst with
  | false =>
    refine ⟨rfl, rfl, rfl, ?_, rfl, rfl⟩
    change x.before * 10000000 + (x.between - x.before) * 10000000 = _
    omega
  | true =>
    refine ⟨rfl, rfl, ?_, ?_, rfl, rfl⟩
    · change (x.before + (x.between - x.before)) * 10000000 +
        (x.before - x.between) * 10000000 = _
      omega
    · change (x.before + (x.between - x.before)) * 10000000 = _
      omega

theorem tells_of_reports {out : TimeZoneData} (h : Reports x out) (hoffset : x.after = x.before)
    (hname : x.nameAfter = x.nameBefore) : Tells x out where
  first := h.first
  second := h.second
  before := h.before
  between := h.between
  after := hoffset ▸ h.before
  nameBefore := hname ▸ h.nameAfter
  nameBetween := h.nameBetween
  nameAfter := h.nameAfter

end TwoTransitions

/-- For each year in the range of `mktime` with two transitions, the function ends and reports them
to the minute, and with them everything that is in force where the second transition takes back the
first. -/
theorem getTimeZoneData_reports (x : TwoTransitions libc haveTmGmtoff year)
    (hyear : 1970 ≤ year ∧ year ≤ 2037) (hmktime : yearStart libc year ≠ -1) (out : TimeZoneData) :
    ∃ out', (getTimeZoneData libc haveTmGmtoff year out).Returns out' ∧ Reports x out' ∧
      (x.after = x.before → x.nameAfter = x.nameBefore → Tells x out') :=
  ⟨x.report out, x.getTimeZoneData_returns hyear hmktime out, x.reports_report out,
    x.tells_of_reports (x.reports_report out)⟩

end

/-! ### A summer of a hundred days -/

namespace Summer

/-- Summer time from a hundred days after the start of the year until two hundred days after it. -/
def libc (start after : ℤ) (nameAfter : String) : Libc where
  localtime t :=
    { january 2001 with
      isdst := piecewise (start + 8640000) (start + 17280000) false true false t
      gmtoff := piecewise (start + 8640000) (start + 17280000) 0 3600 after t
      zone := piecewise (start + 8640000) (start + 17280000) "GMT" "BST" nameAfter t }
  gmtime _ := january 2001
  mktime _ := start
  time := 0

theorem yearStart_libc (start after : ℤ) (nameAfter : String) (year : ℤ) :
    yearStart (libc start after nameAfter) year = start := rfl

/-- The transitions, in any year that begins at `start`. -/
def transitions (start after : ℤ) (nameAfter : String) (year : ℤ) (hafter : 3600 ≠ after) :
    TwoTransitions (libc start after nameAfter) true year where
  first := start + 8640000
  second := start + 17280000
  before := 0
  between := 3600
  after := after
  nameBefore := "GMT"
  nameBetween := "BST"
  nameAfter := nameAfter
  offset_eq _ _ _ := rfl
  zone_eq _ _ _ := rfl
  before_ne := by decide
  between_ne := hafter
  start_lt := by rw [yearStart_libc]; omega
  apart := by omega
  notLast := by
    have := le_daysInYear year
    rw [yearStart_libc]
    omega
  minute_first := by rw [yearStart_libc]; omega
  minute_second := by rw [yearStart_libc]; omega

/-- Nothing has been written. -/
def blank : TimeZoneData := ⟨fun _ => 0, fun _ => "", false⟩

theorem getTimeZoneData_tells :
    ∃ out, (getTimeZoneData (libc 978307200 0 "GMT") true 2001 blank).Returns out ∧
      Tells (transitions 978307200 0 "GMT" 2001 (by decide)) out := by
  obtain ⟨out, hreturns, -, htells⟩ :=
    getTimeZoneData_reports (transitions 978307200 0 "GMT" 2001 (by decide))
      (by decide) (by decide) blank
  exact ⟨out, hreturns, htells rfl rfl⟩

/-- An offset that is another one after summer is not reported, and nothing is for a year that
`mktime` may not know. -/
theorem not_tells :
    (¬∃ out, (getTimeZoneData (libc 978307200 7200 "EET") true 2001 blank).Returns out ∧
      Tells (transitions 978307200 7200 "EET" 2001 (by decide)) out) ∧
    ¬∃ out, (getTimeZoneData (libc 2145916800 0 "GMT") true 2038 blank).Returns out ∧
      Tells (transitions 2145916800 0 "GMT" 2038 (by decide)) out := by
  constructor
  · rintro ⟨out, hreturns, htells⟩
    let x := transitions 978307200 7200 "EET" 2001 (by decide)
    obtain rfl := Fueled.returns_unique hreturns
      (x.getTimeZoneData_returns (by decide) (by decide) blank)
    have heq := htells.after.symm.trans (x.reports_report blank).before
    exact absurd heq (by decide)
  · rintro ⟨out, hreturns, htells⟩
    rw [getTimeZoneData, if_pos (.inr (.inl (by decide))), Fueled.returns_pure_iff] at hreturns
    have hfirst := htells.first
    rw [hreturns] at hfirst
    exact absurd hfirst (by decide)

end Summer

end TimeZone

end Il2Cpp
