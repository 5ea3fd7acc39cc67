import Il2Cpp.File.Sharing

/-!
# The length of a file

`File::SetLength` moves the position of the file to the new length, truncates or extends the file,
and moves the position back.

* `SetLengthCalls` : what the calls of a run return.
* `setLength` : the function.
* `setLength_keeps_iff` : in which runs the position is kept, and that the length is set.
-/

namespace Il2Cpp

namespace File

/-- A file that is open. -/
structure OpenFile where
  contents : List UInt8
  position : ℤ
  deriving DecidableEq

/-- `EINTR`. -/
def eintr : ℕ := 4

/-- `ENOENT`. -/
def enoent : ℕ := 2

/-- `EEXIST`. -/
def eexist : ℕ := 17

/-- `EINVAL`. -/
def einval : ℕ := 22

/-- What the calls return: an error number, or `none` when they succeed. -/
structure SetLengthCalls where
  /-- `lseek`, for the current position -/
  currentPosition : Option ℕ
  /-- `lseek`, to the new length -/
  setLength : Option ℕ
  /-- `ftruncate`, in each round of the loop -/
  ftruncate : List (Option ℕ)
  /-- `lseek`, back to the old position -/
  oldPosition : Option ℕ

/-- `*error`. -/
inductive SetLengthError
  | invalidHandle
  /-- `FileErrnoToErrorCode` -/
  | file (errno : ℕ)
  deriving DecidableEq

namespace OpenFile

/-- `lseek` with `SEEK_SET`. -/
def lseek (file : OpenFile) (failed : Option ℕ) (offset : ℤ) : Except ℕ OpenFile :=
  match failed with
  | some errno => .error errno
  | none => if offset < 0 then .error einval else .ok { file with position := offset }

/-- What `ftruncate` does: the file is cut, or filled with zeros. -/
def truncate (file : OpenFile) (length : ℕ) : OpenFile :=
  { file with
    contents := file.contents.take length ++ List.replicate (length - file.contents.length) 0 }

end OpenFile

/-- The loop around `ftruncate`; it does not end where the results do. -/
def ftruncateLoop : List (Option ℕ) → Option (Option ℕ)
  | [] => none
  | none :: _ => some none
  | some errno :: results => if errno = eintr then ftruncateLoop results else some (some errno)

/-- `File::SetLength`. -/
def setLength (type : FileType) (calls : SetLengthCalls) (length : ℤ) (file : OpenFile) :
    Option (Except SetLengthError Unit × OpenFile) :=
  if type ≠ .disk then some (.error .invalidHandle, file)
  else
    match calls.currentPosition with
    | some errno => some (.error (.file errno), file)
    | none =>
      let currentPosition := file.position
      match file.lseek calls.setLength length with
      | .error errno => some (.error (.file errno), file)
      | .ok file =>
        match ftruncateLoop calls.ftruncate with
        | none => none
        | some (some errno) => some (.error (.file errno), file)
        | some none =>
          let file := file.truncate length.toNat
          match file.lseek calls.oldPosition currentPosition with
          | .error errno => some (.error (.file errno), file)
          | .ok file => some (.ok (), file)

/-! ### The position -/

/-- The calls of a run that does not leave the position at the new length. -/
def SetLengthCalls.ComeBack (calls : SetLengthCalls) (length : ℤ) : Prop :=
  calls.currentPosition.isSome ∨ calls.setLength.isSome ∨ length < 0 ∨
    ftruncateLoop calls.ftruncate = some none ∧ calls.oldPosition = none

theorem OpenFile.lseek_eq_ok {file file' : OpenFile} {failed : Option ℕ} {offset : ℤ} :
    file.lseek failed offset = .ok file' ↔
      failed = none ∧ 0 ≤ offset ∧ file' = { file with position := offset } := by
  cases failed with
  | some errno => simp [lseek]
  | none =>
    rw [lseek]
    split_ifs with h
    · simp [Int.not_le.2 h]
    · simp [Int.not_lt.1 h, eq_comm]

theorem OpenFile.lseek_eq_error {file : OpenFile} {failed : Option ℕ} {offset : ℤ} {errno : ℕ}
    (h : file.lseek failed offset = .error errno) : failed.isSome ∨ offset < 0 := by
  cases failed with
  | some errno => exact .inl rfl
  | none =>
    rw [lseek] at h
    split_ifs at h with hneg
    exact .inr hneg

@[simp] theorem OpenFile.length_truncate (file : OpenFile) (length : ℕ) :
    (file.truncate length).contents.length = length := by
  simp only [truncate, List.length_append, List.length_take, List.length_replicate]
  omega

/-- **`SetLength`.**  Where it returns, the position is as before if and only if the file is not on a
disk, the calls come back, or the position was the new length; and after a success the file has that
length. -/
theorem setLength_keeps_iff {type : FileType} {calls : SetLengthCalls} {length : ℤ}
    {file file' : OpenFile} {result : Except SetLengthError Unit} (hposition : 0 ≤ file.position)
    (h : setLength type calls length file = some (result, file')) :
    (file'.position = file.position ∧ (result = .ok () → (file'.contents.length : ℤ) = length)) ↔
      type ≠ .disk ∨ calls.ComeBack length ∨ file.position = length := by
  rw [setLength] at h
  split_ifs at h with htype
  · cases h
    simp [htype]
  cases hcurrent : calls.currentPosition with
  | some errno =>
    rw [hcurrent] at h
    cases h
    simp [SetLengthCalls.ComeBack, hcurrent]
  | none =>
    rw [hcurrent] at h
    simp only at h
    cases hset : file.lseek calls.setLength length with
    | error errno =>
      rw [hset] at h
      cases h
      have hfails := OpenFile.lseek_eq_error hset
      refine iff_of_true ⟨rfl, fun hok => nomatch hok⟩ (.inr (.inl (.inr ?_)))
      exact hfails.elim .inl fun hneg => .inr (.inl hneg)
    | ok moved =>
      obtain ⟨hnone, hlength, rfl⟩ := OpenFile.lseek_eq_ok.1 hset
      rw [hset] at h
      simp only at h
      have hcalls : calls.ComeBack length ↔
          ftruncateLoop calls.ftruncate = some none ∧ calls.oldPosition = none := by
        simp [SetLengthCalls.ComeBack, hcurrent, hnone, Int.not_lt.2 hlength]
      rw [hcalls]
      cases hloop : ftruncateLoop calls.ftruncate with
      | none =>
        rw [hloop] at h
        cases h
      | some failed =>
        rw [hloop] at h
        cases failed with
        | some errno =>
          -- an early return, with the position at the new length
          cases h
          simp [htype, eq_comm]
        | none =>
          simp only at h
          cases hback : OpenFile.lseek (OpenFile.truncate { file with position := length }
              length.toNat) calls.oldPosition file.position with
          | error errno =>
            rw [hback] at h
            cases h
            obtain ⟨errno', herrno⟩ := Option.isSome_iff_exists.1
              ((OpenFile.lseek_eq_error hback).resolve_right (Int.not_lt.2 hposition))
            simp [htype, herrno, OpenFile.truncate, eq_comm]
          | ok back =>
            rw [hback] at h
            cases h
            obtain ⟨hold, -, rfl⟩ := OpenFile.lseek_eq_ok.1 hback
            refine iff_of_true ⟨rfl, fun _ => ?_⟩ (.inr (.inl ⟨rfl, hold⟩))
            rw [OpenFile.length_truncate, Int.toNat_of_nonneg hlength]

/-- A file is truncated after one interruption. -/
theorem setLength_keeps_iff_truncated : ∃ file',
    setLength .disk ⟨none, none, [some eintr, none], none⟩ 2 ⟨[1, 2, 3], 1⟩ =
        some (.ok (), file') ∧
      file'.position = 1 ∧ (file'.contents.length : ℤ) = 2 := by
  have hrun : setLength .disk ⟨none, none, [some eintr, none], none⟩ 2 ⟨[1, 2, 3], 1⟩ =
      some (.ok (), ⟨[1, 2], 1⟩) := by decide
  obtain ⟨hposition, hlength⟩ := (setLength_keeps_iff (by decide) hrun).2
    (.inr (.inl (.inr (.inr (.inr ⟨rfl, rfl⟩)))))
  exact ⟨_, hrun, hposition, hlength rfl⟩

/-- A file that is open for reading only is not truncated, and its position is lost. -/
theorem setLength_moves : ¬ ∀ (calls : SetLengthCalls) (length : ℤ) (file file' : OpenFile)
    (result : Except SetLengthError Unit), 0 ≤ file.position →
    setLength .disk calls length file = some (result, file') →
      file'.position = file.position ∧
        (result = .ok () → (file'.contents.length : ℤ) = length) := by
  intro h
  have hkeeps := h ⟨none, none, [some einval], none⟩ 10 ⟨[1, 2, 3], 3⟩ ⟨[1, 2, 3], 10⟩
    (.error (.file einval)) (by decide) (by decide)
  exact absurd hkeeps.1 (by decide)

end File

end Il2Cpp
