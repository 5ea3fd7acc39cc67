import Il2Cpp.File.Glob
import Il2Cpp.File.SetLength

/-!
# Enumerating a directory

`Directory::FindFirstFile` and `Directory::FindNextFile` return the entries of a directory that
match a pattern one by one.  An entry whose attributes cannot be read is skipped, but the calls that
fail for it leave their mark in `errno`, from which the end of the directory is told from an error.

* `DirEntry.getFileAttributes` : `File::GetFileAttributes`, with the `errno` that it leaves.
* `findFirstFile`, `findNextFile` : the two functions, on what is left of the directory.
* `findAll` : the calls until one does not succeed.
* `findAll_complete_iff` : the names are the right ones always; and the last result is the right one
  exactly if no entry is skipped behind the last one that is returned.
-/

namespace Il2Cpp

namespace File

/-! ### Errors -/

/-- An error number: the value that a call that fails gives to `errno`. -/
structure Errno where
  code : ℕ
  pos : 0 < code

/-- The codes of `ErrorCode` that these functions return. -/
inductive ErrorCode
  | success | fileNotFound | pathNotFound | tooManyOpenFiles | accessDenied | invalidHandle
  | badFormat | noMoreFiles | seek | writeFault | genFailure | sharingViolation | lockViolation
  | handleDiskFull | notSupported | fileExists | cannotMake | dirNotEmpty | fileNameExcedRange
  | ioPending
  deriving DecidableEq

/-- `FileErrnoToErrorCode`, with the numbers that Linux gives to the errors. -/
def fileErrnoToErrorCode : ℕ → ErrorCode
  | 13 | 1 | 30 => .accessDenied
  | 11 => .sharingViolation
  | 16 => .lockViolation
  | 17 => .fileExists
  | 22 | 29 => .seek
  | 21 => .cannotMake
  | 23 | 24 => .tooManyOpenFiles
  | 2 | 20 => .fileNotFound
  | 28 => .handleDiskFull
  | 39 => .dirNotEmpty
  | 8 => .badFormat
  | 36 => .fileNameExcedRange
  | 115 => .ioPending
  | 38 => .notSupported
  | 9 => .invalidHandle
  | 5 => .invalidHandle
  | 4 => .ioPending
  | 32 => .writeFault
  | _ => .genFailure

/-- `PathErrnoToErrorCode` and the `errno` after it; `access` is what the call on the directory
does. -/
def pathErrnoToErrorCode (access : Option Errno) (code errno : ℕ) : ErrorCode × ℕ :=
  if code = enoent then
    match access with
    | none => (.fileNotFound, errno)
    | some failed => (.pathNotFound, failed.code)
  else (fileErrnoToErrorCode code, errno)

theorem fileErrnoToErrorCode_spec (errno : ℕ) :
    fileErrnoToErrorCode errno ≠ .success ∧ fileErrnoToErrorCode errno ≠ .noMoreFiles := by
  unfold fileErrnoToErrorCode
  split <;> decide

theorem pathErrnoToErrorCode_spec (access : Option Errno) (code : ℕ) {errno : ℕ} (h : 0 < errno) :
    (pathErrnoToErrorCode access code errno).1 ≠ .success ∧
      (pathErrnoToErrorCode access code errno).1 ≠ .noMoreFiles ∧
      0 < (pathErrnoToErrorCode access code errno).2 := by
  unfold pathErrnoToErrorCode
  split_ifs
  · cases access with
    | none => exact ⟨nofun, nofun, h⟩
    | some failed => exact ⟨nofun, nofun, failed.pos⟩
  · exact ⟨(fileErrnoToErrorCode_spec code).1, (fileErrnoToErrorCode_spec code).2, h⟩

/-! ### Attributes -/

/-- `st_mode`. -/
abbrev Mode := BitVec 32

namespace Mode

/-- `(mode & S_IFMT) == type`. -/
def Is (mode type : Mode) : Prop := mode &&& 0o170000 = type

instance (mode type : Mode) : Decidable (mode.Is type) := inferInstanceAs (Decidable (_ = _))

/-- None of `S_IWUSR`, `S_IWGRP` and `S_IWOTH`. -/
def ReadOnly (mode : Mode) : Prop :=
  mode &&& 0o200 = 0 ∧ mode &&& 0o020 = 0 ∧ mode &&& 0o002 = 0

instance (mode : Mode) : Decidable mode.ReadOnly := inferInstanceAs (Decidable (_ ∧ _))

end Mode

/-- `PathUtils::Basename`. -/
def basename (path : List Char) : List Char :=
  if path = [] then ['.'] else (path.reverse.takeWhile (· ≠ '/')).reverse

/-- `PathUtils::DirectoryName`. -/
def directoryName (path : List Char) : List Char :=
  match path.reverse.dropWhile (· ≠ '/') with
  | [] => if path = [] then [] else ['.']
  | [_] => ['/']
  | _ :: rest => rest.reverse

/-- `PathUtils::Combine`. -/
def combine (path₁ path₂ : List Char) : List Char := path₁ ++ '/' :: path₂

/-- `UnityPalFileAttributes`. -/
abbrev FileAttributes := BitVec 32

def kFileAttributeReadOnly : FileAttributes := 0x1
def kFileAttributeHidden : FileAttributes := 0x2
def kFileAttributeDirectory : FileAttributes := 0x10
def kFileAttributeNormal : FileAttributes := 0x80
def kFileAttributeReparsePoint : FileAttributes := 0x400

/-- `StatToFileAttribute`. -/
def statToFileAttribute (path : List Char) (pathStat linkStat : Mode) : FileAttributes :=
  -- don't consider socket protection
  let pathStat := if pathStat.Is 0o140000 then pathStat &&& ~~~0o140000 else pathStat
  let hidden := if (basename path).head? = some '.' then kFileAttributeHidden else 0
  let attributes :=
    if pathStat.Is 0o040000 then
      kFileAttributeDirectory |||
        (if pathStat.ReadOnly then kFileAttributeReadOnly else 0) ||| hidden
    else if pathStat.ReadOnly then kFileAttributeReadOnly ||| hidden
    else if hidden ≠ 0 then hidden
    else kFileAttributeNormal
  attributes ||| if linkStat.Is 0o120000 then kFileAttributeReparsePoint else 0

/-- An entry of a directory, and what the calls for its path do. -/
structure DirEntry where
  name : List Char
  stat : Except Errno Mode
  /-- the `lstat` that is made when `stat` did not find the file -/
  lstatDangling : Except Errno Mode
  lstat : Except Errno Mode
  /-- `access`, for the directory -/
  access : Option Errno
  /-- what `pathStat` holds before a call fills it -/
  uninitialized : Mode

namespace DirEntry

variable (entry : DirEntry)

/-- `PathErrnoToErrorCode(path, errno)`. -/
def pathError (errno : ℕ) : Except ErrorCode (Mode × Mode) × ℕ :=
  let (code, errno) := pathErrnoToErrorCode entry.access errno errno
  (.error code, errno)

/-- The second half of `GetStatAndLinkStat`. -/
def getLinkStat (pathStat : Mode) (errno : ℕ) : Except ErrorCode (Mode × Mode) × ℕ :=
  match entry.lstat with
  | .ok linkStat => (.ok (pathStat, linkStat), errno)
  | .error failed => entry.pathError failed.code

/-- `GetStatAndLinkStat`, with `errno` before and after it. -/
def getStatAndLinkStat (errno : ℕ) : Except ErrorCode (Mode × Mode) × ℕ :=
  match entry.stat with
  | .ok pathStat => entry.getLinkStat pathStat errno
  | .error failed =>
    if failed.code = enoent then
      -- might be a dangling symlink
      match entry.lstatDangling with
      | .ok pathStat => entry.getLinkStat pathStat failed.code
      | .error failed => entry.pathError failed.code
    else entry.getLinkStat entry.uninitialized failed.code

/-- `File::GetFileAttributes`, for a path that leads to the entry. -/
def getFileAttributes (path : List Char) (errno : ℕ) : Except ErrorCode FileAttributes × ℕ :=
  let (result, errno) := entry.getStatAndLinkStat errno
  (result.map fun stats => statToFileAttribute path stats.1 stats.2, errno)

/-- The attributes can be read: `lstat` does not fail, nor did it when `stat` found no file. -/
def readable : Bool :=
  (match entry.stat with
    | .ok _ => true
    | .error failed => failed.code != enoent || entry.lstatDangling.isOk) && entry.lstat.isOk

end DirEntry

/-! ### The functions -/

/-- What is left of a directory: its entries, and whether `readdir` fails behind them. -/
structure DirStream where
  entries : List DirEntry
  failed : Option Errno

/-- `Directory::FindHandle`, before `SetOSHandle`. -/
structure FindHandle where
  directoryPath : List Char
  pattern : List Char

/-- The constructor of `FindHandle`. -/
def FindHandle.new (searchPathWithPattern : List Char) : FindHandle where
  directoryPath := directoryName searchPathWithPattern
  pattern := DirectoryUtils.collapseAdjacentStars (basename searchPathWithPattern)

/-- The entry matches the pattern. -/
def FindHandle.matches (handle : FindHandle) (entry : DirEntry) : Bool :=
  DirectoryUtils.matchName entry.name handle.pattern

/-- What the two functions return. -/
inductive FindResult
  /-- `kErrorCodeSuccess`, with the results and what is left of the directory -/
  | found (resultFileName : List Char) (resultAttributes : FileAttributes) (rest : DirStream)
  | failed (code : ErrorCode)

/-- The loop of `FindNextFile` and what follows it. -/
def findNextLoop (handle : FindHandle) (failed : Option Errno) : ℕ → List DirEntry → FindResult
  | errno, [] =>
    let errno := (failed.map Errno.code).getD errno
    if errno ≠ 0 then .failed (fileErrnoToErrorCode errno) else .failed .noMoreFiles
  | errno, entry :: entries =>
    if handle.matches entry then
      match entry.getFileAttributes (combine handle.directoryPath entry.name) errno with
      | (.ok attributes, _) => .found entry.name attributes ⟨entries, failed⟩
      | (.error _, errno) => findNextLoop handle failed errno entries
    else findNextLoop handle failed errno entries

/-- `Directory::FindNextFile`. -/
def findNextFile (handle : FindHandle) (dir : DirStream) : FindResult :=
  findNextLoop handle dir.failed 0 dir.entries

/-- `Directory::FindFirstFile`; `access` is what the call of `PathErrnoToErrorCode` does. -/
def findFirstFile (handle : FindHandle) (opendir : Except Errno DirStream)
    (access : Option Errno) : FindResult :=
  match opendir with
  | .ok dir => findNextFile handle dir
  | .error failed => .failed (pathErrnoToErrorCode access failed.code failed.code).1

/-- The entries that are left after a call. -/
def FindResult.left : FindResult → ℕ
  | found _ _ rest => rest.entries.length + 1
  | failed _ => 0

theorem left_findNextLoop (handle : FindHandle) (failed : Option Errno) (errno : ℕ)
    (entries : List DirEntry) :
    (findNextLoop handle failed errno entries).left ≤ entries.length := by
  induction entries generalizing errno with
  | nil =>
    unfold findNextLoop
    simp only
    split_ifs <;> exact Nat.le_refl 0
  | cons entry entries ih =>
    rw [findNextLoop]
    split_ifs
    · split
      · exact Nat.le_refl _
      · exact (ih _).trans (Nat.le_succ _)
    · exact (ih _).trans (Nat.le_succ _)

/-- The names that a call and the following ones return, until one does not succeed, and what that
one returns. -/
def findAll (handle : FindHandle) : FindResult → List (List Char) × ErrorCode
  | .failed code => ([], code)
  | .found name _ rest =>
    let others := findAll handle (findNextFile handle rest)
    (name :: others.1, others.2)
termination_by result => result.left
decreasing_by exact Nat.lt_succ_of_le (left_findNextLoop handle rest.failed 0 rest.entries)

/-! ### What is returned -/

/-- Behind every matching entry whose attributes cannot be read stands one whose attributes can. -/
def FindHandle.SkipsFollowed (handle : FindHandle) (entries : List DirEntry) : Prop :=
  ∀ entry rest, entry :: rest <:+ entries → handle.matches entry → entry.readable = false →
    ∃ other ∈ rest, handle.matches other ∧ other.readable

/-- The directory as far as it can be read. -/
def readDir : Except Errno DirStream → DirStream
  | .ok dir => dir
  | .error failed => ⟨[], some failed⟩

/-- The names are those of the entries that match and whose attributes can be read, in the order of
the directory, and the last result is no error unless reading the directory failed. -/
structure CompleteEnumeration (handle : FindHandle) (dir : DirStream)
    (result : List (List Char) × ErrorCode) : Prop where
  names : result.1 =
    (dir.entries.filter fun entry => handle.matches entry && entry.readable).map DirEntry.name
  code : dir.failed = none → result.2 = .noMoreFiles

theorem getFileAttributes_spec (entry : DirEntry) (path : List Char) (errno : ℕ) :
    if entry.readable then ∃ attributes errno',
      entry.getFileAttributes path errno = (.ok attributes, errno')
    else ∃ code errno',
      entry.getFileAttributes path errno = (.error code, errno') ∧ 0 < errno' := by
  have herror (failed : Errno) : ∃ code errno',
      entry.pathError failed.code = (.error code, errno') ∧ 0 < errno' :=
    ⟨_, _, rfl, (pathErrnoToErrorCode_spec entry.access failed.code failed.pos).2.2⟩
  -- the second half, after `pathStat` has been found
  have hlink (pathStat : Mode) (errno : ℕ) : if entry.lstat.isOk then ∃ stats errno',
        entry.getLinkStat pathStat errno = (.ok stats, errno')
      else ∃ code errno', entry.getLinkStat pathStat errno = (.error code, errno') ∧
        0 < errno' := by
    rw [DirEntry.getLinkStat]
    cases entry.lstat with
    | ok linkStat => exact ⟨_, _, rfl⟩
    | error failed => exact herror failed
  suffices hstat : if entry.readable then ∃ stats errno',
        entry.getStatAndLinkStat errno = (.ok stats, errno')
      else ∃ code errno', entry.getStatAndLinkStat errno = (.error code, errno') ∧ 0 < errno' by
    unfold DirEntry.getFileAttributes
    split_ifs at hstat ⊢
    · obtain ⟨stats, errno', heq⟩ := hstat
      rw [heq]
      exact ⟨_, _, rfl⟩
    · obtain ⟨code, errno', heq, hpos⟩ := hstat
      rw [heq]
      exact ⟨_, _, rfl, hpos⟩
  rw [DirEntry.readable, DirEntry.getStatAndLinkStat]
  cases entry.stat with
  | ok pathStat => exact hlink pathStat errno
  | error failed =>
    by_cases hnoent : failed.code = enoent
    · simp only [hnoent, bne_self_eq_false, Bool.false_or, if_true]
      cases entry.lstatDangling with
      | ok pathStat => exact hlink pathStat enoent
      | error failed => exact herror failed
    · have hother : (failed.code != enoent) = true := by simpa using hnoent
      simp only [hother, hnoent, Bool.true_or, Bool.true_and, if_false]
      exact hlink entry.uninitialized failed.code

theorem skipsFollowed_cons {handle : FindHandle} {entry : DirEntry} {entries : List DirEntry} :
    handle.SkipsFollowed (entry :: entries) ↔
      (handle.matches entry → entry.readable = false →
        ∃ other ∈ entries, handle.matches other ∧ other.readable) ∧
      handle.SkipsFollowed entries := by
  constructor
  · intro h
    exact ⟨h entry entries (List.suffix_refl _),
      fun e rest hsuffix => h e rest (hsuffix.trans (List.suffix_cons _ _))⟩
  · rintro ⟨hhead, htail⟩ e rest hsuffix
    rcases List.suffix_cons_iff.1 hsuffix with heq | hsuffix
    · cases heq
      exact hhead
    · exact htail e rest hsuffix

/-- **The loop**, for any `errno` at its start: by induction on the entries.  The `errno` stays as
it is until an entry is returned, which clears it, or skipped, which sets it. -/
theorem findAll_findNextLoop (handle : FindHandle) (failed : Option Errno) (errno : ℕ)
    (entries : List DirEntry) :
    (findAll handle (findNextLoop handle failed errno entries)).1 =
        (entries.filter fun entry => handle.matches entry && entry.readable).map DirEntry.name ∧
      (failed = none → ((findAll handle (findNextLoop handle failed errno entries)).2 =
        .noMoreFiles ↔ (errno = 0 ∨ ∃ entry ∈ entries, handle.matches entry ∧ entry.readable) ∧
          handle.SkipsFollowed entries)) := by
  induction entries generalizing errno with
  | nil =>
    have hend : ∃ code, findNextLoop handle failed errno [] = .failed code ∧
        (failed = none → (code = .noMoreFiles ↔ errno = 0)) := by
      unfold findNextLoop
      simp only
      split_ifs with herrno
      · refine ⟨_, rfl, ?_⟩
        rintro rfl
        exact iff_of_false (fileErrnoToErrorCode_spec _).2 herrno
      · refine ⟨_, rfl, ?_⟩
        rintro rfl
        exact iff_of_true rfl (not_not.1 herrno)
    obtain ⟨code, hcode, hiff⟩ := hend
    rw [hcode, findAll]
    refine ⟨rfl, fun hnone => (hiff hnone).trans ?_⟩
    simp [FindHandle.SkipsFollowed]
  | cons entry entries ih =>
    have hattributes := getFileAttributes_spec entry (combine handle.directoryPath entry.name) errno
    rw [findNextLoop, skipsFollowed_cons]
    by_cases hmatches : handle.matches entry = true
    · rw [if_pos hmatches]
      by_cases hreadable : entry.readable = true
      · rw [if_pos hreadable] at hattributes
        obtain ⟨attributes, errno', hok⟩ := hattributes
        obtain ⟨hnames, hcode⟩ := ih 0
        rw [hok, findAll, findNextFile]
        refine ⟨?_, fun hnone => (hcode hnone).trans ?_⟩
        · simp [hnames, hmatches, hreadable]
        · simp [hmatches, hreadable]
      · rw [if_neg hreadable] at hattributes
        obtain ⟨code, errno', herror, hpos⟩ := hattributes
        obtain ⟨hnames, hcode⟩ := ih errno'
        rw [herror]
        refine ⟨?_, fun hnone => (hcode hnone).trans ?_⟩
        · simp [hnames, hreadable]
        · have hne : errno' ≠ 0 := Nat.ne_of_gt hpos
          simp only [hne, hmatches, hreadable, List.mem_cons, exists_eq_or_imp]
          tauto
    · rw [if_neg hmatches]
      obtain ⟨hnames, hcode⟩ := ih errno
      refine ⟨?_, fun hnone => (hcode hnone).trans ?_⟩
      · simp [hnames, hmatches]
      · simp only [hmatches, List.mem_cons, exists_eq_or_imp]
        tauto

/-- **The enumeration is complete exactly if** reading the directory fails, or behind every matching
entry whose attributes cannot be read stands one whose attributes can. -/
theorem findAll_complete_iff (searchPathWithPattern : List Char)
    (opendir : Except Errno DirStream) (access : Option Errno) :
    let handle := FindHandle.new searchPathWithPattern
    CompleteEnumeration handle (readDir opendir)
        (findAll handle (findFirstFile handle opendir access)) ↔
      (readDir opendir).failed ≠ none ∨ handle.SkipsFollowed (readDir opendir).entries := by
  intro handle
  cases opendir with
  | error failed =>
    refine iff_of_true ⟨?_, nofun⟩ (.inl nofun)
    rw [findFirstFile, findAll]
    rfl
  | ok dir =>
    obtain ⟨hnames, hcode⟩ := findAll_findNextLoop handle dir.failed 0 dir.entries
    have hcomplete : CompleteEnumeration handle dir
        (findAll handle (findFirstFile handle (.ok dir) access)) ↔
        (dir.failed = none → handle.SkipsFollowed dir.entries) := by
      constructor
      · intro h hnone
        exact ((hcode hnone).1 (h.code hnone)).2
      · intro h
        exact ⟨hnames, fun hnone => (hcode hnone).2 ⟨.inl rfl, h hnone⟩⟩
    exact hcomplete.trans imp_iff_not_or

/-- A directory that may be read but not searched: the last result is an error. -/
theorem findAll_not_complete : ¬ ∀ (searchPathWithPattern : List Char)
    (opendir : Except Errno DirStream) (access : Option Errno),
    CompleteEnumeration (.new searchPathWithPattern) (readDir opendir)
      (findAll (.new searchPathWithPattern)
        (findFirstFile (.new searchPathWithPattern) opendir access)) := by
  intro h
  let eacces : Errno := ⟨13, by decide⟩
  let entry : DirEntry := ⟨['a'], .error eacces, .error eacces, .error eacces, none, 0⟩
  have hcode := (h "d/*".toList (.ok ⟨[entry], none⟩) none).code rfl
  rw [findFirstFile, findNextFile, show findNextLoop (.new "d/*".toList) none 0 [entry] =
    .failed .accessDenied from rfl, findAll] at hcode
  cases hcode

end File

end Il2Cpp
