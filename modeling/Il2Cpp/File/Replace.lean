import Il2Cpp.File.Copy

/-!
# Moving and replacing files

`File::MoveFile` renames a file, or copies it and deletes the source where the paths are on two
devices.  `File::ReplaceFile` renames twice, and goes back when the second time fails.

* `moveFile`, `replaceFile` : the functions.
* `MoveAllOrNothing`, `ReplaceAllOrNothing` : either everything is done, or nothing is changed.
* `allOrNothing_iff` : the runs in which that is so.
-/

namespace Il2Cpp

namespace File

/-! ### Paths -/

/-- `EXDEV`. -/
def exdev : ℕ := 18

namespace FileSystem

variable (fs : FileSystem)

/-- What is found at a path. -/
def view (path : String) : Option (List UInt8) := (fs.resolve path).map fs.contents

/-- `stat`; `failed` is an error number if it fails for a reason of its own. -/
def stat (failed : Option ℕ) (path : String) : Except ℕ ℕ :=
  match failed, fs.resolve path with
  | some errno, _ => .error errno
  | none, none => .error enoent
  | none, some file => .ok file

def unlinked (path : String) : FileSystem where
  resolve := Function.update fs.resolve path none
  contents := fs.contents
  next := fs.next
  resolve_lt p file h := by
    by_cases hp : p = path
    · rw [hp, Function.update_self] at h
      cases h
    · rw [Function.update_of_ne hp] at h
      exact fs.resolve_lt p file h

/-- The new path leads to the file, and the old one to none. -/
def renamed (old new : String) : FileSystem where
  resolve := Function.update (Function.update fs.resolve new (fs.resolve old)) old none
  contents := fs.contents
  next := fs.next
  resolve_lt p file h := by
    by_cases hold : p = old
    · rw [hold, Function.update_self] at h
      cases h
    · rw [Function.update_of_ne hold] at h
      by_cases hnew : p = new
      · rw [hnew, Function.update_self] at h
        exact fs.resolve_lt old file h
      · rw [Function.update_of_ne hnew] at h
        exact fs.resolve_lt p file h

/-- `unlink` -/
def unlink (failed : Option ℕ) (path : String) : Except ℕ FileSystem :=
  (fs.stat failed path).map fun _ => fs.unlinked path

/-- `rename`, which does nothing where both paths lead to one file. -/
def rename (failed : Option ℕ) (old new : String) : Except ℕ FileSystem :=
  (fs.stat failed old).map fun file =>
    if fs.resolve new = some file then fs else fs.renamed old new

end FileSystem

/-! ### The functions -/

/-- `*error`. -/
inductive MoveError
  | success
  | alreadyExists
  | notSameDevice
  | accessDenied
  | copy (error : Option CopyError)
  /-- `PathErrnoToErrorCode` -/
  | path (errno : ℕ)
  deriving DecidableEq

/-- The `struct stat` of the files. -/
structure Attributes where
  stat : ℕ → Stat
  isDirectory : ℕ → Bool
  readOnly : ℕ → Bool

structure DeleteCalls where
  stat : Option ℕ
  /-- `lstat`, after a `stat` that has found nothing -/
  lstatDangling : Option ℕ
  lstat : Option ℕ
  /-- the attribute in a `struct stat` that was not filled in -/
  readOnly : Bool
  unlink : Option ℕ

/-- `GetStatAndLinkStat`; the file of the `struct stat`, or `none` if it was not filled in. -/
def getStatAndLinkStat (calls : DeleteCalls) (fs : FileSystem) (path : String) :
    Except ℕ (Option ℕ) :=
  let linkStat := fs.stat calls.lstat path
  match fs.stat calls.stat path with
  | .ok file => linkStat.map fun _ => some file
  | .error errno =>
    if errno = enoent then
      match fs.stat calls.lstatDangling path with
      | .ok file => linkStat.map fun _ => some file
      | .error errno => .error errno
    else linkStat.map fun _ => none

/-- `File::DeleteFile` -/
def deleteFile (calls : DeleteCalls) (attributes : Attributes) (fs : FileSystem) (path : String) :
    FileSystem × Bool × MoveError :=
  match getStatAndLinkStat calls fs path with
  | .error errno => (fs, false, .path errno)
  | .ok pathStat =>
    if pathStat.elim calls.readOnly attributes.readOnly then (fs, false, .accessDenied)
    else
      match fs.unlink calls.unlink path with
      | .error errno => (fs, false, .path errno)
      | .ok fs => (fs, true, .success)

structure MoveCalls where
  statSrc : Option ℕ
  statDest : Option ℕ
  rename : Option ℕ
  copy : CopyCalls
  delete : DeleteCalls

/-- `File::MoveFile` where the paths are on two devices. -/
def copyAndDelete (calls : MoveCalls) (attributes : Attributes) (fs : FileSystem)
    (src dest : String) : Option (FileSystem × Bool × MoveError) :=
  (copyFile calls.copy fs src dest true).map fun result => match result with
    | (fs, false, error) => (fs, false, .copy error)
    | (fs, true, _) => deleteFile calls.delete attributes fs src

/-- `File::MoveFile` from its `rename` on. -/
def renameOrCopy (calls : MoveCalls) (attributes : Attributes) (fs : FileSystem) (srcFile : ℕ)
    (src dest : String) : Option (FileSystem × Bool × MoveError) :=
  match fs.rename calls.rename src dest with
  | .ok fs => some (fs, true, .success)
  | .error errno =>
    if errno = eexist then some (fs, false, .alreadyExists)
    else if errno = exdev then
      if attributes.isDirectory srcFile then some (fs, false, .notSameDevice)
      else copyAndDelete calls attributes fs src dest
    else some (fs, false, .path errno)

/-- `File::MoveFile` -/
def moveFile {P : Type} (calls : MoveCalls) (attributes : Attributes) (handles : State P)
    (fs : FileSystem) (src dest : String) : Option (FileSystem × Bool × MoveError) :=
  match fs.stat calls.statSrc src with
  | .error errno => some (fs, false, .path errno)
  | .ok srcFile =>
    if (fs.stat calls.statDest dest).toOption.any (· ≠ srcFile) then
      some (fs, false, .alreadyExists)
    else
      (handles.shareAllowOpen (attributes.stat srcFile) kFileShareNone kFileAccessWrite).bind
        fun allowed =>
          if !allowed then some (fs, false, .success)
          else renameOrCopy calls attributes fs srcFile src dest

structure ReplaceCalls where
  openBackup : Option ℕ
  renameDest : Option ℕ
  renameSource : Option ℕ
  /-- the calls that go back -/
  renameBackup : Option ℕ
  fstat : Except ℕ ℤ
  openRestored : Option ℕ
  transfers : List Transfer

/-- The backup's old data is written to it again; `errno` afterwards. -/
def restoreBackup (calls : ReplaceCalls) (fs : FileSystem) (file : ℕ) (backup : String)
    (errno : ℕ) : Option (FileSystem × ℕ) :=
  match calls.fstat with
  | .error errno => some (fs, errno)
  | .ok blksize =>
    match fs.openDest backup true false true calls.openRestored with
    | .error errno => some (fs, errno)
    | .ok (fs, destFile) =>
      (copyLoop (copyBufferSize blksize) file destFile fs 0 0 [] calls.transfers).map fun
        | (fs, .error (.file errno)) => (fs, errno)
        | (fs, _) => (fs, errno)

/-- `File::ReplaceFile`; the backup's path is empty if there is none. -/
def replaceFile (calls : ReplaceCalls) (fs : FileSystem) (source destination backup : String) :
    Option (FileSystem × Bool × MoveError) :=
  let backupFile := backup ≠ ""
  let backupFd := if backupFile then (fs.stat calls.openBackup backup).toOption else none
  match if backupFile then fs.rename calls.renameDest destination backup else .ok fs with
  | .error errno => some (fs, false, .path errno)
  | .ok fs =>
    match fs.rename calls.renameSource source destination with
    | .ok fs => some (fs, true, .success)
    | .error errno =>
      let (fs, errno) :=
        if backupFile then
          match fs.rename calls.renameBackup backup destination with
          | .ok fs => (fs, errno)
          | .error errno => (fs, errno)
        else (fs, errno)
      match backupFd with
      | none => some (fs, false, .path errno)
      | some file =>
        (restoreBackup calls fs file backup errno).map fun (fs, errno) => (fs, false, .path errno)

/-! ### Paths that are renamed -/

namespace FileSystem

variable {fs fs' : FileSystem} {path old new : String} {failed : Option ℕ} {file errno : ℕ}

theorem stat_eq_ok :
    fs.stat failed path = .ok file ↔ failed = none ∧ fs.resolve path = some file := by
  cases failed with
  | some errno => simp [stat]
  | none => cases h : fs.resolve path <;> simp [stat, h]

theorem stat_eq_error (h : fs.stat failed path = .error errno) :
    failed ≠ none ∨ fs.resolve path = none := by
  by_contra hfound
  obtain ⟨hfailed, hresolve⟩ := not_or.1 hfound
  obtain ⟨file, hfile⟩ := Option.ne_none_iff_exists'.1 hresolve
  cases (stat_eq_ok.2 ⟨not_not.1 hfailed, hfile⟩).symm.trans h

theorem rename_eq_ok (h : fs.rename failed old new = .ok fs') :
    failed = none ∧ ∃ file, fs.resolve old = some file ∧
      fs' = if fs.resolve new = some file then fs else fs.renamed old new := by
  cases hstat : fs.stat failed old with
  | error errno =>
    rw [rename, hstat] at h
    cases h
  | ok file =>
    rw [rename, hstat] at h
    obtain ⟨hfailed, hresolve⟩ := stat_eq_ok.1 hstat
    exact ⟨hfailed, file, hresolve, (Except.ok.inj h).symm⟩

theorem rename_eq_error (h : fs.rename failed old new = .error errno) :
    failed ≠ none ∨ fs.resolve old = none := by
  cases hstat : fs.stat failed old with
  | error errno => exact stat_eq_error hstat
  | ok file =>
    rw [rename, hstat] at h
    cases h

theorem rename_eq_error_of_found (h : fs.rename failed old new = .error errno)
    (hfound : fs.resolve old = some file) : failed = some errno := by
  cases failed with
  | none =>
    rw [rename, stat_eq_ok.2 ⟨rfl, hfound⟩] at h
    cases h
  | some failed =>
    cases h
    rfl

@[simp] theorem resolve_renamed_old : (fs.renamed old new).resolve old = none :=
  Function.update_self ..

theorem resolve_renamed_new (h : new ≠ old) : (fs.renamed old new).resolve new = fs.resolve old :=
  (Function.update_of_ne h ..).trans (Function.update_self ..)

theorem resolve_renamed_of_ne (hold : path ≠ old) (hnew : path ≠ new) :
    (fs.renamed old new).resolve path = fs.resolve path :=
  (Function.update_of_ne hold ..).trans (Function.update_of_ne hnew ..)

@[simp] theorem contents_renamed : (fs.renamed old new).contents = fs.contents := rfl

theorem view_congr (hresolve : fs'.resolve path = fs.resolve path)
    (hcontents : ∀ file, fs.resolve path = some file → fs'.contents file = fs.contents file) :
    fs'.view path = fs.view path := by
  cases h : fs.resolve path with
  | none => simp [view, hresolve, h]
  | some file => simp [view, hresolve, h, hcontents file h]

theorem view_eq_none : fs.view path = none ↔ fs.resolve path = none := Option.map_eq_none_iff

theorem view_eq_some (h : fs.resolve path = some file) : fs.view path = some (fs.contents file) :=
  congrArg (Option.map fs.contents) h

theorem view_eq_view (h : fs.resolve old = fs.resolve new) : fs.view old = fs.view new :=
  congrArg (Option.map fs.contents) h

theorem resolve_ne_none_of_rename (h : fs.rename failed old new = .ok fs') :
    fs'.resolve new ≠ none := by
  obtain ⟨-, file, hfile, rfl⟩ := rename_eq_ok h
  split_ifs with hsame
  · simp [hsame]
  · have hne : new ≠ old := by
      rintro rfl
      exact hsame hfile
    simp [resolve_renamed_new hne, hfile]

theorem renamed_back (fs : FileSystem) (hne : new ≠ old) :
    ((fs.renamed old new).renamed new old).resolve new = none ∧
      ∀ path, path ≠ new → ((fs.renamed old new).renamed new old).view path = fs.view path := by
  refine ⟨resolve_renamed_old, fun path hnew => view_congr ?_ fun _ _ => rfl⟩
  by_cases hold : path = old
  · rw [hold, resolve_renamed_new (Ne.symm hne), resolve_renamed_new hne]
  · rw [resolve_renamed_of_ne hnew hold, resolve_renamed_of_ne hold hnew]

theorem view_set_self (bytes : List UInt8) (h : fs.resolve path = some file) :
    (fs.set file bytes).view path = some bytes := by
  rw [view, resolve_set, h, Option.map_some, contents_set_self]

theorem view_set_of_empty (h : fs.contents file = []) (path : String) :
    (fs.set file []).view path = fs.view path := by
  refine view_congr rfl fun other _ => ?_
  by_cases hother : other = file
  · rw [hother, contents_set_self, h]
  · exact contents_set_of_ne hother _

theorem moved_iff_of_rename (h : fs.rename failed old new = .ok fs') :
    (old = new ∨ fs'.resolve old = none) ∧ fs'.view new = fs.view old ↔
      (fs.resolve old = fs.resolve new → old = new) := by
  obtain ⟨-, file, hfile, rfl⟩ := rename_eq_ok h
  split_ifs with hsame
  · have hlinked : fs.resolve old = fs.resolve new := hfile.trans hsame.symm
    constructor
    · rintro ⟨hpath | hgone, -⟩ -
      · exact hpath
      · cases hfile.symm.trans hgone
    · intro hpath
      exact ⟨.inl (hpath hlinked), view_eq_view hlinked.symm⟩
  · have hne : fs.resolve old ≠ fs.resolve new := fun h => hsame (h.symm.trans hfile)
    have hpath : new ≠ old := fun h => hne (congrArg fs.resolve h.symm)
    refine iff_of_true ⟨.inr resolve_renamed_old, ?_⟩ fun h => absurd h hne
    exact congrArg (Option.map fs.contents) (resolve_renamed_new hpath)

end FileSystem

/-! ### Transfers that do not fail -/

def Transfer.fails : Transfer → Bool
  | .upTo _ => false
  | .failed _ => true

section Loop

variable {bufferSize src dest srcOffset destOffset : ℕ} {buffer : List UInt8}
  {transfers : List Transfer} {fs fs' : FileSystem} {result : Except CopyError Unit}

theorem copyLoop_frame (h : copyLoop bufferSize src dest fs srcOffset destOffset buffer transfers =
    some (fs', result)) :
    fs'.resolve = fs.resolve ∧ ∀ file, file ≠ dest → fs'.contents file = fs.contents file := by
  induction transfers generalizing fs srcOffset destOffset buffer with
  | nil => cases h
  | cons call calls ih =>
    by_cases hempty : buffer = []
    · cases call with
      | failed errno =>
        rw [copyLoop, if_pos hempty] at h
        cases h
        exact ⟨rfl, fun _ _ => rfl⟩
      | upTo n =>
        rw [copyLoop, if_pos hempty] at h
        simp only at h
        split_ifs at h with hend
        · cases h
          exact ⟨rfl, fun _ _ => rfl⟩
        · exact ih h
    · cases call with
      | failed errno =>
        rw [copyLoop, if_neg hempty] at h
        split_ifs at h with hintr
        · exact ih h
        · cases h
          exact ⟨rfl, fun _ _ => rfl⟩
      | upTo n =>
        rw [copyLoop, if_neg hempty] at h
        obtain ⟨hresolve, hcontents⟩ := ih h
        exact ⟨hresolve, fun file hfile =>
          (hcontents file hfile).trans (fs.contents_writeAt_of_ne hfile _ _)⟩

theorem copyLoop_ok (hcalls : ∀ call ∈ transfers, call.fails = false)
    (h : copyLoop bufferSize src dest fs srcOffset destOffset buffer transfers =
      some (fs', result)) : result = .ok () := by
  induction transfers generalizing fs srcOffset destOffset buffer with
  | nil => cases h
  | cons call calls ih =>
    obtain ⟨hcall, hrest⟩ := List.forall_mem_cons.1 hcalls
    cases call with
    | failed errno => cases hcall
    | upTo n =>
      rw [copyLoop] at h
      by_cases hempty : buffer = []
      · rw [if_pos hempty] at h
        simp only at h
        split_ifs at h with hend
        · cases h
          rfl
        · exact ih hrest h
      · rw [if_neg hempty] at h
        exact ih hrest h

end Loop

/-! ### Moving -/

/-- `MoveFile` has done everything, or nothing. -/
def MoveAllOrNothing (fs fs' : FileSystem) (src dest : String) : Bool → Prop
  | false => fs'.view src = fs.view src ∧ fs'.view dest = fs.view dest
  | true => (src = dest ∨ fs'.resolve src = none) ∧ fs'.view dest = fs.view src

/-- How many calls fail.  A `rename` that says that there are two devices is not one of them. -/
def MoveCalls.failures (calls : MoveCalls) : ℕ :=
  [calls.statSrc, calls.statDest, calls.rename.filter (· ≠ exdev), calls.copy.openSrc,
    calls.copy.openDest, calls.copy.openDestCreate, calls.delete.stat, calls.delete.lstatDangling,
    calls.delete.lstat, calls.delete.unlink].countP (·.isSome) +
  (if calls.copy.fstat.toOption = none then 1 else 0) + calls.copy.transfers.countP (·.fails)

/-- `CopyFile` opens the destination, and so creates it or truncates it. -/
def CopyCalls.Opens (calls : CopyCalls) (fs : FileSystem) (dest : String) : Prop :=
  calls.openSrc = none ∧ (∃ blksize, calls.fstat = .ok blksize) ∧
    ∃ opened, openCopyDest calls fs dest true = .ok opened

/-- `MoveFile` comes to its `rename`. -/
structure MoveCalls.ComesToRename {P : Type} (calls : MoveCalls) (attributes : Attributes)
    (handles : State P) (fs : FileSystem) (src dest : String) (srcFile : ℕ) : Prop where
  stat_src : fs.stat calls.statSrc src = .ok srcFile
  stat_dest : (fs.stat calls.statDest dest).toOption.any (· ≠ srcFile) = false
  share : handles.shareAllowOpen (attributes.stat srcFile) kFileShareNone kFileAccessWrite =
    some true

/-- When `MoveFile` does everything or nothing.  What fails after the destination has been opened
is not undone. -/
def MoveKeeps {P : Type} (calls : MoveCalls) (attributes : Attributes) (handles : State P)
    (fs : FileSystem) (src dest : String) : Prop :=
  ∀ srcFile, calls.ComesToRename attributes handles fs src dest srcFile →
    (calls.rename = none → fs.resolve src = fs.resolve dest → src = dest) ∧
    (calls.rename = some exdev → attributes.isDirectory srcFile = false →
      calls.copy.Opens fs dest →
        (∃ copied error, copyFile calls.copy fs src dest true = some (copied, true, error)) ∧
        ((deleteFile calls.delete attributes fs src).2.1 = true ∨ fs.view dest = fs.view src))

section Move

variable {calls : MoveCalls} {attributes : Attributes} {fs fs' : FileSystem} {src dest : String}
  {srcFile : ℕ} {result : Bool} {error : MoveError}

theorem deleteFile_congr (calls : DeleteCalls) (attributes : Attributes)
    (h : fs'.resolve src = fs.resolve src) :
    (deleteFile calls attributes fs' src).2 = (deleteFile calls attributes fs src).2 := by
  have hstat : ∀ failed, fs'.stat failed src = fs.stat failed src := fun failed => by
    simp only [FileSystem.stat, h]
  have hboth : getStatAndLinkStat calls fs' src = getStatAndLinkStat calls fs src := by
    simp only [getStatAndLinkStat, hstat]
  rw [deleteFile, deleteFile, hboth]
  cases getStatAndLinkStat calls fs src with
  | error errno => rfl
  | ok pathStat =>
    simp only [FileSystem.unlink, hstat]
    split_ifs
    · rfl
    · cases fs.stat calls.unlink src <;> rfl

theorem deleteFile_fst (calls : DeleteCalls) (attributes : Attributes) (fs : FileSystem)
    (src : String) :
    (deleteFile calls attributes fs src).1 =
      if (deleteFile calls attributes fs src).2.1 then fs.unlinked src else fs := by
  rw [deleteFile]
  cases getStatAndLinkStat calls fs src with
  | error errno => rfl
  | ok pathStat =>
    simp only [FileSystem.unlink]
    split_ifs with hreadOnly hdeleted hdeleted
    · cases hdeleted
    · rfl
    · cases hstat : fs.stat calls.unlink src with
      | error errno => simp [hstat, Except.map] at hdeleted
      | ok file => rfl
    · cases hstat : fs.stat calls.unlink src with
      | error errno => rfl
      | ok file => simp [hstat, Except.map] at hdeleted

theorem copyFile_cases {calls : CopyCalls} {error : Option CopyError}
    (hsrc : fs.resolve src = some srcFile)
    (h : copyFile calls fs src dest true = some (fs', result, error)) :
    (¬ calls.Opens fs dest ∧ fs' = fs ∧ result = false) ∨
      ∃ opened destFile bufferSize copied, calls.Opens fs dest ∧
        fs.Opened opened dest destFile ∧
        copyLoop bufferSize srcFile destFile opened 0 0 [] calls.transfers = some (fs', copied) ∧
        (copied = .ok () → result = true) := by
  rw [copyFile] at h
  cases hopen : calls.openSrc with
  | some errno =>
    rw [hopen] at h
    cases h
    exact .inl ⟨fun hopens => by simp [CopyCalls.Opens, hopen] at hopens, rfl, rfl⟩
  | none =>
    rw [hopen, hsrc] at h
    simp only at h
    cases hstat : calls.fstat with
    | error errno =>
      rw [hstat] at h
      cases h
      exact .inl ⟨fun hopens => by simp [CopyCalls.Opens, hstat] at hopens, rfl, rfl⟩
    | ok blksize =>
      rw [hstat] at h
      simp only at h
      cases hdest : openCopyDest calls fs dest true with
      | error errno =>
        rw [hdest] at h
        cases h
        exact .inl ⟨fun hopens => by simp [CopyCalls.Opens, hdest] at hopens, rfl, rfl⟩
      | ok opened =>
        obtain ⟨opened, destFile, error'⟩ := opened
        rw [hdest] at h
        obtain ⟨⟨copied, outcome⟩, hloop, hresult⟩ := Option.map_eq_some_iff.1 h
        have hopens : calls.Opens fs dest := ⟨hopen, ⟨blksize, hstat⟩, _, hdest⟩
        refine .inr ⟨opened, destFile, copyBufferSize blksize, outcome, hopens,
          (opened_of_openCopyDest hdest).1, ?_, ?_⟩
        · cases outcome <;> cases hresult <;> exact hloop
        · rintro rfl
          cases hresult
          rfl

theorem Copied.view_eq (h : Copied fs fs' src dest) :
    fs'.view dest = fs.view src ∧ fs'.view src = fs.view src := by
  obtain ⟨srcFile, destFile, hsrc, hsrc', hdest', hcopied, hkept⟩ := h
  rw [FileSystem.view_eq_some hsrc, FileSystem.view_eq_some hsrc', FileSystem.view_eq_some hdest',
    hcopied, hkept]
  exact ⟨rfl, rfl⟩

theorem MoveCalls.statDest_eq_none {call : Transfer} (hfailures : calls.failures ≤ 1)
    (hcall : call ∈ calls.copy.transfers) (hfails : call.fails = true) : calls.statDest = none := by
  by_contra hstat
  have htransfers : 0 < calls.copy.transfers.countP (·.fails) :=
    List.countP_pos_iff.2 ⟨call, hcall, hfails⟩
  have hcalls := List.countP_pos_iff (p := (·.isSome)) (l := [calls.statSrc, calls.statDest,
    calls.rename.filter (· ≠ exdev), calls.copy.openSrc, calls.copy.openDest,
    calls.copy.openDestCreate, calls.delete.stat, calls.delete.lstatDangling, calls.delete.lstat,
    calls.delete.unlink]).2 ⟨calls.statDest, by simp, Option.isSome_iff_ne_none.2 hstat⟩
  rw [failures] at hfailures
  omega

theorem MoveCalls.ComesToRename.resolve_dest {P : Type} {handles : State P}
    (h : calls.ComesToRename attributes handles fs src dest srcFile)
    (hstat : calls.statDest = none) (hne : fs.resolve dest ≠ some srcFile) :
    fs.resolve dest = none := by
  by_contra hfound
  obtain ⟨destFile, hdest⟩ := Option.ne_none_iff_exists'.1 hfound
  have hsame := h.stat_dest
  rw [FileSystem.stat_eq_ok.2 ⟨hstat, hdest⟩] at hsame
  simp only [Except.toOption, Option.any_some, decide_eq_false_iff_not, not_not] at hsame
  exact hne (hdest.trans (congrArg some hsame))

theorem copyAndDelete_iff {P : Type} {handles : State P} (hfailures : calls.failures ≤ 1)
    (hcomes : calls.ComesToRename attributes handles fs src dest srcFile)
    (hne : fs.resolve dest ≠ some srcFile)
    (h : copyAndDelete calls attributes fs src dest = some (fs', result, error)) :
    MoveAllOrNothing fs fs' src dest result ↔ (calls.copy.Opens fs dest →
      (∃ copied error, copyFile calls.copy fs src dest true = some (copied, true, error)) ∧
      ((deleteFile calls.delete attributes fs src).2.1 = true ∨ fs.view dest = fs.view src)) := by
  have hsrc := (FileSystem.stat_eq_ok.1 hcomes.stat_src).2
  obtain ⟨⟨copied, copyResult, copyError⟩, hcopy, hresult⟩ := Option.map_eq_some_iff.1 h
  cases copyResult with
  | true =>
    have honto : ¬ OntoItself fs src dest true := by
      rintro ⟨-, file, hfile, hdest, -⟩
      exact hne (hdest.trans (hfile.symm.trans hsrc))
    have hcopied := (copyFile_copies_iff hcopy).2 honto
    obtain ⟨hviewDest, hviewSrc⟩ := hcopied.view_eq
    obtain ⟨file, -, hfile, hfile', -⟩ := hcopied
    have hresolve := hfile'.trans hfile.symm
    have hopens : calls.copy.Opens fs dest := by
      obtain ⟨-, -, hfalse⟩ | ⟨-, -, -, -, hopens, -⟩ := copyFile_cases hsrc hcopy
      · cases hfalse
      · exact hopens
    have hdelete := congrArg Prod.fst (deleteFile_congr calls.delete attributes hresolve)
    have hfst := deleteFile_fst calls.delete attributes copied src
    simp only [hresult] at hfst hdelete
    rw [← hdelete]
    cases result with
    | true =>
      obtain rfl : fs' = copied.unlinked src := hfst
      have hpath : dest ≠ src := by
        rintro rfl
        exact hne hsrc
      refine iff_of_true ⟨.inr (Function.update_self ..), ?_⟩ fun _ => ⟨⟨_, _, hcopy⟩, .inl rfl⟩
      rw [← hviewDest]
      exact FileSystem.view_congr (Function.update_of_ne hpath ..) fun _ _ => rfl
    | false =>
      obtain rfl : fs' = copied := hfst
      constructor
      · rintro ⟨-, hkept⟩ -
        exact ⟨⟨_, _, hcopy⟩, .inr (hkept.symm.trans hviewDest)⟩
      · intro hkeeps
        obtain ⟨-, hdeleted | hsame⟩ := hkeeps hopens
        · cases hdeleted
        · exact ⟨hviewSrc, hviewDest.trans hsame.symm⟩
  | false =>
    cases hresult
    obtain ⟨hopens, rfl, -⟩ | ⟨opened, destFile, _, outcome, hopens, hopened, hloop, houtcome⟩ :=
      copyFile_cases hsrc hcopy
    · exact iff_of_true ⟨rfl, rfl⟩ fun h => absurd h hopens
    · -- the destination is there, and was not
      refine iff_of_false ?_ fun hkeeps => ?_
      · rintro ⟨-, hkept⟩
        obtain ⟨call, hcall, hfails⟩ : ∃ call ∈ calls.copy.transfers, call.fails = true := by
          by_contra hnone
          push Not at hnone
          have hok := copyLoop_ok (fun call hcall => eq_false_of_ne_true (hnone call hcall)) hloop
          cases houtcome hok
        have hmissing := hcomes.resolve_dest
          (MoveCalls.statDest_eq_none hfailures hcall hfails) hne
        rw [FileSystem.view_eq_none.2 hmissing, FileSystem.view_eq_none,
          (copyLoop_frame hloop).1, hopened.resolve_dest] at hkept
        cases hkept
      · obtain ⟨⟨copied, error, hdone⟩, -⟩ := hkeeps hopens
        cases hcopy.symm.trans hdone

theorem moveFile_cases {P : Type} {handles : State P}
    (h : moveFile calls attributes handles fs src dest = some (fs', result, error)) :
    (fs' = fs ∧ result = false ∧
        ∀ srcFile, ¬ calls.ComesToRename attributes handles fs src dest srcFile) ∨
      ∃ srcFile, calls.ComesToRename attributes handles fs src dest srcFile ∧
        renameOrCopy calls attributes fs srcFile src dest = some (fs', result, error) := by
  rw [moveFile] at h
  cases hsrc : fs.stat calls.statSrc src with
  | error errno =>
    rw [hsrc] at h
    cases h
    exact .inl ⟨rfl, rfl, fun file hcomes => by cases hsrc.symm.trans hcomes.stat_src⟩
  | ok srcFile =>
    rw [hsrc] at h
    simp only at h
    have hunique : ∀ {file}, calls.ComesToRename attributes handles fs src dest file →
        file = srcFile := fun hcomes => Except.ok.inj (hcomes.stat_src.symm.trans hsrc)
    split_ifs at h with hdest
    · cases h
      refine .inl ⟨rfl, rfl, fun file hcomes => ?_⟩
      obtain rfl := hunique hcomes
      cases hdest.symm.trans hcomes.stat_dest
    · obtain ⟨allowed, hshare, h⟩ := Option.bind_eq_some_iff.1 h
      cases allowed with
      | false =>
        cases h
        refine .inl ⟨rfl, rfl, fun file hcomes => ?_⟩
        obtain rfl := hunique hcomes
        cases hshare.symm.trans hcomes.share
      | true => exact .inr ⟨srcFile, ⟨hsrc, eq_false_of_ne_true hdest, hshare⟩, h⟩

/-- **`MoveFile`** where at most one call fails, and a `rename` between two devices is one between
two files. -/
theorem moveFile_keeps_iff {P : Type} {handles : State P} (hfailures : calls.failures ≤ 1)
    (hdevices : calls.rename = some exdev → fs.resolve src ≠ fs.resolve dest)
    (h : moveFile calls attributes handles fs src dest = some (fs', result, error)) :
    MoveAllOrNothing fs fs' src dest result ↔
      MoveKeeps calls attributes handles fs src dest := by
  obtain ⟨rfl, rfl, hnever⟩ | ⟨srcFile, hcomes, h⟩ := moveFile_cases h
  · exact iff_of_true ⟨rfl, rfl⟩ fun srcFile hcomes => absurd hcomes (hnever srcFile)
  have hsrc := (FileSystem.stat_eq_ok.1 hcomes.stat_src).2
  have hkeeps : MoveKeeps calls attributes handles fs src dest ↔ _ :=
    ⟨fun hkeeps => hkeeps srcFile hcomes, fun hkeeps file hfile => by
      obtain rfl := Except.ok.inj (hfile.stat_src.symm.trans hcomes.stat_src)
      exact hkeeps⟩
  rw [hkeeps]
  rw [renameOrCopy] at h
  cases hrename : fs.rename calls.rename src dest with
  | ok renamed =>
    rw [hrename] at h
    cases h
    have hnone := (FileSystem.rename_eq_ok hrename).1
    simp only [hnone, reduceCtorEq, false_implies, and_true, true_implies]
    exact FileSystem.moved_iff_of_rename hrename
  | error errno =>
    have hfailed : calls.rename = some errno := FileSystem.rename_eq_error_of_found hrename hsrc
    rw [hrename] at h
    simp only at h
    simp only [hfailed, reduceCtorEq, false_implies, true_and, Option.some.injEq]
    split_ifs at h with hexists hexdev hdirectory
    · cases h
      exact iff_of_true ⟨rfl, rfl⟩ fun hexdev => absurd (hexists.symm.trans hexdev) (by decide)
    · cases h
      exact iff_of_true ⟨rfl, rfl⟩ fun _ hdir => absurd hdirectory (by simp [hdir])
    · subst hexdev
      have hne : fs.resolve dest ≠ some srcFile := fun h =>
        hdevices hfailed (hsrc.trans h.symm)
      rw [copyAndDelete_iff hfailures hcomes hne h]
      simp [eq_false_of_ne_true hdirectory]
    · cases h
      exact iff_of_true ⟨rfl, rfl⟩ fun h => absurd h hexdev

end Move

/-! ### Replacing -/

/-- `ReplaceFile` has done everything, or nothing. -/
def ReplaceAllOrNothing (fs fs' : FileSystem) (source destination backup : String) : Bool → Prop
  | false => fs'.view source = fs.view source ∧ fs'.view destination = fs.view destination ∧
      (backup ≠ "" → fs'.view backup = fs.view backup)
  | true => ((source = destination ∨ fs'.resolve source = none) ∧
      fs'.view destination = fs.view source) ∧
      (backup ≠ "" → fs'.view backup = fs.view destination)

/-- The calls that go back do not fail. -/
structure ReplaceCalls.RollsBack (calls : ReplaceCalls) : Prop where
  renameBackup : calls.renameBackup = none
  fstat : ∃ blksize, calls.fstat = .ok blksize
  openRestored : calls.openRestored = none
  transfers : ∀ call ∈ calls.transfers, call.fails = false

/-- The backup and the destination are one file.  What fails afterwards is not undone: the file is
truncated, and copied onto itself. -/
def LinkedBackupKeeps (calls : ReplaceCalls) (fs : FileSystem)
    (source destination backup : String) : Prop :=
  if calls.renameSource = none ∧ fs.resolve source ≠ none then
    (fs.resolve source = fs.resolve destination → source = destination) ∧
      (backup = destination → fs.view source = fs.view destination)
  else calls.openBackup = none → fs.view destination = some []

/-- The backup is another file than the destination, or is not there. -/
def SeparateBackupKeeps (calls : ReplaceCalls) (fs : FileSystem)
    (source destination backup : String) : Prop :=
  if calls.renameSource = none ∧ source ≠ destination ∧
      (source = backup ∨ fs.resolve source ≠ none) then source ≠ backup
  else calls.openBackup = none ∨ fs.resolve backup = none

/-- When `ReplaceFile` does everything or nothing. -/
def ReplaceKeeps (calls : ReplaceCalls) (fs : FileSystem)
    (source destination backup : String) : Prop :=
  if backup = "" then
    calls.renameSource = none → fs.resolve source ≠ none →
      fs.resolve source = fs.resolve destination → source = destination
  else
    calls.renameDest = none → fs.resolve destination ≠ none →
      if fs.resolve backup = fs.resolve destination then
        LinkedBackupKeeps calls fs source destination backup
      else SeparateBackupKeeps calls fs source destination backup

section Replace

variable {calls : ReplaceCalls} {fs fs' : FileSystem} {source destination backup : String}
  {result : Bool} {error : MoveError}

theorem replaceFile_noBackup
    (h : replaceFile calls fs source destination "" = some (fs', result, error)) :
    ReplaceAllOrNothing fs fs' source destination "" result ↔
      (calls.renameSource = none → fs.resolve source ≠ none →
        fs.resolve source = fs.resolve destination → source = destination) := by
  simp only [replaceFile, ne_eq, not_true_eq_false, ↓reduceIte] at h
  cases hrename : fs.rename calls.renameSource source destination with
  | error errno =>
    rw [hrename] at h
    cases h
    refine iff_of_true ⟨rfl, rfl, fun _ => rfl⟩ fun hnone hfound => ?_
    exact absurd (FileSystem.rename_eq_error hrename) (by simp [hnone, hfound])
  | ok renamed =>
    rw [hrename] at h
    cases h
    obtain ⟨hnone, file, hfile, -⟩ := FileSystem.rename_eq_ok hrename
    have hmoved := FileSystem.moved_iff_of_rename hrename
    constructor
    · rintro ⟨hdone, -⟩ - -
      exact hmoved.1 hdone
    · intro hpath
      exact ⟨hmoved.2 (hpath hnone (by simp [hfile])), fun h => absurd rfl h⟩

theorem restoreBackup_eq {file errno errno' destFile : ℕ} {opened : FileSystem}
    (hback : calls.RollsBack)
    (hopen : fs.openDest backup true false true none = .ok (opened, destFile))
    (h : restoreBackup calls fs file backup errno = some (fs', errno')) :
    ∃ bufferSize, 0 < bufferSize ∧
      copyLoop bufferSize file destFile opened 0 0 [] calls.transfers = some (fs', .ok ()) := by
  obtain ⟨blksize, hstat⟩ := hback.fstat
  rw [restoreBackup, hstat, hback.openRestored, hopen] at h
  obtain ⟨⟨restored, copied⟩, hloop, hresult⟩ := Option.map_eq_some_iff.1 h
  obtain rfl := copyLoop_ok hback.transfers hloop
  cases hresult
  exact ⟨_, copyBufferSize_pos blksize, hloop⟩

theorem restoreBackup_linked {file errno errno' : ℕ} (hback : calls.RollsBack)
    (hfile : fs.resolve backup = some file)
    (h : restoreBackup calls fs file backup errno = some (fs', errno')) : fs' = fs.set file [] := by
  have hopen : fs.openDest backup true false true none = .ok (fs.set file [], file) := by
    simp [FileSystem.openDest, hfile]
  obtain ⟨bufferSize, -, hloop⟩ := restoreBackup_eq hback hopen h
  exact copyLoop_empty (FileSystem.contents_set_self _ _) hloop

theorem restoreBackup_missing {file errno errno' : ℕ} (hback : calls.RollsBack)
    (hmissing : fs.resolve backup = none) (hfile : file < fs.next)
    (h : restoreBackup calls fs file backup errno = some (fs', errno')) :
    fs'.view backup = some (fs.contents file) ∧
      ∀ path, path ≠ backup → fs'.view path = fs.view path := by
  have hopen : fs.openDest backup true false true none = .ok (fs.create backup, fs.next) := by
    simp [FileSystem.openDest, hmissing]
  obtain ⟨bufferSize, hsize, hloop⟩ := restoreBackup_eq hback hopen h
  have hne := Nat.ne_of_lt hfile
  have hempty : (fs.create backup).contents fs.next = [] := Function.update_self ..
  have hother : ∀ other, other ≠ fs.next → (fs.create backup).contents other = fs.contents other :=
    fun other hne => Function.update_of_ne hne ..
  obtain ⟨hcopied, -, hresolve⟩ := copyLoop_spec hsize hne
    (by rw [hempty]; rfl) (by rw [hempty]; rfl) hloop
  obtain ⟨-, hframe⟩ := copyLoop_frame hloop
  constructor
  · rw [FileSystem.view_eq_some ((congrFun hresolve backup).trans (Function.update_self ..)),
      hcopied, hother file hne]
  · intro path hpath
    refine FileSystem.view_congr ((congrFun hresolve path).trans (Function.update_of_ne hpath ..))
      fun old hold => ?_
    have hold := Nat.ne_of_lt (fs.resolve_lt path old hold)
    exact (hframe old hold).trans (hother old hold)

theorem backupFd_eq_none {failed : Option ℕ} :
    (fs.stat failed backup).toOption = none ↔ failed ≠ none ∨ fs.resolve backup = none := by
  cases h : fs.stat failed backup with
  | error errno => exact iff_of_true rfl (FileSystem.stat_eq_error h)
  | ok file => simp [FileSystem.stat_eq_ok.1 h, Except.toOption]

theorem backupFd_eq_some {failed : Option ℕ} {file : ℕ} :
    (fs.stat failed backup).toOption = some file ↔
      failed = none ∧ fs.resolve backup = some file := by
  rw [← FileSystem.stat_eq_ok]
  cases fs.stat failed backup <;> simp [Except.toOption]

/-- What `ReplaceFile` does after the destination has become the backup: the source is renamed, or
the destination is renamed again and the backup is restored. -/
inductive Replaced (calls : ReplaceCalls) (fs renamed fs' : FileSystem)
    (source destination backup : String) : Bool → Prop
  | done : renamed.rename calls.renameSource source destination = .ok fs' →
      Replaced calls fs renamed fs' source destination backup true
  | unopened {errno} : renamed.rename calls.renameSource source destination = .error errno →
      (fs.stat calls.openBackup backup).toOption = none →
      renamed.rename none backup destination = .ok fs' →
      Replaced calls fs renamed fs' source destination backup false
  | restored {errno errno' errno'' file back} :
      renamed.rename calls.renameSource source destination = .error errno →
      (fs.stat calls.openBackup backup).toOption = some file →
      renamed.rename none backup destination = .ok back →
      restoreBackup calls back file backup errno' = some (fs', errno'') →
      Replaced calls fs renamed fs' source destination backup false

theorem replaceFile_cases (hback : calls.RollsBack) (hbackup : backup ≠ "")
    (h : replaceFile calls fs source destination backup = some (fs', result, error)) :
    (∃ errno, fs.rename calls.renameDest destination backup = .error errno) ∧ fs' = fs ∧
        result = false ∨
      ∃ renamed, fs.rename calls.renameDest destination backup = .ok renamed ∧
        Replaced calls fs renamed fs' source destination backup result := by
  simp only [replaceFile, ne_eq, hbackup, not_false_eq_true, ↓reduceIte] at h
  cases hdest : fs.rename calls.renameDest destination backup with
  | error errno =>
    rw [hdest] at h
    cases h
    exact .inl ⟨⟨errno, rfl⟩, rfl, rfl⟩
  | ok renamed =>
    refine .inr ⟨renamed, rfl, ?_⟩
    rw [hdest] at h
    simp only at h
    cases hsource : renamed.rename calls.renameSource source destination with
    | ok replaced =>
      rw [hsource] at h
      cases h
      exact .done hsource
    | error errno =>
      rw [hsource, hback.renameBackup] at h
      simp only at h
      cases hrename : renamed.rename none backup destination with
      | error errno' =>
        have hfound := FileSystem.resolve_ne_none_of_rename hdest
        exact absurd (FileSystem.rename_eq_error hrename) (by simp [hfound])
      | ok back =>
        rw [hrename] at h
        simp only at h
        cases hfd : (fs.stat calls.openBackup backup).toOption with
        | none =>
          rw [hfd] at h
          cases h
          exact .unopened hsource hfd hrename
        | some file =>
          rw [hfd] at h
          obtain ⟨⟨restored, errno'⟩, hrestore, hresult⟩ := Option.map_eq_some_iff.1 h
          cases hresult
          exact .restored hsource hfd hrename hrestore

theorem replaced_linked_iff {file : ℕ} (hback : calls.RollsBack) (hbackup : backup ≠ "")
    (hlinked : fs.resolve backup = fs.resolve destination)
    (hdest : fs.resolve destination = some file)
    (h : Replaced calls fs fs fs' source destination backup result) :
    ReplaceAllOrNothing fs fs' source destination backup result ↔
      LinkedBackupKeeps calls fs source destination backup := by
  -- the backup is renamed to the destination, which is the same file
  have hsame : ∀ {back}, fs.rename none backup destination = .ok back → back = fs := by
    intro back hrename
    obtain ⟨-, old, hold, rfl⟩ := FileSystem.rename_eq_ok hrename
    rw [if_pos (hlinked.symm.trans hold)]
  cases h with
  | done hrename =>
    have hmoved := FileSystem.moved_iff_of_rename hrename
    obtain ⟨hnone, src, hsrc, hfs'⟩ := FileSystem.rename_eq_ok hrename
    rw [LinkedBackupKeeps, if_pos ⟨hnone, by simp [hsrc]⟩]
    constructor
    · rintro ⟨hdone, hkept⟩
      refine ⟨hmoved.1 hdone, ?_⟩
      rintro rfl
      exact hdone.2.symm.trans (hkept hbackup)
    · rintro ⟨hpath, hcontents⟩
      have hdone := hmoved.2 hpath
      refine ⟨hdone, fun _ => ?_⟩
      by_cases hb : backup = destination
      · subst hb
        exact hdone.2.trans (hcontents rfl)
      · rw [← FileSystem.view_eq_view hlinked, hfs']
        split_ifs with hdir
        · rfl
        · have hsource : backup ≠ source := by
            rintro rfl
            exact hdir (hlinked.symm.trans hsrc)
          exact FileSystem.view_congr (FileSystem.resolve_renamed_of_ne hsource hb)
            fun _ _ => rfl
  | unopened hfail hfd hrename =>
    obtain rfl := hsame hrename
    have hsource := FileSystem.rename_eq_error hfail
    rw [LinkedBackupKeeps, if_neg fun h => hsource.elim (absurd h.1) h.2]
    refine iff_of_true ⟨rfl, rfl, fun _ => rfl⟩ fun hnone => ?_
    have hgone := (backupFd_eq_none.1 hfd).resolve_left (not_not.2 hnone)
    cases (hgone.symm.trans hlinked).trans hdest
  | restored hfail hfd hrename hrestore =>
    rw [hsame hrename] at hrestore
    have hsource := FileSystem.rename_eq_error hfail
    rw [LinkedBackupKeeps, if_neg fun h => hsource.elim (absurd h.1) h.2]
    obtain ⟨hnone, hold⟩ := backupFd_eq_some.1 hfd
    have hfile := hlinked.trans hdest
    cases hold.symm.trans hfile
    obtain rfl := restoreBackup_linked hback hfile hrestore
    rw [FileSystem.view_eq_some hdest]
    constructor
    · rintro ⟨-, hkept, -⟩ -
      rw [← FileSystem.view_eq_some hdest, ← hkept, FileSystem.view_set_self _ hdest]
    · intro hempty
      have hview := FileSystem.view_set_of_empty (Option.some.inj (hempty hnone))
      exact ⟨hview _, hview _, fun _ => hview _⟩

theorem replaced_separate_iff {file : ℕ} (hback : calls.RollsBack) (hbackup : backup ≠ "")
    (hpath : backup ≠ destination) (hdest : fs.resolve destination = some file)
    (h : Replaced calls fs (fs.renamed destination backup) fs' source destination backup result) :
    ReplaceAllOrNothing fs fs' source destination backup result ↔
      SeparateBackupKeeps calls fs source destination backup := by
  have hgone : (fs.renamed destination backup).resolve destination = none :=
    FileSystem.resolve_renamed_old
  have hnew : (fs.renamed destination backup).resolve backup = some file :=
    (FileSystem.resolve_renamed_new hpath).trans hdest
  obtain ⟨hlost, hviews⟩ := FileSystem.renamed_back fs hpath
  have hrenamed : ∀ {back}, (fs.renamed destination backup).rename none backup destination =
      .ok back → back = (fs.renamed destination backup).renamed backup destination := by
    intro back hrename
    obtain ⟨-, old, -, rfl⟩ := FileSystem.rename_eq_ok hrename
    rw [if_neg (by simp)]
  have hfails : ∀ {errno}, (fs.renamed destination backup).rename calls.renameSource source
      destination = .error errno → ¬ (calls.renameSource = none ∧ source ≠ destination ∧
        (source = backup ∨ fs.resolve source ≠ none)) := by
    rintro errno hfail ⟨hnone, hsource, hfound⟩
    have hmissing := (FileSystem.rename_eq_error hfail).resolve_left (not_not.2 hnone)
    by_cases hb : source = backup
    · rw [hb, hnew] at hmissing
      cases hmissing
    · rw [FileSystem.resolve_renamed_of_ne hsource hb] at hmissing
      exact hfound.resolve_left hb hmissing
  cases h with
  | done hrename =>
    obtain ⟨hnone, src, hsrc, hfs'⟩ := FileSystem.rename_eq_ok hrename
    rw [if_neg (by simp)] at hfs'
    have hsource : source ≠ destination := by
      rintro rfl
      cases hgone.symm.trans hsrc
    by_cases hb : source = backup
    · subst hb
      rw [SeparateBackupKeeps, if_pos ⟨hnone, hsource, .inl rfl⟩]
      refine iff_of_false ?_ fun h => h rfl
      rintro ⟨-, hkept⟩
      rw [hfs', FileSystem.view_eq_some hdest, FileSystem.view,
        FileSystem.resolve_renamed_old] at hkept
      cases hkept hbackup
    · have hsrc' := (FileSystem.resolve_renamed_of_ne hsource hb).symm.trans hsrc
      rw [SeparateBackupKeeps, if_pos ⟨hnone, hsource, .inr (by simp [hsrc'])⟩]
      refine iff_of_true ⟨⟨.inr ?_, ?_⟩, fun _ => ?_⟩ hb
      · rw [hfs', FileSystem.resolve_renamed_old]
      · rw [hfs', FileSystem.view_eq_some hsrc', FileSystem.view,
          FileSystem.resolve_renamed_new (Ne.symm hsource), hsrc]
        rfl
      · rw [hfs', FileSystem.view_eq_some hdest, FileSystem.view,
          FileSystem.resolve_renamed_of_ne (Ne.symm hb) hpath, hnew]
        rfl
  | unopened hfail hfd hrename =>
    rw [SeparateBackupKeeps, if_neg (hfails hfail)]
    obtain rfl := hrenamed hrename
    have hlost := FileSystem.view_eq_none.2 hlost
    constructor
    · rintro ⟨-, -, hkept⟩
      exact .inr (FileSystem.view_eq_none.1 ((hkept hbackup).symm.trans hlost))
    · intro hopen
      have hmissing : fs.resolve backup = none :=
        hopen.elim (fun hnone => (backupFd_eq_none.1 hfd).resolve_left (not_not.2 hnone)) id
      have hkept := hlost.trans (FileSystem.view_eq_none.2 hmissing).symm
      refine ⟨?_, hviews _ (Ne.symm hpath), fun _ => hkept⟩
      by_cases hb : source = backup
      · rw [hb, hkept]
      · exact hviews _ hb
  | restored hfail hfd hrename hrestore =>
    rw [SeparateBackupKeeps, if_neg (hfails hfail)]
    obtain rfl := hrenamed hrename
    obtain ⟨hnone, hold⟩ := backupFd_eq_some.1 hfd
    obtain ⟨hrestored, hframe⟩ :=
      restoreBackup_missing hback hlost (fs.resolve_lt _ _ hold) hrestore
    have hkept := hrestored.trans (FileSystem.view_eq_some hold).symm
    refine iff_of_true ⟨?_, ?_, fun _ => hkept⟩ (.inl hnone)
    · by_cases hb : source = backup
      · rw [hb, hkept]
      · rw [hframe _ hb, hviews _ hb]
    · rw [hframe _ (Ne.symm hpath), hviews _ (Ne.symm hpath)]

/-- **`ReplaceFile`** where the calls that go back do not fail. -/
theorem replaceFile_keeps_iff (hback : calls.RollsBack)
    (h : replaceFile calls fs source destination backup = some (fs', result, error)) :
    ReplaceAllOrNothing fs fs' source destination backup result ↔
      ReplaceKeeps calls fs source destination backup := by
  rw [ReplaceKeeps]
  split_ifs with hbackup hlinked
  · subst hbackup
    exact replaceFile_noBackup h
  all_goals
    obtain ⟨⟨errno, hfail⟩, rfl, rfl⟩ | ⟨renamed, hrename, hreplaced⟩ :=
      replaceFile_cases hback hbackup h
  · refine iff_of_true ⟨rfl, rfl, fun _ => rfl⟩ fun hnone hfound => ?_
    exact absurd (FileSystem.rename_eq_error hfail) (by simp [hnone, hfound])
  · obtain ⟨hnone, file, hfile, rfl⟩ := FileSystem.rename_eq_ok hrename
    rw [if_pos (hlinked.trans hfile)] at hreplaced
    rw [replaced_linked_iff hback hbackup hlinked hfile hreplaced]
    simp [hnone, hfile]
  · refine iff_of_true ⟨rfl, rfl, fun _ => rfl⟩ fun hnone hfound => ?_
    exact absurd (FileSystem.rename_eq_error hfail) (by simp [hnone, hfound])
  · obtain ⟨hnone, file, hfile, rfl⟩ := FileSystem.rename_eq_ok hrename
    rw [if_neg fun h => hlinked (h.trans hfile.symm)] at hreplaced
    have hpath : backup ≠ destination := fun h => hlinked (congrArg fs.resolve h)
    rw [replaced_separate_iff hback hbackup hpath hfile hreplaced]
    simp [hnone, hfile]

end Replace

/-! ### Both functions -/

/-- **All or nothing.**  `MoveFile`, where at most one call fails, and `ReplaceFile`, where the
calls that go back do not fail, do everything or nothing in exactly these runs. -/
theorem allOrNothing_iff {P : Type} (fs fs' : FileSystem) (result : Bool) (error : MoveError) :
    (∀ (calls : MoveCalls) (attributes : Attributes) (handles : State P) (src dest : String),
      calls.failures ≤ 1 → (calls.rename = some exdev → fs.resolve src ≠ fs.resolve dest) →
      moveFile calls attributes handles fs src dest = some (fs', result, error) →
      (MoveAllOrNothing fs fs' src dest result ↔
        MoveKeeps calls attributes handles fs src dest)) ∧
    ∀ (calls : ReplaceCalls) (source destination backup : String),
      calls.RollsBack →
      replaceFile calls fs source destination backup = some (fs', result, error) →
      (ReplaceAllOrNothing fs fs' source destination backup result ↔
        ReplaceKeeps calls fs source destination backup) :=
  ⟨fun _ _ _ _ _ hfailures hdevices h => moveFile_keeps_iff hfailures hdevices h,
    fun _ _ _ _ hback h => replaceFile_keeps_iff hback h⟩

/-- Regular files that may be written. -/
def plainFiles : Attributes := ⟨fun file => ⟨1, file, .other⟩, fun _ => false, fun _ => false⟩

/-- The paths are on two devices. -/
def acrossCalls (transfers : List Transfer) : MoveCalls where
  statSrc := none
  statDest := none
  rename := some exdev
  copy := ⟨none, .ok 4096, none, none, transfers⟩
  delete := ⟨none, none, none, false, none⟩

/-- Nothing fails by itself. -/
def replaceCalls : ReplaceCalls := ⟨none, none, none, none, .ok 4096, none, [.upTo 4]⟩

theorem replaceCalls_rollsBack : replaceCalls.RollsBack :=
  ⟨rfl, ⟨4096, rfl⟩, rfl, by simp [replaceCalls, Transfer.fails]⟩

/-- A file is moved to another device, and a file is replaced. -/
theorem allOrNothing_iff_moved :
    (∃ fs', (∃ error, moveFile (acrossCalls [.upTo 3, .upTo 3, .upTo 3]) plainFiles
        (initial : State Unit) linkedFiles "a" "c" = some (fs', true, error)) ∧
      MoveAllOrNothing linkedFiles fs' "a" "c" true) ∧
    ∃ fs', (∃ error, replaceFile replaceCalls (linkedFiles.create "c") "c" "a" "d" =
        some (fs', true, error)) ∧
      ReplaceAllOrNothing (linkedFiles.create "c") fs' "c" "a" "d" true := by
  obtain ⟨moved, error, hmove⟩ : ∃ moved error,
      moveFile (acrossCalls [.upTo 3, .upTo 3, .upTo 3]) plainFiles (initial : State Unit)
        linkedFiles "a" "c" = some (moved, true, error) := ⟨_, _, rfl⟩
  obtain ⟨replaced, error', hreplace⟩ : ∃ replaced error,
      replaceFile replaceCalls (linkedFiles.create "c") "c" "a" "d" =
        some (replaced, true, error) := ⟨_, _, rfl⟩
  refine ⟨⟨moved, ⟨error, hmove⟩, ?_⟩, replaced, ⟨error', hreplace⟩, ?_⟩
  · refine ((allOrNothing_iff _ _ _ _).1 _ _ _ _ _ (by decide) (by decide) hmove).2
      fun srcFile _ => ⟨nofun, fun _ _ _ => ⟨⟨_, _, rfl⟩, .inl ?_⟩⟩
    rfl
  · refine ((allOrNothing_iff (P := Unit) _ _ _ _).2 _ _ _ _ replaceCalls_rollsBack hreplace).2 ?_
    simp only [ReplaceKeeps, SeparateBackupKeeps, LinkedBackupKeeps]
    decide

/-- A `write` fails for lack of space (28), and the destination stays; and the backup is a second
path to the destination when there is no source, and the file is empty afterwards. -/
theorem not_allOrNothing :
    (¬ ∀ (calls : MoveCalls) (attributes : Attributes) (handles : State Unit)
      (fs fs' : FileSystem) (src dest : String) (result : Bool) (error : MoveError),
      calls.failures ≤ 1 → (calls.rename = some exdev → fs.resolve src ≠ fs.resolve dest) →
      moveFile calls attributes handles fs src dest = some (fs', result, error) →
      MoveAllOrNothing fs fs' src dest result) ∧
    ¬ ∀ (calls : ReplaceCalls) (fs fs' : FileSystem) (source destination backup : String)
      (result : Bool) (error : MoveError),
      calls.RollsBack →
      replaceFile calls fs source destination backup = some (fs', result, error) →
      ReplaceAllOrNothing fs fs' source destination backup result := by
  constructor
  · intro h
    obtain ⟨-, hdest⟩ := h (acrossCalls [.upTo 3, .failed 28]) plainFiles initial linkedFiles _
      "a" "c" false _ (by decide) (by decide) rfl
    cases hdest
  · intro h
    obtain ⟨-, hdest, -⟩ := h replaceCalls linkedFiles _ "missing" "a" "b" false _
      replaceCalls_rollsBack rfl
    cases hdest

end File

end Il2Cpp
