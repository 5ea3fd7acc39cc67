import Il2Cpp.File.SetLength

/-!
# Copying a file

`File::CopyFile` opens the source for reading and the destination for writing, truncated if it is
there, and copies with a buffer, where each `read` and each `write` may transfer a part.

* `FileSystem` : the files and the paths that lead to them.
* `copyLoop` : `InternalCopyFile`; the two loops as one, with what is left of the buffer.
* `copyLoop_spec` : between two different files the loop appends the rest of the source.
* `copyFile_copies_iff` : in which runs the file is copied.
-/

namespace Il2Cpp

namespace File

/-! ### Files and paths -/

/-- The regular files are known by their inodes. -/
structure FileSystem where
  /-- The file that a path leads to, over all links. -/
  resolve : String → Option ℕ
  contents : ℕ → List UInt8
  /-- The inode of the next file that is created. -/
  next : ℕ
  resolve_lt : ∀ path file, resolve path = some file → file < next

namespace FileSystem

variable (fs : FileSystem)

/-- A file gets other contents. -/
def set (file : ℕ) (bytes : List UInt8) : FileSystem :=
  { fs with contents := Function.update fs.contents file bytes }

/-- A new file, which is empty. -/
def create (path : String) : FileSystem where
  resolve := Function.update fs.resolve path (some fs.next)
  contents := Function.update fs.contents fs.next []
  next := fs.next + 1
  resolve_lt p file h := by
    by_cases hp : p = path
    · rw [hp, Function.update_self] at h
      cases h
      exact Nat.lt_succ_self _
    · rw [Function.update_of_ne hp] at h
      exact Nat.lt_succ_of_lt (fs.resolve_lt p file h)

/-- `write` at an offset. -/
def writeAt (file offset : ℕ) (bytes : List UInt8) : FileSystem :=
  let old := fs.contents file
  fs.set file (old.take offset ++ List.replicate (offset - old.length) 0 ++ bytes ++
    old.drop (offset + bytes.length))

/-- `open` for writing; `failed` is an error number if it fails for a reason of its own. -/
def openDest (path : String) (creat excl trunc : Bool) (failed : Option ℕ) :
    Except ℕ (FileSystem × ℕ) :=
  match failed with
  | some errno => .error errno
  | none =>
    match fs.resolve path with
    | some file =>
      if creat && excl then .error eexist
      else .ok (if trunc then fs.set file [] else fs, file)
    | none => if creat then .ok (fs.create path, fs.next) else .error enoent

end FileSystem

/-! ### The function -/

/-- What a `read` or a `write` does: it transfers bytes, at most `n`, or fails. -/
inductive Transfer
  | upTo (n : ℕ)
  | failed (errno : ℕ)

/-- What the calls of a run do: an error number, or `none` when they do not fail by themselves. -/
structure CopyCalls where
  openSrc : Option ℕ
  /-- `fstat`, with `st_blksize` -/
  fstat : Except ℕ ℤ
  openDest : Option ℕ
  /-- the second `open` of the destination -/
  openDestCreate : Option ℕ
  /-- the calls of `read` and `write`, in their order -/
  transfers : List Transfer

/-- `*error`. -/
inductive CopyError
  /-- `PathErrnoToErrorCode` -/
  | path (errno : ℕ)
  /-- `FileErrnoToErrorCode` -/
  | file (errno : ℕ)
  | alreadyExists
  deriving DecidableEq

/-- The size of the buffer. -/
def copyBufferSize (blksize : ℤ) : ℕ :=
  (if blksize < 8192 then 8192 else if blksize > 65536 then 65536 else blksize).toNat

/-- `InternalCopyFile`, with the offsets of the two descriptors and the bytes of the buffer that are
not written yet.  It is at a `read` when there are none. -/
def copyLoop (bufferSize src dest : ℕ) (fs : FileSystem) (srcOffset destOffset : ℕ)
    (buffer : List UInt8) : List Transfer → Option (FileSystem × Except CopyError Unit)
  | [] => none
  | call :: calls =>
    if buffer = [] then
      match call with
      | .failed errno => some (fs, .error (.file errno))
      | .upTo n =>
        -- a `read` that is not at the end of the file transfers something
        let bytes := ((fs.contents src).drop srcOffset).take (min bufferSize (max n 1))
        if bytes = [] then some (fs, .ok ())
        else copyLoop bufferSize src dest fs (srcOffset + bytes.length) destOffset bytes calls
    else
      match call with
      | .failed errno =>
        if errno = eintr then copyLoop bufferSize src dest fs srcOffset destOffset buffer calls
        else some (fs, .error (.file errno))
      | .upTo n =>
        let written := buffer.take n
        copyLoop bufferSize src dest (fs.writeAt dest destOffset written) srcOffset
          (destOffset + written.length) (buffer.drop n) calls

/-- The `open` of the destination, and `*error` after it. -/
def openCopyDest (calls : CopyCalls) (fs : FileSystem) (dest : String) (overwrite : Bool) :
    Except ℕ (FileSystem × ℕ × Option CopyError) :=
  if !overwrite then
    (fs.openDest dest true true false calls.openDest).map fun opened => (opened.1, opened.2, none)
  else
    match fs.openDest dest false false true calls.openDest with
    | .error _ => (fs.openDest dest true false true calls.openDestCreate).map fun opened =>
        (opened.1, opened.2, none)
    | .ok (fs, file) => .ok (fs, file, some .alreadyExists)

/-- `File::CopyFile`: the result and `*error`, which stays as it is for `none`. -/
def copyFile (calls : CopyCalls) (fs : FileSystem) (src dest : String) (overwrite : Bool) :
    Option (FileSystem × Bool × Option CopyError) :=
  match calls.openSrc, fs.resolve src with
  | some errno, _ => some (fs, false, some (.path errno))
  | none, none => some (fs, false, some (.path enoent))
  | none, some srcFile =>
    match calls.fstat with
    | .error errno => some (fs, false, some (.file errno))
    | .ok blksize =>
      match openCopyDest calls fs dest overwrite with
      | .error errno => some (fs, false, some (.file errno))
      | .ok (fs, destFile, error) =>
        (copyLoop (copyBufferSize blksize) srcFile destFile fs 0 0 [] calls.transfers).map
          fun result => match result with
            | (fs, .ok ()) => (fs, true, error)
            | (fs, .error code) => (fs, false, some code)

/-! ### Files that are opened and written -/

namespace FileSystem

variable {fs fs' : FileSystem}

@[simp] theorem resolve_set (file : ℕ) (bytes : List UInt8) :
    (fs.set file bytes).resolve = fs.resolve := rfl

@[simp] theorem contents_set_self (file : ℕ) (bytes : List UInt8) :
    (fs.set file bytes).contents file = bytes := Function.update_self ..

theorem contents_set_of_ne {file other : ℕ} (h : other ≠ file) (bytes : List UInt8) :
    (fs.set file bytes).contents other = fs.contents other := Function.update_of_ne h ..

theorem contents_writeAt_length (file : ℕ) (bytes : List UInt8) :
    (fs.writeAt file (fs.contents file).length bytes).contents file =
      fs.contents file ++ bytes := by
  simp [writeAt]

theorem contents_writeAt_of_ne {file other : ℕ} (h : other ≠ file) (offset : ℕ)
    (bytes : List UInt8) : (fs.writeAt file offset bytes).contents other = fs.contents other :=
  contents_set_of_ne h _

/-- The destination has been opened, and is empty. -/
structure Opened (fs fs' : FileSystem) (path : String) (file : ℕ) : Prop where
  resolve_dest : fs'.resolve path = some file
  contents_dest : fs'.contents file = []
  resolve_eq : ∀ p i, fs.resolve p = some i → fs'.resolve p = some i
  contents_eq : ∀ i, i ≠ file → fs'.contents i = fs.contents i
  /-- The file is new, or was there. -/
  new_or_old : fs.next ≤ file ∨ fs.resolve path = some file

theorem opened_of_openDest {path : String} {creat excl trunc : Bool} {failed : Option ℕ}
    {file : ℕ} (hflags : (creat && excl) = false → trunc = true)
    (h : fs.openDest path creat excl trunc failed = .ok (fs', file)) :
    fs.Opened fs' path file ∧ ((creat && excl) = true → fs.resolve path = none) := by
  cases failed with
  | some errno => cases h
  | none =>
    cases hresolve : fs.resolve path with
    | some old =>
      simp only [openDest, hresolve] at h
      split_ifs at h with hexcl htrunc
      · cases h
        exact ⟨⟨hresolve, contents_set_self _ _, fun _ _ hp => hp,
          fun i hi => contents_set_of_ne hi _, .inr hresolve⟩, fun h => absurd h hexcl⟩
      · exact absurd (hflags (eq_false_of_ne_true hexcl)) htrunc
    | none =>
      simp only [openDest, hresolve] at h
      split_ifs at h
      cases h
      refine ⟨⟨Function.update_self .., Function.update_self .., fun p i hp => ?_,
        fun i hi => Function.update_of_ne hi .., .inl (Nat.le_refl _)⟩, fun _ => rfl⟩
      have hne : p ≠ path := by
        rintro rfl
        rw [hresolve] at hp
        cases hp
      exact (Function.update_of_ne hne ..).trans hp

end FileSystem

variable {calls : CopyCalls} {fs fs' : FileSystem}

theorem opened_of_openCopyDest {dest : String} {overwrite : Bool} {file : ℕ}
    {error : Option CopyError}
    (h : openCopyDest calls fs dest overwrite = .ok (fs', file, error)) :
    fs.Opened fs' dest file ∧ (overwrite = false → fs.resolve dest = none) := by
  rw [openCopyDest] at h
  cases overwrite with
  | false =>
    simp only [Bool.not_false, ↓reduceIte] at h
    cases hopen : fs.openDest dest true true false calls.openDest with
    | error errno =>
      rw [hopen] at h
      cases h
    | ok opened =>
      rw [hopen] at h
      cases h
      obtain ⟨hopened, hnone⟩ := FileSystem.opened_of_openDest (by simp) hopen
      exact ⟨hopened, fun _ => hnone rfl⟩
  | true =>
    simp only [Bool.not_true, Bool.false_eq_true, ↓reduceIte] at h
    cases hopen : fs.openDest dest false false true calls.openDest with
    | ok opened =>
      rw [hopen] at h
      cases h
      exact ⟨(FileSystem.opened_of_openDest (fun _ => rfl) hopen).1, nofun⟩
    | error errno =>
      rw [hopen] at h
      simp only at h
      cases hcreate : fs.openDest dest true false true calls.openDestCreate with
      | error errno' =>
        rw [hcreate] at h
        cases h
      | ok opened =>
        rw [hcreate] at h
        cases h
        exact ⟨(FileSystem.opened_of_openDest (fun _ => rfl) hcreate).1, nofun⟩

/-! ### The loop -/

theorem copyBufferSize_pos (blksize : ℤ) : 0 < copyBufferSize blksize := by
  rw [copyBufferSize]
  split_ifs <;> omega

/-- **The loop** between two files: what is written and what is in the buffer is the source, as far
as it has been read.  So the files agree when the loop ends well. -/
theorem copyLoop_spec {bufferSize src dest srcOffset destOffset : ℕ} {buffer : List UInt8}
    {transfers : List Transfer} (hsize : 0 < bufferSize) (hne : src ≠ dest)
    (hoffset : destOffset = (fs.contents dest).length)
    (hbuffer : fs.contents dest ++ buffer = (fs.contents src).take srcOffset)
    (h : copyLoop bufferSize src dest fs srcOffset destOffset buffer transfers =
      some (fs', .ok ())) :
    fs'.contents dest = fs.contents src ∧ fs'.contents src = fs.contents src ∧
      fs'.resolve = fs.resolve := by
  induction transfers generalizing fs srcOffset destOffset buffer with
  | nil => cases h
  | cons call calls ih =>
    by_cases hempty : buffer = []
    · subst hempty
      cases call with
      | failed errno => cases h
      | upTo n =>
        rw [copyLoop, if_pos rfl] at h
        rw [List.append_nil] at hbuffer
        simp only at h
        split_ifs at h with hend
        · -- the end of the source
          cases h
          have hlength : (fs'.contents src).length ≤ srcOffset := by
            rw [List.take_eq_nil_iff, List.drop_eq_nil_iff] at hend
            omega
          exact ⟨hbuffer.trans (List.take_of_length_le hlength), rfl, rfl⟩
        · refine ih hoffset ?_ h
          rw [hbuffer, List.take_add]
          congr 1
          exact List.prefix_iff_eq_take.1 (List.take_prefix _ _)
    · cases call with
      | failed errno =>
        rw [copyLoop, if_neg hempty] at h
        split_ifs at h with hintr
        · exact ih hoffset hbuffer h
        · cases h
      | upTo n =>
        rw [copyLoop, if_neg hempty] at h
        have hsrc := fs.contents_writeAt_of_ne hne destOffset (buffer.take n)
        have hdest : (fs.writeAt dest destOffset (buffer.take n)).contents dest =
            fs.contents dest ++ buffer.take n := by
          rw [hoffset, FileSystem.contents_writeAt_length]
        obtain ⟨hcopied, hkept, hresolve⟩ := ih (by rw [hdest, List.length_append, hoffset])
          (by rw [hdest, hsrc, List.append_assoc, List.take_append_drop, hbuffer]) h
        exact ⟨hcopied.trans hsrc, hkept.trans hsrc, hresolve⟩

theorem copyLoop_empty {bufferSize src dest : ℕ} {transfers : List Transfer}
    (hempty : fs.contents src = [])
    (h : copyLoop bufferSize src dest fs 0 0 [] transfers = some (fs', .ok ())) : fs' = fs := by
  cases transfers with
  | nil => cases h
  | cons call calls =>
    cases call with
    | failed errno => cases h
    | upTo n =>
      rw [copyLoop, if_pos rfl, if_pos (by simp [hempty])] at h
      cases h
      rfl

/-! ### The copy -/

/-- The destination has the contents that the source had, and the source still has them. -/
def Copied (fs fs' : FileSystem) (src dest : String) : Prop :=
  ∃ srcFile destFile, fs.resolve src = some srcFile ∧ fs'.resolve src = some srcFile ∧
    fs'.resolve dest = some destFile ∧ fs'.contents destFile = fs.contents srcFile ∧
    fs'.contents srcFile = fs.contents srcFile

/-- Both paths lead to one file that is overwritten, and that is not empty. -/
def OntoItself (fs : FileSystem) (src dest : String) (overwrite : Bool) : Prop :=
  overwrite = true ∧ ∃ file, fs.resolve src = some file ∧ fs.resolve dest = some file ∧
    fs.contents file ≠ []

theorem copyFile_eq_true {src dest : String} {overwrite : Bool} {error : Option CopyError}
    (h : copyFile calls fs src dest overwrite = some (fs', true, error)) :
    ∃ srcFile blksize opened destFile, fs.resolve src = some srcFile ∧
      openCopyDest calls fs dest overwrite = .ok (opened, destFile, error) ∧
      copyLoop (copyBufferSize blksize) srcFile destFile opened 0 0 [] calls.transfers =
        some (fs', .ok ()) := by
  rw [copyFile] at h
  cases hopen : calls.openSrc with
  | some errno =>
    rw [hopen] at h
    cases h
  | none =>
    cases hsrc : fs.resolve src with
    | none =>
      rw [hopen, hsrc] at h
      cases h
    | some srcFile =>
      rw [hopen, hsrc] at h
      simp only at h
      cases hstat : calls.fstat with
      | error errno =>
        rw [hstat] at h
        cases h
      | ok blksize =>
        rw [hstat] at h
        simp only at h
        cases hdest : openCopyDest calls fs dest overwrite with
        | error errno =>
          rw [hdest] at h
          cases h
        | ok opened =>
          obtain ⟨opened, destFile, error'⟩ := opened
          rw [hdest] at h
          obtain ⟨⟨copied, result⟩, hloop, hresult⟩ := Option.map_eq_some_iff.1 h
          cases result with
          | error code => cases hresult
          | ok _ =>
            cases hresult
            exact ⟨srcFile, blksize, opened, destFile, rfl, rfl, hloop⟩

/-- **`CopyFile` copies.**  In a run that returns true the file has been copied if and only if it was
not copied onto itself. -/
theorem copyFile_copies_iff {src dest : String} {overwrite : Bool} {error : Option CopyError}
    (h : copyFile calls fs src dest overwrite = some (fs', true, error)) :
    Copied fs fs' src dest ↔ ¬ OntoItself fs src dest overwrite := by
  obtain ⟨srcFile, blksize, opened, destFile, hsrc, hopen, hloop⟩ := copyFile_eq_true h
  obtain ⟨hopened, hnone⟩ := opened_of_openCopyDest hopen
  by_cases hne : srcFile = destFile
  · -- the file has been truncated, and there is nothing to read
    subst hne
    have hdest : fs.resolve dest = some srcFile :=
      hopened.new_or_old.resolve_left (Nat.not_le.2 (fs.resolve_lt _ _ hsrc))
    obtain rfl := copyLoop_empty hopened.contents_dest hloop
    have honto : OntoItself fs src dest overwrite ↔ fs.contents srcFile ≠ [] := by
      constructor
      · rintro ⟨-, file, hfile, -, hfull⟩
        rw [hsrc] at hfile
        cases hfile
        exact hfull
      · intro hfull
        refine ⟨?_, srcFile, hsrc, hdest, hfull⟩
        by_contra hover
        rw [hnone (eq_false_of_ne_true hover)] at hdest
        cases hdest
    rw [honto, not_not]
    constructor
    · rintro ⟨file, destFile, hfile, -, -, -, hkept⟩
      rw [hsrc] at hfile
      cases hfile
      rw [← hkept, hopened.contents_dest]
    · intro hempty
      refine ⟨srcFile, srcFile, hsrc, hopened.resolve_eq _ _ hsrc, hopened.resolve_dest, ?_, ?_⟩
      · rw [hempty, hopened.contents_dest]
      · rw [hempty, hopened.contents_dest]
  · have hcontents := hopened.contents_eq srcFile hne
    obtain ⟨hcopied, hkept, hresolve⟩ := copyLoop_spec (copyBufferSize_pos blksize) hne
      (by rw [hopened.contents_dest]; rfl) (by rw [hopened.contents_dest]; rfl) hloop
    refine iff_of_true ⟨srcFile, destFile, hsrc, ?_, ?_, hcopied.trans hcontents,
      hkept.trans hcontents⟩ ?_
    · rw [hresolve]
      exact hopened.resolve_eq _ _ hsrc
    · rw [hresolve]
      exact hopened.resolve_dest
    · rintro ⟨-, file, hfile, hdest, -⟩
      have hdest' := (hopened.resolve_eq _ _ hdest).symm.trans hopened.resolve_dest
      exact hne (Option.some.inj ((hsrc.symm.trans hfile).trans hdest'))

/-! ### Two runs -/

/-- A file with three bytes and two paths. -/
def linkedFiles : FileSystem where
  resolve path := if path = "a" ∨ path = "b" then some 0 else none
  contents file := if file = 0 then [1, 2, 3] else []
  next := 1
  resolve_lt path file h := by
    obtain ⟨-, h⟩ := Option.ite_none_right_eq_some.1 h
    cases h
    exact Nat.one_pos

/-- Reads and writes of two bytes at most, with an interruption. -/
def shortCalls : CopyCalls :=
  ⟨none, .ok 4096, none, none, [.upTo 2, .failed eintr, .upTo 1, .upTo 1, .upTo 2, .upTo 2, .upTo 1]⟩

/-- A file is copied in parts. -/
theorem copyFile_copies_iff_parts : ∃ fs' error,
    copyFile shortCalls linkedFiles "a" "c" false = some (fs', true, error) ∧
      Copied linkedFiles fs' "a" "c" := by
  obtain ⟨fs', error, hrun⟩ : ∃ fs' error,
      copyFile shortCalls linkedFiles "a" "c" false = some (fs', true, error) := ⟨_, _, rfl⟩
  refine ⟨fs', error, hrun, (copyFile_copies_iff hrun).2 ?_⟩
  rintro ⟨hover, -⟩
  cases hover

/-- A file that is copied onto itself is empty afterwards. -/
theorem copyFile_clobbers : ¬ ∀ (calls : CopyCalls) (fs fs' : FileSystem) (src dest : String)
    (overwrite : Bool) (error : Option CopyError),
    copyFile calls fs src dest overwrite = some (fs', true, error) → Copied fs fs' src dest := by
  intro h
  obtain ⟨srcFile, destFile, hsrc, -, -, -, hkept⟩ := h shortCalls linkedFiles
    (linkedFiles.set 0 []) "a" "b" true (some .alreadyExists) rfl
  cases hsrc
  cases hkept

end File

end Il2Cpp
