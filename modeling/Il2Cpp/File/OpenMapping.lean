import Il2Cpp.File.MappedFile
import Il2Cpp.File.Sharing

/-!
# Opening a file to map it

`MemoryMapImpl::OpenFileInternal` opens a file and makes a handle for the mapping of it, by
duplicating the descriptor where the platform can; then the file is closed again.  Where it cannot,
the file is returned itself, and `CloseMapping` closes it.  A list holds the files that were opened
and not closed.

* `State` : the open files, the list, and the handles that were made.
* `openFileInternal`, `closeMapping` : the two functions.
* `step` : the calls, with the files that were returned themselves and not closed since.
* `Clean` : a file that is opened by its path can be opened, and a handle can be made for it.
* `openFileInternal_keeps_iff` : exactly then nothing is left behind.
* `owned_exact` : in the runs of such calls the list holds what it should.
-/

namespace Il2Cpp

namespace MemoryMapImpl

open File (OpenCall Posix Linked)
open MemoryMappedFile (Mode Stat capacityError)

/-! ### State -/

/-- A `FileHandle*`: NULL, `INVALID_FILE_HANDLE` or a pointer to a handle. -/
inductive FilePtr (P : Type)
  | null | invalid
  | to (p : P)
  deriving DecidableEq

/-- The handles, with the pointers `P`. -/
structure State (P : Type) where
  /-- the files that `File::Open` opened -/
  table : File.State P
  /-- the descriptors of the handles that `MemoryMappedFile::Create` made; they are in no list -/
  made : P → Option ℕ
  /-- `doesNotOwnFd`, of the opened files -/
  doesNotOwnFd : P → Bool
  /-- `s_OwnedFileHandles` -/
  owned : List (FilePtr P)

/-- Nothing was mapped yet. -/
def State.initial {P : Type} (table : File.State P) : State P :=
  ⟨table, fun _ => none, fun _ => false, []⟩

/-- Why a file is not opened. -/
inductive OpenFileError
  | «open» (error : File.OpenError)
  | create (error : MemoryMappedFile.Error)

/-- A handle that is returned: the opened file itself, or one that was made. -/
inductive Returned (P : Type)
  | file (p : P)
  | made (p : P)

/-- The arguments of `OpenFileInternal`, and what the system calls do. -/
structure OpenFileCall (P : Type) where
  path : Option String
  mode : BitVec 32
  capacity : ℤ
  access : BitVec 32
  options : BitVec 32
  posix : Posix
  /-- `fstat` of the file, or `stat` of the map name -/
  stat : Option Stat
  /-- `dup` of the descriptor, or `open` of the map name -/
  descriptor : Option ℕ
  /-- the pointer to a file that is opened -/
  file : P
  /-- the pointer to a handle that is made -/
  handle : P

/-! ### The functions -/

/-- `ConvertMemoryMappedFileAccessToIL2CPPFileAccess`. -/
def convertAccess (access : BitVec 32) : BitVec 32 :=
  if access = 1 ∨ access = 4 then File.kFileAccessRead
  else if access = 0 ∨ access = 3 ∨ access = 5 then File.kFileAccessRead ||| File.kFileAccessWrite
  else if access = 2 then File.kFileAccessWrite
  else File.kFileAccessRead

/-- `MemoryMappedFileMode`. -/
def fileMode (mode : BitVec 32) : Mode :=
  if mode = 1 then .createNew
  else if mode = 3 then .open
  else if mode = 5 then .truncate
  else if mode = 6 then .append
  else .other

namespace OpenFileCall

variable {P : Type} (c : OpenFileCall P)

/-- The call of `File::Open`. -/
def openCall (path : String) : OpenCall :=
  ⟨path, c.mode, convertAccess c.access, File.kFileShareNone, c.options⟩

/-- The errors of `MemoryMappedFile::Create` before it has a descriptor. -/
def createError : Option MemoryMappedFile.Error :=
  if fileMode c.mode ∈ [.truncate, .append, .open] ∧ c.stat.isNone then some .fileNotFound
  else if fileMode c.mode = .createNew ∧ c.stat.isSome then some .fileAlreadyExists
  else if capacityError (fileMode c.mode) c.capacity c.stat then some .capacitySmallerThanFileSize
  else none

/-- `MemoryMappedFile::Create`, for a file or, with `file = NULL`, for the map name. -/
def create (hasDup : Bool) (file : Option P) : Except MemoryMappedFile.Error (Returned P) :=
  match c.createError with
  | some error => .error error
  | none =>
    match file, hasDup with
    | some file, false => .ok (.file file)
    | _, _ => if c.descriptor.isSome then .ok (.made c.handle) else .error .couldNotOpen

end OpenFileCall

namespace State

variable {P : Type} [DecidableEq P] (s : State P)

/-- `File::Close`.  A handle that was made has no links, so that `RemoveFileHandle` does nothing. -/
def close (p : P) : State P :=
  if (s.made p).isSome then { s with made := Function.update s.made p none }
  else { s with
    table := s.table.close p
    doesNotOwnFd := Function.update s.doesNotOwnFd p false }

/-- `CloseFileHandleIfOwned`. -/
def closeFileHandleIfOwned (file : P) : State P :=
  if .to file ∈ s.owned then
    let s := s.close file
    { s with owned := s.owned.erase (.to file) }
  else s

/-- A handle that `MemoryMappedFile::Create` returns: a new one, or the file, which is marked. -/
def receive (c : OpenFileCall P) : Returned P → State P
  | .file p => { s with doesNotOwnFd := Function.update s.doesNotOwnFd p true }
  | .made p => { s with made := Function.update s.made p c.descriptor }

/-- `MemoryMapImpl::OpenFileInternal` : the state, and the handle or the error. -/
def openFileInternal (hasDup : Bool) (c : OpenFileCall P) :
    Option (State P × Except OpenFileError (Returned P)) :=
  match c.path with
  | none =>
    match c.create hasDup none with
    | .error error => some (s, .error (.create error))
    | .ok result => some (s.receive c result, .ok result)
  | some path =>
    match s.table.openFile c.posix (c.openCall path) c.file with
    | none => none
    | some (table, .error error) =>
      some ({ s with table, owned := s.owned ++ [.invalid] }, .error (.open error))
    | some (table, .ok file) =>
      let s := { s with table, owned := s.owned ++ [.to file] }
      match c.create hasDup (some file) with
      | .error error => some (s, .error (.create error))
      | .ok (.file p) => some (s.receive c (.file p), .ok (.file p))
      | .ok (.made p) => some ((s.receive c (.made p)).closeFileHandleIfOwned file, .ok (.made p))

/-- `MemoryMapImpl::CloseMapping`. -/
def closeMapping (handle : P) : State P :=
  let s := if s.doesNotOwnFd handle then s else s.close handle
  s.closeFileHandleIfOwned handle

end State

/-! ### Runs -/

/-- A call. -/
inductive Call (P : Type)
  | «open» (c : OpenFileCall P)
  | close (handle : P)

section

variable {P : Type} [DecidableEq P]

omit [DecidableEq P] in
/-- The pointers of the call are new. -/
structure OpenFileCall.Fresh (c : OpenFileCall P) (s : State P) : Prop where
  file : s.table.files c.file = none
  file_made : s.made c.file = none
  handle : s.table.files c.handle = none
  handle_made : s.made c.handle = none
  ne : c.file ≠ c.handle

/-- The files that were returned themselves, after one more call. -/
def record (returned : List P) : Except OpenFileError (Returned P) → List P
  | .ok (.file p) => returned ++ [p]
  | .ok (.made _) | .error _ => returned

/-- A call, with the files that were returned themselves and are not closed.  A handle that is
closed is one that was returned: one that was made, or a file that is marked. -/
inductive Step (hasDup : Bool) : State P × List P → Call P → State P × List P → Prop
  | open {s s' : State P} {returned : List P} {c : OpenFileCall P}
      {result : Except OpenFileError (Returned P)} (hfresh : c.Fresh s)
      (h : s.openFileInternal hasDup c = some (s', result)) :
      Step hasDup (s, returned) (.open c) (s', record returned result)
  | close {s : State P} {returned : List P} {p : P}
      (hlive : s.made p ≠ none ∨ s.doesNotOwnFd p = true) :
      Step hasDup (s, returned) (.close p) (s.closeMapping p, returned.erase p)

/-- The calls as a transition system. -/
def mappingLts (hasDup : Bool) : LTS (State P × List P) (Call P) := ⟨Step hasDup⟩

variable {hasDup : Bool} {s s' : State P} {c : OpenFileCall P}

/-! ### What a call does -/

/-- The file can be opened. -/
def OpenFileCall.Opens (c : OpenFileCall P) (s : State P) (path : String) (fd : ℕ)
    (stat : File.Stat) : Prop :=
  (c.openCall path).opened c.posix = .ok (fd, stat) ∧
    s.table.shareAllowOpen stat File.kFileShareNone (convertAccess c.access) = some true

/-- A file that is opened by its path can be opened, and a handle can be made for it. -/
def Clean (hasDup : Bool) (s : State P) (c : OpenFileCall P) : Prop :=
  ∀ path, c.path = some path → (∃ fd stat, c.Opens s path fd stat) ∧ c.createError = none ∧
    (hasDup = true → c.descriptor ≠ none)

/-- The state in which the file has been opened and put in the list. -/
def State.push (s : State P) (c : OpenFileCall P) (path : String) (fd : ℕ) (stat : File.Stat) :
    State P :=
  { s with
    table := s.table.addFileHandle c.file ((c.openCall path).handle fd stat)
    owned := s.owned ++ [.to c.file] }

/-- What a call of `OpenFileInternal` does. -/
inductive Outcome (hasDup : Bool) (s : State P) (c : OpenFileCall P) :
    State P → Except OpenFileError (Returned P) → Prop
  /-- the map name is not opened -/
  | notNamed (hpath : c.path = none) (error : OpenFileError) : Outcome hasDup s c s (.error error)
  | named (hpath : c.path = none) :
      Outcome hasDup s c (s.receive c (.made c.handle)) (.ok (.made c.handle))
  | notOpened {path : String} (hpath : c.path = some path)
      (hno : ¬ ∃ fd stat, c.Opens s path fd stat) (error : OpenFileError) :
      Outcome hasDup s c { s with owned := s.owned ++ [.invalid] } (.error error)
  | notMade {path : String} {fd : ℕ} {stat : File.Stat} (hpath : c.path = some path)
      (hno : ¬ (c.createError = none ∧ (hasDup = true → c.descriptor ≠ none)))
      (error : OpenFileError) : Outcome hasDup s c (s.push c path fd stat) (.error error)
  | kept {path : String} {fd : ℕ} {stat : File.Stat} (hpath : c.path = some path)
      (hopens : c.Opens s path fd stat) (hclean : Clean hasDup s c) :
      Outcome hasDup s c ((s.push c path fd stat).receive c (.file c.file)) (.ok (.file c.file))
  | duplicated {path : String} {fd : ℕ} {stat : File.Stat} (hpath : c.path = some path)
      (hopens : c.Opens s path fd stat) (hclean : Clean hasDup s c) :
      Outcome hasDup s c (((s.push c path fd stat).receive c (.made c.handle)).closeFileHandleIfOwned
        c.file) (.ok (.made c.handle))

omit [DecidableEq P] in
theorem create_named (hasDup : Bool) (c : OpenFileCall P) :
    (∃ error, c.create hasDup none = .error error) ∨
      c.create hasDup none = .ok (.made c.handle) := by
  unfold OpenFileCall.create
  cases c.createError with
  | some error => exact .inl ⟨error, rfl⟩
  | none =>
    simp only
    split_ifs
    · exact .inr rfl
    · exact .inl ⟨_, rfl⟩

omit [DecidableEq P] in
theorem create_file (hasDup : Bool) (c : OpenFileCall P) (file : P) :
    (¬ (c.createError = none ∧ (hasDup = true → c.descriptor ≠ none)) ∧
      ∃ error, c.create hasDup (some file) = .error error) ∨
    (c.createError = none ∧ (hasDup = true → c.descriptor ≠ none)) ∧
      c.create hasDup (some file) = .ok (if hasDup then .made c.handle else .file file) := by
  unfold OpenFileCall.create
  cases c.createError with
  | some error => exact .inl ⟨fun h => Option.some_ne_none _ h.1, error, rfl⟩
  | none =>
    cases hasDup with
    | false => exact .inr ⟨⟨rfl, fun h => Bool.noConfusion h⟩, rfl⟩
    | true =>
      cases c.descriptor with
      | none => exact .inl ⟨fun h => h.2 rfl rfl, _, rfl⟩
      | some fd => exact .inr ⟨⟨rfl, fun _ => nofun⟩, rfl⟩

theorem openFile_cases (hl : Linked s.table) (c : OpenFileCall P) (path : String) :
    (∃ fd stat, c.Opens s path fd stat ∧ s.table.openFile c.posix (c.openCall path) c.file =
      some (s.table.addFileHandle c.file ((c.openCall path).handle fd stat), .ok c.file)) ∨
    (¬ ∃ fd stat, c.Opens s path fd stat) ∧
      ∃ error,
        s.table.openFile c.posix (c.openCall path) c.file = some (s.table, .error error) := by
  rw [File.State.openFile]
  cases hopened : (c.openCall path).opened c.posix with
  | error error =>
    refine .inr ⟨?_, error, rfl⟩
    rintro ⟨fd, stat, hok, -⟩
    cases hopened.symm.trans hok
  | ok r =>
    obtain ⟨fd, stat⟩ := r
    obtain ⟨found, hfound, -⟩ := File.findFileHandle_spec hl stat
    obtain ⟨allowed, hallowed⟩ : ∃ allowed, s.table.shareAllowOpen stat (c.openCall path).shareMode
        (c.openCall path).accessMode = some allowed := by
      rw [File.State.shareAllowOpen, hfound]
      exact ⟨_, rfl⟩
    simp only [hallowed, Option.map_some]
    cases allowed with
    | true => exact .inl ⟨fd, stat, ⟨hopened, hallowed⟩, rfl⟩
    | false =>
      refine .inr ⟨?_, _, rfl⟩
      rintro ⟨fd', stat', hok, hallow⟩
      cases hopened.symm.trans hok
      cases hallowed.symm.trans hallow

theorem outcome (hl : Linked s.table) (hasDup : Bool) (c : OpenFileCall P) :
    ∃ s' result, s.openFileInternal hasDup c = some (s', result) ∧
      Outcome hasDup s c s' result := by
  cases hpath : c.path with
  | none =>
    simp only [State.openFileInternal, hpath]
    rcases create_named hasDup c with ⟨error, herror⟩ | hok
    · rw [herror]
      exact ⟨_, _, rfl, .notNamed hpath _⟩
    · rw [hok]
      exact ⟨_, _, rfl, .named hpath⟩
  | some path =>
    simp only [State.openFileInternal, hpath]
    rcases openFile_cases hl c path with ⟨fd, stat, hopens, hopen⟩ | ⟨hno, error, herror⟩
    · simp only [hopen]
      rcases create_file hasDup c c.file with ⟨hno, error, herror⟩ | ⟨hcreates, hok⟩
      · rw [herror]
        exact ⟨_, _, rfl, .notMade hpath hno _⟩
      · have hclean : Clean hasDup s c := by
          intro path' hpath'
          cases hpath.symm.trans hpath'
          exact ⟨⟨fd, stat, hopens⟩, hcreates⟩
        rw [hok]
        cases hasDup with
        | false => exact ⟨_, _, rfl, .kept hpath hopens hclean⟩
        | true => exact ⟨_, _, rfl, .duplicated hpath hopens hclean⟩
    · rw [herror]
      exact ⟨_, _, rfl, .notOpened hpath hno _⟩

/-- **Nothing is left behind exactly if** a file that is opened by its path can be opened, and a
handle can be made for it. -/
theorem openFileInternal_keeps_iff (hl : Linked s.table) (hasDup : Bool) (c : OpenFileCall P) :
    ∃ s' result, s.openFileInternal hasDup c = some (s', result) ∧
      ((∀ error, result = .error error → s'.owned = s.owned ∧ s'.table = s.table) ↔
        Clean hasDup s c) := by
  obtain ⟨s', result, hrun, houtcome⟩ := outcome hl hasDup c
  refine ⟨s', result, hrun, ?_⟩
  cases houtcome with
  | notNamed hpath error =>
    refine iff_of_true (fun _ _ => ⟨rfl, rfl⟩) fun path hpath' => ?_
    cases hpath.symm.trans hpath'
  | named hpath =>
    refine iff_of_true nofun fun path hpath' => ?_
    cases hpath.symm.trans hpath'
  | notOpened hpath hno error =>
    refine iff_of_false (fun h => ?_) fun hclean => hno (hclean _ hpath).1
    have hlength := congrArg List.length (h error rfl).1
    simp at hlength
  | notMade hpath hno error =>
    refine iff_of_false (fun h => ?_) fun hclean => hno (hclean _ hpath).2
    have hlength := congrArg List.length (h error rfl).1
    simp [State.push] at hlength
  | kept _ _ hclean => exact iff_of_true nofun hclean
  | duplicated _ _ hclean => exact iff_of_true nofun hclean

/-! ### Runs -/

/-- The list holds the files that were returned themselves; these are the ones that are marked. -/
structure Inv (s : State P) (returned : List P) : Prop where
  linked : Linked s.table
  owned : s.owned = returned.map .to
  marked : ∀ p, s.doesNotOwnFd p = true ↔ p ∈ returned
  opened : ∀ p ∈ returned, s.table.files p ≠ none
  made : ∀ p, s.made p ≠ none → s.table.files p = none
  nodup : returned.Nodup

variable {returned : List P}

omit [DecidableEq P] in
theorem to_injective : Function.Injective (FilePtr.to : P → FilePtr P) := by
  intro p q h
  cases h
  rfl

omit [DecidableEq P] in
theorem Inv.mem_owned (h : Inv s returned) (p : P) : .to p ∈ s.owned ↔ p ∈ returned := by
  rw [h.owned, List.mem_map_of_injective to_injective]

omit [DecidableEq P] in
theorem inv_initial {table : File.State P} (hl : Linked table) : Inv (.initial table) [] where
  linked := hl
  owned := rfl
  marked _ := iff_of_false Bool.false_ne_true List.not_mem_nil
  opened _ hp := absurd hp List.not_mem_nil
  made _ hp := absurd rfl hp
  nodup := List.nodup_nil

theorem Inv.close_made (h : Inv s returned) {p : P} (hp : s.made p ≠ none) :
    Inv (s.closeMapping p) (returned.erase p) := by
  have hno : p ∉ returned := fun hmem => h.opened p hmem (h.made p hp)
  have hmark : s.doesNotOwnFd p = false :=
    Bool.eq_false_iff.2 fun hmark => hno ((h.marked p).1 hmark)
  have hclose : s.closeMapping p = { s with made := Function.update s.made p none } := by
    have howned : .to p ∉ s.owned := fun hmem => hno ((h.mem_owned p).1 hmem)
    simp only [State.closeMapping, hmark, Bool.false_eq_true, if_false, State.close,
      Option.isSome_iff_ne_none.2 hp, if_true, State.closeFileHandleIfOwned, howned]
  rw [hclose, List.erase_of_not_mem hno]
  refine ⟨h.linked, h.owned, h.marked, h.opened, fun q hq => ?_, h.nodup⟩
  rcases eq_or_ne q p with rfl | hne
  · exact absurd (Function.update_self ..) hq
  · exact h.made q fun hnone => hq ((Function.update_of_ne hne ..).trans hnone)

theorem closeFileHandleIfOwned_eq {p : P} (howned : .to p ∈ s.owned) (hmade : s.made p = none) :
    s.closeFileHandleIfOwned p =
      { s with
        table := s.table.close p
        doesNotOwnFd := Function.update s.doesNotOwnFd p false
        owned := s.owned.erase (.to p) } := by
  simp only [State.closeFileHandleIfOwned, howned, if_true, State.close, hmade, Option.isSome_none,
    Bool.false_eq_true, if_false]

theorem linked_close {table : File.State P} (hl : Linked table) {p : P}
    (hp : table.files p ≠ none) : Linked (table.close p) :=
  hl.step (a := .close p) (if_neg hp)

theorem linked_addFileHandle {table : File.State P} (hl : Linked table) {posix : Posix}
    {call : OpenCall} {p : P} (hp : table.files p = none) {fd : ℕ} {stat : File.Stat}
    (hopened : call.opened posix = .ok (fd, stat))
    (hallow : table.shareAllowOpen stat call.shareMode call.accessMode = some true) :
    Linked (table.addFileHandle p (call.handle fd stat)) := by
  refine hl.step (a := .open posix call p) ?_
  rw [File.step, if_pos hp, File.State.openFile, hopened]
  simp only [hallow, Option.map_some]
  rfl

theorem Inv.close_file (h : Inv s returned) {p : P} (hp : p ∈ returned) :
    Inv (s.closeMapping p) (returned.erase p) := by
  have hfile := h.opened p hp
  have hmade : s.made p = none := by
    by_contra hmade
    exact hfile (h.made p hmade)
  have hclose : s.closeMapping p = s.closeFileHandleIfOwned p := by
    simp only [State.closeMapping, (h.marked p).2 hp, if_true]
  rw [hclose, closeFileHandleIfOwned_eq ((h.mem_owned p).2 hp) hmade]
  refine ⟨linked_close h.linked hfile, ?_, fun q => ?_, fun q hq => ?_, fun q hq => ?_,
    h.nodup.erase p⟩
  · change s.owned.erase (.to p) = _
    rw [h.owned, List.map_erase to_injective]
  · change Function.update s.doesNotOwnFd p false q = true ↔ _
    rw [h.nodup.mem_erase_iff, Function.update_apply]
    split_ifs with hqp
    · exact iff_of_false id fun hmem => hmem.1 hqp
    · rw [h.marked]
      exact (and_iff_right hqp).symm
  · obtain ⟨hqp, hmem⟩ := h.nodup.mem_erase_iff.1 hq
    exact fun hnone => h.opened q hmem ((Function.update_of_ne hqp ..).symm.trans hnone)
  · change Function.update s.table.files p none q = none
    rw [Function.update_apply]
    split_ifs
    · rfl
    · exact h.made q hq

theorem push_files {path : String} {fd : ℕ} {stat : File.Stat} {q : P} (hq : q ≠ c.file) :
    (s.push c path fd stat).table.files q = s.table.files q := Function.update_of_ne hq ..

theorem push_files_self {path : String} {fd : ℕ} {stat : File.Stat} :
    (s.push c path fd stat).table.files c.file ≠ none := by
  have hself : (s.push c path fd stat).table.files c.file =
      some ((c.openCall path).handle fd stat) := Function.update_self ..
  rw [hself]
  exact Option.some_ne_none _

theorem linked_push (h : Linked s.table) (hfresh : c.Fresh s) {path : String} {fd : ℕ}
    {stat : File.Stat} (hopens : c.Opens s path fd stat) :
    Linked (s.push c path fd stat).table :=
  linked_addFileHandle h hfresh.file hopens.1 hopens.2

theorem Inv.receive_made (h : Inv s returned) (hfresh : c.Fresh s) :
    Inv (s.receive c (.made c.handle)) returned := by
  refine ⟨h.linked, h.owned, h.marked, h.opened, fun q hq => ?_, h.nodup⟩
  rcases eq_or_ne q c.handle with rfl | hne
  · exact hfresh.handle
  · exact h.made q fun hnone => hq ((Function.update_of_ne hne ..).trans hnone)

theorem Inv.kept (h : Inv s returned) (hfresh : c.Fresh s) {path : String} {fd : ℕ}
    {stat : File.Stat} (hopens : c.Opens s path fd stat) :
    Inv ((s.push c path fd stat).receive c (.file c.file)) (returned ++ [c.file]) := by
  have hno : c.file ∉ returned := fun hmem => h.opened _ hmem hfresh.file
  refine ⟨linked_push h.linked hfresh hopens, ?_, fun q => ?_, fun q hq => ?_, fun q hq => ?_, ?_⟩
  · change s.owned ++ [.to c.file] = _
    rw [h.owned, List.map_append]
    rfl
  · change Function.update s.doesNotOwnFd c.file true q = true ↔ _
    rw [Function.update_apply, List.mem_append, List.mem_singleton]
    split_ifs with hq
    · exact iff_of_true rfl (.inr hq)
    · rw [h.marked]
      exact (or_iff_left hq).symm
  · rcases eq_or_ne q c.file with rfl | hne
    · exact push_files_self
    · rw [List.mem_append, List.mem_singleton, or_iff_left hne] at hq
      exact fun hnone => h.opened q hq ((push_files hne).symm.trans hnone)
  · have hne : q ≠ c.file := by
      rintro rfl
      exact hq hfresh.file_made
    exact (push_files hne).trans (h.made q hq)
  · exact List.nodup_append.2 ⟨h.nodup, List.nodup_singleton _, fun a ha b hb => by
      rw [List.mem_singleton] at hb
      rintro rfl
      exact hno (hb ▸ ha)⟩

theorem Inv.duplicated (h : Inv s returned) (hfresh : c.Fresh s) {path : String} {fd : ℕ}
    {stat : File.Stat} (hopens : c.Opens s path fd stat) :
    Inv (((s.push c path fd stat).receive c (.made c.handle)).closeFileHandleIfOwned c.file)
      returned := by
  have hno : c.file ∉ returned := fun hmem => h.opened _ hmem hfresh.file
  have hmade : ((s.push c path fd stat).receive c (.made c.handle)).made c.file = none :=
    (Function.update_of_ne hfresh.ne ..).trans hfresh.file_made
  have howned : .to c.file ∈ ((s.push c path fd stat).receive c (.made c.handle)).owned :=
    List.mem_append_right _ (List.mem_singleton_self _)
  have hsame (q : P) : (if q = c.file then none else (s.push c path fd stat).table.files q) =
      s.table.files q := by
    split_ifs with hq
    · rw [hq, hfresh.file]
    · exact push_files hq
  have hfiles (q : P) : ((s.push c path fd stat).table.close c.file).files q = s.table.files q :=
    (Function.update_apply ..).trans (hsame q)
  rw [closeFileHandleIfOwned_eq howned hmade]
  refine ⟨linked_close (linked_push h.linked hfresh hopens) push_files_self, ?_, fun q => ?_,
    fun q hq => ?_,
    fun q hq => ?_, h.nodup⟩
  · change (s.owned ++ [FilePtr.to c.file]).erase (FilePtr.to c.file) = _
    rw [List.erase_append_right _ (mt (h.mem_owned _).1 hno), List.erase_cons_head, List.append_nil,
      h.owned]
  · change Function.update s.doesNotOwnFd c.file false q = true ↔ _
    rw [Function.update_apply]
    split_ifs with hq
    · exact iff_of_false id (hq ▸ hno)
    · exact h.marked q
  · exact fun hnone => h.opened q hq ((hfiles q).symm.trans hnone)
  · exact (hfiles q).trans ((h.receive_made hfresh).made q hq)

/-- The condition on a step: what is opened is clean. -/
def CleanStep (hasDup : Bool) (s : State P × List P) : Call P → Prop
  | .open c => Clean hasDup s.1 c
  | .close _ => True

/-- **One call.**  The list is exact after it if and only if the call is clean. -/
theorem Inv.step (h : Inv s returned) {call : Call P} {t : State P × List P}
    (hst : Step hasDup (s, returned) call t) :
    (CleanStep hasDup (s, returned) call → Inv t.1 t.2) ∧
      (t.1.owned = t.2.map .to → CleanStep hasDup (s, returned) call) := by
  cases hst with
  | close hlive =>
    refine ⟨fun _ => ?_, fun _ => trivial⟩
    rcases hlive with hmade | hmark
    · exact h.close_made hmade
    · exact h.close_file ((h.marked _).1 hmark)
  | @«open» _ s' _ c result hfresh hrun =>
    obtain ⟨s'', result', hrun', houtcome⟩ := outcome h.linked hasDup c
    cases hrun.symm.trans hrun'
    change (Clean hasDup s c → Inv s' (record returned result)) ∧
      (s'.owned = (record returned result).map .to → Clean hasDup s c)
    cases houtcome with
    | notNamed hpath error =>
      exact ⟨fun _ => h, fun _ path hpath' => by cases hpath.symm.trans hpath'⟩
    | named hpath =>
      exact ⟨fun _ => h.receive_made hfresh, fun _ path hpath' => by cases hpath.symm.trans hpath'⟩
    | notOpened hpath hno error =>
      refine ⟨fun hclean => absurd (hclean _ hpath).1 hno, fun howned => ?_⟩
      have hlength := congrArg List.length (howned.trans h.owned.symm)
      simp at hlength
    | notMade hpath hno error =>
      refine ⟨fun hclean => absurd (hclean _ hpath).2 hno, fun howned => ?_⟩
      have hlength := congrArg List.length (howned.trans h.owned.symm)
      simp [State.push] at hlength
    | kept _ hopens hclean => exact ⟨fun _ => h.kept hfresh hopens, fun _ => hclean⟩
    | duplicated _ hopens hclean => exact ⟨fun _ => h.duplicated hfresh hopens, fun _ => hclean⟩

/-- **The list of owned files.**  From any table of open files, after clean calls the list holds the
files that were returned themselves and are not closed; and of the next call: it leaves nothing
behind when it fails, exactly if it is clean, and the list is exact again exactly if it is clean. -/
theorem owned_exact {table : File.State P} (hl : Linked table)
    (h : (mappingLts hasDup).ReachWith (CleanStep hasDup) (.initial table, []) (s, returned)) :
    s.owned = returned.map .to ∧
      (∀ c : OpenFileCall P, ∃ s' result, s.openFileInternal hasDup c = some (s', result) ∧
        ((∀ error, result = .error error → s'.owned = s.owned ∧ s'.table = s.table) ↔
          Clean hasDup s c)) ∧
      ∀ call t, Step hasDup (s, returned) call t →
        (t.1.owned = t.2.map .to ↔ CleanStep hasDup (s, returned) call) := by
  have hinv : Inv s returned := by
    refine h.invariant (I := fun s => Inv s.1 s.2) (inv_initial hl) fun s call t hs hclean hst => ?_
    exact (hs.step hst).1 hclean
  refine ⟨hinv.owned, openFileInternal_keeps_iff hinv.linked hasDup, fun call t hst => ?_⟩
  exact ⟨(hinv.step hst).2, fun hclean => ((hinv.step hst).1 hclean).owned⟩

end

/-! ### Two calls -/

/-- A file with three bytes is opened by its path, in a given mode. -/
def openPath (mode : BitVec 32) : OpenFileCall ℕ where
  path := some "a"
  mode
  capacity := 0
  access := 0
  options := 0
  posix := File.oneFile
  stat := some ⟨3, false⟩
  descriptor := some 4
  file := 0
  handle := 1

theorem clean_openPath (hasDup : Bool) : Clean hasDup (.initial File.initial) (openPath 3) := by
  rintro path -
  exact ⟨⟨3, ⟨1, 7, .other⟩, rfl, rfl⟩, rfl, fun _ => nofun⟩

/-- An existing file is opened where descriptors are not duplicated. -/
theorem owned_exact_kept : ∃ s : State ℕ,
    (State.initial File.initial).openFileInternal false (openPath 3) =
        some (s, .ok (.file 0)) ∧ s.owned = [.to 0] := by
  obtain ⟨s, hrun⟩ : ∃ s : State ℕ, (State.initial File.initial).openFileInternal false
      (openPath 3) = some (s, .ok (.file 0)) := ⟨_, rfl⟩
  have hfresh : (openPath 3).Fresh (.initial File.initial) := ⟨rfl, rfl, rfl, rfl, nofun⟩
  have hclean : CleanStep false (State.initial File.initial, []) (.open (openPath 3)) :=
    clean_openPath false
  have hreach : (mappingLts false).ReachWith (CleanStep false) (.initial File.initial, [])
      (s, [0]) := .step .init hclean (.open hfresh hrun)
  exact ⟨s, hrun, (owned_exact File.linked_initial hreach).1⟩

/-- A new file is opened by its path: when the mapping of it is made the file exists, which is an
error, and the file stays open and in the list. -/
theorem openFileInternal_leaks : ¬ ∀ (hasDup : Bool) (s s' : State ℕ) (c : OpenFileCall ℕ) result,
    Linked s.table → c.Fresh s → s.openFileInternal hasDup c = some (s', result) →
    ∀ error, result = .error error → s'.owned = s.owned ∧ s'.table = s.table := by
  intro h
  have howned := (h true (.initial File.initial) _ (openPath 1) _ File.linked_initial
    ⟨rfl, rfl, rfl, rfl, nofun⟩ rfl _ rfl).1
  cases howned

end MemoryMapImpl

end Il2Cpp
