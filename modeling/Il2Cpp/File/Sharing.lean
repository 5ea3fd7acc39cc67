import Il2Cpp.Data.LinkedList
import Il2Cpp.LTS.Basic

/-!
# File sharing

`File::Open` and `File::Close` keep the open files of the process in a linked list, and a file that
is open is opened again only if `ShareAllowOpen` admits it.  The file system is given by what its
calls return.

* `State`, `File.open`, `File.close` : the list of the open files, and the two calls.
* `Compatible`, `Shared` : two handles of one file respect the share modes of each other, and all
  do.
* `Checked` : what `ShareAllowOpen` does not look at is all right.
* `sharing_enforced` : the main result.
* `sharing_violated` : two handles that are not compatible.
-/

namespace Il2Cpp

namespace File

/-! ### Calls of the file system -/

/-- `O_RDONLY`, `O_WRONLY`, `O_RDWR`. -/
inductive AccessFlag
  | rdonly | wronly | rdwr

/-- The flags of `open`. -/
structure OpenFlags where
  access : AccessFlag
  creat : Bool
  excl : Bool
  trunc : Bool

/-- `st_mode`, as far as it is distinguished. -/
inductive StatMode
  | fifo | chr | other

/-- `struct stat`. -/
structure Stat where
  device : ℕ
  inode : ℕ
  mode : StatMode

/-- What the calls of the file system return; an error number or a result. -/
structure Posix where
  /-- `open`; the last argument says whether the permissions are those of a temporary file. -/
  openFile : String → OpenFlags → Bool → Except ℕ ℕ
  fstat : ℕ → Except ℕ Stat
  eisdir : ℕ

/-! ### Handles -/

def kFileAccessRead : BitVec 32 := 1
def kFileAccessWrite : BitVec 32 := 2
def kFileAccessReadWrite : BitVec 32 := 3

def kFileShareNone : BitVec 32 := 0
def kFileShareRead : BitVec 32 := 1
def kFileShareWrite : BitVec 32 := 2

def kFileOptionsTemporary : BitVec 32 := 1

/-- `FileType`. -/
inductive FileType
  | disk | char | pipe
  deriving DecidableEq

/-- `FileHandle`, without the links. -/
structure FileHandle where
  fd : ℕ
  type : FileType
  path : String
  options : BitVec 32
  shareMode : BitVec 32
  accessMode : BitVec 32
  device : ℕ
  inode : ℕ
  deriving DecidableEq

/-- The arguments of `File::Open`. -/
structure OpenCall where
  path : String
  mode : BitVec 32
  accessMode : BitVec 32
  shareMode : BitVec 32
  options : BitVec 32

/-- Why a file is not opened. -/
inductive OpenError
  /-- `PathErrnoToErrorCode` -/
  | path (errno : ℕ)
  /-- `FileErrnoToErrorCode` -/
  | file (errno : ℕ)
  | sharingViolation

/-- `ConvertFlags`. -/
def convertFlags (fileaccess createmode : BitVec 32) : OpenFlags :=
  let access : AccessFlag :=
    if fileaccess = kFileAccessWrite then .wronly
    else if fileaccess = kFileAccessReadWrite then .rdwr
    else .rdonly
  match createmode with
  | 1 => ⟨access, true, true, false⟩
  | 2 => ⟨access, true, false, true⟩
  | 3 => ⟨access, false, false, false⟩
  | 4 | 6 => ⟨access, true, false, false⟩
  | 5 => ⟨access, false, false, true⟩
  | _ => ⟨.rdonly, false, false, false⟩

/-- The descriptor for `File::Open`: a directory is opened without write permission. -/
def OpenCall.descriptor (call : OpenCall) (posix : Posix) : Except ℕ ℕ :=
  let flags := convertFlags call.accessMode call.mode
  let temporary := call.options &&& kFileOptionsTemporary ≠ 0
  match posix.openFile call.path flags temporary with
  | .ok fd => .ok fd
  | .error errno =>
    if errno = posix.eisdir then posix.openFile call.path { flags with access := .rdonly } temporary
    else .error errno

/-- The descriptor and the `struct stat`, or the error. -/
def OpenCall.opened (call : OpenCall) (posix : Posix) : Except OpenError (ℕ × Stat) :=
  match call.descriptor posix with
  | .error errno => .error (.path errno)
  | .ok fd =>
    match posix.fstat fd with
    | .error errno => .error (.file errno)
    | .ok stat => .ok (fd, stat)

/-- The new handle of `File::Open`. -/
def OpenCall.handle (call : OpenCall) (fd : ℕ) (stat : Stat) : FileHandle where
  fd
  type := match stat.mode with
    | .fifo => .pipe
    | .chr => .char
    | .other => .disk
  path := call.path
  options := call.options
  shareMode := call.shareMode
  accessMode := call.accessMode
  device := stat.device
  inode := stat.inode

/-! ### The open files -/

/-- The handles, with the pointers `P`, and the linked list of them. -/
structure State (P : Type) where
  files : P → Option FileHandle
  list : LinkedList P
  /-- The number of handles, which bounds the search of the list. -/
  count : ℕ

/-- The handle is one of the file. -/
def FileHandle.isOf (handle : FileHandle) (stat : Stat) : Bool :=
  handle.device = stat.device && handle.inode = stat.inode

/-- The check of `ShareAllowOpen` for the handle that it has found. -/
def FileHandle.admits (handle : FileHandle) (shareMode accessMode : BitVec 32) : Bool :=
  if handle.shareMode = kFileShareNone ∨ shareMode = kFileShareNone then false
  else if (handle.shareMode = kFileShareRead ∧ accessMode ≠ kFileAccessRead) ∨
      (handle.shareMode = kFileShareWrite ∧ accessMode ≠ kFileAccessWrite) then false
  else true

namespace State

variable {P : Type} [DecidableEq P] (s : State P)

omit [DecidableEq P] in
/-- `FindFileHandle`; `none` if the search does not end. -/
def findFileHandle (stat : Stat) : Option (Option P) :=
  s.list.walk (fun p => (s.files p).any (·.isOf stat)) (s.count + 1) s.list.head

omit [DecidableEq P] in
/-- `ShareAllowOpen`. -/
def shareAllowOpen (stat : Stat) (shareMode accessMode : BitVec 32) : Option Bool :=
  s.findFileHandle stat |>.map fun found =>
    match found.bind s.files with
    | none => true
    | some handle => handle.admits shareMode accessMode

/-- `new FileHandle()` at `p`, and `AddFileHandle`. -/
def addFileHandle (p : P) (handle : FileHandle) : State P where
  files := Function.update s.files p (some handle)
  list := s.list.pushBack p
  count := s.count + 1

/-- `RemoveFileHandle`, and `delete`. -/
def removeFileHandle (p : P) : State P where
  files := Function.update s.files p none
  list := s.list.remove p
  count := s.count - 1

/-- `File::Open`; a new handle is allocated at `p`. -/
def openFile (posix : Posix) (call : OpenCall) (p : P) : Option (State P × Except OpenError P) :=
  match call.opened posix with
  | .error error => some (s, .error error)
  | .ok (fd, stat) =>
    (s.shareAllowOpen stat call.shareMode call.accessMode).map fun allowed =>
      if allowed then (s.addFileHandle p (call.handle fd stat), .ok p)
      else (s, .error .sharingViolation)

/-- `File::Close`. -/
def close (p : P) : State P := s.removeFileHandle p

end State

/-- A call. -/
inductive Action (P : Type)
  | open (posix : Posix) (call : OpenCall) (p : P)
  | close (p : P)

section

variable {P : Type} [DecidableEq P]

/-- A call on the open files.  A handle is allocated where none is, and only a handle that is open is
closed. -/
def step (s : State P) : Action P → Option (State P)
  | .open posix call p =>
    if s.files p = none then (s.openFile posix call p).map Prod.fst else none
  | .close p => if s.files p = none then none else some (s.close p)

omit [DecidableEq P] in
/-- No file is open. -/
def initial : State P := ⟨fun _ => none, .empty, 0⟩

/-! ### Sharing -/

/-- A share mode permits an access mode: it has the flags for reading and for writing. -/
def Permits (shareMode accessMode : BitVec 32) : Prop :=
  accessMode &&& kFileAccessReadWrite &&& ~~~shareMode = 0

instance (shareMode accessMode : BitVec 32) : Decidable (Permits shareMode accessMode) :=
  inferInstanceAs (Decidable (_ = _))

/-- Two handles of one file respect the share modes of each other. -/
structure Compatible (h h' : FileHandle) : Prop where
  left_ne : h.shareMode ≠ kFileShareNone
  right_ne : h'.shareMode ≠ kFileShareNone
  left : Permits h.shareMode h'.accessMode
  right : Permits h'.shareMode h.accessMode

omit [DecidableEq P] in
/-- Any two open handles of one file are compatible. -/
def Shared (s : State P) : Prop :=
  ∀ p q h h', p ≠ q → s.files p = some h → s.files q = some h' → h.device = h'.device →
    h.inode = h'.inode → Compatible h h'

/-- What `ShareAllowOpen` does not look at when it admits a call: the share mode of the call permits
what the open handles of the file may do; and their share modes permit the access mode of the call,
if the handle is not the first one in the list, or if its share mode is none of `kFileShareRead` and
`kFileShareWrite` (but has the flag `kFileShareDelete`, say). -/
def Checked (s : State P) : Action P → Prop
  | .open posix call _ => ∀ fd stat, call.opened posix = .ok (fd, stat) →
      s.shareAllowOpen stat call.shareMode call.accessMode = some true →
      ∀ q h, s.files q = some h → h.isOf stat = true →
        Permits call.shareMode h.accessMode ∧
        (s.findFileHandle stat ≠ some (some q) ∨
            h.shareMode ≠ kFileShareRead ∧ h.shareMode ≠ kFileShareWrite →
          Permits h.shareMode call.accessMode)
  | .close _ => True

/-- The list is one of the open handles. -/
def Linked (s : State P) : Prop :=
  ∃ l : List P, s.list.Represents l ∧ s.count = l.length ∧ ∀ p, p ∈ l ↔ s.files p ≠ none

variable {s s' : State P} {stat : Stat}

omit [DecidableEq P] in
theorem isOf_iff {h : FileHandle} :
    h.isOf stat = true ↔ h.device = stat.device ∧ h.inode = stat.inode := by
  rw [FileHandle.isOf, Bool.and_eq_true, decide_eq_true_iff, decide_eq_true_iff]

omit [DecidableEq P] in
theorem findFileHandle_spec (h : Linked s) (stat : Stat) :
    ∃ found, s.findFileHandle stat = some found ∧
      match found with
      | none => ∀ q h, s.files q = some h → h.isOf stat = false
      | some q => ∃ h, s.files q = some h ∧ h.isOf stat = true := by
  obtain ⟨l, hl, hcount, hmem⟩ := h
  refine ⟨_, hl.walk _ (by omega), ?_⟩
  split
  · rename_i hfind
    intro q h hq
    have := List.find?_eq_none.1 hfind q ((hmem q).2 (by simp [hq]))
    simpa [hq] using this
  · rename_i q hfind
    have hany : (s.files q).any (·.isOf stat) = true :=
      List.find?_some (p := fun p => (s.files p).any (·.isOf stat)) hfind
    obtain ⟨h, hq, hof⟩ := (Option.any_eq_true _ _).1 hany
    exact ⟨h, hq, hof⟩

theorem step_open_cases {posix : Posix} {call : OpenCall} {p : P}
    (h : step s (.open posix call p) = some s') : s.files p = none ∧
      ((s' = s ∧ ∀ fd stat, call.opened posix = .ok (fd, stat) →
          s.shareAllowOpen stat call.shareMode call.accessMode ≠ some true) ∨
        ∃ fd stat, call.opened posix = .ok (fd, stat) ∧
          s.shareAllowOpen stat call.shareMode call.accessMode = some true ∧
            s' = s.addFileHandle p (call.handle fd stat)) := by
  obtain ⟨hp, h⟩ := Option.ite_none_right_eq_some.1 h
  refine ⟨hp, ?_⟩
  obtain ⟨r, hr, rfl⟩ := Option.map_eq_some_iff.1 h
  rw [State.openFile] at hr
  split at hr
  · rename_i error herror
    cases hr
    exact .inl ⟨rfl, by simp [herror]⟩
  · rename_i fd stat hok
    obtain ⟨allowed, hallowed, rfl⟩ := Option.map_eq_some_iff.1 hr
    cases allowed with
    | true => exact .inr ⟨fd, stat, hok, hallowed, rfl⟩
    | false =>
      refine .inl ⟨rfl, fun fd' stat' hok' => ?_⟩
      cases hok.symm.trans hok'
      simp [hallowed]

/-! ### One step -/

theorem Linked.step (h : Linked s) {a : Action P} (hs : step s a = some s') : Linked s' := by
  obtain ⟨l, hl, hcount, hmem⟩ := h
  cases a with
  | «open» posix call p =>
    obtain ⟨hp, ⟨rfl, -⟩ | ⟨fd, stat, -, -, rfl⟩⟩ := step_open_cases hs
    · exact ⟨l, hl, hcount, hmem⟩
    · refine ⟨l ++ [p], hl.pushBack fun hmem' => (hmem p).1 hmem' hp, ?_, fun q => ?_⟩
      · simp [State.addFileHandle, hcount]
      · by_cases hq : q = p
        · simp [hq, State.addFileHandle]
        · simp [hq, State.addFileHandle, hmem]
  | close p =>
    obtain ⟨hp, ⟨⟩⟩ := Option.ite_none_left_eq_some.1 hs
    obtain ⟨a, b, rfl⟩ := List.append_of_mem ((hmem p).2 hp)
    have hnodup := hl.nodup
    rw [List.nodup_append, List.nodup_cons] at hnodup
    refine ⟨a ++ b, hl.remove, ?_, fun q => ?_⟩
    · simp [State.close, State.removeFileHandle, hcount]
    · by_cases hq : q = p
      · subst hq
        have : q ∉ a := fun ha => hnodup.2.2 q ha q List.mem_cons_self rfl
        simp [State.close, State.removeFileHandle, this, hnodup.2.1.1]
      · have := hmem q
        simp only [List.mem_append, List.mem_cons, hq, false_or] at this
        simp [State.close, State.removeFileHandle, hq, this]

theorem admits_eq_true {h : FileHandle} {shareMode accessMode : BitVec 32}
    (hadmits : h.admits shareMode accessMode = true) :
    h.shareMode ≠ kFileShareNone ∧ shareMode ≠ kFileShareNone ∧
      (h.shareMode = kFileShareRead ∨ h.shareMode = kFileShareWrite →
        Permits h.shareMode accessMode) := by
  rw [FileHandle.admits] at hadmits
  split_ifs at hadmits with hnone hmode
  rw [not_or] at hnone hmode
  refine ⟨hnone.1, hnone.2, ?_⟩
  rintro (hread | hwrite)
  · have haccess : accessMode = kFileAccessRead := by
      by_contra hne
      exact hmode.1 ⟨hread, hne⟩
    rw [hread, haccess]
    decide
  · have haccess : accessMode = kFileAccessWrite := by
      by_contra hne
      exact hmode.2 ⟨hwrite, hne⟩
    rw [hwrite, haccess]
    decide

theorem share_ne_none (hl : Linked s) (hshared : Shared s) {shareMode accessMode : BitVec 32}
    (hallow : s.shareAllowOpen stat shareMode accessMode = some true) {q : P} {h : FileHandle}
    (hq : s.files q = some h) (hof : h.isOf stat = true) :
    h.shareMode ≠ kFileShareNone ∧ shareMode ≠ kFileShareNone ∧
      (s.findFileHandle stat = some (some q) →
        h.shareMode = kFileShareRead ∨ h.shareMode = kFileShareWrite →
          Permits h.shareMode accessMode) := by
  obtain ⟨found, hfound, hspec⟩ := findFileHandle_spec hl stat
  rw [State.shareAllowOpen, hfound] at hallow
  cases found with
  | none => simp [hspec q h hq] at hof
  | some r =>
    obtain ⟨hr, hrq, hrof⟩ := hspec
    have hadmits : hr.admits shareMode accessMode = true := by simpa [hrq] using hallow
    obtain ⟨hne, hne', hpermits⟩ := admits_eq_true hadmits
    by_cases hqr : q = r
    · subst hqr
      cases hq.symm.trans hrq
      exact ⟨hne, hne', fun _ => hpermits⟩
    · rw [isOf_iff] at hof hrof
      refine ⟨(hshared q r h hr hqr hq hrq (hof.1.trans hrof.1.symm)
        (hof.2.trans hrof.2.symm)).left_ne, hne', fun heq => ?_⟩
      rw [hfound] at heq
      exact absurd (Option.some.inj (Option.some.inj heq)).symm hqr

/-- **One step** from a state whose handles are compatible. -/
theorem shared_step_iff (hl : Linked s) (hshared : Shared s) {a : Action P}
    (hs : step s a = some s') : Shared s' ↔ Checked s a := by
  cases a with
  | close p =>
    obtain ⟨-, ⟨⟩⟩ := Option.ite_none_left_eq_some.1 hs
    refine iff_of_true (fun q r h h' hqr hq hr => ?_) trivial
    simp only [State.close, State.removeFileHandle, Function.update_apply] at hq hr
    split_ifs at hq hr
    exact hshared q r h h' hqr hq hr
  | «open» posix call p =>
    obtain ⟨hp, ⟨rfl, hno⟩ | ⟨fd, stat, hok, hallow, rfl⟩⟩ := step_open_cases hs
    · exact iff_of_true hshared fun fd stat hok hallow => absurd hallow (hno fd stat hok)
    have hnew {q : P} (hq : q ≠ p) :
        (s.addFileHandle p (call.handle fd stat)).files q = s.files q :=
      Function.update_of_ne hq _ _
    have hself : (s.addFileHandle p (call.handle fd stat)).files p = some (call.handle fd stat) :=
      Function.update_self ..
    constructor
    · intro hshared' fd' stat' hok' _ q h hq hof
      cases hok.symm.trans hok'
      have hqp : p ≠ q := by
        rintro rfl
        simp [hp] at hq
      obtain ⟨hdevice, hinode⟩ := isOf_iff.1 hof
      have hc := hshared' p q _ h hqp hself (by rw [hnew hqp.symm, hq]) hdevice.symm hinode.symm
      exact ⟨hc.left, fun _ => hc.right⟩
    · intro hchecked
      -- the new handle with an old one
      have hc {q : P} {h : FileHandle} (hq : s.files q = some h) (hof : h.isOf stat = true) :
          Compatible h (call.handle fd stat) := by
        obtain ⟨hleft, hright⟩ := hchecked fd stat hok hallow q h hq hof
        obtain ⟨hne, hne', hpermits⟩ := share_ne_none hl hshared hallow hq hof
        refine ⟨hne, hne', ?_, hleft⟩
        by_cases hfirst : s.findFileHandle stat = some (some q)
        · by_cases hmode : h.shareMode = kFileShareRead ∨ h.shareMode = kFileShareWrite
          · exact hpermits hfirst hmode
          · exact hright (.inr (not_or.1 hmode))
        · exact hright (.inl hfirst)
      intro q r h h' hqr hq hr hdevice hinode
      by_cases hqp : q = p
      · subst hqp
        rw [hself] at hq
        cases hq
        rw [hnew hqr.symm] at hr
        have hc := hc hr (isOf_iff.2 ⟨hdevice.symm, hinode.symm⟩)
        exact ⟨hc.right_ne, hc.left_ne, hc.right, hc.left⟩
      · rw [hnew hqp] at hq
        by_cases hrp : r = p
        · subst hrp
          rw [hself] at hr
          cases hr
          exact hc hq (isOf_iff.2 ⟨hdevice, hinode⟩)
        · rw [hnew hrp] at hr
          exact hshared q r h h' hqr hq hr hdevice hinode

/-! ### Runs -/

omit [DecidableEq P] in
theorem linked_initial : Linked (initial : State P) :=
  ⟨[], LinkedList.represents_empty, rfl, fun p => by simp [initial]⟩

/-- **File sharing.**  In a run whose steps are all checked any two open handles of one file are
compatible, and the next step keeps it so exactly if it is checked. -/
theorem sharing_enforced (h : (LTS.ofFun step).ReachWith Checked (initial : State P) s) :
    Shared s ∧ ∀ a s', step s a = some s' → (Shared s' ↔ Checked s a) := by
  have hinv : Linked s ∧ Shared s := by
    refine h.invariant (I := fun s => Linked s ∧ Shared s) ⟨linked_initial, ?_⟩ ?_
    · intro p q h h' _ hp
      cases hp
    · rintro s a s' ⟨hl, hshared⟩ ha hs
      exact ⟨hl.step hs, (shared_step_iff hl hshared hs).2 ha⟩
  exact ⟨hinv.2, fun a s' hs => shared_step_iff hinv.1 hinv.2 hs⟩

end

/-! ### Two handles of one file -/

/-- There is one file, which can be opened. -/
def oneFile : Posix where
  openFile _ _ _ := .ok 3
  fstat _ := .ok ⟨1, 7, .other⟩
  eisdir := 21

/-- `File::Open` of an existing file. -/
def existing (accessMode shareMode : BitVec 32) : OpenCall := ⟨"a", 3, accessMode, shareMode, 0⟩

/-- The file is opened for reading, twice, and others may read. -/
theorem sharing_enforced_readers :
    ∃ s, (LTS.ofFun step).ReachWith Checked (initial : State Bool) s ∧ s.files true ≠ none ∧
      Shared s ∧ ∀ a s', step s a = some s' → (Shared s' ↔ Checked s a) := by
  have hfirst : (LTS.ofFun step).ReachWith Checked (initial : State Bool)
      (initial.addFileHandle false ((existing 1 1).handle 3 ⟨1, 7, .other⟩)) := by
    refine .step (l := .open oneFile (existing 1 1) false) .init (fun _ _ _ _ q h hq => ?_) rfl
    cases hq
  have hchecked : Checked (initial.addFileHandle false ((existing 1 1).handle 3 ⟨1, 7, .other⟩))
      (.open oneFile (existing 1 1) true) := by
    intro fd stat hok _ q h hq _
    cases hok
    cases q with
    | false =>
      cases hq
      exact ⟨by decide, fun _ => by decide⟩
    | true => cases hq
  have hsecond := hfirst.step hchecked rfl
  exact ⟨_, hsecond, by decide, sharing_enforced hsecond⟩

/-- The file is opened for writing, and then for reading by somebody who lets others only read. -/
def writerAndReader : List (Action Bool) :=
  [.open oneFile (existing kFileAccessWrite 3) false,
    .open oneFile (existing kFileAccessRead kFileShareRead) true]

/-- **Two handles that are not compatible.**  The share mode of the second handle does not permit
what the first one does. -/
theorem sharing_violated :
    ∃ s h h', (LTS.ofFun step).Reachable (initial : State Bool) s ∧ s.files false = some h ∧
      s.files true = some h' ∧ h.device = h'.device ∧ h.inode = h'.inode ∧
      ¬ Permits h'.shareMode h.accessMode ∧ ¬ Shared s := by
  obtain ⟨s, hs, hf, ht⟩ := LTS.exists_reachWith (f := step) (G := fun _ _ => True)
    (i := initial) writerAndReader (fun s : State Bool =>
      s.files false = some ⟨3, .disk, "a", 0, 3, kFileAccessWrite, 1, 7⟩ ∧
      s.files true = some ⟨3, .disk, "a", 0, kFileShareRead, kFileAccessRead, 1, 7⟩) (by decide)
  refine ⟨s, _, _, hs, hf, ht, rfl, rfl, by decide, fun hshared => ?_⟩
  have hc := hshared false true _ _ (by decide) hf ht rfl rfl
  exact absurd hc.right (by decide)

end File

end Il2Cpp
