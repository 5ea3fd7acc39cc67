import Il2Cpp.LTS.Basic

/-!
# Mapped files in memory

The generic `MemoryMappedFile` keeps a file without a path in memory, and views of it are pointers
into its buffer; a view of a real file is a buffer of its own.  The files and the views are in two
tables, from which `erase_swap_back` takes an entry out.  It gets the address of a local variable,
and not that of the entry; so it is the last entry that goes.

* `State` : the two tables, the files in memory and the buffers of views.
* `create`, `view`, `unmapView`, `close` : the functions.
* `Ledger` : the files, the views and the buffers that there should be.
* `Clean` : a view lies in its file, and what is taken out of a table is its last entry.
* `tables_exact` : in the runs of clean calls the tables are those of the ledger, the views lie in
  their files, and no call reads or frees what was freed before.
-/

namespace Il2Cpp

namespace GenericMemoryMappedFile

/-! ### State -/

/-- `MemoryFileData`, with the address of its buffer. -/
structure MemoryFileData where
  mapName : String
  handle : ℕ
  size : ℤ

/-- The tables and the memory. -/
structure State where
  objects : ℕ → Option MemoryFileData
  /-- `s_MemoryFiles` -/
  memoryFiles : List ℕ
  /-- `s_MemoryFileViews` -/
  memoryFileViews : List ℕ
  /-- the buffers of views of real files, with their lengths -/
  buffers : ℕ → Option ℤ

/-- Nothing was created yet. -/
def State.initial : State := ⟨fun _ => none, [], [], fun _ => none⟩

/-- What the calls for a real file do. -/
structure RealCalls where
  /-- `File::GetLength` -/
  getLength : Option ℤ
  /-- the buffer that is allocated -/
  buffer : ℕ
  seekFails : Bool
  readFails : Bool
  bytesRead : ℤ

/-- The length of a view of a real file, if it is not an error to ask for it. -/
def RealCalls.length (calls : RealCalls) (length : ℤ) : Option ℤ :=
  if length = 0 then calls.getLength else some length

/-- The length of a view of a file in memory. -/
def MemoryFileData.length (d : MemoryFileData) (length : ℤ) : ℤ :=
  if length = 0 then d.size else length

namespace State

variable (s : State)

/-! ### The functions -/

/-- A search in `s_MemoryFiles`, with the address of the entry; `none` if it reads an entry that was
deleted. -/
def find (f : MemoryFileData → Bool) : List ℕ → Option (Option (ℕ × MemoryFileData))
  | [] => some none
  | p :: rest => (s.objects p).bind fun d => if f d then some (some (p, d)) else find f rest

/-- `FindMemoryFile(void*)`, and `IsMemoryFile`. -/
def findMemoryFile (handle : ℕ) : Option (Option (ℕ × MemoryFileData)) :=
  s.find (·.handle = handle) s.memoryFiles

/-- `FindMemoryFile(const char*)`. -/
def findMapName (mapName : String) : Option (Option (ℕ × MemoryFileData)) :=
  s.find (·.mapName = mapName) s.memoryFiles

/-- `Create`; a new file is allocated at `object`, and its buffer at `handle`. -/
def create (file : Option ℕ) (mapName : Option String) (capacity : ℤ) (object handle : ℕ) :
    Option (State × Option ℕ) :=
  match file, mapName with
  | some file, _ => some (s, some file)
  | none, none => some (s, none)
  | none, some mapName => (s.findMapName mapName).map fun found =>
    match found with
    | some (_, d) => (s, some d.handle)
    | none =>
      ({ s with
          objects := Function.update s.objects object (some ⟨mapName, handle, capacity⟩)
          memoryFiles := s.memoryFiles ++ [object] },
        some handle)

/-- `ViewMemoryFile` : the address and the length. -/
def viewMemoryFile (d : MemoryFileData) (length offset : ℤ) : State × Option (ℕ × ℤ) :=
  if d.length length > d.size then (s, none)
  else
    let address := ((d.handle + offset) % 2 ^ 64).toNat
    ({ s with memoryFileViews := s.memoryFileViews ++ [address] }, some (address, d.length length))

/-- `ViewRealFile`. -/
def viewRealFile (length : ℤ) (calls : RealCalls) : State × Option (ℕ × ℤ) :=
  match calls.length length with
  | none => (s, none)
  | some length =>
    if calls.seekFails then (s, none)
    else if calls.bytesRead ≠ length ∨ calls.readFails then (s, none)
    else
      ({ s with buffers := Function.update s.buffers calls.buffer (some length) },
        some (calls.buffer, length))

/-- `View`. -/
def view (handle : ℕ) (length offset : ℤ) (calls : RealCalls) :
    Option (State × Option (ℕ × ℤ)) :=
  (s.findMemoryFile handle).map fun found =>
    match found with
    | some (_, d) => s.viewMemoryFile d length offset
    | none => s.viewRealFile length calls

/-- `IL2CPP_FREE`; `none` if there is no buffer at the address. -/
def freeBuffer (address : ℕ) : Option State :=
  if address = 0 then some s
  else (s.buffers address).map fun _ =>
    { s with buffers := Function.update s.buffers address none }

/-- `UnmapView`. -/
def unmapView (address : ℕ) : Option State :=
  if address ∈ s.memoryFileViews then
    some { s with memoryFileViews := s.memoryFileViews.dropLast }
  else (s.findMemoryFile address).bind fun found =>
    match found with
    | some _ => some s
    | none => s.freeBuffer address

/-- `Close`. -/
def close (file : ℕ) : Option State :=
  (s.findMemoryFile file).map fun found =>
    match found with
    | some (p, _) =>
      { s with
        objects := Function.update s.objects p none
        memoryFiles := s.memoryFiles.dropLast }
    | none => s

end State

/-! ### Runs -/

/-- A view that was handed out. -/
structure View where
  file : ℕ
  address : ℕ
  length : ℤ
  deriving DecidableEq

/-- What there should be: the files that were created and not closed, the views of them that were
handed out and not unmapped, and the buffers of views of real files. -/
structure Ledger where
  files : List MemoryFileData
  views : List View
  buffers : List (ℕ × ℤ)

/-- A call. -/
inductive Call
  | create (file : Option ℕ) (mapName : Option String) (capacity : ℤ) (object handle : ℕ)
  | view (handle : ℕ) (length offset : ℤ) (calls : RealCalls)
  | unmapView (address : ℕ) (length : ℤ)
  | close (file : ℕ)

namespace Ledger

variable (l : Ledger)

/-- A file is created if there is none with its name. -/
def create (file : Option ℕ) (mapName : Option String) (capacity : ℤ) (handle : ℕ) : Ledger :=
  match file, mapName with
  | none, some mapName =>
    if l.files.any (·.mapName = mapName) then l
    else { l with files := l.files ++ [⟨mapName, handle, capacity⟩] }
  | _, _ => l

/-- A view is handed out. -/
def view (handle : ℕ) : Option (ℕ × ℤ) → Ledger
  | none => l
  | some (address, length) =>
    if l.files.any (·.handle = handle) then
      { l with views := l.views ++ [⟨handle, address, length⟩] }
    else { l with buffers := l.buffers ++ [(address, length)] }

/-- The view is one with the address and the length. -/
def isView (address : ℕ) (length : ℤ) (v : View) : Bool := v.address = address && v.length = length

/-- A view is unmapped. -/
def unmapView (address : ℕ) (length : ℤ) : Ledger :=
  if l.views.any (isView address length) then
    { l with views := l.views.eraseP (isView address length) }
  else { l with buffers := l.buffers.erase (address, length) }

/-- A file is closed. -/
def close (file : ℕ) : Ledger := { l with files := l.files.filter (·.handle ≠ file) }

end Ledger

/-- A call, and what there should be after it. -/
def step (t : State × Ledger) : Call → Option (State × Ledger)
  | .create file mapName capacity object handle =>
    (t.1.create file mapName capacity object handle).map fun r =>
      (r.1, t.2.create file mapName capacity handle)
  | .view handle length offset calls =>
    (t.1.view handle length offset calls).map fun r => (r.1, t.2.view handle r.2)
  | .unmapView address length =>
    (t.1.unmapView address).map fun s => (s, t.2.unmapView address length)
  | .close file => (t.1.close file).map fun s => (s, t.2.close file)

/-- Two blocks of memory do not overlap.  Also an empty block has an address of its own. -/
def Apart (a : ℕ) (n : ℤ) (b : ℕ) (m : ℤ) : Prop := a + max n 1 ≤ b ∨ b + max m 1 ≤ a

/-- A block of memory that can be allocated. -/
structure Fresh (s : State) (a : ℕ) (n : ℤ) : Prop where
  pos : 0 < a
  size : 0 ≤ n
  le : a + max n 1 ≤ 2 ^ 64
  files : ∀ p d, s.objects p = some d → Apart d.handle d.size a n
  buffers : ∀ b m, s.buffers b = some m → Apart b m a n

/-- What is allocated was free. -/
def Allowed (t : State × Ledger) : Call → Prop
  | .create _ _ capacity object handle => t.1.objects object = none ∧ Fresh t.1 handle capacity
  | .view _ length _ calls => ∀ n, calls.length length = some n → calls.bytesRead = n →
      Fresh t.1 calls.buffer n
  | .unmapView _ _ | .close _ => True

/-- A view of a file in memory lies in it, if it is not longer than the file; what is unmapped is a
view that is the last one in the table, or a buffer; and a file that is closed is the last one in
the table, and no view of it is left. -/
def Clean (t : State × Ledger) : Call → Prop
  | .create _ _ _ _ _ => True
  | .view handle length offset _ => ∀ d ∈ t.2.files, d.handle = handle →
      d.length length ≤ d.size →
        0 ≤ offset ∧ 0 ≤ d.length length ∧ offset + d.length length ≤ d.size
  | .unmapView address length =>
    if t.2.views.any (Ledger.isView address length) then
      t.1.memoryFileViews.getLast? = some address
    else (address, length) ∈ t.2.buffers
  | .close file => ∀ d ∈ t.2.files, d.handle = file →
      t.1.memoryFiles.getLast?.bind t.1.objects = some d ∧ ∀ v ∈ t.2.views, v.file ≠ file

/-- The view lies in the buffer of the file. -/
structure View.Inside (v : View) (d : MemoryFileData) : Prop where
  file : d.handle = v.file
  le : d.handle ≤ v.address
  length : 0 ≤ v.length
  end_le : v.address + v.length ≤ d.handle + d.size

/-- The tables and the buffers are those of the ledger, and every view lies in its file. -/
structure Exact (s : State) (l : Ledger) : Prop where
  files : (s.memoryFiles.map s.objects).Perm (l.files.map some)
  views : s.memoryFileViews.Perm (l.views.map View.address)
  inside : ∀ v ∈ l.views, ∃ d ∈ l.files, v.Inside d
  buffers : ∀ a n, s.buffers a = some n ↔ (a, n) ∈ l.buffers

/-! ### The invariant -/

/-- **The invariant.**  The memory of the files and of the buffers does not overlap. -/
structure Inv (s : State) (l : Ledger) : Prop extends Exact s l where
  nodup : s.memoryFiles.Nodup
  /-- An empty view has the address of its file. -/
  placed : ∀ v ∈ l.views, 0 < v.length ∨ v.address = v.file
  bounded : ∀ d ∈ l.files, 0 < d.handle ∧ 0 ≤ d.size ∧ d.handle + max d.size 1 ≤ 2 ^ 64
  apart : l.files.Pairwise fun d e => Apart d.handle d.size e.handle e.size
  apart_buffers : ∀ d ∈ l.files, ∀ a n, (a, n) ∈ l.buffers → Apart d.handle d.size a n
  nodup_buffers : l.buffers.Nodup
  pos : ∀ a n, (a, n) ∈ l.buffers → 0 < a

variable {s s' : State} {l : Ledger}

theorem Apart.symm {a b : ℕ} {n m : ℤ} (h : Apart a n b m) : Apart b m a n := Or.symm h

theorem Apart.ne {a b : ℕ} {n m : ℤ} (h : Apart a n b m) : a ≠ b := by
  rintro rfl
  rcases h with h | h <;> omega

namespace Exact

theorem mem_files (h : Exact s l) {d : MemoryFileData} :
    d ∈ l.files ↔ ∃ p ∈ s.memoryFiles, s.objects p = some d := by
  have hmem : some d ∈ s.memoryFiles.map s.objects ↔ some d ∈ l.files.map some := h.files.mem_iff
  rw [List.mem_map, List.mem_map] at hmem
  rw [hmem]
  simp

theorem live (h : Exact s l) {p : ℕ} (hp : p ∈ s.memoryFiles) :
    ∃ d ∈ l.files, s.objects p = some d := by
  have hmem := h.files.subset (List.mem_map_of_mem hp)
  obtain ⟨d, hd, heq⟩ := List.mem_map.1 hmem
  exact ⟨d, hd, heq.symm⟩

theorem mem_views (h : Exact s l) {address : ℕ} :
    address ∈ s.memoryFileViews ↔ ∃ v ∈ l.views, v.address = address := by
  rw [h.views.mem_iff, List.mem_map]

end Exact

theorem find_cases (s : State) (f : MemoryFileData → Bool) {files : List ℕ}
    (hlive : ∀ p ∈ files, s.objects p ≠ none) :
    (∃ p d, s.find f files = some (some (p, d)) ∧ p ∈ files ∧ s.objects p = some d ∧
      f d = true) ∨
    s.find f files = some none ∧ ∀ p ∈ files, ∀ d, s.objects p = some d → f d = false := by
  induction files with
  | nil => exact .inr ⟨rfl, nofun⟩
  | cons p files ih =>
    obtain ⟨d, hd⟩ := Option.ne_none_iff_exists'.1 (hlive p List.mem_cons_self)
    rw [State.find, hd, Option.bind_some]
    by_cases hf : f d = true
    · rw [if_pos hf]
      exact .inl ⟨p, d, rfl, List.mem_cons_self, hd, hf⟩
    · rw [if_neg hf]
      rcases ih fun q hq => hlive q (List.mem_cons_of_mem _ hq) with
        ⟨q, e, hfind, hq, he, hfe⟩ | ⟨hfind, hno⟩
      · exact .inl ⟨q, e, hfind, List.mem_cons_of_mem _ hq, he, hfe⟩
      · refine .inr ⟨hfind, fun q hq e he => ?_⟩
        rcases List.mem_cons.1 hq with rfl | hq
        · cases hd.symm.trans he
          exact Bool.eq_false_iff.2 hf
        · exact hno q hq e he

theorem Exact.find (h : Exact s l) (f : MemoryFileData → Bool) :
    (∃ p d, s.find f s.memoryFiles = some (some (p, d)) ∧ p ∈ s.memoryFiles ∧
      s.objects p = some d ∧ d ∈ l.files ∧ f d = true) ∨
    s.find f s.memoryFiles = some none ∧ ∀ d ∈ l.files, f d = false := by
  have hlive (p : ℕ) (hp : p ∈ s.memoryFiles) : s.objects p ≠ none := by
    obtain ⟨d, -, hd⟩ := h.live hp
    rw [hd]
    exact Option.some_ne_none d
  rcases find_cases s f hlive with ⟨p, d, hfind, hp, hd, hf⟩ | ⟨hfind, hno⟩
  · exact .inl ⟨p, d, hfind, hp, hd, h.mem_files.2 ⟨p, hp, hd⟩, hf⟩
  · refine .inr ⟨hfind, fun d hd => ?_⟩
    obtain ⟨p, hp, hpd⟩ := h.mem_files.1 hd
    exact hno p hp d hpd

theorem Exact.findMemoryFile (h : Exact s l) (handle : ℕ) :
    (∃ p d, s.findMemoryFile handle = some (some (p, d)) ∧ p ∈ s.memoryFiles ∧
      s.objects p = some d ∧ d ∈ l.files ∧ d.handle = handle) ∨
    s.findMemoryFile handle = some none ∧ ∀ d ∈ l.files, d.handle ≠ handle := by
  rcases h.find (·.handle = handle) with ⟨p, d, hfind, hp, hd, hmem, hf⟩ | ⟨hfind, hno⟩
  · exact .inl ⟨p, d, hfind, hp, hd, hmem, of_decide_eq_true hf⟩
  · exact .inr ⟨hfind, fun d hd => of_decide_eq_false (hno d hd)⟩

theorem Inv.address_ne (h : Inv s l) {a : ℕ} {n : ℤ} (hbuffer : (a, n) ∈ l.buffers) {v : View}
    (hv : v ∈ l.views) : v.address ≠ a := by
  obtain ⟨d, hd, hinside⟩ := h.inside v hv
  have hapart := h.apart_buffers d hd a n hbuffer
  obtain ⟨hfile, hle, hlength, hend⟩ := hinside
  have hplaced := h.placed v hv
  rcases hapart with hapart | hapart <;> omega

theorem Inv.eq_of_objects (h : Inv s l) {p q : ℕ} (hp : p ∈ s.memoryFiles)
    (hq : q ∈ s.memoryFiles) (heq : s.objects p = s.objects q) : p = q := by
  have hfiles : l.files.Nodup := h.apart.imp fun hapart heq => hapart.ne (by rw [heq])
  have hobjects : (s.memoryFiles.map s.objects).Nodup :=
    h.files.nodup_iff.2 (hfiles.map fun _ _ h => Option.some.inj h)
  exact List.inj_on_of_nodup_map hobjects hp hq heq

theorem inv_initial : Inv .initial ⟨[], [], []⟩ where
  files := .nil
  views := .nil
  inside _ hv := absurd hv List.not_mem_nil
  buffers _ _ := iff_of_false nofun List.not_mem_nil
  nodup := List.nodup_nil
  placed _ hv := absurd hv List.not_mem_nil
  bounded _ hd := absurd hd List.not_mem_nil
  apart := .nil
  apart_buffers _ hd := absurd hd List.not_mem_nil
  nodup_buffers := List.nodup_nil
  pos _ _ hb := absurd hb List.not_mem_nil

/-! ### The calls -/

theorem Inv.new_file (h : Inv s l) {d : MemoryFileData} {object : ℕ}
    (hobject : s.objects object = none) (hfresh : Fresh s d.handle d.size) :
    Inv { s with
        objects := Function.update s.objects object (some d)
        memoryFiles := s.memoryFiles ++ [object] }
      { l with files := l.files ++ [d] } := by
  have hno : object ∉ s.memoryFiles := by
    intro hmem
    obtain ⟨e, -, he⟩ := h.live hmem
    rw [hobject] at he
    cases he
  have hsame : s.memoryFiles.map (Function.update s.objects object (some d)) =
      s.memoryFiles.map s.objects := List.map_congr_left fun p hp =>
    Function.update_of_ne (ne_of_mem_of_not_mem hp hno) ..
  have hapart (e : MemoryFileData) (he : e ∈ l.files) :
      Apart e.handle e.size d.handle d.size := by
    obtain ⟨p, -, hp⟩ := h.mem_files.1 he
    exact hfresh.files p e hp
  refine ⟨⟨?_, h.views, fun v hv => ?_, h.buffers⟩, ?_, h.placed, fun e he => ?_, ?_,
    fun e he a n hb => ?_, h.nodup_buffers, h.pos⟩
  · change ((s.memoryFiles ++ [object]).map (Function.update s.objects object (some d))).Perm _
    rw [List.map_append, List.map_append, hsame, List.map_singleton, Function.update_self]
    exact h.files.append_right _
  · obtain ⟨e, he, hinside⟩ := h.inside v hv
    exact ⟨e, List.mem_append_left _ he, hinside⟩
  · refine List.nodup_append.2 ⟨h.nodup, List.nodup_singleton _, fun p hp q hq => ?_⟩
    rw [List.mem_singleton] at hq
    rintro rfl
    exact hno (hq ▸ hp)
  · rcases List.mem_append.1 he with he | he
    · exact h.bounded e he
    · rw [List.mem_singleton] at he
      rw [he]
      exact ⟨hfresh.pos, hfresh.size, hfresh.le⟩
  · refine List.pairwise_append.2 ⟨h.apart, List.pairwise_singleton .., fun e he e' he' => ?_⟩
    rw [List.mem_singleton] at he'
    rw [he']
    exact hapart e he
  · rcases List.mem_append.1 he with he | he
    · exact h.apart_buffers e he a n hb
    · rw [List.mem_singleton] at he
      rw [he]
      exact (hfresh.buffers a n ((h.buffers a n).2 hb)).symm

theorem Inv.new_view (h : Inv s l) {d : MemoryFileData} (hd : d ∈ l.files) {length offset : ℤ}
    (hoffset : 0 ≤ offset) (hlength : 0 ≤ d.length length)
    (hend : offset + d.length length ≤ d.size) :
    Inv { s with memoryFileViews :=
        s.memoryFileViews ++ [((d.handle + offset) % 2 ^ 64).toNat] }
      { l with views := l.views ++
        [⟨d.handle, ((d.handle + offset) % 2 ^ 64).toNat, d.length length⟩] } := by
  obtain ⟨hpos, hsize, hbound⟩ := h.bounded d hd
  have hplaced : 0 < d.length length ∨ offset = 0 := by
    rw [MemoryFileData.length] at hlength hend ⊢
    split_ifs at hlength hend ⊢ <;> omega
  have haddress : (((d.handle + offset) % 2 ^ 64).toNat : ℤ) = d.handle + offset := by
    rw [Int.emod_eq_of_lt (by omega) (by omega)]
    omega
  refine ⟨⟨h.files, ?_, fun v hv => ?_, h.buffers⟩, h.nodup, fun v hv => ?_, h.bounded, h.apart,
    h.apart_buffers, h.nodup_buffers, h.pos⟩
  · rw [List.map_append]
    exact h.views.append_right _
  · rcases List.mem_append.1 hv with hv | hv
    · exact h.inside v hv
    · rw [List.mem_singleton] at hv
      rw [hv]
      refine ⟨d, hd, rfl, ?_, hlength, ?_⟩
      · change d.handle ≤ ((d.handle + offset) % 2 ^ 64).toNat
        omega
      · change (((d.handle + offset) % 2 ^ 64).toNat : ℤ) + d.length length ≤ d.handle + d.size
        omega
  · rcases List.mem_append.1 hv with hv | hv
    · exact h.placed v hv
    · rw [List.mem_singleton] at hv
      rw [hv]
      change 0 < d.length length ∨ ((d.handle + offset) % 2 ^ 64).toNat = d.handle
      omega

theorem Inv.new_buffer (h : Inv s l) {a : ℕ} {n : ℤ} (hfresh : Fresh s a n) :
    Inv { s with buffers := Function.update s.buffers a (some n) }
      { l with buffers := l.buffers ++ [(a, n)] } := by
  have hno (m : ℤ) : (a, m) ∉ l.buffers := by
    intro hmem
    exact (hfresh.buffers a m ((h.buffers a m).2 hmem)).ne rfl
  refine ⟨⟨h.files, h.views, h.inside, fun b m => ?_⟩, h.nodup, h.placed, h.bounded, h.apart,
    fun d hd b m hb => ?_, ?_, fun b m hb => ?_⟩
  · change Function.update s.buffers a (some n) b = some m ↔ _
    rw [Function.update_apply, List.mem_append, List.mem_singleton, Prod.mk.injEq]
    split_ifs with hb
    · rw [hb, Option.some.injEq]
      constructor
      · rintro rfl
        exact .inr ⟨rfl, rfl⟩
      · rintro (hmem | ⟨-, rfl⟩)
        · exact absurd hmem (hno m)
        · rfl
    · rw [h.buffers]
      exact (or_iff_left fun heq => hb heq.1).symm
  · rcases List.mem_append.1 hb with hb | hb
    · exact h.apart_buffers d hd b m hb
    · cases List.mem_singleton.1 hb
      obtain ⟨p, -, hp⟩ := h.mem_files.1 hd
      exact hfresh.files p d hp
  · refine List.nodup_append.2 ⟨h.nodup_buffers, List.nodup_singleton _, fun b hb c hc => ?_⟩
    rw [List.mem_singleton] at hc
    rintro rfl
    exact hno n (hc ▸ hb)
  · rcases List.mem_append.1 hb with hb | hb
    · exact h.pos b m hb
    · cases List.mem_singleton.1 hb
      exact hfresh.pos

theorem Inv.unmap_view (h : Inv s l) {address : ℕ} {length : ℤ}
    (hview : l.views.any (Ledger.isView address length) = true)
    (hlast : s.memoryFileViews.getLast? = some address) :
    Inv { s with memoryFileViews := s.memoryFileViews.dropLast }
      { l with views := l.views.eraseP (Ledger.isView address length) } := by
  obtain ⟨v, hv, hisView⟩ := List.any_eq_true.1 hview
  obtain ⟨w, before, after, -, hw, hviews, herase⟩ := List.exists_of_eraseP hv hisView
  have hwaddress : w.address = address := by
    rw [Ledger.isView, Bool.and_eq_true, decide_eq_true_eq] at hw
    exact hw.1
  have htable : s.memoryFileViews = s.memoryFileViews.dropLast ++ [address] :=
    (List.dropLast_append_getLast? address hlast).symm
  have hsub (u : View) (hu : u ∈ l.views.eraseP (Ledger.isView address length)) : u ∈ l.views :=
    List.eraseP_subset hu
  refine ⟨⟨h.files, ?_, fun u hu => h.inside u (hsub u hu), h.buffers⟩, h.nodup,
    fun u hu => h.placed u (hsub u hu), h.bounded, h.apart, h.apart_buffers, h.nodup_buffers, h.pos⟩
  have hperm := h.views
  rw [htable, hviews, List.map_append, List.map_cons, hwaddress] at hperm
  rw [herase, List.map_append]
  exact ((List.perm_append_singleton _ _).symm.trans (hperm.trans List.perm_middle)).cons_inv

theorem Inv.unmap_buffer (h : Inv s l) {a : ℕ} {n : ℤ} (hbuffer : (a, n) ∈ l.buffers) :
    Inv { s with buffers := Function.update s.buffers a none }
      { l with buffers := l.buffers.erase (a, n) } := by
  have hsub (b : ℕ) (m : ℤ) (hb : (b, m) ∈ l.buffers.erase (a, n)) : (b, m) ∈ l.buffers :=
    List.mem_of_mem_erase hb
  refine ⟨⟨h.files, h.views, h.inside, fun b m => ?_⟩, h.nodup, h.placed, h.bounded, h.apart,
    fun d hd b m hb => h.apart_buffers d hd b m (hsub b m hb), h.nodup_buffers.erase _,
    fun b m hb => h.pos b m (hsub b m hb)⟩
  change Function.update s.buffers a none b = some m ↔ _
  rw [Function.update_apply, h.nodup_buffers.mem_erase_iff, ne_eq, Prod.mk.injEq]
  split_ifs with hb
  · subst hb
    refine iff_of_false nofun fun hmem => hmem.1 ⟨rfl, ?_⟩
    have hm := (h.buffers b m).2 hmem.2
    have hn := (h.buffers b n).2 hbuffer
    exact Option.some.inj (hm.symm.trans hn)
  · rw [h.buffers]
    exact (and_iff_right fun heq => hb heq.1).symm

theorem Inv.close_file (h : Inv s l) {p : ℕ} {d : MemoryFileData} (hp : s.objects p = some d)
    (hmem : p ∈ s.memoryFiles) (hlast : s.memoryFiles.getLast?.bind s.objects = some d)
    (hviews : ∀ v ∈ l.views, v.file ≠ d.handle) :
    Inv { s with
        objects := Function.update s.objects p none
        memoryFiles := s.memoryFiles.dropLast }
      { l with files := l.files.filter (·.handle ≠ d.handle) } := by
  obtain ⟨q, hq, hqd⟩ := Option.bind_eq_some_iff.1 hlast
  obtain rfl := h.eq_of_objects hmem (List.mem_of_getLast? hq) (hp.trans hqd.symm)
  have htable : s.memoryFiles = s.memoryFiles.dropLast ++ [p] :=
    (List.dropLast_append_getLast? p hq).symm
  have hno : p ∉ s.memoryFiles.dropLast := by
    have hnodup := h.nodup
    rw [htable, List.nodup_append] at hnodup
    exact fun hmem => hnodup.2.2 p hmem p (List.mem_singleton_self p) rfl
  have hsame : s.memoryFiles.dropLast.map (Function.update s.objects p none) =
      s.memoryFiles.dropLast.map s.objects := List.map_congr_left fun r hr =>
    Function.update_of_ne (ne_of_mem_of_not_mem hr hno) ..
  -- only the file itself has its handle
  obtain ⟨before, after, hfiles⟩ := List.append_of_mem (h.mem_files.2 ⟨p, hmem, hp⟩)
  have hfilter : l.files.filter (·.handle ≠ d.handle) = before ++ after := by
    have hne (e : MemoryFileData) (he : e ∈ before ∨ e ∈ after) : e.handle ≠ d.handle := by
      have hapart := h.apart
      rw [hfiles, List.pairwise_append, List.pairwise_cons] at hapart
      rcases he with he | he
      · exact (hapart.2.2 e he d List.mem_cons_self).ne
      · exact (hapart.2.1.1 e he).ne.symm
    rw [hfiles, List.filter_append, List.filter_cons_of_neg (by simp),
      List.filter_eq_self.2 fun e he => decide_eq_true (hne e (.inl he)),
      List.filter_eq_self.2 fun e he => decide_eq_true (hne e (.inr he))]
  have hsub (e : MemoryFileData) (he : e ∈ l.files.filter (·.handle ≠ d.handle)) : e ∈ l.files :=
    List.mem_of_mem_filter he
  refine ⟨⟨?_, h.views, fun v hv => ?_, h.buffers⟩, h.nodup.sublist (List.dropLast_sublist _),
    h.placed, fun e he => h.bounded e (hsub e he), h.apart.sublist List.filter_sublist,
    fun e he => h.apart_buffers e (hsub e he), h.nodup_buffers, h.pos⟩
  · have hperm := h.files
    rw [htable, hfiles, List.map_append, List.map_singleton, hp, List.map_append,
      List.map_cons] at hperm
    change (s.memoryFiles.dropLast.map (Function.update s.objects p none)).Perm _
    rw [hsame, hfilter, List.map_append]
    exact ((List.perm_append_singleton _ _).symm.trans (hperm.trans List.perm_middle)).cons_inv
  · obtain ⟨e, he, hinside⟩ := h.inside v hv
    refine ⟨e, List.mem_filter.2 ⟨he, decide_eq_true ?_⟩, hinside⟩
    rw [hinside.file]
    exact hviews v hv

/-- **One call** that is clean can be made, and keeps the invariant. -/
theorem Inv.step (h : Inv s l) {call : Call} (hallowed : Allowed (s, l) call)
    (hclean : Clean (s, l) call) :
    ∃ t, step (s, l) call = some t ∧ Inv t.1 t.2 := by
  cases call with
  | create file mapName capacity object handle =>
    cases file with
    | some file => exact ⟨(s, l), by cases mapName <;> rfl, h⟩
    | none =>
      cases mapName with
      | none => exact ⟨(s, l), rfl, h⟩
      | some mapName =>
        simp only [GenericMemoryMappedFile.step, State.create, Ledger.create, State.findMapName]
        rcases h.find (·.mapName = mapName) with ⟨p, d, hfind, -, -, hd, hname⟩ | ⟨hfind, hno⟩
        · have hany : l.files.any (·.mapName = mapName) = true := List.any_eq_true.2 ⟨d, hd, hname⟩
          rw [hfind, if_pos hany]
          exact ⟨_, rfl, h⟩
        · have hany : ¬ l.files.any (·.mapName = mapName) = true := by
            intro hany
            obtain ⟨d, hd, hname⟩ := List.any_eq_true.1 hany
            rw [hno d hd] at hname
            cases hname
          rw [hfind, if_neg hany]
          exact ⟨_, rfl, h.new_file (d := ⟨mapName, handle, capacity⟩) hallowed.1 hallowed.2⟩
  | view handle length offset calls =>
    simp only [GenericMemoryMappedFile.step, State.view]
    rcases h.findMemoryFile handle with ⟨p, d, hfind, -, -, hd, rfl⟩ | ⟨hfind, hno⟩
    · have hany : l.files.any (·.handle = d.handle) = true :=
        List.any_eq_true.2 ⟨d, hd, decide_eq_true rfl⟩
      simp only [hfind, Option.map_some, State.viewMemoryFile]
      split_ifs with htoo
      · exact ⟨_, rfl, h⟩
      · obtain ⟨hoffset, hlength, hend⟩ := hclean d hd rfl (Int.not_lt.1 htoo)
        refine ⟨_, rfl, ?_⟩
        simp only [Ledger.view, if_pos hany]
        exact h.new_view hd hoffset hlength hend
    · have hany : ¬ l.files.any (·.handle = handle) = true := by
        intro hany
        obtain ⟨d, hd, hhandle⟩ := List.any_eq_true.1 hany
        exact hno d hd (of_decide_eq_true hhandle)
      simp only [hfind, Option.map_some, State.viewRealFile]
      cases hlength : calls.length length with
      | none => exact ⟨_, rfl, h⟩
      | some n =>
        simp only
        split_ifs with hseek hread
        · exact ⟨_, rfl, h⟩
        · exact ⟨_, rfl, h⟩
        · rw [not_or, not_not] at hread
          refine ⟨_, rfl, ?_⟩
          simp only [Ledger.view, if_neg hany]
          exact h.new_buffer (hallowed n hlength hread.1)
  | unmapView address length =>
    change if l.views.any (Ledger.isView address length) = true then _ else _ at hclean
    simp only [GenericMemoryMappedFile.step, Ledger.unmapView]
    split_ifs at hclean ⊢ with hview
    · have hmem : address ∈ s.memoryFileViews := List.mem_of_getLast? hclean
      simp only [State.unmapView, if_pos hmem]
      exact ⟨_, rfl, h.unmap_view hview hclean⟩
    · have hno : address ∉ s.memoryFileViews := by
        intro hmem
        obtain ⟨v, hv, heq⟩ := h.mem_views.1 hmem
        exact h.address_ne hclean hv heq
      have hfile : s.findMemoryFile address = some none := by
        rcases h.findMemoryFile address with ⟨p, d, -, -, -, hd, hhandle⟩ | ⟨hfind, -⟩
        · exact absurd hhandle (h.apart_buffers d hd _ _ hclean).ne
        · exact hfind
      have hbuffer := (h.buffers address length).2 hclean
      have hpos : address ≠ 0 := Nat.ne_of_gt (h.pos _ _ hclean)
      simp only [State.unmapView, if_neg hno, hfile, Option.bind_some, State.freeBuffer,
        if_neg hpos, hbuffer, Option.map_some]
      exact ⟨_, rfl, h.unmap_buffer hclean⟩
  | close file =>
    simp only [GenericMemoryMappedFile.step, State.close, Ledger.close]
    rcases h.findMemoryFile file with ⟨p, d, hfind, hmem, hp, hd, rfl⟩ | ⟨hfind, hno⟩
    · obtain ⟨hlast, hviews⟩ := hclean d hd rfl
      rw [hfind]
      exact ⟨_, rfl, h.close_file hp hmem hlast hviews⟩
    · have hall : l.files.filter (·.handle ≠ file) = l.files :=
        List.filter_eq_self.2 fun d hd => decide_eq_true (hno d hd)
      rw [hfind, hall]
      exact ⟨_, rfl, h⟩

/-- **The tables are exact** in every run of clean calls, and the next clean call can be made: it
neither reads an entry that was deleted nor frees what is not a buffer of a view. -/
theorem tables_exact
    (h : (LTS.ofFun step).ReachWith (fun t call => Allowed t call ∧ Clean t call)
      (.initial, ⟨[], [], []⟩) (s, l)) :
    Exact s l ∧ ∀ call, Allowed (s, l) call → Clean (s, l) call → (step (s, l) call).isSome := by
  have hinv : Inv s l := by
    refine h.invariant (I := fun t => Inv t.1 t.2) inv_initial ?_
    rintro ⟨s, l⟩ call t' hinv ⟨hallowed, hclean⟩ hst
    obtain ⟨t, hrun, hinv'⟩ := hinv.step hallowed hclean
    cases hrun.symm.trans hst
    exact hinv'
  refine ⟨hinv.toExact, fun call hallowed hclean => ?_⟩
  obtain ⟨t, hrun, -⟩ := hinv.step hallowed hclean
  rw [hrun]
  rfl

/-! ### Two files -/

/-- A file of ten bytes. -/
def createFirst : Call := .create none (some "a") 10 1 100

/-- Another one. -/
def createSecond : Call := .create none (some "b") 10 2 200

/-- The tables with the first file. -/
def oneFile : State :=
  ⟨Function.update (fun _ => none) 1 (some ⟨"a", 100, 10⟩), [1], [], fun _ => none⟩

theorem allowed_createFirst : Allowed (.initial, ⟨[], [], []⟩) createFirst :=
  ⟨rfl, ⟨by decide, by decide, by decide, nofun, nofun⟩⟩

/-- A file is created, and a view of four bytes of it is handed out. -/
theorem tables_exact_view : ∃ s, Exact s ⟨[⟨"a", 100, 10⟩], [⟨100, 102, 4⟩], []⟩ := by
  have hfile : (LTS.ofFun step).ReachWith (fun t call => Allowed t call ∧ Clean t call)
      (.initial, ⟨[], [], []⟩) (oneFile, ⟨[⟨"a", 100, 10⟩], [], []⟩) :=
    .step (l := createFirst) .init ⟨allowed_createFirst, trivial⟩ rfl
  let calls : RealCalls := ⟨none, 0, true, true, 0⟩
  have hallowed : Allowed (oneFile, ⟨[⟨"a", 100, 10⟩], [], []⟩) (.view 100 4 2 calls) := by
    rintro n hn hread
    cases hn
    cases hread
  have hclean : Clean (oneFile, ⟨[⟨"a", 100, 10⟩], [], []⟩) (.view 100 4 2 calls) := by
    intro d hd _ _
    cases List.mem_singleton.1 hd
    decide
  exact ⟨_, (tables_exact (.step hfile ⟨hallowed, hclean⟩ rfl)).1⟩

/-- The first of two files is closed: its entry stays in the table, and that of the other file goes.
-/
theorem tables_not_exact : ¬ ∀ s l, (LTS.ofFun step).ReachWith Allowed
    (.initial, ⟨[], [], []⟩) (s, l) → Exact s l := by
  intro h
  have hfirst : (LTS.ofFun step).ReachWith Allowed (.initial, ⟨[], [], []⟩)
      (oneFile, ⟨[⟨"a", 100, 10⟩], [], []⟩) :=
    .step (l := createFirst) .init allowed_createFirst rfl
  have hallowed : Allowed (oneFile, ⟨[⟨"a", 100, 10⟩], [], []⟩) createSecond := by
    refine ⟨rfl, by decide, by decide, by decide, fun p d hp => ?_, nofun⟩
    change Function.update (fun _ => none) 1 (some ⟨"a", 100, 10⟩) p = some d at hp
    rw [Function.update_apply] at hp
    split_ifs at hp
    cases hp
    exact .inl (by decide)
  have hsecond := hfirst.step (l := createSecond) hallowed rfl
  have hfiles := (h _ _ (hsecond.step (l := .close 100) trivial rfl)).files
  have hmem : none ∈ [some (⟨"b", 200, 10⟩ : MemoryFileData)] := hfiles.subset List.mem_cons_self
  cases List.mem_singleton.1 hmem

end GenericMemoryMappedFile

end Il2Cpp
