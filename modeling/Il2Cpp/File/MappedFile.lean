import Il2Cpp.LTS.Basic

/-!
# Memory mapped files

`utils::MemoryMappedFile::Map` and `Unmap`, with `Create`, `View`, `UnmapView` and `Close` of
`os/Posix/MemoryMappedFile.cpp`.  What the system calls return during `Map` is part of the label of
a step; `munmap` succeeds for a page-aligned address and a positive length, and unmaps whole pages.

* `create`, `view`, `map`, `unmap` : the functions.
* `State` : the two tables, the mapped pages and the open descriptors, and the mappings that were
  made and not released since.
* `Exact` : the tables, the pages and the descriptors are those of the mappings.
* `Allowed` : what the system promises of a duplicated descriptor and of mapped memory.
* `Clean` : a duplicated descriptor can be mapped, and what is unmapped is page-aligned and unmapped
  with the length that was recorded.
* `mapped_views_exact` : runs of clean steps are exact, and a step that maps or that unmaps one of
  the mappings is exact only if it is clean.
-/

namespace Il2Cpp

namespace MemoryMappedFile

/-- `MMAP_PAGE_SIZE`. -/
def kPageSize : ℤ := 4096

/-- `(size + page_size - 1) & ~(page_size - 1)`. -/
def alignUpToPageSize (size : ℤ) : ℤ := (size + kPageSize - 1) / kPageSize * kPageSize

/-- `size & ~(page_size - 1)`. -/
def alignDownToPageSize (size : ℤ) : ℤ := size / kPageSize * kPageSize

/-- `MemoryMappedFileError`, but for the value for success. -/
inductive Error
  | couldNotOpen | fileNotFound | fileAlreadyExists | capacitySmallerThanFileSize | accessDenied
  | couldNotMapMemory
  deriving DecidableEq

/-- The modes that `Create` tells apart, and the others. -/
inductive Mode
  | createNew | open | truncate | append | other
  deriving DecidableEq

/-- `st_size`, and whether `st_mode` is that of a special file. -/
structure Stat where
  size : ℤ
  special : Bool

/-- What the calls return during `Map`; `none` is a failure. -/
structure Calls where
  fstatCreate : Option Stat
  dup : Option ℕ
  fstatView : Option Stat
  mmap : Option ℕ

def isSpecialZeroSizeFile (buf : Stat) : Bool := buf.size = 0 && buf.special

/-- What `Create` checks of the capacity. -/
def capacityError (mode : Mode) (capacity : ℤ) : Option Stat → Bool
  | some buf =>
    if capacity = 0 then buf.size = 0 && !isSpecialZeroSizeFile buf else capacity < buf.size
  | none => mode = .createNew && capacity = 0

/-- `Create` for a file that is given: the duplicated descriptor. -/
def create (mode : Mode) (capacity : ℤ) (calls : Calls) : Except Error ℕ :=
  if mode ∈ [.truncate, .append, .open] ∧ calls.fstatCreate.isNone then .error .fileNotFound
  else if mode = .createNew ∧ calls.fstatCreate.isSome then .error .fileAlreadyExists
  else if capacityError mode capacity calls.fstatCreate then .error .capacitySmallerThanFileSize
  else match calls.dup with
    | none => .error .couldNotOpen
    | some fd => .ok fd

/-- What `View` returns. -/
structure ViewResult where
  address : ℕ
  length : ℤ
  actualOffset : ℤ

/-- `eff_size` : the length that is given, or what is left of the file in whole pages. -/
def effSize (length offset : ℤ) (buf : Stat) : ℤ :=
  if length = 0 then alignUpToPageSize buf.size - offset else length

/-- `View`.  The buffer of `fstat` is zero where the call fails. -/
def view (length offset : ℤ) (calls : Calls) : Except Error ViewResult :=
  let buf := calls.fstatView.getD ⟨0, false⟩
  if offset > buf.size ∨ length + offset > buf.size ∧ isSpecialZeroSizeFile buf = false then
    .error .accessDenied
  else
    let mmapOffset := alignDownToPageSize offset
    match calls.mmap with
    | none => .error .couldNotMapMemory
    | some address => .ok ⟨address, effSize length offset buf + (offset - mmapOffset), mmapOffset⟩

/-! ### State -/

/-- The pages that hold a range of addresses. -/
def PageOf (address : ℕ) (length : ℤ) (page : ℕ) : Prop :=
  address / kPageSize ≤ page ∧ page * kPageSize < address + length

instance (address : ℕ) (length : ℤ) (page : ℕ) : Decidable (PageOf address length page) :=
  inferInstanceAs (Decidable (_ ∧ _))

/-- A mapping: the address that `Map` returned, and what was mapped. -/
structure Mapping where
  address : ℕ
  base : ℕ
  length : ℤ
  fd : ℕ

structure State where
  /-- `s_MappedAddressToMappedFileObject`, by the descriptor of the object. -/
  objects : ℕ → Option ℕ
  /-- `s_MappedAddressToMappedLength`. -/
  lengths : ℕ → Option ℤ
  pages : ℕ → Bool
  descriptors : ℕ → Bool
  /-- The mappings that were made and not unmapped since. -/
  mappings : List Mapping

def init : State := ⟨fun _ => none, fun _ => none, fun _ => false, fun _ => false, []⟩

def State.dup (s : State) (fd : ℕ) : State :=
  { s with descriptors := Function.update s.descriptors fd true }

/-- The memory of a mapping is mapped, and the mapping is put in the tables. -/
def State.insert (s : State) (m : Mapping) : State where
  objects := Function.update s.objects m.address (some m.fd)
  lengths := Function.update s.lengths m.address (some m.length)
  pages page := s.pages page || decide (PageOf m.base m.length page)
  descriptors := s.descriptors
  mappings := m :: s.mappings

/-- The mapping that `Map` makes of a view. -/
def mappingOf (fd : ℕ) (offset : ℤ) (v : ViewResult) : Mapping :=
  ⟨v.address + (offset - v.actualOffset).toNat, v.address, v.length, fd⟩

/-- `Map`: the address, and the state. -/
def map (s : State) (length offset : ℤ) (calls : Calls) : Option ℕ × State :=
  match create .other 0 calls with
  | .error _ => (none, s)
  | .ok fd =>
    match view length offset calls with
    | .error _ => (none, s.dup fd)
    | .ok v => (some (mappingOf fd offset v).address, (s.dup fd).insert (mappingOf fd offset v))

/-- `UnmapView`, which is `munmap`: whether it succeeds. -/
def unmapView (address : ℕ) (length : ℤ) : Bool := address % kPageSize = 0 && 0 < length

/-- The length that `Unmap` passes on, and the table of the lengths after it. -/
def takeLength (s : State) (address : ℕ) (length : ℤ) : ℤ × (ℕ → Option ℤ) :=
  if length = 0 then
    match s.lengths address with
    | some recorded => (recorded, Function.update s.lengths address none)
    | none => (0, s.lengths)
  else (length, s.lengths)

/-- `Unmap`: the result, and the state. -/
def unmap (s : State) (address : ℕ) (length : ℤ) : Bool × State :=
  let (length, lengths) := takeLength s address length
  let s := { s with lengths := lengths, mappings := s.mappings.filter (·.address ≠ address) }
  if unmapView address length = false then (false, s)
  else
    let s := { s with pages := fun page => s.pages page && !decide (PageOf address length page) }
    match s.objects address with
    | none => (true, s)
    | some fd =>
      (true,
        { s with
          objects := Function.update s.objects address none
          descriptors := Function.update s.descriptors fd false })

/-! ### Runs -/

inductive Label
  | map (length offset : ℤ) (calls : Calls)
  | unmap (address : ℕ) (length : ℤ)

def step (s : State) : Label → State
  | .map length offset calls => (map s length offset calls).2
  | .unmap address length => (unmap s address length).2

/-- A descriptor that is duplicated is not open yet, and memory that is mapped is page-aligned, is
not empty and was not mapped. -/
def Allowed (s : State) : Label → Prop
  | .map length offset calls =>
    (∀ fd, calls.dup = some fd → s.descriptors fd = false) ∧
    ∀ v, view length offset calls = .ok v →
      v.address % kPageSize = 0 ∧ 0 < v.length ∧
      ∀ page, PageOf v.address v.length page → s.pages page = false
  | .unmap _ _ => True

/-- The file has a size or is special, and its descriptor can be duplicated. -/
def Duplicates (calls : Calls) : Prop :=
  capacityError .other 0 calls.fstatCreate = false ∧ calls.dup ≠ none

/-- The range is in the file, and memory can be mapped. -/
def Viewable (length offset : ℤ) (calls : Calls) : Prop :=
  let buf := calls.fstatView.getD ⟨0, false⟩
  offset ≤ buf.size ∧ (length + offset ≤ buf.size ∨ isSpecialZeroSizeFile buf = true) ∧
    calls.mmap ≠ none

/-- A descriptor that is duplicated can be mapped, and the length that was recorded for a
page-aligned address is used to unmap. -/
def Clean (s : State) : Label → Prop
  | .map length offset calls => Duplicates calls → Viewable length offset calls
  | .unmap address length =>
    length = 0 ∧ ∀ m ∈ s.mappings, m.address = address → address % kPageSize = 0

/-- What is unmapped is one of the mappings. -/
def OfMapping (s : State) : Label → Prop
  | .map _ _ _ => True
  | .unmap address _ => ∃ m ∈ s.mappings, m.address = address

def lts : LTS State Label := ⟨fun s l s' => s' = step s l⟩

/-- The table has the value of each of the mappings at its address. -/
def Tabulates {α : Type} (table : ℕ → Option α) (value : Mapping → α) (l : List Mapping) : Prop :=
  ∀ address x, table address = some x ↔ ∃ m ∈ l, m.address = address ∧ value m = x

/-- The set has what belongs to one of the mappings. -/
def Covers (set : ℕ → Bool) (of : Mapping → ℕ → Prop) (l : List Mapping) : Prop :=
  ∀ n, set n = true ↔ ∃ m ∈ l, of m n

/-- The tables, the mapped pages and the open descriptors are those of the mappings. -/
structure Exact (s : State) : Prop where
  objects : Tabulates s.objects Mapping.fd s.mappings
  lengths : Tabulates s.lengths Mapping.length s.mappings
  pages : Covers s.pages (fun m => PageOf m.base m.length) s.mappings
  descriptors : Covers s.descriptors (fun m fd => m.fd = fd) s.mappings

/-! ### The functions -/

theorem dup_of_create {mode : Mode} {capacity : ℤ} {calls : Calls} {fd : ℕ}
    (h : create mode capacity calls = .ok fd) : calls.dup = some fd := by
  unfold create at h
  split_ifs at h
  cases hdup : calls.dup with
  | none => simp [hdup] at h
  | some fd' => simpa [hdup] using h

theorem duplicates_iff {calls : Calls} :
    Duplicates calls ↔ ∃ fd, create .other 0 calls = .ok fd := by
  unfold Duplicates create
  cases hcapacity : capacityError .other 0 calls.fstatCreate <;> cases hdup : calls.dup <;> simp

theorem viewable_iff {length offset : ℤ} {calls : Calls} :
    Viewable length offset calls ↔ ∃ v, view length offset calls = .ok v := by
  simp only [Viewable, view]
  split_ifs with hoff
  · grind
  · cases hmmap : calls.mmap <;> grind

theorem actualOffset_of_view {length offset : ℤ} {calls : Calls} {v : ViewResult}
    (h : view length offset calls = .ok v) : v.actualOffset = alignDownToPageSize offset := by
  simp only [view] at h
  split_ifs at h
  cases hmmap : calls.mmap with
  | none => simp [hmmap] at h
  | some address =>
    simp only [hmmap, Except.ok.injEq] at h
    rw [← h]

/-- The address of a mapping is in the first page of what is mapped. -/
structure Mapping.Placed (m : Mapping) : Prop where
  aligned : m.base % kPageSize = 0
  length_pos : 0 < m.length
  base_le : m.base ≤ m.address
  address_lt : m.address < m.base + kPageSize

theorem mappingOf_placed {length offset : ℤ} {calls : Calls} {v : ViewResult} (fd : ℕ)
    (h : view length offset calls = .ok v) (haligned : v.address % kPageSize = 0)
    (hpos : 0 < v.length) : (mappingOf fd offset v).Placed := by
  have hoff : v.actualOffset = offset / kPageSize * kPageSize := actualOffset_of_view h
  unfold kPageSize at hoff
  refine ⟨haligned, hpos, ?_, ?_⟩
  · simp [mappingOf]
  · simp only [mappingOf, kPageSize]
    omega

theorem Mapping.Placed.pageOf {m : Mapping} (h : m.Placed) :
    PageOf m.base m.length (m.address / 4096) := by
  obtain ⟨haligned, hpos, hbase, haddress⟩ := h
  unfold kPageSize at haligned haddress
  constructor <;> simp only [kPageSize] <;> omega

theorem Mapping.Placed.base_eq {m : Mapping} (h : m.Placed) (ha : m.address % kPageSize = 0) :
    m.base = m.address := by
  obtain ⟨haligned, hpos, hbase, haddress⟩ := h
  unfold kPageSize at haligned haddress ha
  omega

/-! ### The invariant -/

/-- The mappings have different descriptors and no page in common. -/
structure Separate (m m' : Mapping) : Prop where
  fd : m.fd ≠ m'.fd
  pages : ∀ page, PageOf m.base m.length page → ¬ PageOf m'.base m'.length page

theorem Separate.symm {m m' : Mapping} (h : Separate m m') : Separate m' m :=
  ⟨h.fd.symm, fun page hpage hpage' => h.pages page hpage' hpage⟩

theorem Separate.address_ne {m m' : Mapping} (h : Separate m m') (hm : m.Placed)
    (hm' : m'.Placed) : m.address ≠ m'.address := by
  intro heq
  have hpage := hm'.pageOf
  rw [← heq] at hpage
  exact h.pages _ hm.pageOf hpage

structure Inv (s : State) : Prop where
  placed : ∀ m ∈ s.mappings, m.Placed
  separate : s.mappings.Pairwise Separate

theorem Inv.separate_of_ne {s : State} (h : Inv s) {m m' : Mapping} (hm : m ∈ s.mappings)
    (hm' : m' ∈ s.mappings) (hne : m ≠ m') : Separate m m' :=
  haveI : Std.Symm Separate := ⟨fun _ _ => Separate.symm⟩
  h.separate.forall hm hm' hne

theorem Inv.eq_of_address {s : State} (h : Inv s) {m m' : Mapping} (hm : m ∈ s.mappings)
    (hm' : m' ∈ s.mappings) (heq : m.address = m'.address) : m = m' := by
  by_contra hne
  exact (h.separate_of_ne hm hm' hne).address_ne (h.placed m hm) (h.placed m' hm') heq

/-! ### Tables -/

section Tables

variable {α : Type} {table : ℕ → Option α} {value : Mapping → α} {l : List Mapping}

theorem Tabulates.insert (h : Tabulates table value l) {m : Mapping}
    (hfresh : ∀ m' ∈ l, m.address ≠ m'.address) :
    Tabulates (Function.update table m.address (some (value m))) value (m :: l) := by
  intro address x
  simp only [List.mem_cons, or_and_right, exists_or, exists_eq_left]
  by_cases ha : address = m.address
  · subst ha
    rw [Function.update_self, Option.some.injEq]
    constructor
    · exact fun hx => .inl ⟨rfl, hx⟩
    · rintro (⟨-, hx⟩ | ⟨m', hm', hm'a, -⟩)
      · exact hx
      · exact absurd hm'a.symm (hfresh m' hm')
  · rw [Function.update_of_ne ha, h address x]
    constructor
    · exact .inr
    · rintro (⟨hma, -⟩ | hm')
      · exact absurd hma.symm ha
      · exact hm'

theorem Tabulates.erase (h : Tabulates table value l) (address : ℕ) :
    Tabulates (Function.update table address none) value (l.filter (·.address ≠ address)) := by
  intro a x
  by_cases ha : a = address
  · subst ha
    simp only [Function.update_self, reduceCtorEq, false_iff]
    rintro ⟨m, hm, hma, -⟩
    exact of_decide_eq_true (List.mem_filter.1 hm).2 hma
  · rw [Function.update_of_ne ha, h a x]
    constructor
    · rintro ⟨m, hm, hma, hx⟩
      exact ⟨m, by simp [hm, hma, ha], hma, hx⟩
    · rintro ⟨m, hm, hma, hx⟩
      exact ⟨m, (List.mem_filter.1 hm).1, hma, hx⟩

theorem Tabulates.not_erase (h : Tabulates table value l) {m : Mapping} (hm : m ∈ l) :
    ¬ Tabulates table value (l.filter (·.address ≠ m.address)) := by
  intro h'
  obtain ⟨m', hm', hma, -⟩ := (h' m.address (value m)).1 ((h _ _).2 ⟨m, hm, rfl, rfl⟩)
  exact of_decide_eq_true (List.mem_filter.1 hm').2 hma

variable {set set' : ℕ → Bool} {of : Mapping → ℕ → Prop}

theorem Covers.insert (h : Covers set of l) {m : Mapping}
    (hset : ∀ n, set' n = true ↔ of m n ∨ set n = true) : Covers set' of (m :: l) := by
  intro n
  simp only [hset, h n, List.mem_cons, or_and_right, exists_or, exists_eq_left]

theorem Covers.erase (h : Covers set of l) {m : Mapping}
    (hother : ∀ m' ∈ l, m'.address = m.address → m' = m)
    (hapart : ∀ m' ∈ l, m' ≠ m → ∀ n, of m n → ¬ of m' n)
    (hset : ∀ n, set' n = true ↔ set n = true ∧ ¬ of m n) :
    Covers set' of (l.filter (·.address ≠ m.address)) := by
  intro n
  rw [hset, h n]
  constructor
  · -- what only that mapping covers is not covered any more
    rintro ⟨⟨m', hm', hof⟩, hnot⟩
    have hne : m'.address ≠ m.address := by
      intro heq
      rw [hother m' hm' heq] at hof
      exact hnot hof
    exact ⟨m', by simp [hm', hne], hof⟩
  · rintro ⟨m', hm', hof⟩
    obtain ⟨hm', hne⟩ := List.mem_filter.1 hm'
    refine ⟨⟨m', hm', hof⟩, fun hofm => hapart m' hm' ?_ n hofm hof⟩
    rintro rfl
    simp at hne

end Tables

/-! ### Steps -/

theorem init_exact : Exact init := by
  constructor <;> simp [init, Tabulates, Covers]

theorem init_inv : Inv init := ⟨by simp [init], .nil⟩

variable {s : State}

theorem insert_exact (hi : Inv s) (he : Exact s) {m : Mapping} (hm : m.Placed)
    (hfd : s.descriptors m.fd = false)
    (hpages : ∀ page, PageOf m.base m.length page → s.pages page = false) :
    Inv ((s.dup m.fd).insert m) ∧ Exact ((s.dup m.fd).insert m) := by
  have hseparate : ∀ m' ∈ s.mappings, Separate m m' := by
    intro m' hm'
    constructor
    · intro heq
      have := (he.descriptors m.fd).2 ⟨m', hm', heq.symm⟩
      simp [hfd] at this
    · intro page hpage hpage'
      have := (he.pages page).2 ⟨m', hm', hpage'⟩
      simp [hpages page hpage] at this
  have hfresh : ∀ m' ∈ s.mappings, m.address ≠ m'.address := fun m' hm' =>
    (hseparate m' hm').address_ne hm (hi.placed m' hm')
  refine ⟨⟨?_, ?_⟩, ⟨?_, ?_, ?_, ?_⟩⟩
  · exact List.forall_mem_cons.2 ⟨hm, hi.placed⟩
  · exact List.pairwise_cons.2 ⟨hseparate, hi.separate⟩
  · exact he.objects.insert hfresh
  · exact he.lengths.insert hfresh
  · refine he.pages.insert fun page => ?_
    simp [State.insert, State.dup, or_comm]
  · refine he.descriptors.insert fun fd => ?_
    by_cases h : fd = m.fd
    · simp [State.insert, State.dup, h]
    · simp [State.insert, State.dup, Function.update_of_ne h, Ne.symm h]

theorem map_exact (hi : Inv s) (he : Exact s) {length offset : ℤ} {calls : Calls}
    (ha : Allowed s (.map length offset calls)) (hc : Clean s (.map length offset calls)) :
    Inv (map s length offset calls).2 ∧ Exact (map s length offset calls).2 := by
  unfold map
  cases hcreate : create .other 0 calls with
  | error e => exact ⟨hi, he⟩
  | ok fd =>
    obtain ⟨v, hview⟩ := viewable_iff.1 (hc (duplicates_iff.2 ⟨fd, hcreate⟩))
    obtain ⟨haligned, hpos, hpages⟩ := ha.2 v hview
    simp only [hview]
    exact insert_exact hi he (mappingOf_placed fd hview haligned hpos)
      (ha.1 fd (dup_of_create hcreate)) hpages

theorem not_exact_map (he : Exact s) {length offset : ℤ} {calls : Calls}
    (ha : Allowed s (.map length offset calls)) (hc : ¬ Clean s (.map length offset calls)) :
    ¬ Exact (map s length offset calls).2 := by
  unfold map
  cases hcreate : create .other 0 calls with
  | error e =>
    refine absurd (fun hdup => ?_) hc
    obtain ⟨fd, hfd⟩ := duplicates_iff.1 hdup
    cases hcreate.symm.trans hfd
  | ok fd =>
    -- the duplicate of the descriptor is open, and no mapping has it
    cases hview : view length offset calls with
    | ok v => exact absurd (fun _ => viewable_iff.2 ⟨v, hview⟩) hc
    | error e =>
      intro he'
      obtain ⟨m, hm, hfd⟩ := (he'.descriptors fd).1 (by simp [State.dup])
      have := (he.descriptors fd).2 ⟨m, hm, hfd⟩
      simp [ha.1 fd (dup_of_create hcreate)] at this

theorem unmap_of_forall_ne (he : Exact s) {address : ℕ}
    (h : ∀ m ∈ s.mappings, m.address ≠ address) : unmap s address 0 = (false, s) := by
  have hnone : s.lengths address = none := by
    by_contra hne
    obtain ⟨x, hx⟩ := Option.ne_none_iff_exists'.1 hne
    obtain ⟨m, hm, hma, -⟩ := (he.lengths address x).1 hx
    exact h m hm hma
  have hfilter : s.mappings.filter (·.address ≠ address) = s.mappings :=
    List.filter_eq_self.2 fun m hm => decide_eq_true (h m hm)
  simp only [unmap, takeLength, hnone, hfilter]
  simp [unmapView]

/-- What is left when a mapping is released. -/
def State.erase (s : State) (m : Mapping) : State where
  objects := Function.update s.objects m.address none
  lengths := Function.update s.lengths m.address none
  pages page := s.pages page && !decide (PageOf m.base m.length page)
  descriptors := Function.update s.descriptors m.fd false
  mappings := s.mappings.filter (·.address ≠ m.address)

theorem unmap_of_mem (hi : Inv s) (he : Exact s) {m : Mapping} (hm : m ∈ s.mappings)
    (ha : m.address % kPageSize = 0) : unmap s m.address 0 = (true, s.erase m) := by
  have hlength : s.lengths m.address = some m.length := (he.lengths _ _).2 ⟨m, hm, rfl, rfl⟩
  have hobject : s.objects m.address = some m.fd := (he.objects _ _).2 ⟨m, hm, rfl, rfl⟩
  have hplaced := hi.placed m hm
  have hview : unmapView m.address m.length = true := by
    simp [unmapView, ha, hplaced.length_pos]
  simp [unmap, takeLength, hlength, hview, hobject, State.erase, hplaced.base_eq ha]

theorem erase_exact (hi : Inv s) (he : Exact s) {m : Mapping} (hm : m ∈ s.mappings) :
    Inv (s.erase m) ∧ Exact (s.erase m) := by
  have hother : ∀ m' ∈ s.mappings, m'.address = m.address → m' = m := fun m' hm' =>
    hi.eq_of_address hm' hm
  refine ⟨⟨?_, hi.separate.filter _⟩, ⟨he.objects.erase _, he.lengths.erase _, ?_, ?_⟩⟩
  · exact fun m' hm' => hi.placed m' (List.mem_filter.1 hm').1
  · refine he.pages.erase hother (fun m' hm' hne => ?_) fun page => by simp [State.erase]
    exact (hi.separate_of_ne hm hm' hne.symm).pages
  · refine he.descriptors.erase hother (fun m' hm' hne fd hfd hfd' => ?_) fun fd => ?_
    · exact (hi.separate_of_ne hm hm' hne.symm).fd (hfd.trans hfd'.symm)
    · by_cases h : fd = m.fd
      · simp [State.erase, h]
      · simp [State.erase, Function.update_of_ne h, Ne.symm h]

theorem unmap_exact (hi : Inv s) (he : Exact s) {address : ℕ} {length : ℤ}
    (hc : Clean s (.unmap address length)) :
    Inv (unmap s address length).2 ∧ Exact (unmap s address length).2 := by
  obtain ⟨rfl, haligned⟩ := hc
  by_cases h : ∃ m ∈ s.mappings, m.address = address
  · obtain ⟨m, hm, rfl⟩ := h
    rw [unmap_of_mem hi he hm (haligned m hm rfl)]
    exact erase_exact hi he hm
  · push Not at h
    rw [unmap_of_forall_ne he h]
    exact ⟨hi, he⟩

/-- The length stays in its table when another is given, and the descriptor stays open when the
address is not page-aligned. -/
theorem not_exact_unmap (he : Exact s) {m : Mapping} (hm : m ∈ s.mappings) {length : ℤ}
    (hc : ¬ Clean s (.unmap m.address length)) : ¬ Exact (unmap s m.address length).2 := by
  intro he'
  by_cases hlength : length = 0
  · -- `munmap` refuses the address, and the object stays in its table
    subst hlength
    have hunaligned : m.address % kPageSize ≠ 0 := fun h => hc ⟨rfl, fun _ _ _ => h⟩
    have hview : ∀ x, unmapView m.address x = false := by simp [unmapView, hunaligned]
    have hobjects := he'.objects
    simp only [unmap, hview, if_true] at hobjects
    exact he.objects.not_erase hm hobjects
  · -- a length that is given is used in place of the recorded one, which stays
    have hlengths := he'.lengths
    have htake : takeLength s m.address length = (length, s.lengths) := if_neg hlength
    simp only [unmap, htake] at hlengths
    split at hlengths
    · exact he.lengths.not_erase hm hlengths
    · split at hlengths <;> exact he.lengths.not_erase hm hlengths

theorem step_exact (hi : Inv s) (he : Exact s) {l : Label} (ha : Allowed s l) (hc : Clean s l) :
    Inv (step s l) ∧ Exact (step s l) := by
  cases l with
  | map length offset calls => exact map_exact hi he ha hc
  | unmap address length => exact unmap_exact hi he hc

theorem clean_of_step_exact (he : Exact s) {l : Label} (ha : Allowed s l) (ho : OfMapping s l)
    (h : Exact (step s l)) : Clean s l := by
  by_contra hc
  cases l with
  | map length offset calls => exact not_exact_map he ha hc h
  | unmap address length =>
    obtain ⟨m, hm, rfl⟩ := ho
    exact not_exact_unmap he hm hc h

/-! ### Runs -/

theorem reachWith_exact (h : lts.ReachWith (fun s l => Allowed s l ∧ Clean s l) init s) :
    Inv s ∧ Exact s := by
  refine h.invariant (I := fun s => Inv s ∧ Exact s) ⟨init_inv, init_exact⟩ ?_
  rintro s l s' ⟨hi, he⟩ ⟨ha, hc⟩ rfl
  exact step_exact hi he ha hc

/-- **Mapped views**: in every run in which a descriptor that is duplicated is mapped, and what is
unmapped is page-aligned and unmapped with the length that was recorded, the tables, the pages and
the descriptors are those of the mappings, and a page-aligned mapping is released as it was made.
Another step of `Map`, or of `Unmap` for one of the mappings, does not end in such a state. -/
theorem mapped_views_exact
    (h : lts.ReachWith (fun s l => Allowed s l ∧ Clean s l) init s) :
    Exact s ∧
    (∀ l, Allowed s l → OfMapping s l → (Exact (step s l) ↔ Clean s l)) ∧
    ∀ m ∈ s.mappings, m.address % kPageSize = 0 → unmap s m.address 0 = (true, s.erase m) := by
  obtain ⟨hi, he⟩ := reachWith_exact h
  refine ⟨he, fun l ha ho => ?_, fun m hm ha => unmap_of_mem hi he hm ha⟩
  exact ⟨clean_of_step_exact he ha ho, fun hc => (step_exact hi he ha hc).2⟩

/-- What the calls return for a file of 10000 bytes. -/
def tenThousandBytes : Calls := ⟨some ⟨10000, false⟩, some 3, some ⟨10000, false⟩, some 65536⟩

theorem tenThousandBytes_allowed {length offset : ℤ} {v : ViewResult}
    (hview : view length offset tenThousandBytes = .ok v) (haligned : v.address % kPageSize = 0)
    (hpos : 0 < v.length) : Allowed init (.map length offset tenThousandBytes) := by
  refine ⟨fun _ _ => rfl, fun v' hv' => ?_⟩
  rw [hview] at hv'
  cases hv'
  exact ⟨haligned, hpos, fun _ _ => rfl⟩

theorem mapped_views_exact_wholeFile :
    Exact (step init (.map 0 0 tenThousandBytes)) ∧
    unmap (step init (.map 0 0 tenThousandBytes)) 65536 0 =
      (true, (step init (.map 0 0 tenThousandBytes)).erase ⟨65536, 65536, 12288, 3⟩) := by
  have hview : view 0 0 tenThousandBytes = .ok ⟨65536, 12288, 0⟩ := rfl
  have hallowed := tenThousandBytes_allowed hview (by decide) (by decide)
  have hclean : Clean init (.map 0 0 tenThousandBytes) := fun _ => viewable_iff.2 ⟨_, hview⟩
  obtain ⟨he, -, hunmap⟩ := mapped_views_exact (.step .init ⟨hallowed, hclean⟩ rfl)
  exact ⟨he, hunmap ⟨65536, 65536, 12288, 3⟩ (List.mem_cons_self ..) (by decide)⟩

/-- A hundred bytes at the offset 5000 are at the address 66440, which `munmap` refuses: the pages
and the descriptor stay, and the length is lost. -/
theorem unaligned_view_stays :
    lts.ReachWith (fun s l => Allowed s l ∧ OfMapping s l) init
      (step (step init (.map 100 5000 tenThousandBytes)) (.unmap 66440 0)) ∧
    ¬ Exact (step (step init (.map 100 5000 tenThousandBytes)) (.unmap 66440 0)) := by
  have hview : view 100 5000 tenThousandBytes = .ok ⟨65536, 1004, 4096⟩ := rfl
  have hallowed := tenThousandBytes_allowed hview (by decide) (by decide)
  constructor
  · refine .step (l := .unmap 66440 0) (.step .init ⟨hallowed, trivial⟩ rfl) ⟨trivial, ?_⟩ rfl
    exact ⟨⟨66440, 65536, 1004, 3⟩, List.mem_cons_self .., rfl⟩
  · intro he
    obtain ⟨m, hm, -⟩ := (he.descriptors 3).1 rfl
    exact absurd hm List.not_mem_nil

end MemoryMappedFile

end Il2Cpp
