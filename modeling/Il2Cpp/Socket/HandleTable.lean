import Il2Cpp.Data.UInt32Counter
import Il2Cpp.LTS.Threads

/-!
# The table of socket handles

`os/Socket.cpp`: the handle of a socket is its file descriptor, and a table maps the handles to the
sockets, which count their references: one from their creation, which `Close_icall` gives back, and
one of each `SocketHandleWrapper`.  The table has a lock, but closing a socket takes several
sections of it, and the descriptor is closed in between.

* `PC` : where an activity is: the creation of a socket, a wrapper, or a call of `Close_icall`.
* `releaseSocketHandle` : the locked section of `ReleaseSocketHandle`.
* `Regular` : `Close_icall` gives the implicit reference back while the table still has the socket,
  and no count overflows.
* `State.Sound` : the counts are right, a socket is deleted once and never under a wrapper, and the
  table maps a handle to the open socket that owns the descriptor.
* `socketTable_sound` : every run whose steps are regular keeps the table sound.
* `twoClosers_unsound` : two calls of `Close_icall` on one socket delete it under a wrapper.
-/

namespace Il2Cpp

namespace Sockets

/-- A descriptor of the operating system; a socket handle is one. -/
abbrev Descriptor := ℕ

/-- A pointer to a socket object. -/
abbrev SocketPtr := ℕ

/-- A socket object. -/
structure Socket where
  /-- `m_RefCount`, a `uint32_t`. -/
  refCount : ℕ
  /-- `_fd` of the implementation; `none` for -1. -/
  fd : Option Descriptor
  /-- `Close_icall` has given the implicit reference back. -/
  closed : Bool
  /-- How often the object was deleted. -/
  deleted : ℕ
  deriving DecidableEq

/-- Where an activity is. -/
inductive PC
  /-- `CreateSocketHandle`, before the table is locked -/
  | insert (socket : SocketPtr)
  /-- `AcquireSocketHandle`, of a wrapper or of the one of `Close_icall` -/
  | acquire (handle : Descriptor) (close : Bool)
  /-- a wrapper, before it is released -/
  | wrapper (handle : Descriptor) (socket : SocketPtr)
  /-- `Close_icall`, before `ReleaseSocketHandle` of the implicit reference -/
  | forceRelease (handle : Descriptor) (socket : SocketPtr)
  /-- that reference was the last one -/
  | forceDelete (handle : Descriptor) (socket : SocketPtr)
  /-- before the descriptor is closed -/
  | close (handle : Descriptor) (socket : SocketPtr)
  /-- before `_fd = -1` -/
  | clear (handle : Descriptor) (socket : SocketPtr)
  /-- before the socket is deleted -/
  | delete (socket : SocketPtr)
  | done
  deriving DecidableEq

/-- The table, the sockets, the descriptors of the operating system and the activities. -/
structure State where
  sockets : List Socket
  /-- `g_SocketHandleTable`. -/
  table : Descriptor → Option SocketPtr
  /-- Which socket has an open descriptor from the operating system. -/
  owner : Descriptor → Option SocketPtr
  activities : List PC

def init : State := ⟨[], fun _ => none, fun _ => none, []⟩

/-- What happens. -/
inductive Label
  /-- a socket is created, with a descriptor that is not open -/
  | create (fd : Descriptor)
  /-- a wrapper is made -/
  | wrap (handle : Descriptor)
  /-- `Close_icall` is called -/
  | close (handle : Descriptor)
  /-- an activity takes a step -/
  | run (i : ℕ)
  deriving DecidableEq

namespace State

variable (s : State)

/-- A socket object changes. -/
def modify (socket : SocketPtr) (f : Socket → Socket) : State :=
  { s with sockets := s.sockets.modify socket f }

/-- `close` of the operating system. -/
def closeDescriptor (fd : Option Descriptor) : State :=
  match fd with
  | some fd => { s with owner := Function.update s.owner fd none }
  | none => s

/-- `_fd` of a socket. -/
def fd (socket : SocketPtr) : Option Descriptor := s.sockets[socket]?.bind Socket.fd

/-- `m_RefCount` of a socket. -/
def refCount (socket : SocketPtr) : ℕ := (s.sockets[socket]?.map Socket.refCount).getD 0

/-- The locked section of `CreateSocketHandle`: `insert` of the map does not replace an entry. -/
def createSocketHandle (socket : SocketPtr) : State :=
  match s.fd socket with
  | some handle =>
    if s.table handle = none then { s with table := Function.update s.table handle (some socket) }
    else s
  | none => s

/-- The locked section of `ReleaseSocketHandle`. -/
def releaseSocketHandle (handle : Descriptor) (socket : SocketPtr) (forceTableRemove : Bool) :
    State :=
  let s := s.modify socket fun socket => { socket with refCount := decrement socket.refCount }
  if s.table handle ≠ none ∧
      ((s.table handle = some socket ∧ s.refCount socket = 0) ∨ forceTableRemove) then
    { s with table := Function.update s.table handle none }
  else s

end State

/-- One step of an activity. -/
def runPC (s : State) : PC → Option (State × PC)
  | .insert socket => some (s.createSocketHandle socket, .done)
  | .acquire handle close =>
    match s.table handle with
    | none => some (s, .done)
    | some socket =>
      some (s.modify socket fun socket => { socket with refCount := increment socket.refCount },
        if close then .forceRelease handle socket else .wrapper handle socket)
  | .wrapper handle socket =>
    let s := s.releaseSocketHandle handle socket false
    some (s, if s.refCount socket = 0 then .delete socket else .done)
  | .forceRelease handle socket =>
    let s := (s.releaseSocketHandle handle socket true).modify socket fun socket =>
      { socket with closed := true }
    some (s, if s.refCount socket = 0 then .forceDelete handle socket else .close handle socket)
  | .forceDelete handle socket =>
    some ((s.closeDescriptor (s.fd socket)).modify socket fun socket =>
      { socket with fd := none, deleted := socket.deleted + 1 }, .close handle socket)
  | .close handle socket => some (s.closeDescriptor (s.fd socket), .clear handle socket)
  | .clear handle socket =>
    some (s.modify socket fun socket => { socket with fd := none }, .wrapper handle socket)
  | .delete socket =>
    some ((s.closeDescriptor (s.fd socket)).modify socket fun socket =>
      { socket with fd := none, deleted := socket.deleted + 1 }, .done)
  | .done => none

/-- A step. -/
def step (s : State) : Label → Option State
  | .create fd =>
    if s.owner fd = none then
      some { s with
        sockets := s.sockets ++ [⟨1, some fd, false, 0⟩]
        owner := Function.update s.owner fd (some s.sockets.length)
        activities := s.activities ++ [.insert s.sockets.length] }
    else none
  | .wrap handle => some { s with activities := s.activities ++ [.acquire handle false] }
  | .close handle => some { s with activities := s.activities ++ [.acquire handle true] }
  | .run i => do
    let pc ← s.activities[i]?
    let (s', pc') ← runPC s pc
    some { s' with activities := s'.activities.set i pc' }

/-- The transition system. -/
def lts : LTS State Label := .ofFun step

/-- The condition on a step of an activity. -/
def PC.regular (s : State) : PC → Prop
  | forceRelease handle socket => s.table handle = some socket
  | acquire handle _ => ∀ socket ∈ s.table handle, s.refCount socket < uint32Max
  | _ => True

/-- **`Close_icall` gives the implicit reference back while the table still has the socket**, and
the count of a socket that is acquired does not overflow. -/
def Regular (s : State) : Label → Prop
  | .run i => ∀ pc ∈ s.activities[i]?, pc.regular s
  | .create _ | .wrap _ | .close _ => True

/-! ### Who refers to a socket -/

/-- What an activity does with its socket. -/
inductive Role
  | inserting | wrapping | forced | closing | clearing | deleting
  deriving DecidableEq

/-- The socket of an activity. -/
def PC.on : PC → Option (SocketPtr × Role)
  | insert socket => some (socket, .inserting)
  | wrapper _ socket | forceRelease _ socket => some (socket, .wrapping)
  | forceDelete _ socket => some (socket, .forced)
  | close _ socket => some (socket, .closing)
  | clear _ socket => some (socket, .clearing)
  | delete socket => some (socket, .deleting)
  | acquire _ _ | done => none

/-- An activity has a role for a socket. -/
def PC.plays (i : SocketPtr) (role : Role) (pc : PC) : Bool := pc.on = some (i, role)

namespace State

variable (s : State)

/-- How many activities have a role for a socket. -/
def tally (i : SocketPtr) (role : Role) : ℕ := s.activities.countP (PC.plays i role)

/-- The wrappers that refer to a socket. -/
def wrappers (socket : SocketPtr) : ℕ :=
  s.tally socket .wrapping + s.tally socket .forced + s.tally socket .closing +
    s.tally socket .clearing

/-- **The table is sound.** -/
structure Sound : Prop where
  /-- The count is that of the wrappers, and one while the socket has not been closed. -/
  refCount_eq : ∀ i socket, s.sockets[i]? = some socket →
    socket.refCount = s.wrappers i + if socket.closed then 0 else 1
  /-- A socket is deleted once, when its count has become 0. -/
  deleted_eq : ∀ i socket, s.sockets[i]? = some socket →
    socket.deleted + s.tally i .deleting = if socket.refCount = 0 then 1 else 0
  /-- A wrapper refers to a socket that is not deleted. -/
  alive : ∀ i socket, s.sockets[i]? = some socket → 0 < s.wrappers i → socket.deleted = 0
  /-- The table has an open socket, which owns the descriptor. -/
  table_owner : ∀ handle i, s.table handle = some i → ∃ socket, s.sockets[i]? = some socket ∧
    socket.closed = false ∧ socket.deleted = 0 ∧ socket.fd = some handle ∧ s.owner handle = some i

/-- A socket that has not been closed. -/
structure Open (i : SocketPtr) (socket : Socket) : Prop where
  owner : ∃ handle, socket.fd = some handle ∧ s.owner handle = some i
  closing : s.tally i .closing = 0
  clearing : s.tally i .clearing = 0
  inserting : s.tally i .inserting ≤ 1
  /-- The table does not have it before it is inserted, and once for its descriptor. -/
  table : 0 < s.tally i .inserting → ∀ handle, s.table handle ≠ some i

/-- A socket whose implicit reference was given back: one call of `Close_icall` closes its
descriptor. -/
structure Closed (i : SocketPtr) (socket : Socket) : Prop where
  table : ∀ handle, s.table handle ≠ some i
  inserting : s.tally i .inserting = 0
  once : s.tally i .closing + s.tally i .clearing ≤ 1
  owner : 0 < s.tally i .closing → ∃ handle, socket.fd = some handle ∧ s.owner handle = some i
  fd : s.tally i .closing + s.tally i .clearing = 0 → socket.fd = none

/-- What holds of a socket. -/
structure SocketInv (i : SocketPtr) (socket : Socket) : Prop where
  refCount_eq : socket.refCount = s.wrappers i + if socket.closed then 0 else 1
  deleted_eq : socket.deleted + s.tally i .deleting = if socket.refCount = 0 then 1 else 0
  forced : s.tally i .forced = 0
  isOpen : socket.closed = false → s.Open i socket
  isClosed : socket.closed = true → s.Closed i socket

/-- **The invariant.** -/
structure Inv : Prop where
  sockets : ∀ i socket, s.sockets[i]? = some socket → s.SocketInv i socket
  table : ∀ handle i, s.table handle = some i →
    ∃ socket, s.sockets[i]? = some socket ∧ socket.closed = false ∧ socket.fd = some handle
  owner_lt : ∀ handle i, s.owner handle = some i → i < s.sockets.length
  on_lt : ∀ pc ∈ s.activities, ∀ i role, pc.on = some (i, role) → i < s.sockets.length

end State

variable {s t : State} {k : ℕ} {i : SocketPtr} {pc pc' : PC} {socket : Socket}

theorem tally_set (hk : s.activities[k]? = some pc) (ht : t.activities = s.activities.set k pc')
    (i : SocketPtr) (role : Role) :
    t.tally i role + (pc.plays i role).toNat = s.tally i role + (pc'.plays i role).toNat := by
  obtain ⟨n, hn, hset⟩ := countP_set_append (p := PC.plays i role) hk
  have := hset pc' []
  rw [List.append_nil, List.countP_nil] at this
  rw [State.tally, State.tally, ht, this, hn]
  omega

theorem tally_leave {role : Role} (hk : s.activities[k]? = some pc)
    (ht : t.activities = s.activities.set k pc') (hon : pc.on = some (i, role))
    (hon' : pc'.on = none) :
    t.tally i role + 1 = s.tally i role ∧
      ∀ role', role ≠ role' → t.tally i role' = s.tally i role' := by
  have h := tally_set hk ht i
  simp only [PC.plays, hon, hon'] at h
  exact ⟨by simpa using h role, fun role' hr => by simpa [hr] using h role'⟩

theorem tally_enter {role : Role} (hk : s.activities[k]? = some pc)
    (ht : t.activities = s.activities.set k pc') (hon : pc.on = none)
    (hon' : pc'.on = some (i, role)) :
    t.tally i role = s.tally i role + 1 ∧
      ∀ role', role ≠ role' → t.tally i role' = s.tally i role' := by
  have h := tally_set hk ht i
  simp only [PC.plays, hon, hon'] at h
  exact ⟨by simpa using h role, fun role' hr => by simpa [hr] using h role'⟩

theorem tally_move (role role' : Role) (hk : s.activities[k]? = some pc)
    (ht : t.activities = s.activities.set k pc') (hon : pc.on = some (i, role))
    (hon' : pc'.on = some (i, role')) (hne : role ≠ role') :
    t.tally i role + 1 = s.tally i role ∧ t.tally i role' = s.tally i role' + 1 ∧
      ∀ r, role ≠ r → role' ≠ r → t.tally i r = s.tally i r := by
  have h := tally_set hk ht i
  simp only [PC.plays, hon, hon'] at h
  exact ⟨by simpa [Ne.symm hne] using h role, by simpa [hne] using h role',
    fun r h₁ h₂ => by simpa [h₁, h₂] using h r⟩

theorem tally_pos (hk : s.activities[k]? = some pc) {role : Role} (hon : pc.on = some (i, role)) :
    0 < s.tally i role :=
  List.countP_pos_iff.2 ⟨pc, List.mem_of_getElem? hk, decide_eq_true hon⟩

/-- **Other sockets are not concerned.** -/
theorem State.SocketInv.frame (h : s.SocketInv i socket)
    (htally : ∀ role, t.tally i role = s.tally i role)
    (htable : ∀ handle, t.table handle = some i → s.table handle = some i)
    (howner : ∀ handle, s.owner handle = some i → t.owner handle = some i) :
    t.SocketInv i socket := by
  obtain ⟨hrc, hdel, hforced, hopen, hclosed⟩ := h
  have hw : t.wrappers i = s.wrappers i := by simp only [State.wrappers, htally]
  refine ⟨by rw [hw, hrc], by rw [htally, hdel], by rw [htally, hforced], fun hc => ?_,
    fun hc => ?_⟩
  · obtain ⟨⟨fd, hfd, ho⟩, h₁, h₂, h₃, h₄⟩ := hopen hc
    refine ⟨⟨fd, hfd, howner _ ho⟩, by rw [htally, h₁], by rw [htally, h₂], by rwa [htally], ?_⟩
    rw [htally]
    exact fun hpos handle hh => h₄ hpos handle (htable handle hh)
  · obtain ⟨h₁, h₂, h₃, h₄, h₅⟩ := hclosed hc
    refine ⟨fun handle hh => h₁ handle (htable handle hh), by rw [htally, h₂],
      by rwa [htally, htally], fun hpos => ?_, fun h0 => h₅ ?_⟩
    · rw [htally] at hpos
      obtain ⟨fd, hfd, ho⟩ := h₄ hpos
      exact ⟨fd, hfd, howner _ ho⟩
    · rwa [htally, htally] at h0

theorem State.Open.of_keep {socket' : Socket} (h : s.Open i socket) (hfd : socket'.fd = socket.fd)
    (htable : t.table = s.table) (howner : t.owner = s.owner)
    (hins : t.tally i .inserting = s.tally i .inserting)
    (hclosing : t.tally i .closing = s.tally i .closing)
    (hclearing : t.tally i .clearing = s.tally i .clearing) : t.Open i socket' := by
  obtain ⟨h₁, h₂, h₃, h₄, h₅⟩ := h
  exact ⟨by rwa [hfd, howner], by rwa [hclosing], by rwa [hclearing], by rwa [hins],
    by rwa [hins, htable]⟩

theorem State.Closed.of_keep {socket' : Socket} (h : s.Closed i socket)
    (hfd : socket'.fd = socket.fd) (htable : t.table = s.table) (howner : t.owner = s.owner)
    (hins : t.tally i .inserting = s.tally i .inserting)
    (hclosing : t.tally i .closing = s.tally i .closing)
    (hclearing : t.tally i .clearing = s.tally i .clearing) : t.Closed i socket' := by
  obtain ⟨h₁, h₂, h₃, h₄, h₅⟩ := h
  exact ⟨by rwa [htable], by rwa [hins], by rwa [hclosing, hclearing],
    by rwa [hclosing, hfd, howner], by rwa [hclosing, hclearing, hfd]⟩

/-- **A step concerns one socket.** -/
theorem State.Inv.of_socket {f : Socket → Socket} (hs : s.Inv)
    (hk : s.activities[k]? = some pc) (hi : s.sockets[i]? = some socket)
    (hact : t.activities = s.activities.set k pc') (hsock : t.sockets = s.sockets.modify i f)
    (hpc : ∀ j role, pc.on = some (j, role) → j = i)
    (hpc' : ∀ j role, pc'.on = some (j, role) → j = i)
    (htable : ∀ handle j, j ≠ i → t.table handle = some j → s.table handle = some j)
    (howner : ∀ handle j, j ≠ i → s.owner handle = some j → t.owner handle = some j)
    (howner' : ∀ handle j, t.owner handle = some j → s.owner handle = some j)
    (hinv : t.SocketInv i (f socket))
    (hti : ∀ handle, t.table handle = some i →
      (f socket).closed = false ∧ (f socket).fd = some handle) : t.Inv := by
  have hget (j : SocketPtr) (hj : j ≠ i) : t.sockets[j]? = s.sockets[j]? := by
    rw [hsock, List.getElem?_modify]
    simp [Ne.symm hj]
  have hgeti : t.sockets[i]? = some (f socket) := by
    rw [hsock, List.getElem?_modify]
    simp [hi]
  have hlen : t.sockets.length = s.sockets.length := by rw [hsock, List.length_modify]
  refine ⟨fun j sock hj => ?_, fun handle j hj => ?_, fun handle j hj => ?_,
    fun pc₂ hpc₂ j role hon => ?_⟩
  · by_cases hji : j = i
    · subst hji
      cases hgeti.symm.trans hj
      exact hinv
    · rw [hget j hji] at hj
      refine (hs.sockets j sock hj).frame (fun role => ?_) (fun h => htable h j hji)
        (fun h => howner h j hji)
      have := tally_set hk hact j role
      have h₁ : pc.plays j role = false := decide_eq_false fun h => hji (hpc j role h)
      have h₂ : pc'.plays j role = false := decide_eq_false fun h => hji (hpc' j role h)
      rw [h₁, h₂] at this
      simpa using this
  · by_cases hji : j = i
    · subst hji
      exact ⟨_, hgeti, hti handle hj⟩
    · rw [hget j hji]
      exact hs.table handle j (htable handle j hji hj)
  · rw [hlen]
    exact hs.owner_lt handle j (howner' handle j hj)
  · rw [hlen]
    rw [hact] at hpc₂
    rcases List.mem_or_eq_of_mem_set hpc₂ with hmem | rfl
    · exact hs.on_lt pc₂ hmem j role hon
    · rw [hpc' j role hon]
      exact (List.getElem?_eq_some_iff.1 hi).1

theorem State.Inv.exists_socket (hs : s.Inv) (hk : s.activities[k]? = some pc) {role : Role}
    (hon : pc.on = some (i, role)) : ∃ socket, s.sockets[i]? = some socket :=
  ⟨_, List.getElem?_eq_getElem (hs.on_lt pc (List.mem_of_getElem? hk) i role hon)⟩

theorem State.Inv.open_of_table (hs : s.Inv) {handle : Descriptor} (h : s.table handle = some i) :
    ∃ socket, s.sockets[i]? = some socket ∧ socket.closed = false ∧ socket.fd = some handle ∧
      s.owner handle = some i ∧ s.SocketInv i socket := by
  obtain ⟨socket, hi, hc, hfd⟩ := hs.table handle i h
  have hinv := hs.sockets i socket hi
  obtain ⟨fd, hfd', ho⟩ := (hinv.isOpen hc).owner
  cases hfd.symm.trans hfd'
  exact ⟨socket, hi, hc, hfd, ho, hinv⟩

theorem State.Inv.insert (hs : s.Inv) (hk : s.activities[k]? = some (.insert i)) :
    ({ s.createSocketHandle i with activities := s.activities.set k .done } : State).Inv := by
  obtain ⟨socket, hi⟩ := hs.exists_socket hk rfl
  have hpos : 0 < s.tally i .inserting := tally_pos hk rfl
  have hinv := hs.sockets i socket hi
  have hc : socket.closed = false := by
    cases hc : socket.closed with
    | false => rfl
    | true =>
      have := (hinv.isClosed hc).inserting
      omega
  obtain ⟨⟨handle, hfd, ho⟩, h₁, h₂, h₃, h₄⟩ := hinv.isOpen hc
  -- an entry of its descriptor would be its own, and it is not in the table yet
  have hnone : s.table handle = none := by
    cases ht : s.table handle with
    | none => rfl
    | some j =>
      obtain ⟨-, -, -, -, hoj, -⟩ := hs.open_of_table ht
      cases ho.symm.trans hoj
      exact absurd ht (h₄ hpos handle)
  let t : State := { s with
    table := Function.update s.table handle (some i)
    activities := s.activities.set k .done }
  have ht :
      ({ s.createSocketHandle i with activities := s.activities.set k .done } : State) = t := by
    simp [createSocketHandle, State.fd, hi, hfd, hnone, t]
  obtain ⟨hins, hother⟩ := tally_leave (t := t) hk rfl (i := i) rfl rfl
  have hw : t.wrappers i = s.wrappers i := by
    simp only [State.wrappers, hother .wrapping (by decide), hother .forced (by decide),
      hother .closing (by decide), hother .clearing (by decide)]
  have htab {handle' : Descriptor} {j : SocketPtr} (h : t.table handle' = some j) :
      (handle' = handle ∧ j = i) ∨ s.table handle' = some j := by
    simp only [t, Function.update_apply] at h
    split_ifs at h with hh
    · exact .inl ⟨hh, (Option.some.inj h).symm⟩
    · exact .inr h
  rw [ht]
  refine hs.of_socket (f := id) hk hi rfl (List.modify_id i s.sockets).symm ?_ (by rintro _ _ ⟨⟩)
    (fun _ j hj h => (htab h).resolve_left fun h => hj h.2)
    (fun _ _ _ h => h) (fun _ _ h => h) ⟨?_, ?_, ?_, fun _ => ?_, fun h => ?_⟩ fun handle' h => ?_
  · rintro j role ⟨⟩
    rfl
  · rw [hw]
    exact hinv.refCount_eq
  · rw [hother .deleting (by decide)]
    exact hinv.deleted_eq
  · rw [hother .forced (by decide)]
    exact hinv.forced
  · have hc := hother .closing (by decide)
    have hl := hother .clearing (by decide)
    exact ⟨⟨handle, hfd, ho⟩, by omega, by omega, by omega, fun _ => by omega⟩
  · cases hc.symm.trans h
  · rcases htab h with ⟨rfl, -⟩ | h
    · exact ⟨hc, hfd⟩
    · exact absurd h (h₄ hpos handle')

/-- **A step that concerns no socket.** -/
theorem State.Inv.of_tally (hs : s.Inv) (hsock : t.sockets = s.sockets) (htable : t.table = s.table)
    (howner : t.owner = s.owner) (htally : ∀ i role, t.tally i role = s.tally i role)
    (hon : ∀ pc ∈ t.activities, pc ∈ s.activities ∨ pc.on = none) : t.Inv where
  sockets i socket hi := by
    rw [hsock] at hi
    exact (hs.sockets i socket hi).frame (htally i) (fun _ => by rw [htable]; exact id)
      fun _ => by rw [howner]; exact id
  table handle i h := by
    rw [htable] at h
    rw [hsock]
    exact hs.table handle i h
  owner_lt handle i h := by
    rw [howner] at h
    rw [hsock]
    exact hs.owner_lt handle i h
  on_lt pc hpc i role h := by
    rw [hsock]
    rcases hon pc hpc with hmem | hnone
    · exact hs.on_lt pc hmem i role h
    · exact absurd (hnone.symm.trans h) nofun

theorem State.Inv.acquire {handle : Descriptor} {close : Bool} (hs : s.Inv)
    (hk : s.activities[k]? = some (.acquire handle close)) (htable : s.table handle = some i)
    (hlt : s.refCount i < uint32Max) :
    ({ s.modify i fun socket => { socket with refCount := increment socket.refCount } with
      activities := s.activities.set k
        (if close then .forceRelease handle i else .wrapper handle i) } : State).Inv := by
  obtain ⟨socket, hi, hc, hfd, ho, hinv⟩ := hs.open_of_table htable
  -- the only place where an overflow would wrap the count to 0
  have hrc : increment socket.refCount = socket.refCount + 1 := by
    refine increment_of_lt ?_
    simpa [State.refCount, hi] using hlt
  have hon' : (if close then PC.forceRelease handle i else .wrapper handle i).on =
      some (i, .wrapping) := by
    split_ifs <;> rfl
  generalize (if close then PC.forceRelease handle i else .wrapper handle i) = pc' at hon'
  let t : State := { s.modify i fun socket => { socket with refCount := increment socket.refCount }
    with activities := s.activities.set k pc' }
  obtain ⟨hwrap, hother⟩ := tally_enter (t := t) hk rfl rfl hon'
  have hw : t.wrappers i = s.wrappers i + 1 := by
    simp only [State.wrappers, hwrap, hother .forced (by decide), hother .closing (by decide),
      hother .clearing (by decide)]
    omega
  change t.Inv
  refine hs.of_socket hk hi rfl rfl (by rintro _ _ ⟨⟩) ?_ (fun _ _ _ h => h) (fun _ _ _ h => h)
    (fun _ _ h => h) ⟨?_, ?_, ?_, fun _ => ?_, fun h => ?_⟩ fun handle' h => ?_
  · intro j role h
    rw [hon'] at h
    cases h
    rfl
  · have := hinv.refCount_eq
    simp only [hrc, hw]
    omega
  · have hdel := hinv.deleted_eq
    have := hinv.refCount_eq
    simp only [hc, Bool.false_eq_true, if_false] at this
    rw [hother .deleting (by decide)]
    simp only [hrc]
    rw [if_neg (by omega)] at hdel ⊢
    exact hdel
  · rw [hother .forced (by decide)]
    exact hinv.forced
  · exact (hinv.isOpen hc).of_keep rfl rfl rfl (hother .inserting (by decide))
      (hother .closing (by decide)) (hother .clearing (by decide))
  · cases hc.symm.trans h
  · obtain ⟨socket', hi', -, hfd', -⟩ := hs.open_of_table h
    cases hi.symm.trans hi'
    exact ⟨hc, hfd'⟩

theorem State.refCount_modify (hi : s.sockets[i]? = some socket) (f : Socket → Socket) :
    (s.modify i f).refCount i = (f socket).refCount := by
  simp [State.refCount, State.modify, hi]

/-- The reference of a wrapper is not the last one of an open socket, so the table keeps its
entry. -/
theorem State.Inv.releaseSocketHandle_eq {handle : Descriptor} (hs : s.Inv)
    (hi : s.sockets[i]? = some socket) (hw : 0 < s.wrappers i) :
    s.releaseSocketHandle handle i false =
      s.modify i fun socket => { socket with refCount := decrement socket.refCount } := by
  refine if_neg ?_
  rintro ⟨-, ⟨htable, h0⟩ | h⟩
  · obtain ⟨socket', hi', hc, -, -, hinv⟩ := hs.open_of_table htable
    cases hi.symm.trans hi'
    have hrc := hinv.refCount_eq
    simp only [hc, Bool.false_eq_true, if_false] at hrc
    simp only [State.refCount_modify hi, hrc, decrement_succ] at h0
    omega
  · cases h

theorem State.Inv.release {handle : Descriptor} (hs : s.Inv)
    (hk : s.activities[k]? = some (.wrapper handle i)) :
    ({ s.releaseSocketHandle handle i false with
      activities := s.activities.set k
        (if (s.releaseSocketHandle handle i false).refCount i = 0 then .delete i else .done) } :
      State).Inv := by
  obtain ⟨socket, hi⟩ := hs.exists_socket hk rfl
  have hinv := hs.sockets i socket hi
  have hpos : 0 < s.tally i .wrapping := tally_pos hk rfl
  have hwpos : 0 < s.wrappers i := by
    rw [State.wrappers]
    omega
  rw [hs.releaseSocketHandle_eq hi hwpos]
  have hrc := hinv.refCount_eq
  obtain ⟨n, hn⟩ : ∃ n, socket.refCount = n + 1 := ⟨socket.refCount - 1, by omega⟩
  have hdel := hinv.deleted_eq
  rw [if_neg (by omega)] at hdel
  rw [State.refCount_modify hi]
  simp only [hn, decrement_succ]
  by_cases h0 : n = 0
  · -- the last reference, of a closed socket
    subst h0
    have hc : socket.closed = true := by
      cases hc : socket.closed with
      | true => rfl
      | false =>
        simp only [hc, Bool.false_eq_true, if_false] at hrc
        omega
    simp only [hc, if_true] at hrc
    rw [if_pos rfl]
    let t : State := {
      s.modify i fun socket => { socket with refCount := decrement socket.refCount } with
      activities := s.activities.set k (.delete i) }
    obtain ⟨hwrap, hdelete, hother⟩ :=
      tally_move (t := t) .wrapping .deleting hk rfl rfl rfl (by decide)
    have hw : t.wrappers i + 1 = s.wrappers i := by
      simp only [State.wrappers, ← hwrap, hother .forced (by decide) (by decide),
        hother .closing (by decide) (by decide), hother .clearing (by decide) (by decide)]
      omega
    change t.Inv
    refine hs.of_socket hk hi rfl rfl (by rintro j role ⟨⟩; rfl) (by rintro j role ⟨⟩; rfl)
      (fun _ _ _ h => h) (fun _ _ _ h => h) (fun _ _ h => h)
      ⟨?_, ?_, ?_, fun h => ?_, fun _ => ?_⟩ fun handle' h => ?_
    · simp only [hn, decrement_succ, hc, if_true]
      omega
    · simp only [hn, decrement_succ, if_true]
      omega
    · rw [hother .forced (by decide) (by decide)]
      exact hinv.forced
    · exact absurd (hc.symm.trans h) nofun
    · exact (hinv.isClosed hc).of_keep rfl rfl rfl (hother .inserting (by decide) (by decide))
        (hother .closing (by decide) (by decide)) (hother .clearing (by decide) (by decide))
    · exact absurd h ((hinv.isClosed hc).table handle')
  · -- other references remain
    rw [if_neg h0]
    let t : State := {
      s.modify i fun socket => { socket with refCount := decrement socket.refCount } with
      activities := s.activities.set k .done }
    obtain ⟨hwrap, hother⟩ := tally_leave (t := t) hk rfl (i := i) rfl rfl
    have hw : t.wrappers i + 1 = s.wrappers i := by
      simp only [State.wrappers, ← hwrap, hother .forced (by decide),
        hother .closing (by decide), hother .clearing (by decide)]
      omega
    have hins := hother .inserting (by decide)
    have hclosing := hother .closing (by decide)
    have hclearing := hother .clearing (by decide)
    change t.Inv
    refine hs.of_socket hk hi rfl rfl (by rintro j role ⟨⟩; rfl) nofun
      (fun _ _ _ h => h) (fun _ _ _ h => h) (fun _ _ h => h)
      ⟨?_, ?_, ?_, fun hc => (hinv.isOpen hc).of_keep rfl rfl rfl hins hclosing hclearing,
        fun hc => (hinv.isClosed hc).of_keep rfl rfl rfl hins hclosing hclearing⟩
      fun handle' h => ?_
    · simp only [hn, decrement_succ]
      omega
    · simp only [hn, decrement_succ, if_neg h0]
      rw [hother .deleting (by decide)]
      exact hdel
    · rw [hother .forced (by decide)]
      exact hinv.forced
    · obtain ⟨socket', hi', hc, hfd, -⟩ := hs.open_of_table h
      cases hi.symm.trans hi'
      exact ⟨hc, hfd⟩

theorem State.SocketInv.closed_of_pos (h : s.SocketInv i socket)
    (hpos : 0 < s.tally i .closing + s.tally i .clearing) : socket.closed = true := by
  cases hc : socket.closed with
  | true => rfl
  | false =>
    have h₁ := (h.isOpen hc).closing
    have h₂ := (h.isOpen hc).clearing
    omega

/-- `Close_icall` gives the implicit reference back: its own wrapper still counts. -/
theorem State.Inv.forceRelease {handle : Descriptor} (hs : s.Inv)
    (hk : s.activities[k]? = some (.forceRelease handle i)) (htable : s.table handle = some i) :
    let s' := (s.releaseSocketHandle handle i true).modify i fun socket =>
      { socket with closed := true }
    ({ s' with
      activities := s.activities.set k
        (if s'.refCount i = 0 then .forceDelete handle i else .close handle i) } : State).Inv := by
  obtain ⟨socket, hi, hc, hfd, ho, hinv⟩ := hs.open_of_table htable
  have hrc := hinv.refCount_eq
  simp only [hc, Bool.false_eq_true, if_false] at hrc
  let f : Socket → Socket := fun socket =>
    { socket with refCount := decrement socket.refCount, closed := true }
  let s₁ : State := { s.modify i f with table := Function.update s.table handle none }
  have hs₁ : (s.releaseSocketHandle handle i true).modify i (fun socket =>
      { socket with closed := true }) = s₁ := by
    simp [State.releaseSocketHandle, State.modify, htable, List.modify_modify_eq, s₁, f,
      Function.comp_def]
  have hpos : 0 < s.tally i .wrapping := tally_pos hk rfl
  have hwpos : 0 < s.wrappers i := by
    rw [State.wrappers]
    omega
  -- what remains are the references of the wrappers, its own among them
  have hcount : s₁.refCount i = s.wrappers i := by
    have : s₁.refCount i = (f socket).refCount := State.refCount_modify hi f
    rw [this]
    simp [f, hrc]
  simp only [hs₁, hcount]
  rw [if_neg (by omega)]
  let t : State := { s₁ with activities := s.activities.set k (.close handle i) }
  obtain ⟨hwrap, hclose, hother⟩ := tally_move (t := t) .wrapping .closing hk rfl
    rfl rfl (by decide)
  have hw : t.wrappers i = s.wrappers i := by
    simp only [State.wrappers, ← hwrap, hclose, hother .forced (by decide) (by decide),
      hother .clearing (by decide) (by decide)]
    omega
  have hopen := hinv.isOpen hc
  have htab {handle' : Descriptor} {j : SocketPtr} (h : t.table handle' = some j) :
      handle' ≠ handle ∧ s.table handle' = some j := by
    simp only [t, s₁, Function.update_apply] at h
    split_ifs at h with hh
    exact ⟨hh, h⟩
  have hnot (handle' : Descriptor) : t.table handle' ≠ some i := by
    intro h
    obtain ⟨hne, h⟩ := htab h
    obtain ⟨socket', hi', -, hfd', -⟩ := hs.open_of_table h
    cases hi.symm.trans hi'
    exact hne (Option.some.inj (hfd'.symm.trans hfd))
  change t.Inv
  refine hs.of_socket (f := f) hk hi rfl rfl (by rintro j role ⟨⟩; rfl) (by rintro j role ⟨⟩; rfl)
    (fun _ _ _ h => (htab h).2) (fun _ _ _ h => h) (fun _ _ h => h)
    ⟨?_, ?_, ?_, nofun, fun _ => ⟨hnot, ?_, ?_, fun _ => ⟨handle, hfd, ho⟩, fun h => ?_⟩⟩
    fun handle' h => absurd h (hnot handle')
  · simp [f, hrc, hw]
  · have hdel := hinv.deleted_eq
    rw [if_neg (by omega)] at hdel
    rw [hother .deleting (by decide) (by decide), if_neg]
    · exact hdel
    · simp only [f, hrc, decrement_succ]
      omega
  · rw [hother .forced (by decide) (by decide)]
    exact hinv.forced
  · -- it is in the table, so nobody is still inserting it
    rw [hother .inserting (by decide) (by decide)]
    have h₁ := hopen.table
    by_contra hne
    exact h₁ (Nat.pos_of_ne_zero hne) handle htable
  · rw [hclose, hother .clearing (by decide) (by decide), hopen.closing, hopen.clearing]
  · omega

theorem State.Inv.close {handle : Descriptor} (hs : s.Inv)
    (hk : s.activities[k]? = some (.close handle i)) :
    ({ s.closeDescriptor (s.fd i) with activities := s.activities.set k (.clear handle i) } :
      State).Inv := by
  obtain ⟨socket, hi⟩ := hs.exists_socket hk rfl
  have hinv := hs.sockets i socket hi
  have hpos : 0 < s.tally i .closing := tally_pos hk rfl
  have hc := hinv.closed_of_pos (by omega)
  obtain ⟨htable, hins, honce, hown, hfdnone⟩ := hinv.isClosed hc
  -- the descriptor has not been reused, as it is closed only here
  obtain ⟨fd, hfd, ho⟩ := hown hpos
  have hsfd : s.fd i = some fd := by simp [State.fd, hi, hfd]
  rw [hsfd]
  let t : State := { s with
    owner := Function.update s.owner fd none
    activities := s.activities.set k (.clear handle i) }
  obtain ⟨hclose, hclear, hother⟩ := tally_move (t := t) .closing .clearing hk rfl
    rfl rfl (by decide)
  have hw : t.wrappers i = s.wrappers i := by
    simp only [State.wrappers, ← hclose, hclear, hother .forced (by decide) (by decide),
      hother .wrapping (by decide) (by decide)]
    omega
  change t.Inv
  refine hs.of_socket (f := id) hk hi rfl (List.modify_id i s.sockets).symm
    (by rintro j role ⟨⟩; rfl) (by rintro j role ⟨⟩; rfl) (fun _ _ _ h => h)
    (fun h j hj hh => ?_) (fun h j hh => ?_)
    ⟨?_, ?_, ?_, fun h => absurd (hc.symm.trans h) nofun, fun _ => ⟨htable, ?_, ?_, ?_, ?_⟩⟩
    fun handle' h => absurd h (htable handle')
  · simp only [t, Function.update_apply]
    rw [if_neg, hh]
    rintro rfl
    exact hj (Option.some.inj (hh.symm.trans ho))
  · simp only [t, Function.update_apply] at hh
    split_ifs at hh
    exact hh
  · rw [hw]
    exact hinv.refCount_eq
  · rw [hother .deleting (by decide) (by decide)]
    exact hinv.deleted_eq
  · rw [hother .forced (by decide) (by decide)]
    exact hinv.forced
  · rw [hother .inserting (by decide) (by decide), hins]
  · omega
  · intro h
    omega
  · intro h
    omega

theorem State.Inv.clear {handle : Descriptor} (hs : s.Inv)
    (hk : s.activities[k]? = some (.clear handle i)) :
    ({ s.modify i fun socket => { socket with fd := none } with
      activities := s.activities.set k (.wrapper handle i) } : State).Inv := by
  obtain ⟨socket, hi⟩ := hs.exists_socket hk rfl
  have hinv := hs.sockets i socket hi
  have hpos : 0 < s.tally i .clearing := tally_pos hk rfl
  have hc := hinv.closed_of_pos (by omega)
  obtain ⟨htable, hins, honce, -, -⟩ := hinv.isClosed hc
  let t : State := { s.modify i fun socket => { socket with fd := none } with
    activities := s.activities.set k (.wrapper handle i) }
  obtain ⟨hclear, hwrap, hother⟩ := tally_move (t := t) .clearing .wrapping hk rfl
    rfl rfl (by decide)
  have hclosing := hother .closing (by decide) (by decide)
  have hw : t.wrappers i = s.wrappers i := by
    simp only [State.wrappers, ← hclear, hwrap, hclosing, hother .forced (by decide) (by decide)]
    omega
  change t.Inv
  refine hs.of_socket hk hi rfl rfl (by rintro j role ⟨⟩; rfl) (by rintro j role ⟨⟩; rfl)
    (fun _ _ _ h => h) (fun _ _ _ h => h) (fun _ _ h => h)
    ⟨?_, ?_, ?_, fun h => absurd (hc.symm.trans h) nofun,
      fun _ => ⟨htable, ?_, ?_, ?_, fun _ => rfl⟩⟩
    fun handle' h => absurd h (htable handle')
  · rw [hw]
    exact hinv.refCount_eq
  · rw [hother .deleting (by decide) (by decide)]
    exact hinv.deleted_eq
  · rw [hother .forced (by decide) (by decide)]
    exact hinv.forced
  · rw [hother .inserting (by decide) (by decide), hins]
  · omega
  · intro h
    omega

theorem State.Inv.delete (hs : s.Inv) (hk : s.activities[k]? = some (.delete i)) :
    ({ (s.closeDescriptor (s.fd i)).modify i fun socket =>
        { socket with fd := none, deleted := socket.deleted + 1 } with
      activities := s.activities.set k .done } : State).Inv := by
  obtain ⟨socket, hi⟩ := hs.exists_socket hk rfl
  have hinv := hs.sockets i socket hi
  have hpos : 0 < s.tally i .deleting := tally_pos hk rfl
  have hdel := hinv.deleted_eq
  have hrc := hinv.refCount_eq
  have h0 : socket.refCount = 0 := by
    by_contra h0
    rw [if_neg h0] at hdel
    omega
  have hc : socket.closed = true := by
    cases hc : socket.closed with
    | true => rfl
    | false =>
      simp only [hc, Bool.false_eq_true, if_false] at hrc
      omega
  simp only [hc, if_true] at hrc
  have hwzero : s.wrappers i = 0 := by omega
  obtain ⟨htable, hins, honce, hown, hfdnone⟩ := hinv.isClosed hc
  -- the call of `Close_icall` has ended, so `closeDescriptor` finds nothing to close
  have hfd : s.fd i = none := by
    rw [State.wrappers] at hwzero
    simp [State.fd, hi, hfdnone (by omega)]
  rw [hfd]
  let f : Socket → Socket := fun socket =>
    { socket with fd := none, deleted := socket.deleted + 1 }
  let t : State := { s.modify i f with activities := s.activities.set k .done }
  obtain ⟨hdelete, hother⟩ := tally_leave (t := t) hk rfl (i := i) rfl rfl
  have hw : t.wrappers i = s.wrappers i := by
    simp only [State.wrappers, hother .wrapping (by decide), hother .forced (by decide),
      hother .closing (by decide), hother .clearing (by decide)]
  change t.Inv
  refine hs.of_socket (f := f) hk hi rfl rfl (by rintro j role ⟨⟩; rfl) nofun
    (fun _ _ _ h => h) (fun _ _ _ h => h) (fun _ _ h => h)
    ⟨?_, ?_, ?_, fun h => absurd (hc.symm.trans h) nofun,
      fun _ => ⟨htable, ?_, ?_, fun h => ?_, fun _ => rfl⟩⟩
    fun handle' h => absurd h (htable handle')
  · rw [hw]
    exact hinv.refCount_eq
  · rw [if_pos h0] at hdel
    simp only [f, h0, if_true]
    omega
  · rw [hother .forced (by decide)]
    exact hinv.forced
  · rw [hother .inserting (by decide), hins]
  · rwa [hother .closing (by decide), hother .clearing (by decide)]
  · rw [hother .closing (by decide)] at h
    rw [State.wrappers] at hwzero
    omega

theorem State.Inv.create {fd : Descriptor} (hs : s.Inv) (hfree : s.owner fd = none) :
    ({ s with
      sockets := s.sockets ++ [⟨1, some fd, false, 0⟩]
      owner := Function.update s.owner fd (some s.sockets.length)
      activities := s.activities ++ [.insert s.sockets.length] } : State).Inv := by
  let t : State := { s with
    sockets := s.sockets ++ [⟨1, some fd, false, 0⟩]
    owner := Function.update s.owner fd (some s.sockets.length)
    activities := s.activities ++ [.insert s.sockets.length] }
  have htally (j : SocketPtr) (role : Role) : t.tally j role =
      s.tally j role + (PC.plays j role (.insert s.sockets.length)).toNat := by
    simp only [State.tally, t, List.countP_append, List.countP_singleton]
    cases PC.plays j role (.insert s.sockets.length) <;> simp
  have hold {j : SocketPtr} (hj : j < s.sockets.length) (role : Role) :
      t.tally j role = s.tally j role := by
    rw [htally]
    simp [PC.plays, PC.on, Nat.ne_of_gt hj]
  have hzero (role : Role) : s.tally s.sockets.length role = 0 := by
    refine List.countP_eq_zero.2 fun pc hpc hon => ?_
    exact absurd (hs.on_lt pc hpc _ role (of_decide_eq_true hon)) (Nat.lt_irrefl _)
  have htable (handle : Descriptor) (j : SocketPtr) (h : s.table handle = some j) :
      j < s.sockets.length := by
    obtain ⟨socket, hj, -⟩ := hs.table handle j h
    exact (List.getElem?_eq_some_iff.1 hj).1
  have howner (handle : Descriptor) (j : SocketPtr) (h : s.owner handle = some j) :
      t.owner handle = some j := by
    simp only [t, Function.update_apply]
    rw [if_neg, h]
    rintro rfl
    exact absurd (hfree.symm.trans h) nofun
  change t.Inv
  refine ⟨fun j socket hj => ?_, fun handle j hj => ?_, fun handle j hj => ?_,
    fun pc hpc j role hon => ?_⟩
  · simp only [t, List.getElem?_append] at hj
    split_ifs at hj with hlt
    · exact (hs.sockets j socket hj).frame (hold hlt) (fun _ h => h) fun handle => howner handle j
    · obtain ⟨h₁, h₂⟩ := List.getElem?_eq_some_iff.1 hj
      simp only [List.length_singleton] at h₁
      obtain rfl : j = s.sockets.length := Nat.le_antisymm (by omega) (by omega)
      have hsocket : socket = ⟨1, some fd, false, 0⟩ := by
        rw [← h₂]
        simp
      have hnew (role : Role) (hr : role ≠ .inserting) : t.tally s.sockets.length role = 0 := by
        rw [htally, hzero]
        simp [PC.plays, PC.on, Ne.symm hr]
      have hw : t.wrappers s.sockets.length = 0 := by
        simp only [State.wrappers, hnew .wrapping (by decide), hnew .forced (by decide),
          hnew .closing (by decide), hnew .clearing (by decide)]
      subst hsocket
      refine ⟨by simp [hw], by simp [hnew .deleting], hnew .forced (by decide),
        fun _ => ⟨⟨fd, rfl, by simp [t]⟩, hnew .closing (by decide), hnew .clearing (by decide), ?_,
          fun _ handle h => absurd (htable handle _ h) (Nat.lt_irrefl _)⟩, nofun⟩
      rw [htally, hzero]
      simp [PC.plays, PC.on]
  · obtain ⟨socket, hi, hc, hfd⟩ := hs.table handle j hj
    exact ⟨socket, (List.getElem?_append_left (htable handle j hj)).trans hi, hc, hfd⟩
  · simp only [t, Function.update_apply] at hj
    simp only [t, List.length_append, List.length_singleton]
    split_ifs at hj
    · cases hj
      exact Nat.lt_succ_self _
    · exact Nat.lt_succ_of_lt (hs.owner_lt handle j hj)
  · simp only [t, List.length_append, List.length_singleton]
    rcases List.mem_append.1 hpc with hpc | hpc
    · exact Nat.lt_succ_of_lt (hs.on_lt pc hpc j role hon)
    · cases List.mem_singleton.1 hpc
      cases hon
      exact Nat.lt_succ_self _

@[simp] theorem State.createSocketHandle_activities (i : SocketPtr) :
    (s.createSocketHandle i).activities = s.activities := by
  rw [createSocketHandle]
  split
  · split_ifs <;> rfl
  · rfl

@[simp] theorem State.releaseSocketHandle_activities (handle : Descriptor) (i : SocketPtr)
    (force : Bool) : (s.releaseSocketHandle handle i force).activities = s.activities := by
  simp only [releaseSocketHandle]
  split_ifs <;> rfl

@[simp] theorem State.closeDescriptor_activities (fd : Option Descriptor) :
    (s.closeDescriptor fd).activities = s.activities := by
  cases fd <;> rfl

/-- **A step of an activity keeps the invariant.** -/
theorem State.Inv.run {s' : State} (hs : s.Inv) (hk : s.activities[k]? = some pc)
    (hg : pc.regular s) (ht : runPC s pc = some (s', pc')) :
    ({ s' with activities := s'.activities.set k pc' } : State).Inv := by
  cases pc with
  | insert i =>
    cases ht
    rw [createSocketHandle_activities]
    exact hs.insert hk
  | acquire handle close =>
    rw [runPC] at ht
    cases htable : s.table handle with
    | none =>
      simp only [htable, Option.some.injEq, Prod.mk.injEq] at ht
      obtain ⟨rfl, rfl⟩ := ht
      refine hs.of_tally rfl rfl rfl (fun i role => ?_) fun pc hpc => ?_
      · have := tally_set (t := { s with activities := s.activities.set k .done }) hk rfl i role
        simpa [PC.plays, PC.on] using this
      · rcases List.mem_or_eq_of_mem_set hpc with hmem | rfl
        · exact .inl hmem
        · exact .inr rfl
    | some i =>
      simp only [htable, Option.some.injEq, Prod.mk.injEq] at ht
      obtain ⟨rfl, rfl⟩ := ht
      exact hs.acquire hk htable (hg i htable)
  | wrapper handle i =>
    cases ht
    rw [releaseSocketHandle_activities]
    exact hs.release hk
  | forceRelease handle i =>
    have := hs.forceRelease hk hg
    cases ht
    simpa only [State.modify, releaseSocketHandle_activities] using this
  | forceDelete handle i =>
    -- the wrapper of `Close_icall` still counts, so its release is never the last one
    obtain ⟨socket, hi⟩ := hs.exists_socket hk rfl
    have := (hs.sockets i socket hi).forced
    have : 0 < s.tally i .forced := tally_pos hk rfl
    omega
  | close handle i =>
    cases ht
    rw [closeDescriptor_activities]
    exact hs.close hk
  | clear handle i =>
    cases ht
    exact hs.clear hk
  | delete i =>
    have := hs.delete hk
    cases ht
    simpa only [State.modify, closeDescriptor_activities] using this
  | done => cases ht

/-- **A step keeps the invariant.** -/
theorem State.Inv.step {l : Label} (hs : s.Inv) (hg : Regular s l)
    (ht : Sockets.step s l = some t) : t.Inv := by
  cases l with
  | create fd =>
    obtain ⟨hfree, ⟨⟩⟩ := Option.ite_none_right_eq_some.1 ht
    exact hs.create hfree
  | wrap handle | close handle =>
    cases ht
    refine hs.of_tally rfl rfl rfl (fun i role => ?_) fun pc hpc => ?_
    · simp [State.tally, PC.plays, PC.on]
    · rcases List.mem_append.1 hpc with hmem | hmem
      · exact .inl hmem
      · exact .inr (by rw [List.mem_singleton.1 hmem]; rfl)
  | run k =>
    simp only [Sockets.step, Option.bind_eq_bind, Option.bind_eq_some_iff, Prod.exists,
      Option.some.injEq] at ht
    obtain ⟨pc, hk, s', pc', hrun, rfl⟩ := ht
    exact hs.run hk (hg pc hk) hrun

theorem inv_init : init.Inv := ⟨nofun, nofun, nofun, nofun⟩

/-! ### The table is sound -/

theorem State.Inv.sound (hs : s.Inv) : s.Sound where
  refCount_eq i socket hi := (hs.sockets i socket hi).refCount_eq
  deleted_eq i socket hi := (hs.sockets i socket hi).deleted_eq
  alive i socket hi hw := by
    have hrc := (hs.sockets i socket hi).refCount_eq
    have hdel := (hs.sockets i socket hi).deleted_eq
    rw [if_neg (by omega)] at hdel
    omega
  table_owner handle i h := by
    obtain ⟨socket, hi, hc, hfd, ho, hinv⟩ := hs.open_of_table h
    refine ⟨socket, hi, hc, ?_, hfd, ho⟩
    have hrc := hinv.refCount_eq
    have hdel := hinv.deleted_eq
    simp only [hc, Bool.false_eq_true, if_false] at hrc
    rw [if_neg (by omega)] at hdel
    omega

/-- **The table of socket handles is sound**, in every run in which `Close_icall` gives the implicit
reference back while the table still has the socket, and no count overflows. -/
theorem socketTable_sound (h : lts.ReachWith Regular init s) : s.Sound := by
  have hs : s.Inv := h.invariant inv_init fun _ _ _ hs hg hst => hs.step hg hst
  exact hs.sound

/-- A socket is created, used and closed by two threads at once, and its descriptor is given to
another one. -/
def useAndClose : List Label :=
  [.create 3, .run 0, .wrap 3, .run 1, .close 3, .run 2, .run 2, .run 2, .create 3, .run 2, .run 2,
   .run 1, .run 3, .run 1]

instance (s : State) : DecidablePred (PC.regular s)
  | .forceRelease handle socket => inferInstanceAs (Decidable (s.table handle = some socket))
  | .acquire handle _ =>
    inferInstanceAs (Decidable (∀ socket ∈ s.table handle, s.refCount socket < uint32Max))
  | .insert _ | .wrapper .. | .forceDelete .. | .close .. | .clear .. | .delete _ | .done =>
    .isTrue trivial

instance (s : State) : ∀ l, Decidable (Regular s l)
  | .run i => inferInstanceAs (Decidable (∀ pc ∈ s.activities[i]?, pc.regular s))
  | .create _ | .wrap _ | .close _ => .isTrue trivial

theorem socketTable_sound_useAndClose :
    ∃ s, lts.ReachWith Regular init s ∧
      s.sockets = [⟨0, none, true, 1⟩, ⟨1, some 3, false, 0⟩] ∧ s.Sound := by
  obtain ⟨s, hs, hw⟩ := LTS.exists_reachWith (f := step) (G := Regular) (i := init) useAndClose
    (fun s => s.sockets = [⟨0, none, true, 1⟩, ⟨1, some 3, false, 0⟩]) (by decide)
  exact ⟨s, hs, hw, socketTable_sound hs⟩

/-- Two calls of `Close_icall` have a wrapper of the socket when the first gives the implicit
reference back. -/
def twoClosers : List Label :=
  [.create 3, .run 0, .close 3, .run 1, .close 3, .run 2, .run 1, .run 2, .run 1, .run 1, .run 1,
   .run 1]

/-- The first call deletes the socket, and the second still has its wrapper. -/
theorem twoClosers_unsound : ¬ ∀ s, lts.Reachable init s → s.Sound := by
  intro h
  obtain ⟨s, hs, hsock, hact⟩ := LTS.exists_reachWith (f := step) (G := fun _ _ => True) (i := init)
    twoClosers (fun s => s.sockets = [⟨0, none, true, 1⟩] ∧ 0 < s.wrappers 0) (by decide)
  have := (h s hs).alive 0 _ (by rw [hsock]; rfl) hact
  cases this

end Sockets

end Il2Cpp
