import Il2Cpp.Data.Bitmap

/-!
# Garbage-collector handles

`gc/GCHandle.cpp`: four tables of handles, one for each type of handle.  A table is a bitmap of the
slots in use, an array of entries and a hint where to start the search for a free slot; a handle
packs the number of its slot and its type into 32 bits.  The entries of the two weak tables are
links that the collector hides from itself (`GC_HIDE_POINTER`) and sets to NULL when the object
dies.

* `HandleData` : one table; `HandleData.search`, `HandleData.grow` and `HandleData.occupy` are the
  parts of `alloc_handle`, put together in `HandleData.allocHandle`.  Its result is `none` when the
  search reads a word outside the bitmap.
* `GCHandles.run` : the effect and the result of each entry point of `GCHandle`, and of the
  collector clearing a link.
-/

namespace Il2Cpp

namespace GC

/-- A pointer-sized word. -/
abbrev Word := BitVec 64

/-- An `Il2CppObject*`: NULL or the address of an object.  Objects are aligned, so it is never the
word of ones, which a weak link gives for NULL. -/
structure ObjectPtr where
  word : Word
  ne_allOnes : word ≠ BitVec.allOnes 64

/-- The NULL pointer. -/
def ObjectPtr.null : ObjectPtr := ⟨0, by decide⟩

/-! ### Weak links -/

/-- `GarbageCollector::AddWeakLink` : the word it stores in the link (`GC_HIDE_POINTER`). -/
def addWeakLink (obj : Word) : Word := ~~~obj

/-- `GarbageCollector::GetWeakLink` (`GC_REVEAL_POINTER`). -/
def getWeakLink (link : Word) : Word :=
  let obj := ~~~link
  if obj = BitVec.allOnes 64 then 0 else obj

/-! ### Tables -/

/-- `GCHandleType`. -/
inductive GCHandleType
  | weak | weakTrack | normal | pinned
  deriving DecidableEq

/-- The number of a type in the enumeration. -/
def GCHandleType.toNat : GCHandleType → ℕ
  | weak => 0
  | weakTrack => 1
  | normal => 2
  | pinned => 3

/-- `type <= HANDLE_WEAK_TRACK` : the entries are weak links. -/
def GCHandleType.isWeak : GCHandleType → Bool
  | weak | weakTrack => true
  | normal | pinned => false

/-- The entry for an object: the pointer, or a registered link to it. -/
def GCHandleType.entryOf (type : GCHandleType) (obj : ObjectPtr) : Word :=
  if type.isWeak ∧ obj.word ≠ 0 then addWeakLink obj.word else obj.word

/-- A handle, a `uint32_t`. -/
abbrev Handle := BitVec 32

/-- `(slot << 3) | (handles->type + 1)`. -/
def makeHandle (type : GCHandleType) (slot : ℕ) : Handle :=
  BitVec.ofNat 32 slot <<< 3 ||| BitVec.ofNat 32 (type.toNat + 1)

/-- `HandleData`. -/
structure HandleData where
  bitmap : Bitmap 32
  entries : List Word
  size : ℕ
  type : GCHandleType
  /-- A field of 24 bits. -/
  slotHint : ℕ

/-- `find_first_unset`; `none` for -1. -/
def findFirstUnset (bitmap : BitVec 32) : Option ℕ :=
  (List.range 32).find? fun i => bitmap &&& 1#32 <<< i = 0

namespace HandleData

/-- The first allocation in a table: 32 slots, zeroed. -/
def firstUse (handles : HandleData) : HandleData :=
  if handles.size = 0 then
    { handles with
      size := 32
      entries := List.replicate 32 0
      bitmap := List.replicate (32 / 32) 0 }
  else handles

/-- A search loop of `alloc_handle`: the next `n` words of the bitmap from `slot` on.  The loop
breaks at a word with a free bit, having set the hint, and gives the word and the bit. -/
def search (handles : HandleData) : ℕ → ℕ → Option (HandleData × Option (ℕ × ℕ))
  | _, 0 => some (handles, none)
  | slot, n + 1 => do
    let word ← handles.bitmap[slot]?
    if word ≠ 0xffffffff then
      return ({ handles with slotHint := slot % 2 ^ 24 }, (findFirstUnset word).map (slot, ·))
    else search handles (slot + 1) n

/-- Both search loops: from the hint to the end, then from the start to the hint. -/
def findSlot (handles : HandleData) : Option (HandleData × Option (ℕ × ℕ)) := do
  let (handles, found) ← handles.search handles.slotHint (handles.size / 32 - handles.slotHint)
  if found = none ∧ handles.slotHint ≠ 0 then
    handles.search 0 handles.slotHint
  else
    return (handles, found)

/-- A link that moves to a larger array: removed and registered again at its new place, if its
object is alive. -/
def moveLink (entry : Word) : Word :=
  if getWeakLink entry ≠ 0 then addWeakLink (getWeakLink entry) else entry

/-- The table doubled, with the first of the new slots. -/
def grow (handles : HandleData) : HandleData × ℕ × ℕ :=
  let newSize := handles.size * 2 % 2 ^ 32
  let moved := if handles.type.isWeak then handles.entries.map moveLink else handles.entries
  ({ handles with
      bitmap := handles.bitmap ++ List.replicate (newSize / 32 - handles.size / 32) 0
      entries := moved ++ List.replicate (newSize - handles.size) 0
      -- not in words of the bitmap, like the hint that a search leaves
      slotHint := (handles.size + 1) % 2 ^ 24
      size := newSize },
    (handles.size + 1) / 32, 0)

/-- The end of `alloc_handle`: the slot is marked and its entry written. -/
def occupy (handles : HandleData) (obj : ObjectPtr) (slot i : ℕ) : HandleData × Handle :=
  ({ handles with
      bitmap := handles.bitmap.setBit slot i
      entries := handles.entries.set (slot * 32 + i) (handles.type.entryOf obj) },
    makeHandle handles.type (slot * 32 + i))

/-- `alloc_handle`, from the search on. -/
def takeSlot (handles : HandleData) (obj : ObjectPtr) : Option (HandleData × Handle) := do
  let (handles, found) ← handles.findSlot
  match found with
  | some (slot, i) => return handles.occupy obj slot i
  | none =>
    let (handles, slot, i) := handles.grow
    return handles.occupy obj slot i

/-- `alloc_handle`. -/
def allocHandle (handles : HandleData) (obj : ObjectPtr) : Option (HandleData × Handle) :=
  handles.firstUse.takeSlot obj

/-- `slot < handles->size && (handles->bitmap[slot / 32] & (1 << (slot % 32)))`. -/
def InUse (handles : HandleData) (slot : ℕ) : Prop :=
  slot < handles.size ∧ handles.bitmap.getD (slot / 32) 0 &&& 1#32 <<< (slot % 32) ≠ 0

instance (handles : HandleData) (slot : ℕ) : Decidable (handles.InUse slot) :=
  inferInstanceAs (Decidable (_ ∧ _))

/-- The object of a slot in use. -/
def read (handles : HandleData) (slot : ℕ) : Word :=
  let entry := handles.entries.getD slot 0
  if handles.type.isWeak then getWeakLink entry else entry

/-- The part of `GCHandle::GetTarget` under the lock. -/
def getTarget (handles : HandleData) (slot : ℕ) : Word :=
  if handles.InUse slot then handles.read slot else 0

/-- The part of `il2cpp_gchandle_set_target` under the lock.  A weak link is removed, which leaves
NULL, and registered again for the new object. -/
def setTarget (handles : HandleData) (slot : ℕ) (obj : ObjectPtr) : HandleData :=
  if handles.InUse slot then
    { handles with entries := handles.entries.set slot (handles.type.entryOf obj) }
  else handles

/-- The part of `GCHandle::Free` under the lock. -/
def free (handles : HandleData) (slot : ℕ) : HandleData :=
  if handles.InUse slot then
    { handles with
      entries := handles.entries.set slot 0
      bitmap := handles.bitmap.clearBit (slot / 32) (slot % 32) }
  else handles

/-- The collector clears a registered link whose object died. -/
def clearLink (handles : HandleData) (slot : ℕ) : HandleData :=
  if handles.type.isWeak ∧ slot < handles.size then
    { handles with entries := handles.entries.set slot 0 }
  else handles

end HandleData

/-! ### Entry points -/

/-- `GCHandle::GetHandleType`; `none` for a type above 3. -/
def handleType (gchandle : Handle) : Option GCHandleType :=
  match (gchandle &&& 7) - 1 with
  | 0 => some .weak
  | 1 => some .weakTrack
  | 2 => some .normal
  | 3 => some .pinned
  | _ => none

/-- `GetHandleSlot`. -/
def handleSlot (gchandle : Handle) : ℕ := (gchandle >>> 3).toNat

/-- `gc_handles`. -/
abbrev GCHandles := GCHandleType → HandleData

/-- The initial value of `gc_handles`. -/
def GCHandles.init : GCHandles := fun type =>
  { bitmap := [], entries := [], size := 0, type, slotHint := 0 }

/-- What the clients and the collector do with the tables. -/
inductive HandleOp
  /-- `GCHandle::New` -/
  | new (obj : ObjectPtr) (pinned : Bool)
  /-- `GCHandle::NewWeakref` -/
  | newWeakref (obj : ObjectPtr) (trackResurrection : Bool)
  /-- `GCHandle::GetTargetHandle` -/
  | getTargetHandle (obj : ObjectPtr) (handle : Handle) (type : Int32)
  /-- `GCHandle::GetTarget` -/
  | getTarget (gchandle : Handle)
  /-- `GCHandle::Free` -/
  | free (gchandle : Handle)
  /-- the collector clears the link of a weak handle -/
  | clearLink (gchandle : Handle)

/-- What they return. -/
inductive HandleResult
  /-- a handle that `alloc_handle` made -/
  | issued (gchandle : Handle)
  /-- the error of `NewWeakref`, after `alloc_handle` made a handle that nobody gets -/
  | notSupported (gchandle : Handle)
  /-- a handle that was passed in -/
  | same (gchandle : Handle)
  | target (obj : Word)
  | done
  deriving DecidableEq

namespace GCHandles

variable (tables : GCHandles)

/-- `alloc_handle` on one of the tables. -/
def allocHandle (type : GCHandleType) (obj : ObjectPtr) : Option (GCHandles × Handle) := do
  let (handles, gchandle) ← (tables type).allocHandle obj
  return (Function.update tables type handles, gchandle)

/-- `GCHandle::New`. -/
def new (obj : ObjectPtr) (pinned : Bool) : Option (GCHandles × HandleResult) := do
  let (tables, gchandle) ← tables.allocHandle (if pinned then .pinned else .normal) obj
  return (tables, .issued gchandle)

/-- `GCHandle::NewWeakref`, without `HAVE_SGEN_GC`. -/
def newWeakref (obj : ObjectPtr) (trackResurrection : Bool) :
    Option (GCHandles × HandleResult) := do
  let (tables, gchandle) ← tables.allocHandle (if trackResurrection then .weakTrack else .weak) obj
  if trackResurrection then
    return (tables, .notSupported gchandle)
  else
    return (tables, .issued gchandle)

/-- One of the tables is changed, if the handle has a type. -/
def modify (gchandle : Handle) (f : HandleData → ℕ → HandleData) : GCHandles :=
  match handleType gchandle with
  | none => tables
  | some type => Function.update tables type (f (tables type) (handleSlot gchandle))

/-- `il2cpp_gchandle_set_target`. -/
def setTarget (gchandle : Handle) (obj : ObjectPtr) : GCHandles :=
  tables.modify gchandle fun handles slot => handles.setTarget slot obj

/-- `GCHandle::Free`. -/
def free (gchandle : Handle) : GCHandles := tables.modify gchandle HandleData.free

/-- The collector clears the link of a weak handle. -/
def clearLink (gchandle : Handle) : GCHandles := tables.modify gchandle HandleData.clearLink

/-- `GCHandle::GetTarget`. -/
def getTarget (gchandle : Handle) : Word :=
  match handleType gchandle with
  | none => 0
  | some type => (tables type).getTarget (handleSlot gchandle)

/-- `GCHandle::WalkStrongGCHandleTargets` : the objects it calls the callback on, in this order. -/
def walkStrongGCHandleTargets : List Word :=
  [GCHandleType.normal, .pinned].flatMap fun type =>
    (List.range (tables type).size).filterMap fun i =>
      let entry := (tables type).entries.getD i 0
      if entry ≠ 0 then some entry else none

/-- `GCHandle::GetTargetHandle`. -/
def getTargetHandle (obj : ObjectPtr) (handle : Handle) (type : Int32) :
    Option (GCHandles × HandleResult) :=
  if type = -1 then some (tables.setTarget handle obj, .same handle)
  else if type = 0 then tables.newWeakref obj false
  else if type = 1 then tables.newWeakref obj true
  else if type = 2 then tables.new obj false
  else if type = 3 then tables.new obj true
  else some (tables, .same 0)

/-- One operation under the lock of the tables. -/
def run (tables : GCHandles) : HandleOp → Option (GCHandles × HandleResult)
  | .new obj pinned => tables.new obj pinned
  | .newWeakref obj trackResurrection => tables.newWeakref obj trackResurrection
  | .getTargetHandle obj handle type => tables.getTargetHandle obj handle type
  | .getTarget gchandle => some (tables, .target (tables.getTarget gchandle))
  | .free gchandle => some (tables.free gchandle, .done)
  | .clearLink gchandle => some (tables.clearLink gchandle, .done)

end GCHandles

end GC

end Il2Cpp
