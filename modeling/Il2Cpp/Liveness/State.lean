import Il2Cpp.Liveness.Heap

/-!
# The liveness state

`LivenessState` with the operations that `Liveness` offers.  The blocks of the two arrays are
lists here; what is read from the objects does not change while the world is stopped.

* `addProcessObject` : marks an object and puts it on the work list.
* `traverseObjects` : processes the work list.  The first argument bounds the number of steps.
* `fromRoot`, `fromStatics`, `filterObjects`, `finalize` : the operations.
* `run` : several calls on one state.
-/

namespace Il2Cpp

namespace Liveness

/-- `LivenessState`, with the marks in the class pointers of the objects. -/
structure LivenessState (Addr : Type) where
  marked : Addr → Bool
  allObjects : List Addr
  /-- Where the iterator of `all_objects` stands. -/
  iterator : ℕ
  /-- The last object first. -/
  processArray : List Addr
  traverseDepth : ℕ

/-- `ShouldTraverseObjects`. -/
def shouldTraverseObjects (index recursionDepth : ℕ) : Bool :=
  (index + 1) % 256 = 0 && recursionDepth < 128

/-- `THREAD_STATIC_FIELD_OFFSET`. -/
def threadStaticFieldOffset : ℤ := -1

/-- The places of the references in a field, if it is a static one that `FromStatics` looks at. -/
def staticFieldPlaces (field : FieldInfo Il2CppClass) : List ℤ :=
  if !field.attrs.isStatic then []
  else if !field.type.fieldCanContainReferences field.attrs then []
  else if field.offset = threadStaticFieldOffset then []
  else match field.type.structClass with
    | some klass => traverseObjectInternal field.offset true klass
    | none => if field.type.isStruct then [] else [field.offset]

namespace LivenessState

variable {K Addr : Type} [DecidableEq K] [DecidableEq Addr] (T : TypeSystem K) (H : Heap K Addr)
  (filter : Option K)

/-- `ShouldProcessValue`. -/
def shouldProcessValue (val : Addr) : Bool :=
  match filter with
  | some filter => T.hasParentUnsafe (H.classOf val) filter
  | none => true

/-- The object is added to `all_objects` and marked. -/
def mark (s : LivenessState Addr) (object : Addr) : LivenessState Addr :=
  { s with
    allObjects := s.allObjects ++ [object]
    marked := Function.update s.marked object true }

def push (s : LivenessState Addr) (object : Addr) : LivenessState Addr :=
  { s with processArray := object :: s.processArray }

/-- `AddProcessObject`. -/
def addProcessObject (s : LivenessState Addr) : Option Addr → Bool × LivenessState Addr
  | none => (false, s)
  | some object =>
    if s.marked object then (false, s)
    else if T.hasReferences (H.classOf object) then (true, (s.mark object).push object)
    else if shouldProcessValue T H filter object then (false, s.mark object)
    else (false, s)

/-- Several references are added; whether one has been put on the work list. -/
def addProcessObjects (s : LivenessState Addr) : List (Option Addr) → Bool × LivenessState Addr
  | [] => (false, s)
  | object :: objects =>
    let r := s.addProcessObject T H filter object
    let r' := r.2.addProcessObjects objects
    (r.1 || r'.1, r'.2)

/-- The elements of an array, after which the work list is processed now and then.  (An object that
is not an array is one element: the work list is not processed after the first.) -/
def traverseElements (traverse : LivenessState Addr → Option (LivenessState Addr)) :
    List (List (Option Addr)) → ℕ → LivenessState Addr → Option (LivenessState Addr)
  | [], _, s => some s
  | element :: elements, itemsProcessed, s =>
    let r := s.addProcessObjects T H filter element
    let itemsProcessed := if r.1 then itemsProcessed + 1 else itemsProcessed
    (if shouldTraverseObjects itemsProcessed r.2.traverseDepth then traverse r.2
      else some r.2).bind (traverseElements traverse elements itemsProcessed)

/-- The references in an object, as `TraverseGenericObject` reads them. -/
def references (object : Addr) : List (List (Option Addr)) :=
  (T.descriptorPlaces (H.classOf object) (H.length object)).map (·.map (H.read object))

/-- `TraverseObjects`, with its loop: `traverse_depth` counts the activations. -/
def nested (loop : LivenessState Addr → Option (LivenessState Addr)) (s : LivenessState Addr) :
    Option (LivenessState Addr) :=
  (loop { s with traverseDepth := s.traverseDepth + 1 }).map fun s =>
    { s with traverseDepth := s.traverseDepth - 1 }

/-- The loop of `TraverseObjects`. -/
def traverseLoop : ℕ → LivenessState Addr → Option (LivenessState Addr)
  | 0, _ => none
  | n + 1, s =>
    match s.processArray with
    | [] => some s
    | object :: rest =>
      (traverseElements T H filter (nested (traverseLoop n)) (references T H object) 0
        { s with processArray := rest }).bind (traverseLoop n)

/-- `TraverseObjects`. -/
def traverseObjects (n : ℕ) : LivenessState Addr → Option (LivenessState Addr) :=
  nested (traverseLoop T H filter n)

/-- The loop of `FilterObjects`: the arrays that `filter_callback` gets. -/
def filterLoop : List Addr → List Addr → List (List Addr)
  | [], filteredObjects => if filteredObjects.length ≠ 0 then [filteredObjects] else []
  | value :: values, filteredObjects =>
    let filteredObjects :=
      if shouldProcessValue T H filter value then filteredObjects ++ [value] else filteredObjects
    if filteredObjects.length = 256 then filteredObjects :: filterLoop values []
    else filterLoop values filteredObjects

/-- `FilterObjects`. -/
def filterObjects (s : LivenessState Addr) : LivenessState Addr × List (List Addr) :=
  ({ s with iterator := s.allObjects.length },
    filterLoop T H filter (s.allObjects.drop s.iterator) [])

/-- `Reset`. -/
def reset (s : LivenessState Addr) : LivenessState Addr := { s with processArray := [] }

/-- `Liveness::FromRoot`. -/
def fromRoot (n : ℕ) (root : Addr) (s : LivenessState Addr) :
    Option (LivenessState Addr × List (List Addr)) :=
  (traverseObjects T H filter n (s.reset.push root)).map (filterObjects T H filter)

/-- The references in the static fields that `FromStatics` looks at. -/
def staticReferences : List (Option Addr) :=
  (H.staticFieldData.filter fun klass =>
    !(T.classes klass).inCorlib && (T.classes klass).sizeInited).flatMap fun klass =>
      ((T.classes klass).layout.fields.flatMap staticFieldPlaces).map (H.readStatic klass)

/-- `Liveness::FromStatics`. -/
def fromStatics (n : ℕ) (s : LivenessState Addr) :
    Option (LivenessState Addr × List (List Addr)) :=
  (traverseObjects T H filter n
    (s.reset.addProcessObjects T H filter (staticReferences T H)).2).map (filterObjects T H filter)

/-- `Finalize`. -/
def finalize (s : LivenessState Addr) : LivenessState Addr :=
  { s with
    marked := s.allObjects.foldl (fun marked object => Function.update marked object false) s.marked
    iterator := s.allObjects.length }

/-- The state that `AllocateStruct` makes; no object is marked. -/
def initial : LivenessState Addr where
  marked _ := false
  allObjects := []
  iterator := 0
  processArray := []
  traverseDepth := 0

end LivenessState

/-- A call on a liveness state. -/
inductive Call (Addr : Type) where
  | fromRoot (root : Addr)
  | fromStatics

namespace LivenessState

variable {K Addr : Type} [DecidableEq K] [DecidableEq Addr] (T : TypeSystem K) (H : Heap K Addr)
  (filter : Option K)

def call (n : ℕ) (s : LivenessState Addr) :
    Call Addr → Option (LivenessState Addr × List (List Addr))
  | .fromRoot root => fromRoot T H filter n root s
  | .fromStatics => fromStatics T H filter n s

/-- Several calls, and all objects that are reported. -/
def run (n : ℕ) : List (Call Addr) → LivenessState Addr → Option (LivenessState Addr × List Addr)
  | [], s => some (s, [])
  | c :: calls, s =>
    (call T H filter n s c).bind fun r =>
      (run n calls r.1).map fun r' => (r'.1, r.2.flatten ++ r'.2)

end LivenessState

end Liveness

end Il2Cpp
