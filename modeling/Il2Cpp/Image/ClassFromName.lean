import Mathlib

/-!
# Classes by name

`Image.cpp` finds a class by its name in two ways.

* `classFromName` : a table from names to handles, made from the type table of the image.  The name
  of a nested type has slashes in it, and the nested types of corlib are put into the table later, by
  `initNestedTypes`.
* `fromTypeNameParseInfo` : a search in the type table, and then in the nested types of each level.
* `joinNames_inj` : a name with slashes has one way to be read.
-/

namespace Il2Cpp

namespace Image

/-- The name of a type, or a part of a name that is separated by slashes. -/
structure Name where
  chars : List Char
  slash_notMem : '/' ∉ chars
  deriving DecidableEq

@[ext] theorem Name.ext_chars {a b : Name} (h : a.chars = b.chars) : a = b := by
  cases a
  cases b
  cases h
  rfl

/-- The metadata of the types, whose handles are of the type `T`. -/
structure Metadata (T : Type) where
  namespaze : T → List Char
  name : T → Name
  typeIsNested : T → Bool
  nestedTypes : T → List T
  /-- How deep types are nested in a type. -/
  height : T → ℕ
  height_lt : ∀ t, ∀ c ∈ nestedTypes t, height c < height t
  /-- The nested types of a type have different names. -/
  name_inj : ∀ t, ∀ c ∈ nestedTypes t, ∀ c' ∈ nestedTypes t, name c = name c' → c = c'

/-- The type table of an image, and the exported types, which may be NULL.  Types that are not nested
have different names. -/
structure TypeTable {T : Type} (md : Metadata T) where
  isCorlib : Bool
  types : List T
  exportedTypes : List (Option T)
  name_inj : ∀ t t', some t ∈ types.map some ++ exportedTypes →
    some t' ∈ types.map some ++ exportedTypes → md.typeIsNested t = false →
    md.typeIsNested t' = false → md.namespaze t = md.namespaze t' → md.name t = md.name t' → t = t'

variable {T : Type} (md : Metadata T)

/-! ### The table from names to handles -/

/-- A namespace and a name. -/
abbrev Key := List Char × List Char

/-- `Il2CppNameToTypeHandleHashTable`. -/
abbrev HashTable (T : Type) := Key → Option T

/-- `insert` keeps what is there. -/
def HashTable.insert (hashTable : HashTable T) (entry : Key × T) : HashTable T :=
  if (hashTable entry.1).isNone then Function.update hashTable entry.1 (some entry.2)
  else hashTable

/-- `AddNestedTypesToNametoClassHashTable`, for a nested type; types are nested less than `n` deep in
it. -/
def addNestedType (namespaze : List Char) : ℕ → HashTable T → List Char → T → HashTable T
  | 0, hashTable, _, _ => hashTable
  | n + 1, hashTable, parentName, handle =>
    let name := parentName ++ '/' :: (md.name handle).chars
    let hashTable := hashTable.insert ((namespaze, name), handle)
    (md.nestedTypes handle).foldl
      (fun hashTable nestedClass => addNestedType namespaze n hashTable name nestedClass) hashTable

/-- `AddNestedTypesToNametoClassHashTable`, for a type that is not nested. -/
def addNestedTypes (hashTable : HashTable T) (handle : T) : HashTable T :=
  (md.nestedTypes handle).foldl
    (fun hashTable nestedClass => addNestedType md (md.namespaze handle) (md.height handle) hashTable
      (md.name handle).chars nestedClass) hashTable

/-- `AddTypeToNametoClassHashTable`. -/
def addType (isCorlib : Bool) (hashTable : HashTable T) : Option T → HashTable T
  | none => hashTable
  | some typeHandle =>
    -- don't add nested types
    if md.typeIsNested typeHandle then hashTable
    else
      let hashTable := if isCorlib then hashTable else addNestedTypes md hashTable typeHandle
      hashTable.insert ((md.namespaze typeHandle, (md.name typeHandle).chars), typeHandle)

variable {md}

/-- The table that the first call of `ClassFromName` makes. -/
def TypeTable.nameToClassHashTable (image : TypeTable md) : HashTable T :=
  let hashTable := (image.types.map some).foldl (addType md image.isCorlib) fun _ => none
  image.exportedTypes.foldl (addType md image.isCorlib) hashTable

variable (md) in
/-- A loop of `InitNestedTypes`, with whether the function has returned; there is no result if it
reads the NULL handle. -/
def initLoop : List (Option T) → HashTable T → Option (HashTable T × Bool)
  | [], hashTable => some (hashTable, false)
  | none :: _, _ => none
  | some handle :: handles, hashTable =>
    -- don't add nested types
    if md.typeIsNested handle then some (hashTable, true)
    else initLoop handles (addNestedTypes md hashTable handle)

/-- `InitNestedTypes`. -/
def TypeTable.initNestedTypes (image : TypeTable md) (hashTable : HashTable T) :
    Option (HashTable T) := do
  let (hashTable, returned) ← initLoop md (image.types.map some) hashTable
  if returned then return hashTable
  let (hashTable, _) ← initLoop md image.exportedTypes hashTable
  return hashTable

/-- The table when the nested types have been initialised: `InitNestedTypes` is called for corlib, at
the start, and the table of another image has them from the first call of `ClassFromName` on. -/
def TypeTable.initialised (image : TypeTable md) : Option (HashTable T) :=
  if image.isCorlib then image.initNestedTypes image.nameToClassHashTable
  else some image.nameToClassHashTable

/-- `ClassFromName`, with the nested types initialised; there is no result if that went wrong. -/
def classFromName (image : TypeTable md) (namespaze name : List Char) : Option (Option T) :=
  image.initialised.map fun hashTable => hashTable (namespaze, name)

/-! ### The search in the type table -/

variable (md) in
/-- `ClassMatches`, which respects the case. -/
def classMatches (typeHandle : T) (namespaze : List Char) (name : Name) : Bool :=
  !md.typeIsNested typeHandle && name = md.name typeHandle && namespaze = md.namespaze typeHandle

/-- `FindClassMatching`. -/
def findClassMatching (image : TypeTable md) (namespaze : List Char) (name : Name) : Option T :=
  image.types.find? fun typeHandle => classMatches md typeHandle namespaze name

variable (md) in
/-- The loop of `FindExportedClassMatching`; there is no result if it reads the NULL handle. -/
def findExported (namespaze : List Char) (name : Name) : List (Option T) → Option (Option T)
  | [] => some none
  | none :: _ => none
  | some typeHandle :: handles =>
    if classMatches md typeHandle namespaze name then some (some typeHandle)
    else findExported namespaze name handles

variable (md) in
/-- `FindNestedType`. -/
def findNestedType (klass : T) (name : Name) : Option T :=
  (md.nestedTypes klass).find? fun nestedType => name = md.name nestedType

variable (md) in
/-- The loop of `FromTypeNameParseInfo` over the nested names. -/
def descend (parentClass : T) : List Name → Option T
  | [] => some parentClass
  | name :: nested => (findNestedType md parentClass name).bind fun klass => descend klass nested

/-- The first half of `FromTypeNameParseInfo`, for the name of a type that is not nested. -/
def findParent (image : TypeTable md) (namespaze : List Char) (name : Name) : Option (Option T) :=
  match findClassMatching image namespaze name with
  | some parentClass => some (some parentClass)
  | none => findExported md namespaze name image.exportedTypes

/-- `FromTypeNameParseInfo`; there is no result if it reads the NULL handle. -/
def fromTypeNameParseInfo (image : TypeTable md) (namespaze : List Char) (name : Name)
    (nested : List Name) : Option (Option T) := do
  let parentClass ← findParent image namespaze name
  return parentClass.bind fun parentClass => descend md parentClass nested

/-! ### Names with slashes -/

/-- A name and nested names, with slashes between them. -/
def joinNames (name : Name) (nested : List Name) : List Char :=
  name.chars ++ nested.flatMap fun n => '/' :: n.chars

theorem append_slash_inj {a b r s : List Char} (ha : '/' ∉ a) (hb : '/' ∉ b)
    (hr : r = [] ∨ r.head? = some '/') (hs : s = [] ∨ s.head? = some '/') (h : a ++ r = b ++ s) :
    a = b ∧ r = s := by
  induction a generalizing b with
  | nil =>
    cases b with
    | nil => exact ⟨rfl, h⟩
    | cons c b =>
      rcases hr with rfl | hr
      · cases h
      · rw [List.nil_append] at h
        rw [h] at hr
        obtain rfl := Option.some.inj hr
        exact absurd List.mem_cons_self hb
  | cons c a ih =>
    cases b with
    | nil =>
      rcases hs with rfl | hs
      · cases h
      · rw [List.nil_append] at h
        rw [← h] at hs
        obtain rfl := Option.some.inj hs
        exact absurd List.mem_cons_self ha
    | cons d b =>
      obtain ⟨rfl, htail⟩ := List.cons_eq_cons.1 h
      obtain ⟨rfl, rfl⟩ := ih (fun hmem => ha (List.mem_cons_of_mem c hmem))
        (fun hmem => hb (List.mem_cons_of_mem c hmem)) htail
      exact ⟨rfl, rfl⟩

theorem flatMap_slash (nested : List Name) :
    (nested.flatMap fun n => '/' :: n.chars) = [] ∨
      (nested.flatMap fun n => '/' :: n.chars).head? = some '/' := by
  cases nested with
  | nil => exact .inl rfl
  | cons n nested => exact .inr rfl

/-- **The parts of a name** are determined by the name. -/
theorem joinNames_inj {name name' : Name} {nested nested' : List Name}
    (h : joinNames name nested = joinNames name' nested') : name = name' ∧ nested = nested' := by
  obtain ⟨hname, hnested⟩ := append_slash_inj name.slash_notMem name'.slash_notMem
    (flatMap_slash nested) (flatMap_slash nested') h
  refine ⟨Name.ext_chars hname, ?_⟩
  clear h hname
  induction nested generalizing nested' with
  | nil =>
    cases nested' with
    | nil => rfl
    | cons n nested' => cases hnested
  | cons n nested ih =>
    cases nested' with
    | nil => cases hnested
    | cons n' nested' =>
      obtain ⟨-, hnested⟩ := List.cons_eq_cons.1 hnested
      obtain ⟨hn, hnested⟩ := append_slash_inj n.slash_notMem n'.slash_notMem
        (flatMap_slash nested) (flatMap_slash nested') hnested
      rw [Name.ext_chars hn, ih hnested]

end Image

end Il2Cpp
