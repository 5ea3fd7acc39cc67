import Il2Cpp.TypeName.AssemblyName

/-!
# Names of types

The types as the printers of names see them, after `Class::FromIl2CppType`, and the plain printer
`Type::GetName`.

* `TypeDefinition` : a class with its name, its declaring classes and its assembly.
* `TypeShape` : a type without its `byref` flag.  An element type never has the flag, because the
  printers reach it through the `byval_arg` of its class; a generic argument and the printed type
  itself have one.
* `getName` : `Type::GetName`.
-/

namespace Il2Cpp

/-- `Il2CppTypeNameFormat`. -/
inductive Il2CppTypeNameFormat where
  | il | reflection | fullName | assemblyQualified
  deriving DecidableEq, Repr

/-- The name of a class: `namespaze` and `name`, or `declaringType` and `name`.  The namespace of a
nested class is not looked at. -/
inductive ClassName where
  | topLevel (namespaze name : CString)
  | nested (declaringType : ClassName) (name : CString)

/-- A generic parameter and the assembly of the class that declares it.  Its name is not empty. -/
structure GenericParameter where
  name : CString
  assembly : Il2CppAssemblyName
  name_ne_nil : name.chars ≠ []

/-- A class that is no array, pointer or generic parameter. -/
structure TypeDefinition where
  className : ClassName
  /-- `image->assembly->aname` -/
  assembly : Il2CppAssemblyName
  /-- The generic container, if the class `is_generic`. -/
  genericContainer : Option (List GenericParameter)

/-- A type without its `byref` flag, by the kind of its class. -/
inductive TypeShape where
  | klass (definition : TypeDefinition)
  /-- The arguments with their `byref` flags. -/
  | genericinst (definition : TypeDefinition) (typeArgv : List (Bool × TypeShape))
  | ptr (type : TypeShape)
  | szarray (type : TypeShape)
  | array (etype : TypeShape) (rank : ℕ)
  | var (parameter : GenericParameter)
  | mvar (parameter : GenericParameter)

/-- A type: the argument of the printers. -/
structure RuntimeType where
  byref : Bool
  shape : TypeShape

/-- `Class::FromIl2CppType(type)->image->assembly->aname`. -/
def TypeShape.assembly : TypeShape → Il2CppAssemblyName
  | klass definition | genericinst definition _ => definition.assembly
  | ptr t | szarray t | array t _ => t.assembly
  | var parameter | mvar parameter => parameter.assembly

open Il2CppTypeNameFormat

/-- The format for the element of a pointer or an array. -/
def Il2CppTypeNameFormat.element (format : Il2CppTypeNameFormat) : Il2CppTypeNameFormat :=
  if format = assemblyQualified then fullName else format

/-- `nested_format`, the format for generic arguments. -/
def Il2CppTypeNameFormat.nested (format : Il2CppTypeNameFormat) : Il2CppTypeNameFormat :=
  if format = fullName then assemblyQualified else format

/-- The separator after a declaring class. -/
def nestedSeparator (format : Il2CppTypeNameFormat) : Char := if format = il then '.' else '+'

/-- The brackets of generic arguments. -/
def openBracket (format : Il2CppTypeNameFormat) : Char := if format = il then '<' else '['

/-- The brackets of generic arguments. -/
def closeBracket (format : Il2CppTypeNameFormat) : Char := if format = il then '>' else ']'

/-- `klass->name`, without the arity in the IL format. -/
def simpleName (format : Il2CppTypeNameFormat) (name : CString) : List Char :=
  if format = il then name.chars.takeWhile (· != '\x60') else name.chars

/-- The name of a class with its declaring classes or its namespace: what is printed of a declaring
class, where `is_nested` is set. -/
def classNameText (format : Il2CppTypeNameFormat) : ClassName → List Char
  | .topLevel namespaze name =>
    (if namespaze.chars ≠ [] then namespaze.chars ++ ['.'] else []) ++ simpleName format name
  | .nested declaringType name =>
    classNameText format declaringType ++ nestedSeparator format :: simpleName format name

/-- The brackets after a number of array dimensions. -/
def arraySuffix (rank : ℕ) : List Char :=
  '[' :: (if rank = 1 then ['*'] else []) ++ List.replicate (rank - 1) ',' ++ [']']

/-- The `&` of a type with the flag. -/
def byrefSuffix (byref : Bool) : List Char := if byref then ['&'] else []

/-- The assembly after an assembly qualified name. -/
def assemblySuffix (format : Il2CppTypeNameFormat) (aname : Il2CppAssemblyName) : List Char :=
  if format = assemblyQualified then ", ".toList ++ assemblyNameToString aname else []

/-- The text with a separator between its parts. -/
def commaSeparated (parts : List (List Char)) : List Char := List.intercalate [','] parts

/-- The arguments in brackets are those that are no `VAR`. -/
def TypeShape.isVar : TypeShape → Bool
  | var _ => true
  | _ => false

/-- The parameters of a generic type definition, in the formats that print them. -/
def genericParametersText (format : Il2CppTypeNameFormat) (definition : TypeDefinition) :
    List Char :=
  match definition.genericContainer with
  | some parameters =>
    if format ≠ fullName ∧ format ≠ assemblyQualified then
      openBracket format :: commaSeparated (parameters.map (·.name.chars)) ++ [closeBracket format]
    else []
  | none => []

mutual

/-- `Type::GetNameInternal` without `is_nested`, for a type with the given `byref` flag. -/
def getNameInternal (format : Il2CppTypeNameFormat) (byref : Bool) : TypeShape → List Char
  | .array etype rank =>
    getNameInternal format.element false etype ++ arraySuffix rank ++ byrefSuffix byref ++
    assemblySuffix format etype.assembly
  | .szarray type =>
    getNameInternal format.element false type ++ "[]".toList ++ byrefSuffix byref ++
    assemblySuffix format type.assembly
  | .ptr type =>
    getNameInternal format.element false type ++ "*".toList ++ byrefSuffix byref ++
    assemblySuffix format type.assembly
  | .var parameter | .mvar parameter => parameter.name.chars ++ byrefSuffix byref
  | .klass definition =>
    classNameText format definition.className ++ genericParametersText format definition ++
    byrefSuffix byref ++ assemblySuffix format definition.assembly
  | .genericinst definition typeArgv =>
    classNameText format definition.className ++
    openBracket format :: genericArgumentsText format.nested true typeArgv ++
    [closeBracket format] ++ byrefSuffix byref ++ assemblySuffix format definition.assembly

/-- The loop over the generic arguments; `first` is `i == 0`. -/
def genericArgumentsText (nestedFormat : Il2CppTypeNameFormat) (first : Bool) :
    List (Bool × TypeShape) → List Char
  | [] => []
  | (byref, t) :: typeArgv =>
    (if first then [] else [',']) ++
    (if nestedFormat = assemblyQualified ∧ !t.isVar then
      '[' :: getNameInternal nestedFormat byref t ++ [']']
    else getNameInternal nestedFormat byref t) ++
    genericArgumentsText nestedFormat false typeArgv

end

/-- `Type::GetName`. -/
def getName (type : RuntimeType) (format : Il2CppTypeNameFormat) : List Char :=
  getNameInternal format type.byref type.shape

/-- `System.String` of a library without a public key token. -/
def stringShape : TypeShape :=
  .klass {
    className := .topLevel ⟨"System".toList, by decide⟩ ⟨"String".toList, by decide⟩
    assembly := {
      name := ⟨"mscorlib".toList, by decide⟩
      culture := none
      flags := 0
      major := 4
      minor := 0
      build := 0
      revision := 0
      publicKeyToken := List.replicate kPublicKeyByteLength 0
      token_length := List.length_replicate }
    genericContainer := none }

example : getName ⟨true, .array (.ptr stringShape) 2⟩ fullName = "System.String*[,]&".toList := by
  decide

end Il2Cpp
